/-
# Addresses of variables

The variables that can be live together have different bytes, where each table passes on what its
cursors have come to. The table of a function does not: it never sees what the module declares
after the function has been named, and what a function declares in shared or global memory is seen
by no other table. Local variables of the module and of functions are both counted from zero.
-/

import GpuCalorie.Ptx.SymbolTables

namespace GpuCalorie.Ptx.Symbols

open GpuCalorie.Hardware GpuCalorie.Math

/-! ## Variables that are live together -/

/-- Variables of one memory can be live together: global ones always, shared ones except in two
kernels, and local ones in one function. Local variables of two functions are in two frames. -/
def Home.Live (arena : Arena) : Home → Home → Prop
  | .function f kernel, .function g kernel' => match arena with
    | .global => True
    | .shared | .sstarr => f = g ∨ ¬ (kernel = true ∧ kernel' = true)
    | .local => f = g
  | _, _ => True

instance (arena : Arena) : ∀ h h' : Home, Decidable (Home.Live arena h h')
  | .function _ _, .function _ _ => by
    cases arena <;> unfold Home.Live <;> infer_instance
  | .module, _ => by unfold Home.Live; infer_instance
  | .function _ _, .module => by unfold Home.Live; infer_instance

theorem Home.Live.symm {arena : Arena} {h h' : Home} (hlive : h.Live arena h') :
    h'.Live arena h := by
  cases h with
  | module => cases h' <;> exact trivial
  | function f kernel =>
    cases h' with
    | module => exact trivial
    | function g kernel' =>
      cases arena with
      | global => exact trivial
      | «local» => exact Eq.symm hlive
      | shared | sstarr => exact hlive.imp Eq.symm (mt And.symm)

/-- The function of a home. -/
def Home.name : Home → Option String
  | .module => none
  | .function name _ => some name

namespace Recognizer

variable (s : Recognizer)

/-- What had been declared when a function was named. -/
def inheritedBy (name : String) : List Variable :=
  ((s.functions name).map (·.inherited)).getD []

/-- The frame size of a function. -/
def framesizeOf (name : String) : ℕ := ((s.functions name).map (·.framesize)).getD 0

/-- Variables are aligned, and those that can be live together have different bytes. The local
variables of a function are in its frame. -/
structure Separate : Prop where
  aligned : ∀ v ∈ s.declared, v.declaration.requiredAlignment ∣ v.address
  stop_le : ∀ v ∈ s.declared, v.stop ≤ 2 ^ 32
  disjoint : s.declared.Pairwise fun v w => v.arena = w.arena → v.home.Live v.arena w.home →
    ∀ i < v.declaration.bytes, ∀ j < w.declaration.bytes, v.address + i ≠ w.address + j
  frame : ∀ v ∈ s.declared, v.arena = .local → ∀ name, v.home.name = some name →
    v.stop ≤ s.framesizeOf name

/-- The memory in which a variable gets an address, and whether the cursor is padded. -/
def arenaOf (d : Declaration) : Option (Arena × Bool) := match s.spaceSpec d.space with
  | .sharedSpace => some (.shared, true)
  | .sstarrSpace => some (.sstarr, true)
  | .constSpace => if d.array = .noDim then none else some (.global, true)
  | .globalSpace => some (.global, true)
  | .localSpace => some (.local, true)
  | .paramSpaceLocal => some (.local, false)
  | _ => none

/-- What had been declared when the function in which the parser is was named. -/
def inherited : List Variable := (s.scope.map s.inheritedBy).getD []

/-- The cursor, padded for a variable. -/
def paddedNext (arena : Arena) (padded : Bool) (d : Declaration) : ℕ :=
  let addr := s.currentTable.next arena
  addr + if padded then padAddress addr d.bytes 128 else 0

/-- What can be live together with a variable was declared in the same function, or is a variable
of the module that was declared before the function was named. -/
def Apart (arena : Arena) (d : Declaration) : Prop :=
  0 < d.bytes → ∀ v ∈ s.declared, v.arena = arena → 0 < v.declaration.bytes →
    v.home.Live arena s.home →
      v.home = s.home ∨ v.home = .module ∧ arena ≠ .local ∧ v ∈ s.inherited

instance (arena : Arena) (d : Declaration) : Decidable (s.Apart arena d) :=
  inferInstanceAs (Decidable (_ → _))

/-- A declaration that the tables are made for. -/
structure Fits (arena : Arena) (padded : Bool) (d : Declaration) : Prop where
  /-- Vectors get the bytes of an element. -/
  vector : d.vector = .none
  /-- The cursor is not initialized. -/
  sstarr : arena ≠ .sstarr
  /-- The alignment divides that of `pad_address`; parameters and arrays without a size are not
  padded. -/
  aligned : d.requiredAlignment ∣
    if padded = true ∧ 0 < d.bytes then alignTo d.bytes 128 else s.currentTable.next arena
  /-- Cursors have 32 bits. -/
  stop_lt : s.paddedNext arena padded d + d.bytes < 2 ^ 32
  /-- Tables are not told of what others have placed. -/
  apart : s.Apart arena d
  /-- A local variable of the module sets the frame size of the function before it. -/
  first : arena = .local → s.home = .module → s.funcInfo = none

/-- The parser does what the tables are made for: functions are declared outside of bodies, and
new variables fit. -/
def Orderly : Action → Prop
  | .functionName .. => s.body = none
  | .declare d => d.name ∉ s.visible → ∀ slot ∈ s.arenaOf d, s.Fits slot.1 slot.2 d
  | _ => True

instance (arena : Arena) (padded : Bool) (d : Declaration) : Decidable (s.Fits arena padded d) :=
  decidable_of_iff
    (d.vector = .none ∧ arena ≠ .sstarr ∧
      (d.requiredAlignment ∣
        if padded = true ∧ 0 < d.bytes then alignTo d.bytes 128 else s.currentTable.next arena) ∧
      s.paddedNext arena padded d + d.bytes < 2 ^ 32 ∧ s.Apart arena d ∧
      (arena = .local → s.home = .module → s.funcInfo = none))
    ⟨fun ⟨h₁, h₂, h₃, h₄, h₅, h₆⟩ => ⟨h₁, h₂, h₃, h₄, h₅, h₆⟩,
      fun ⟨h₁, h₂, h₃, h₄, h₅, h₆⟩ => ⟨h₁, h₂, h₃, h₄, h₅, h₆⟩⟩

instance : ∀ a, Decidable (s.Orderly a)
  | .functionName .. => decidable_of_iff (s.body.isNone = true) Option.isNone_iff_eq_none
  | .declare _ => inferInstanceAs (Decidable (_ → _))
  | .label _ | .functionDecl | .functionBody | .startInstGroup _ | .endInstGroup
  | .endFunction => isTrue trivial

variable {s} {s' : Recognizer} {d : Declaration} {t : SymbolTable} {arena : Arena} {padded : Bool}
  {v : Variable} {name : String} {function : Option String}

/-! ## Sizes and padding -/

theorem alignTo_dvd_add_padAddress {address size maxalign : ℕ} (hpos : alignTo size maxalign ≠ 0) :
    alignTo size maxalign ∣ address + padAddress address size maxalign := by
  rw [padAddress, if_neg hpos]
  generalize alignTo size maxalign = k at hpos ⊢
  have hdiv := Nat.div_add_mod address k
  have hlt : address % k < k := Nat.mod_lt _ (Nat.pos_of_ne_zero hpos)
  by_cases hzero : address % k = 0
  · rw [hzero, Nat.sub_zero, Nat.mod_self, Nat.add_zero]
    exact Nat.dvd_of_mod_eq_zero hzero
  · refine ⟨address / k + 1, ?_⟩
    rw [Nat.mod_eq_of_lt (Nat.sub_lt (Nat.pos_of_ne_zero hpos) (Nat.pos_of_ne_zero hzero)),
      Nat.mul_succ]
    omega

theorem padAddress_zero (address : ℕ) : padAddress address 0 128 = 0 := rfl

theorem numBytes_eq (hvector : d.vector = .none) (hbits : d.numBits % 8 = 0)
    (hlt : d.bytes < 2 ^ 32) : d.numBytes = d.bytes := by
  obtain ⟨name, space, type, vector, alignment, array⟩ := d
  obtain rfl : vector = .none := hvector
  cases array with
  | nonArray =>
    replace hbits : type.size % 8 = 0 := hbits
    replace hlt : (1 * type.size + 7) / 8 < 2 ^ 32 := hlt
    show type.size / 8 % 2 ^ 32 = (1 * type.size + 7) / 8
    omega
  | noDim =>
    show 0 / 8 % 2 ^ 32 = 0
    rfl
  | dim n =>
    replace hbits : n * type.size % 2 ^ 64 % 8 = 0 := hbits
    replace hlt : (n * (1 * type.size) + 7) / 8 < 2 ^ 32 := hlt
    show n * type.size % 2 ^ 64 / 8 % 2 ^ 32 = (n * (1 * type.size) + 7) / 8
    rw [Nat.one_mul] at hlt ⊢
    generalize n * type.size = bits at hlt hbits ⊢
    omega

/-! ## Tables that change -/

/-- The table in which the cursors of the module or of a function are. -/
def tableAt (s : Recognizer) (function : Option String) : SymbolTable :=
  if function = s.current.function then s.currentTable else s.symtab function

/-- The module, and functions that have been named. -/
def Known (s : Recognizer) (function : Option String) : Prop :=
  ∀ name ∈ function, s.functions name ≠ none

@[simp]
theorem tableAt_current (s : Recognizer) : s.tableAt s.current.function = s.currentTable :=
  if_pos rfl

theorem current_setSymtab (function : Option String) (t : SymbolTable) :
    (s.setSymtab function t).current = s.current := by
  cases function <;> rfl

theorem setCurrentTable_nil (hgroups : s.current.groups = []) (t : SymbolTable) :
    s.setCurrentTable t = s.setSymtab s.current.function t := by
  rw [setCurrentTable, hgroups]

theorem setCurrentTable_cons {group : SymbolTable} {groups : List SymbolTable}
    (hgroups : s.current.groups = group :: groups) (t : SymbolTable) :
    s.setCurrentTable t = { s with current := { s.current with groups := t :: groups } } := by
  rw [setCurrentTable, hgroups]

theorem current_setCurrentTable (s : Recognizer) (t : SymbolTable) :
    (s.setCurrentTable t).current.function = s.current.function := by
  cases hgroups : s.current.groups with
  | nil => rw [setCurrentTable_nil hgroups, current_setSymtab]
  | cons group groups => rw [setCurrentTable_cons hgroups]

theorem symtab_setSymtab (hknown : s.Known function) (t : SymbolTable) (g : Option String) :
    (s.setSymtab function t).symtab g = if g = function then t else s.symtab g := by
  cases function with
  | none => cases g <;> rfl
  | some name =>
    obtain ⟨info, hinfo⟩ := Option.ne_none_iff_exists'.1 (hknown name rfl)
    cases g with
    | none => rfl
    | some g =>
      by_cases hg : g = name
      · subst hg
        simp [setSymtab, symtab, modifyFunction, hinfo]
      · simp [setSymtab, symtab, modifyFunction, hg]

theorem tableAt_setCurrentTable (hknown : s.Known s.current.function) (t : SymbolTable)
    (g : Option String) : (s.setCurrentTable t).tableAt g =
      if g = s.current.function then t else s.tableAt g := by
  cases hgroups : s.current.groups with
  | nil =>
    rw [setCurrentTable_nil hgroups, tableAt, currentTable, current_setSymtab, hgroups,
      List.headD_nil, symtab_setSymtab hknown, symtab_setSymtab hknown, if_pos rfl, tableAt]
    split_ifs <;> rfl
  | cons group groups =>
    rw [setCurrentTable_cons hgroups, tableAt, tableAt]
    split_ifs <;> rfl

theorem exists_functions_setCurrentTable (s : Recognizer) (t : SymbolTable) (name : String) :
    ∃ table : FunctionInfo → SymbolTable, (s.setCurrentTable t).functions name =
      (s.functions name).map fun info => { info with symtab := table info } := by
  have hsame : s.functions name =
      (s.functions name).map fun info => { info with symtab := info.symtab } := Option.map_id'.symm
  cases hgroups : s.current.groups with
  | nil =>
    rw [setCurrentTable_nil hgroups]
    cases s.current.function with
    | none => exact ⟨_, hsame⟩
    | some f =>
      by_cases hf : name = f
      · subst hf
        exact ⟨fun _ => t, s.functions_modifyFunction_self name _⟩
      · exact ⟨_, (s.functions_modifyFunction_of_ne hf _).trans hsame⟩
  | cons group groups =>
    rw [setCurrentTable_cons hgroups]
    exact ⟨_, hsame⟩

@[simp]
theorem inheritedBy_setCurrentTable (t : SymbolTable) (name : String) :
    (s.setCurrentTable t).inheritedBy name = s.inheritedBy name := by
  obtain ⟨table, h⟩ := s.exists_functions_setCurrentTable t name
  rw [inheritedBy, h, Option.map_map]
  rfl

@[simp]
theorem framesizeOf_setCurrentTable (t : SymbolTable) (name : String) :
    (s.setCurrentTable t).framesizeOf name = s.framesizeOf name := by
  obtain ⟨table, h⟩ := s.exists_functions_setCurrentTable t name
  rw [framesizeOf, h, Option.map_map]
  rfl

theorem functions_setCurrentTable_ne_none (t : SymbolTable) :
    (s.setCurrentTable t).functions name ≠ none ↔ s.functions name ≠ none := by
  obtain ⟨table, h⟩ := s.exists_functions_setCurrentTable t name
  rw [h, Ne, Option.map_eq_none_iff]

/-! ## What every step keeps -/

/-- Variables are below the cursors of the table they were declared in, and below those of the
tables that started behind them. -/
structure Placed (s : Recognizer) : Prop where
  separate : s.Separate
  sstarr : ∀ v ∈ s.declared, v.arena ≠ .sstarr
  home : ∀ v ∈ s.declared, s.Known v.home.name
  below : ∀ v ∈ s.declared, v.stop ≤ (s.tableAt v.home.name).next v.arena
  inherited : ∀ name, ∀ v ∈ s.inheritedBy name, v ∈ s.declared ∧
    (v.home = .module → v.arena ≠ .local → v.stop ≤ (s.tableAt (some name)).next v.arena)

/-- Where the parser is agrees with the tables. -/
structure Scoped (s : Recognizer) : Prop where
  function : s.current.function = s.scope
  funcInfo : ∀ name, s.scope = some name → s.funcInfo = some name ∧ s.functions name ≠ none
  head : s.funcDecl = true → s.current.groups = [] ∧ s.body = none ∧ s.scope ≠ none
  outside : s.scope = none → s.current.groups = []
  depth : s.funcDecl = false → s.body ≠ none → s.current.groups.length = s.depth

/-- Nothing new is placed, and no cursor gets lower. A function that is new has what is declared
below its cursors. -/
structure Extends (s s' : Recognizer) : Prop where
  declared : s'.declared = s.declared
  known : ∀ name, s.functions name ≠ none → s'.functions name ≠ none
  framesize : ∀ name, s.functions name ≠ none → s.framesizeOf name ≤ s'.framesizeOf name ∨
    (s.tableAt (some name)).next .local ≤ s'.framesizeOf name
  cursor : ∀ function, s.Known function → ∀ arena, arena ≠ .sstarr →
    (s.tableAt function).next arena ≤ (s'.tableAt function).next arena
  inherited : ∀ name, s'.inheritedBy name = s.inheritedBy name ∨
    s'.inheritedBy name = s.declared ∧ ∀ arena, arena ≠ .local → arena ≠ .sstarr →
      (s.tableAt none).next arena ≤ (s'.tableAt (some name)).next arena

theorem known_of_mem_inheritedBy (h : v ∈ s.inheritedBy name) : s.functions name ≠ none := by
  intro hnone
  rw [inheritedBy, hnone] at h
  exact List.not_mem_nil h

theorem known_some (h : s.functions name ≠ none) : s.Known (some name) := by
  rintro _ ⟨⟩
  exact h

theorem Placed.extend (h : s.Placed) (hext : s.Extends s') : s'.Placed where
  separate := by
    obtain ⟨⟨haligned, hstop, hdisjoint, hframe⟩, _, hhome, hbelow, _⟩ := h
    constructor <;> rw [hext.declared]
    case aligned => exact haligned
    case stop_le => exact hstop
    case disjoint => exact hdisjoint
    case frame =>
      intro v hv hlocal name hname
      obtain hle | hle := hext.framesize name (hhome v hv name hname)
      · exact (hframe v hv hlocal name hname).trans hle
      · have hstop := hbelow v hv
        rw [hname, hlocal] at hstop
        exact hstop.trans hle
  sstarr := by
    rw [hext.declared]
    exact h.sstarr
  home := by
    rw [hext.declared]
    exact fun v hv name hname => hext.known name (h.home v hv name hname)
  below := by
    rw [hext.declared]
    exact fun v hv => (h.below v hv).trans (hext.cursor _ (h.home v hv) _ (h.sstarr v hv))
  inherited := by
    intro name v hv
    rw [hext.declared]
    obtain heq | ⟨heq, hcursor⟩ := hext.inherited name <;> rw [heq] at hv
    · obtain ⟨hdeclared, hbelow⟩ := h.inherited name v hv
      refine ⟨hdeclared, fun hmodule hlocal => (hbelow hmodule hlocal).trans ?_⟩
      exact hext.cursor _ (known_some (known_of_mem_inheritedBy hv)) _ (h.sstarr v hdeclared)
    · refine ⟨hv, fun hmodule hlocal => ?_⟩
      have hbelow := h.below v hv
      rw [hmodule] at hbelow
      exact hbelow.trans (hcursor _ hlocal (h.sstarr v hv))

theorem setCurrentTable_fields (s : Recognizer) (t : SymbolTable) :
    (s.setCurrentTable t).declared = s.declared ∧ (s.setCurrentTable t).scope = s.scope ∧
      (s.setCurrentTable t).funcInfo = s.funcInfo ∧ (s.setCurrentTable t).funcDecl = s.funcDecl ∧
      (s.setCurrentTable t).body = s.body ∧ (s.setCurrentTable t).depth = s.depth ∧
      (s.setCurrentTable t).current.groups.length = s.current.groups.length := by
  cases hgroups : s.current.groups with
  | nil =>
    rw [setCurrentTable_nil hgroups, current_setSymtab, hgroups]
    cases s.current.function <;> exact ⟨rfl, rfl, rfl, rfl, rfl, rfl, rfl⟩
  | cons group groups =>
    rw [setCurrentTable_cons hgroups]
    exact ⟨rfl, rfl, rfl, rfl, rfl, rfl, rfl⟩

theorem Scoped.known (h : s.Scoped) : s.Known s.current.function := by
  intro name hname
  rw [h.function] at hname
  exact (h.funcInfo name hname).2

theorem Scoped.setCurrentTable (h : s.Scoped) (t : SymbolTable) : (s.setCurrentTable t).Scoped := by
  obtain ⟨-, hscope, hinfo, hdecl, hbody, hdepth, hgroups⟩ := s.setCurrentTable_fields t
  have hnil : (s.setCurrentTable t).current.groups = [] ↔ s.current.groups = [] := by
    rw [← List.length_eq_zero_iff, hgroups, List.length_eq_zero_iff]
  constructor
  case function => rw [current_setCurrentTable, hscope, h.function]
  case funcInfo =>
    rw [hscope, hinfo]
    exact fun name hname => ⟨(h.funcInfo name hname).1,
      (functions_setCurrentTable_ne_none t).2 (h.funcInfo name hname).2⟩
  case head =>
    rw [hdecl, hbody, hscope, hnil]
    exact h.head
  case outside =>
    rw [hscope, hnil]
    exact h.outside
  case depth =>
    rw [hdecl, hbody, hgroups, hdepth]
    exact h.depth

theorem extends_setCurrentTable (hknown : s.Known s.current.function)
    (hle : ∀ arena, arena ≠ .sstarr → s.currentTable.next arena ≤ t.next arena) :
    s.Extends (s.setCurrentTable t) where
  declared := (s.setCurrentTable_fields t).1
  known _ h := (functions_setCurrentTable_ne_none t).2 h
  framesize name _ := .inl (framesizeOf_setCurrentTable t name).ge
  cursor := by
    intro function _ arena harena
    rw [tableAt_setCurrentTable hknown]
    split_ifs with hcurrent
    · rw [hcurrent, tableAt_current]
      exact hle arena harena
    · exact le_rfl
  inherited name := .inl (inheritedBy_setCurrentTable t name)

theorem extends_of_eq (hdeclared : s'.declared = s.declared)
    (hfunctions : s'.functions = s.functions)
    (hcursor : ∀ function, s.Known function → ∀ arena, arena ≠ .sstarr →
      (s.tableAt function).next arena ≤ (s'.tableAt function).next arena) : s.Extends s' where
  declared := hdeclared
  known _ h := hfunctions ▸ h
  framesize name _ := .inl (by rw [framesizeOf, framesizeOf, hfunctions])
  cursor := hcursor
  inherited name := .inl (by rw [inheritedBy, inheritedBy, hfunctions])

theorem tableAt_of_groups (h : s.current.groups = []) (function : Option String) :
    s.tableAt function = s.symtab function := by
  rw [tableAt, currentTable, h, List.headD_nil]
  split_ifs with heq
  · rw [heq]
  · rfl

/-! ## Steps that place nothing -/

theorem next_symtab_functionName (s : Recognizer) (entryPoint : EntryPoint) (name : String)
    (sstarr : ℕ) (hknown : s.Known function) :
    ((s.functionName entryPoint name sstarr).symtab function).next = (s.symtab function).next := by
  cases function with
  | none =>
    show (if name ∈ s.module.symbols then s.module else s.module.addVariable name).next = _
    split_ifs <;> rfl
  | some g =>
    rw [symtab, symtab, functionName]
    cases hname : s.functions name with
    | some info => rfl
    | none =>
      have hne : g ≠ name := by
        rintro rfl
        exact hknown g rfl hname
      dsimp only
      rw [Function.update_of_ne hne]

theorem extends_functionName (hgroups : s.current.groups = []) (entryPoint : EntryPoint)
    (name : String) (sstarr : ℕ) : s.Extends (s.functionName entryPoint name sstarr) where
  declared := rfl
  known g h := by
    rw [functionName]
    cases hname : s.functions name with
    | some info => exact h
    | none =>
      dsimp only
      rw [Function.update_of_ne (by rintro rfl; exact h hname)]
      exact h
  framesize g h := by
    refine .inl ?_
    rw [framesizeOf, framesizeOf, functionName]
    cases hname : s.functions name with
    | some info => exact le_rfl
    | none =>
      dsimp only
      rw [Function.update_of_ne (by rintro rfl; exact h hname)]
  cursor := by
    intro function hknown arena _
    rw [tableAt_of_groups hgroups, tableAt_of_groups rfl, next_symtab_functionName _ _ _ _ hknown]
  inherited g := by
    rw [inheritedBy, tableAt_of_groups hgroups, tableAt_of_groups rfl]
    cases hname : s.functions name with
    | some info =>
      refine .inl ?_
      rw [inheritedBy, functionName, hname]
    | none =>
      have hfunctions : (s.functionName entryPoint name sstarr).functions =
          Function.update s.functions name (some
            ⟨entryPoint, (s.module.child sstarr).addVariable "_", 0, s.declared⟩) := by
        rw [functionName, hname]
      by_cases hg : g = name
      · subst hg
        rw [symtab, symtab, hfunctions, Function.update_self]
        refine .inr ⟨rfl, fun arena hlocal hsstarr => ?_⟩
        cases arena with
        | shared | global => exact le_rfl
        | sstarr => exact absurd rfl hsstarr
        | «local» => exact absurd rfl hlocal
      · refine .inl ?_
        rw [hfunctions, Function.update_of_ne hg, inheritedBy]

theorem scoped_functionName (hbody : s.body = none) (entryPoint : EntryPoint) (name : String)
    (sstarr : ℕ) : (s.functionName entryPoint name sstarr).Scoped where
  function := rfl
  funcInfo := by
    rintro _ ⟨⟩
    refine ⟨rfl, ?_⟩
    rw [functionName]
    cases hname : s.functions name with
    | some info => simp [hname]
    | none => simp
  head _ := ⟨rfl, hbody, Option.some_ne_none _⟩
  outside _ := rfl
  depth hdecl := nomatch hdecl

theorem extends_addLabel (hscoped : s.Scoped) (name : String) : s.Extends (s.addLabel name) := by
  rw [addLabel]
  split_ifs
  · exact extends_of_eq rfl rfl fun _ _ _ _ => le_rfl
  · exact extends_setCurrentTable hscoped.known fun _ _ => le_rfl

theorem scoped_addLabel (hscoped : s.Scoped) (name : String) : (s.addLabel name).Scoped := by
  rw [addLabel]
  split_ifs
  · exact hscoped
  · exact hscoped.setCurrentTable _

theorem extends_functionDecl (hgroups : s.current.groups = []) : s.Extends s.functionDecl :=
  extends_of_eq rfl rfl fun function _ arena _ => by
    rw [tableAt_of_groups hgroups, tableAt_of_groups rfl]
    cases function <;> exact le_rfl

theorem scoped_functionDecl (hbody : s.body = none) : s.functionDecl.Scoped where
  function := by
    rw [scope]
    exact hbody.symm
  funcInfo name hname := nomatch hbody.symm.trans hname
  head h := nomatch h
  outside _ := rfl
  depth _ h := absurd hbody h

theorem extends_functionBody (s : Recognizer) : s.Extends s.functionBody :=
  extends_of_eq rfl rfl fun _ _ _ _ => le_rfl

theorem scoped_functionBody (hscoped : s.Scoped) (hdecl : s.funcDecl = true) :
    s.functionBody.Scoped := by
  obtain ⟨hgroups, -, hscope⟩ := hscoped.head hdecl
  have heq : s.functionBody.scope = s.scope := by
    rw [scope, scope, hdecl]
    rfl
  constructor
  case function => exact hscoped.function.trans heq.symm
  case funcInfo => exact fun name hname => hscoped.funcInfo name (heq ▸ hname)
  case head => exact fun h => nomatch h
  case outside => exact fun _ => hgroups
  case depth => exact fun _ _ => congrArg List.length hgroups

theorem extends_startInstGroup (s : Recognizer) (sstarr : ℕ) :
    s.Extends (s.startInstGroup sstarr) :=
  extends_of_eq rfl rfl fun function _ arena harena => by
    rw [tableAt, tableAt]
    split_ifs with hcurrent hcurrent' hcurrent'
    · cases arena with
      | sstarr => exact absurd rfl harena
      | shared | global | «local» => exact le_rfl
    · exact absurd hcurrent hcurrent'
    · exact absurd hcurrent' hcurrent
    · cases function <;> exact le_rfl

theorem scoped_startInstGroup (hscoped : s.Scoped) (hdecl : s.funcDecl = false)
    (hbody : s.body ≠ none) (sstarr : ℕ) : (s.startInstGroup sstarr).Scoped where
  function := hscoped.function
  funcInfo := hscoped.funcInfo
  head h := by cases hdecl.symm.trans h
  outside h := by
    have hnone : s.scope = none := h
    rw [scope, hdecl] at hnone
    exact absurd hnone hbody
  depth _ _ := congrArg (· + 1) (hscoped.depth hdecl hbody)

theorem endInstGroup_eq {group : SymbolTable} {groups : List SymbolTable}
    (hgroups : s.current.groups = group :: groups) : s.endInstGroup = .ok
      (let s' := { s with current := { s.current with groups := groups }, depth := s.depth - 1 }
      s'.setCurrentTable (s'.currentTable.endInstGroup group)) := by
  rw [endInstGroup, hgroups]

theorem placed_endInstGroup (hplaced : s.Placed) (hscoped : s.Scoped) (hdecl : s.funcDecl = false)
    (hbody : s.body ≠ none) (hdepth : 0 < s.depth) :
    OkOr (fun s' : Recognizer => s'.Placed ∧ s'.Scoped) (fun _ => True) s.endInstGroup := by
  have hlength := hscoped.depth hdecl hbody
  obtain ⟨group, groups, hgroups⟩ :=
    List.exists_cons_of_length_pos (hlength.symm ▸ hdepth : 0 < s.current.groups.length)
  rw [endInstGroup_eq hgroups]
  set outer : Recognizer :=
    { s with current := { s.current with groups := groups }, depth := s.depth - 1 } with houter
  have hknown : outer.Known outer.current.function := hscoped.known
  have houtscoped : outer.Scoped := by
    constructor
    case function => exact hscoped.function
    case funcInfo => exact hscoped.funcInfo
    case head => exact fun h => by cases hdecl.symm.trans h
    case outside =>
      intro h
      have hnone : s.scope = none := h
      rw [scope, hdecl] at hnone
      exact absurd hnone hbody
    case depth =>
      intro _ _
      rw [hgroups, List.length_cons] at hlength
      exact Nat.eq_sub_of_add_eq hlength
  refine ⟨hplaced.extend ?_, houtscoped.setCurrentTable _⟩
  obtain ⟨hdeclared, -⟩ := outer.setCurrentTable_fields (outer.currentTable.endInstGroup group)
  constructor
  case declared => exact hdeclared
  case known => exact fun name h => (functions_setCurrentTable_ne_none _).2 h
  case framesize =>
    intro name _
    refine .inl ?_
    show outer.framesizeOf name ≤ _
    rw [framesizeOf_setCurrentTable]
  case inherited => exact fun name => .inl (inheritedBy_setCurrentTable _ name)
  case cursor =>
    intro function _ arena harena
    rw [tableAt_setCurrentTable hknown, tableAt]
    split_ifs with hcurrent
    · rw [currentTable, hgroups, List.headD_cons]
      cases arena with
      | sstarr => exact absurd rfl harena
      | shared | global | «local» => exact le_rfl
    · rw [tableAt, if_neg hcurrent]
      cases function <;> exact le_rfl

theorem extends_endFunction (hgroups : s.current.groups = []) : s.Extends s.endFunction :=
  extends_of_eq rfl rfl fun function _ arena _ => by
    rw [tableAt_of_groups hgroups, tableAt_of_groups rfl]
    cases function <;> exact le_rfl

theorem scoped_endFunction (hdecl : s.funcDecl = false) : s.endFunction.Scoped where
  function := by
    rw [scope, show s.endFunction.funcDecl = false from hdecl]
    rfl
  funcInfo name hname := by
    rw [scope, show s.endFunction.funcDecl = false from hdecl] at hname
    cases hname
  head h := by cases hdecl.symm.trans h
  outside _ := rfl
  depth _ h := absurd rfl h

/-! ## Declarations -/

theorem addNew_cases (h : s.addNew d = .ok s') :
    s' = s.setCurrentTable (s.currentTable.addVariable d.name) ∨
      ∃ arena padded, s.arenaOf d = some (arena, padded) ∧ d.numBits % 8 = 0 ∧
        (s' = s.place arena padded d ∧ (arena = .local → s.funcInfo = none) ∨
          ∃ name, arena = .local ∧ s.funcInfo = some name ∧
            s' = (s.place arena padded d).setFramesize name) := by
  rw [addNew] at h
  rw [arenaOf]
  cases hspace : s.spaceSpec d.space <;> simp only [hspace] at h ⊢
  case regSpace | texSpace | paramSpaceKernel =>
    cases h
    exact .inl rfl
  case sharedSpace | sstarrSpace | globalSpace =>
    split_ifs at h with hbits
    cases h
    exact .inr ⟨_, _, rfl, hbits, .inl ⟨rfl, nofun⟩⟩
  case constSpace =>
    split_ifs at h ⊢ with hdim hbits
    · cases h
      exact .inl rfl
    · cases h
      exact .inr ⟨_, _, rfl, hbits, .inl ⟨rfl, nofun⟩⟩
  case localSpace | paramSpaceLocal =>
    split_ifs at h with hbits
    cases hinfo : s.funcInfo with
    | none =>
      simp only [hinfo] at h
      cases h <;> exact .inr ⟨_, _, rfl, hbits, .inl ⟨rfl, fun _ => rfl⟩⟩
    | some name =>
      simp only [hinfo] at h
      cases h
      exact .inr ⟨_, _, rfl, hbits, .inr ⟨name, rfl, rfl, rfl⟩⟩
  all_goals cases h

theorem Placed.cons (h : s.Placed) (haligned : v.declaration.requiredAlignment ∣ v.address)
    (hstop : v.stop ≤ 2 ^ 32) (hsstarr : v.arena ≠ .sstarr) (hknown : s.Known v.home.name)
    (hbelow : v.stop ≤ (s.tableAt v.home.name).next v.arena)
    (hdisjoint : ∀ w ∈ s.declared, v.arena = w.arena → v.home.Live v.arena w.home →
      ∀ i < v.declaration.bytes, ∀ j < w.declaration.bytes, v.address + i ≠ w.address + j)
    (hframe : v.arena = .local → ∀ name, v.home.name = some name → v.stop ≤ s.framesizeOf name) :
    Placed { s with declared := v :: s.declared } where
  separate := {
    aligned := List.forall_mem_cons.2 ⟨haligned, h.separate.aligned⟩
    stop_le := List.forall_mem_cons.2 ⟨hstop, h.separate.stop_le⟩
    disjoint := List.pairwise_cons.2 ⟨hdisjoint, h.separate.disjoint⟩
    frame := List.forall_mem_cons.2 ⟨hframe, h.separate.frame⟩ }
  sstarr := List.forall_mem_cons.2 ⟨hsstarr, h.sstarr⟩
  home := List.forall_mem_cons.2 ⟨hknown, h.home⟩
  below := List.forall_mem_cons.2 ⟨hbelow, h.below⟩
  inherited name w hw := by
    obtain ⟨hdeclared, hbelow⟩ := h.inherited name w hw
    exact ⟨List.mem_cons_of_mem v hdeclared, hbelow⟩

theorem functions_setFramesize_self (s : Recognizer) (name : String) :
    (s.setFramesize name).functions name = (s.functions name).map fun info =>
      { info with framesize := s.currentTable.next .local } :=
  s.functions_modifyFunction_self name _

theorem functions_setFramesize_of_ne (s : Recognizer) {g : String} (hg : g ≠ name) :
    (s.setFramesize name).functions g = s.functions g :=
  s.functions_modifyFunction_of_ne hg _

theorem extends_setFramesize (hscope : s.current.function = some name) :
    s.Extends (s.setFramesize name) := by
  have hfunctions : ∀ g, ∃ size : FunctionInfo → ℕ, (s.setFramesize name).functions g =
      (s.functions g).map fun info => { info with framesize := size info } := by
    intro g
    by_cases hg : g = name
    · subst hg
      exact ⟨_, s.functions_setFramesize_self g⟩
    · exact ⟨fun info => info.framesize,
        (s.functions_setFramesize_of_ne hg).trans Option.map_id'.symm⟩
  have hsymtab : ∀ function, (s.setFramesize name).symtab function = s.symtab function := by
    intro function
    cases function with
    | none => rfl
    | some g =>
      obtain ⟨size, hg⟩ := hfunctions g
      rw [symtab, symtab, hg, Option.map_map]
      rfl
  have htable : ∀ function, (s.setFramesize name).tableAt function = s.tableAt function := by
    intro function
    rw [tableAt, tableAt, currentTable, currentTable, hsymtab, hsymtab]
    rfl
  constructor
  case declared => rfl
  case known =>
    intro g h
    obtain ⟨size, hg⟩ := hfunctions g
    rwa [hg, Ne, Option.map_eq_none_iff]
  case cursor => exact fun function _ arena _ => (htable function).symm ▸ le_rfl
  case inherited =>
    intro g
    obtain ⟨size, hg⟩ := hfunctions g
    refine .inl ?_
    rw [inheritedBy, hg, Option.map_map]
    rfl
  case framesize =>
    intro g h
    by_cases hg : g = name
    · subst hg
      obtain ⟨info, hinfo⟩ := Option.ne_none_iff_exists'.1 h
      refine .inr ?_
      rw [← hscope, tableAt_current, framesizeOf, functions_setFramesize_self, hinfo]
      exact le_rfl
    · refine .inl ?_
      rw [framesizeOf, framesizeOf, functions_setFramesize_of_ne s hg]

theorem Scoped.setFramesize (h : s.Scoped) (name : String) : (s.setFramesize name).Scoped where
  function := h.function
  funcInfo g hg := by
    obtain ⟨hinfo, hknown⟩ := h.funcInfo g hg
    refine ⟨hinfo, ?_⟩
    by_cases hname : g = name
    · subst hname
      rwa [functions_setFramesize_self, Ne, Option.map_eq_none_iff]
    · rwa [functions_setFramesize_of_ne s hname]
  head := h.head
  outside := h.outside
  depth := h.depth

/-- The variable that is placed. -/
def newVariable (s : Recognizer) (arena : Arena) (padded : Bool) (d : Declaration) : Variable :=
  ⟨d, arena, s.home, s.paddedNext arena padded d⟩

/-- The table after a variable has been placed. -/
def placedTable (s : Recognizer) (arena : Arena) (padded : Bool) (d : Declaration) : SymbolTable :=
  { symbols := d.name :: s.currentTable.symbols
    next := Function.update s.currentTable.next arena (s.newVariable arena padded d).stop }

theorem next_placedTable_self (s : Recognizer) (arena : Arena) (padded : Bool) (d : Declaration) :
    (s.placedTable arena padded d).next arena = (s.newVariable arena padded d).stop :=
  Function.update_self ..

theorem next_placedTable_of_ne (s : Recognizer) {a : Arena} (ha : a ≠ arena) :
    (s.placedTable arena padded d).next a = s.currentTable.next a :=
  Function.update_of_ne ha ..

theorem place_eq (hbits : d.numBits % 8 = 0) (hfits : s.Fits arena padded d) :
    s.place arena padded d =
      let s' := s.setCurrentTable (s.placedTable arena padded d)
      { s' with declared := s.newVariable arena padded d :: s.declared } := by
  have hlt := hfits.stop_lt
  have hbytes := numBytes_eq hfits.vector hbits (by omega)
  have hstop : (s.newVariable arena padded d).stop = s.paddedNext arena padded d + d.bytes := rfl
  rw [paddedNext] at hlt
  have hnext : (s.currentTable.addVariable d.name).alloc arena
      (d.bytes + if padded then padAddress (s.currentTable.next arena) d.bytes 128 else 0) =
        s.placedTable arena padded d := by
    rw [SymbolTable.alloc, placedTable, hstop, paddedNext]
    congr 2
    show (s.currentTable.next arena + _) % 2 ^ 32 = _
    omega
  have haddress : (s.currentTable.next arena +
      if padded then padAddress (s.currentTable.next arena) d.bytes 128 else 0) % 2 ^ 32 =
        s.paddedNext arena padded d := by
    rw [paddedNext]
    omega
  rw [place, hbytes]
  dsimp only
  rw [hnext, haddress]
  rfl

theorem home_name (s : Recognizer) : s.home.name = s.scope := by
  rw [home]
  cases s.scope <;> rfl

theorem Fits.dvd (hfits : s.Fits arena padded d) :
    d.requiredAlignment ∣ s.paddedNext arena padded d := by
  have haligned := hfits.aligned
  rw [paddedNext]
  cases padded with
  | false => simpa using haligned
  | true =>
    obtain hzero | hpos := Nat.eq_zero_or_pos d.bytes
    · simpa [hzero, padAddress_zero] using haligned
    · rw [if_pos ⟨rfl, hpos⟩] at haligned
      refine haligned.trans (alignTo_dvd_add_padAddress ?_)
      rw [alignTo]
      split_ifs
      · exact Nat.ne_of_gt hpos
      · decide

theorem Placed.stop_le_of_live (h : s.Placed) (hscoped : s.Scoped) (hfits : s.Fits arena padded d)
    {w : Variable} (hw : w ∈ s.declared) (harena : w.arena = arena) (hbytes : 0 < d.bytes)
    (hwbytes : 0 < w.declaration.bytes) (hlive : w.home.Live arena s.home) :
    w.stop ≤ s.currentTable.next arena := by
  rw [← tableAt_current, hscoped.function]
  obtain hhome | ⟨hmodule, hlocal, hinherited⟩ :=
    hfits.apart hbytes w hw harena hwbytes hlive
  · have hbelow := h.below w hw
    rwa [hhome, home_name, harena] at hbelow
  · rw [Recognizer.inherited] at hinherited
    cases hscope : s.scope with
    | none =>
      rw [hscope] at hinherited
      exact absurd hinherited List.not_mem_nil
    | some name =>
      rw [hscope] at hinherited
      have hbelow := (h.inherited name w hinherited).2 hmodule (harena ▸ hlocal)
      rwa [harena] at hbelow

theorem Placed.new (h : s.Placed) (hscoped : s.Scoped) (hfits : s.Fits arena padded d)
    (hext : (s.setCurrentTable (s.placedTable arena padded d)).Extends s')
    (hframe : arena = .local → ∀ name, s.scope = some name →
      (s.newVariable arena padded d).stop ≤ s'.framesizeOf name) :
    Placed { s' with declared := s.newVariable arena padded d :: s'.declared } := by
  have hlt : (s.newVariable arena padded d).stop < 2 ^ 32 := hfits.stop_lt
  have hnext : s.currentTable.next arena ≤ (s.newVariable arena padded d).address :=
    Nat.le_add_right _ _
  have hcursor : ∀ a, a ≠ .sstarr →
      s.currentTable.next a ≤ (s.placedTable arena padded d).next a := by
    intro a _
    by_cases ha : a = arena
    · subst ha
      rw [next_placedTable_self]
      exact hnext.trans (Nat.le_add_right _ _)
    · rw [next_placedTable_of_ne s ha]
  have hplaced := h.extend (extends_setCurrentTable hscoped.known hcursor)
  have hdeclared : s'.declared = s.declared :=
    hext.declared.trans (s.setCurrentTable_fields _).1
  have hscope : (s.newVariable arena padded d).home.name = s.scope := s.home_name
  have hknown : (s.setCurrentTable (s.placedTable arena padded d)).Known s.scope :=
    fun name hname => (functions_setCurrentTable_ne_none _).2 (hscoped.funcInfo name hname).2
  refine (hplaced.extend hext).cons hfits.dvd hlt.le hfits.sstarr ?_ ?_ ?_ ?_
  · rw [hscope]
    exact fun name hname => hext.known name (hknown name hname)
  · rw [hscope]
    refine le_trans ?_ (hext.cursor s.scope hknown arena hfits.sstarr)
    rw [tableAt_setCurrentTable hscoped.known, if_pos hscoped.function.symm]
    exact (s.next_placedTable_self arena padded d).ge
  · intro w hw harena hlive i hi j hj heq
    rw [hdeclared] at hw
    have hbelow := h.stop_le_of_live hscoped hfits hw harena.symm (Nat.zero_lt_of_lt hi)
      (Nat.zero_lt_of_lt hj) hlive.symm
    rw [Variable.stop] at hbelow
    omega
  · rw [hscope]
    exact hframe

theorem placed_place (h : s.Placed) (hscoped : s.Scoped) (hbits : d.numBits % 8 = 0)
    (hfits : s.Fits arena padded d) (hframe : arena = .local → s.funcInfo = none) :
    (s.place arena padded d).Placed ∧ (s.place arena padded d).Scoped := by
  have hdeclared := (s.setCurrentTable_fields (s.placedTable arena padded d)).1
  have hnew := h.new hscoped hfits (extends_of_eq rfl rfl fun _ _ _ _ => le_rfl) (by
    intro hlocal name hname
    exact nomatch (hframe hlocal).symm.trans (hscoped.funcInfo name hname).1)
  have hs := hscoped.setCurrentTable (s.placedTable arena padded d)
  rw [hdeclared] at hnew
  rw [place_eq hbits hfits]
  exact ⟨hnew, hs.function, hs.funcInfo, hs.head, hs.outside, hs.depth⟩

theorem placed_place_setFramesize (h : s.Placed) (hscoped : s.Scoped) (hbits : d.numBits % 8 = 0)
    (hfits : s.Fits .local padded d) (hinfo : s.funcInfo = some name) :
    ((s.place .local padded d).setFramesize name).Placed ∧
      ((s.place .local padded d).setFramesize name).Scoped := by
  have hscope : s.scope = some name := by
    cases hscope : s.scope with
    | none =>
      have hmodule : s.home = .module := by rw [home, hscope]
      exact nomatch hinfo.symm.trans (hfits.first rfl hmodule)
    | some g => exact (hscoped.funcInfo g hscope).1.symm.trans hinfo
  have hfields := s.setCurrentTable_fields (s.placedTable .local padded d)
  have hcurrent : (s.setCurrentTable (s.placedTable .local padded d)).current.function =
      some name := by
    rw [current_setCurrentTable, hscoped.function, hscope]
  have hcursor : (s.setCurrentTable (s.placedTable .local padded d)).currentTable =
      s.placedTable .local padded d := by
    rw [← tableAt_current, tableAt_setCurrentTable hscoped.known, current_setCurrentTable,
      if_pos rfl]
  have hs := hscoped.setCurrentTable (s.placedTable .local padded d)
  have hknown := (hs.funcInfo name (hfields.2.1.trans hscope)).2
  have hnew := h.new hscoped hfits (extends_setFramesize hcurrent) (by
    rintro - g hg
    obtain rfl : g = name := Option.some.inj (hg.symm.trans hscope)
    obtain ⟨info, hinfo⟩ := Option.ne_none_iff_exists'.1 hknown
    rw [framesizeOf, functions_setFramesize_self, hinfo, hcursor]
    exact (s.next_placedTable_self .local padded d).ge)
  have hs' := hs.setFramesize name
  rw [place_eq hbits hfits]
  rw [show ((s.setCurrentTable (s.placedTable .local padded d)).setFramesize name).declared =
    s.declared from hfields.1] at hnew
  exact ⟨hnew, hs'.function, hs'.funcInfo, hs'.head, hs'.outside, hs'.depth⟩

theorem placed_addIdentifier (h : s.Placed) (hscoped : s.Scoped) (hguard : s.Orderly (.declare d)) :
    OkOr (fun s' : Recognizer => s'.Placed ∧ s'.Scoped) (fun _ => True) (s.addIdentifier d) := by
  rw [addIdentifier]
  by_cases hvisible : d.name ∈ s.visible
  · rw [if_pos hvisible]
    exact ⟨h, hscoped⟩
  rw [if_neg hvisible]
  refine .intro (fun s' hs' => ?_) fun _ _ => trivial
  obtain rfl | ⟨arena, padded, harena, hbits, hplace⟩ := addNew_cases hs'
  · exact ⟨h.extend (extends_setCurrentTable hscoped.known fun _ _ => le_rfl),
      hscoped.setCurrentTable _⟩
  have hfits : s.Fits arena padded d := hguard hvisible (arena, padded) harena
  obtain ⟨rfl, hframe⟩ | ⟨name, rfl, hinfo, rfl⟩ := hplace
  · exact placed_place h hscoped hbits hfits hframe
  · exact placed_place_setFramesize h hscoped hbits hfits hinfo

/-! ## Runs -/

theorem placed_step (h : s.Placed ∧ s.Scoped) {a : Action} (hguard : s.Orderly a)
    (henabled : s.Enabled a) :
    OkOr (fun s' : Recognizer => s'.Placed ∧ s'.Scoped) (fun _ => True) (s.step a) := by
  obtain ⟨hplaced, hscoped⟩ := h
  cases a with
  | functionName entryPoint name sstarr =>
    have hbody : s.body = none := hguard
    have hdecl : s.funcDecl = false := henabled
    have hgroups := hscoped.outside (by rw [scope, hdecl]; exact hbody)
    exact ⟨hplaced.extend (extends_functionName hgroups entryPoint name sstarr),
      scoped_functionName hbody entryPoint name sstarr⟩
  | declare d => exact placed_addIdentifier hplaced hscoped hguard
  | label name =>
    exact ⟨hplaced.extend (extends_addLabel hscoped name), scoped_addLabel hscoped name⟩
  | functionDecl =>
    obtain ⟨hgroups, hbody, -⟩ := hscoped.head henabled
    exact ⟨hplaced.extend (extends_functionDecl hgroups), scoped_functionDecl hbody⟩
  | functionBody =>
    exact ⟨hplaced.extend s.extends_functionBody, scoped_functionBody hscoped henabled.1⟩
  | startInstGroup sstarr =>
    obtain ⟨hdecl, hbody⟩ := henabled
    exact ⟨hplaced.extend (s.extends_startInstGroup sstarr),
      scoped_startInstGroup hscoped hdecl hbody sstarr⟩
  | endInstGroup =>
    obtain ⟨hdecl, hbody, hdepth⟩ := henabled
    exact placed_endInstGroup hplaced hscoped hdecl hbody hdepth
  | endFunction =>
    obtain ⟨hdecl, hbody, hdepth⟩ := henabled
    have hgroups : s.current.groups = [] :=
      List.length_eq_zero_iff.1 ((hscoped.depth hdecl hbody).trans hdepth)
    exact ⟨hplaced.extend (extends_endFunction hgroups), scoped_endFunction hdecl⟩

theorem placed_of_init (h : s.Init) : s.Placed ∧ s.Scoped := by
  obtain ⟨sstarr, rfl⟩ := h
  constructor
  · constructor
    case separate => constructor <;> simp
    all_goals simp [inheritedBy]
  · constructor <;> simp [scope]

/-- Where functions are declared outside of bodies, and every variable fits the table it is
declared in, variables are aligned and those that can be live together have different bytes. -/
theorem separate_of_orderly {r : Except SymbolFailure Recognizer}
    (h : (machine.restrict (TransitionSystem.onOk Orderly)).Reachable r) :
    OkOr Separate (fun _ => True) r :=
  (TransitionSystem.Reachable.invariant_ofExcept (I := fun s => s.Placed ∧ s.Scoped)
    (fun _ => placed_of_init) (fun _ _ h hguard henabled => placed_step h hguard henabled) h).imp
    fun _ h => h.1.separate

/-- A variable of the module, and a kernel with two variables, one of them in a group. -/
def nested : List Action :=
  [.declare ⟨"table", .globalSpace, .scalar .b8, .none, some 4, .dim 64⟩,
    .functionName .kernel "kernel" 0, .declare
      ⟨"out", .paramSpaceUnclassified, .scalar .u64, .none, none, .nonArray⟩,
    .functionBody, .declare ⟨"buffer", .sharedSpace, .scalar .f32, .none, none, .dim 32⟩,
    .startInstGroup 0, .declare ⟨"flag", .sharedSpace, .scalar .u32, .none, none, .nonArray⟩,
    .endInstGroup, .endFunction]

theorem separate_nested : ∃ s : Recognizer,
    s.declared.map (·.address) = [128, 0, 256] ∧ s.Separate := by
  refine ⟨_, ?_, separate_of_orderly (TransitionSystem.Reachable.execOk_restrict nested
    (.init ⟨{ module := .root 0 }, rfl, 0, rfl⟩) rfl)⟩
  rfl

/-- A global variable of a kernel, and one of the module after it. -/
def laterGlobal : List Action :=
  [.functionName .kernel "kernel" 0, .functionBody,
    .declare ⟨"inner", .globalSpace, .scalar .u32, .none, none, .nonArray⟩, .endFunction,
    .declare ⟨"outer", .globalSpace, .scalar .u32, .none, none, .nonArray⟩]

/-- Both variables are at the first address for globals. -/
theorem not_separate : ¬ ∀ s, machine.Reachable (.ok s) → s.Separate := by
  intro h
  have hsep := h _ (TransitionSystem.Reachable.execOk laterGlobal
    (.init ⟨{ module := .root 0 }, rfl, 0, rfl⟩) rfl)
  exact (List.pairwise_cons.1 hsep.disjoint).1 _ List.mem_cons_self rfl trivial
    0 (by decide) 0 (by decide) rfl

end Recognizer

end GpuCalorie.Ptx.Symbols
