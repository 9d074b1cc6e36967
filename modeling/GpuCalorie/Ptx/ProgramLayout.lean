/-
# Functions are laid out where their labels lead to their targets

The loop over the instructions keeps the table in step with the PC: both grow by the cells of
each instruction. So the instructions of a definition stand in the table, and in `m_instr_mem`,
at the sizes of those before them, and a label is noted with the size of those before it, where
the first instruction behind it is found.
-/

import GpuCalorie.Ptx.Assembly

namespace GpuCalorie.Ptx.Assembly

open GpuCalorie.Math TransitionSystem

variable {d : Definition} {before after : List Statement} {pI : Instruction} {name : String}
  {k p : ℕ}

theorem instSize_pos (pI : Instruction) : 0 < pI.instSize := by
  rw [Instruction.instSize]
  split_ifs <;> decide

theorem instSize_mod (pI : Instruction) : pI.instSize % 4 = 0 := by
  rw [Instruction.instSize]
  split_ifs <;> rfl

/-! ## Lists of statements -/

@[simp]
theorem reals_append : reals (before ++ after) = reals before ++ reals after :=
  List.filterMap_append

@[simp]
theorem reals_label (l : Symbol) : reals (.label l :: after) = reals after := rfl

@[simp]
theorem reals_instruction : reals (.instruction pI :: after) = pI :: reals after := rfl

@[simp]
theorem bytes_append : bytes (before ++ after) = bytes before + bytes after := by
  rw [bytes, reals_append, extent_append]
  rfl

@[simp]
theorem bytes_label (l : Symbol) : bytes (.label l :: after) = bytes after := rfl

@[simp]
theorem bytes_instruction : bytes (.instruction pI :: after) = pI.instSize + bytes after := rfl

theorem extent_mod (l : List Instruction) : extent Instruction.instSize l % 4 = 0 := by
  induction l with
  | nil => rfl
  | cons pI l ih => rw [extent_cons, Nat.add_mod, instSize_mod, ih]

theorem labelOffset_append (n : ℕ) : labelOffset name n (before ++ after) =
    (labelOffset name (n + bytes before) after).or (labelOffset name n before) := by
  induction before generalizing n with
  | nil => simp [labelOffset, bytes, reals]
  | cons st before ih =>
      cases st with
      | label l =>
          rw [List.cons_append, labelOffset, labelOffset, ih, bytes_label, Option.or_assoc]
      | instruction pI =>
          rw [List.cons_append, labelOffset, labelOffset, ih, bytes_instruction, Nat.add_assoc]

/-! ## The instructions -/

/-- The loop after a part of a list, from a start in the table on. -/
structure Loaded (table : List (Option Instruction)) (labels : String → Option ℕ)
    (pc : ℕ → Option ℕ) (before : List Statement) (s : Loading) : Prop where
  n : s.n = bytes before
  PC : s.PC = (table.length + bytes before) % addrs
  pcToInsn : s.pcToInsn = table ++ layout Instruction.instSize (reals before)
  instrMem : ∀ p, s.instrMem p = (layout Instruction.instSize (reals before))[p]?
  labels : ∀ name, s.labels name = (labelOffset name 0 before).or (labels name)
  placed : ∀ front pI back, reals before = front ++ pI :: back →
    s.pc pI.uid = some (table.length + extent Instruction.instSize front)
  kept : ∀ uid, (∀ pI ∈ reals before, pI.uid ≠ uid) → s.pc uid = pc uid

variable {table : List (Option Instruction)} {labels : String → Option ℕ} {pc : ℕ → Option ℕ}
  {memSize : ℕ} {s : Loading}

section

variable (hs : Loaded table labels pc before s)
include hs

theorem Loaded.label (l : Symbol) : ∃ t, loadStatement memSize s (.label l) = .ok t ∧
      Loaded table labels pc (before ++ [.label l]) t := by
  have hreals : reals (before ++ [.label l]) = reals before := by
    rw [reals_append]
    exact List.append_nil _
  have hbytes : bytes (before ++ [.label l]) = bytes before := by rw [bytes, hreals, bytes]
  refine ⟨_, rfl, ?_⟩
  constructor
  case n => rw [hbytes, hs.n]
  case PC => rw [hbytes, hs.PC]
  case pcToInsn => rw [hreals, hs.pcToInsn]
  case instrMem => rw [hreals]; exact hs.instrMem
  case labels =>
    intro name
    rw [labelOffset_append, Nat.zero_add]
    show Function.update s.labels l.name (some s.n) name = _
    by_cases hname : l.name = name
    · rw [hname, Function.update_self, hs.n]
      simp [labelOffset, hname]
    · rw [Function.update_of_ne (Ne.symm hname), hs.labels]
      simp [labelOffset, hname]
  case placed => rw [hreals]; exact hs.placed
  case kept => rw [hreals]; exact hs.kept

omit hs in
theorem store_layout (l : List Instruction) (pI : Instruction) (p : ℕ) :
    store pI (extent Instruction.instSize l) (fun p => (layout Instruction.instSize l)[p]?) p =
      (layout Instruction.instSize (l ++ [pI]))[p]? := by
  have hlen := length_layout instSize_pos l
  have hpos := instSize_pos pI
  rw [store, layout_append, layout_cons, layout_nil, List.append_nil]
  rcases Nat.lt_trichotomy p (extent Instruction.instSize l) with hlt | rfl | hgt
  · rw [if_neg hlt.ne, if_neg (fun h => absurd h.1 (Nat.lt_asymm hlt)),
      List.getElem?_append_left (hlen ▸ hlt)]
  · rw [if_pos rfl, List.getElem?_append_right hlen.le, hlen, Nat.sub_self]
    rfl
  · rw [if_neg hgt.ne', List.getElem?_append_right (hlen ▸ hgt.le), hlen]
    obtain ⟨j, rfl⟩ : ∃ j, p = extent Instruction.instSize l + (j + 1) :=
      ⟨p - extent Instruction.instSize l - 1, by omega⟩
    rw [Nat.add_sub_cancel_left, List.getElem?_cons_succ, List.getElem?_replicate]
    by_cases hj : j < pI.instSize - 1
    · rw [if_pos hj, if_pos ⟨hgt, by omega⟩]
    · rw [if_neg hj, if_neg (fun h => hj (by omega)), List.getElem?_eq_none]
      rw [hlen]
      exact Nat.le_add_right _ _

theorem Loaded.instruction (pI : Instruction)
    (hnew : ∀ pJ ∈ reals before, pJ.uid ≠ pI.uid) (hmem : bytes before + pI.instSize ≤ memSize)
    (hmemSize : memSize < addrs) (haddr : table.length + bytes before + pI.instSize ≤ addrs) :
    ∃ t, loadStatement memSize s (.instruction pI) = .ok t ∧
      Loaded table labels pc (before ++ [.instruction pI]) t := by
  have hpos := instSize_pos pI
  have hreals : reals (before ++ [.instruction pI]) = reals before ++ [pI] := reals_append
  have hbytes : bytes (before ++ [.instruction pI]) = bytes before + pI.instSize := by
    rw [bytes_append]
    rfl
  have hlen : s.pcToInsn.length = table.length + bytes before := by
    rw [hs.pcToInsn, List.length_append, length_layout instSize_pos]
    rfl
  have hPC : s.PC = table.length + bytes before := by
    rw [hs.PC, Nat.mod_eq_of_lt (by omega)]
  have hfound : (s.pcToInsn ++ [some pI])[s.PC]? = some (some pI) := by
    rw [hPC, ← hlen, List.getElem?_append_right (Nat.le_refl _), Nat.sub_self]
    rfl
  have hfits : ¬ memSize < s.n + pI.instSize := by
    rw [hs.n]
    exact Nat.not_lt.mpr hmem
  refine ⟨_, (if_neg hfits).trans (if_neg (not_not.mpr hfound)), ?_⟩
  constructor
  case n =>
    show (s.n + pI.instSize) % addrs = _
    rw [hs.n, hbytes, Nat.mod_eq_of_lt (Nat.lt_of_le_of_lt hmem hmemSize)]
  case PC =>
    show (s.PC + pI.instSize) % addrs = _
    rw [hPC, hbytes, Nat.add_assoc]
  case pcToInsn =>
    show s.pcToInsn ++ _ = _
    rw [hs.pcToInsn, hreals, layout_append, layout_cons, layout_nil, List.append_nil,
      List.append_assoc]
  case instrMem =>
    intro p
    have hmem : s.instrMem = fun p => (layout Instruction.instSize (reals before))[p]? :=
      funext hs.instrMem
    show store pI s.n s.instrMem p = _
    rw [hs.n, hmem, hreals]
    exact store_layout (reals before) pI p
  case labels =>
    intro name
    rw [labelOffset_append]
    exact hs.labels name
  case placed =>
    intro front pJ back hsplit
    rw [hreals] at hsplit
    show Function.update s.pc pI.uid (some s.PC) pJ.uid = _
    rcases List.eq_nil_or_concat back with rfl | ⟨back, pK, rfl⟩
    · obtain ⟨rfl, hlast⟩ := List.append_inj' hsplit rfl
      obtain rfl : pI = pJ := List.head_eq_of_cons_eq hlast
      rw [Function.update_self, hPC]
      rfl
    · have hsplit' : reals before ++ [pI] = (front ++ pJ :: back) ++ [pK] := by
        rw [hsplit, List.concat_eq_append, List.append_assoc, List.cons_append]
      obtain ⟨hbefore, -⟩ := List.append_inj' hsplit' rfl
      have hmem : pJ ∈ reals before := by
        rw [hbefore]
        exact List.mem_append_right _ List.mem_cons_self
      rw [Function.update_of_ne (hnew pJ hmem)]
      exact hs.placed front pJ back hbefore
  case kept =>
    intro uid hother
    rw [hreals] at hother
    show Function.update s.pc pI.uid (some s.PC) uid = _
    have hne : uid ≠ pI.uid :=
      Ne.symm (hother pI (List.mem_append_right _ (List.mem_singleton_self pI)))
    rw [Function.update_of_ne hne]
    exact hs.kept uid fun pJ hJ => hother pJ (List.mem_append_left _ hJ)

theorem Loaded.all (hnew : ((reals (before ++ after)).map Instruction.uid).Nodup)
    (hmem : bytes (before ++ after) ≤ memSize) (hmemSize : memSize < addrs)
    (haddr : table.length + bytes (before ++ after) ≤ addrs) :
    ∃ t, after.foldlM (loadStatement memSize) s = .ok t ∧
      Loaded table labels pc (before ++ after) t := by
  induction after generalizing before s with
  | nil => exact ⟨s, rfl, by rwa [List.append_nil]⟩
  | cons st after ih =>
      have hsplit : before ++ st :: after = (before ++ [st]) ++ after := by
        rw [List.append_assoc, List.singleton_append]
      have hstep : ∃ t, loadStatement memSize s st = .ok t ∧
          Loaded table labels pc (before ++ [st]) t := by
        cases st with
        | label l => exact hs.label l
        | instruction pI =>
            rw [bytes_append, bytes_instruction] at hmem haddr
            refine hs.instruction pI (fun pJ hJ heq => ?_) (by omega) hmemSize (by omega)
            rw [reals_append, reals_instruction, List.map_append, List.nodup_append] at hnew
            exact hnew.2.2 _ (List.mem_map_of_mem hJ) _ (List.mem_map_of_mem List.mem_cons_self) heq
      obtain ⟨next, hload, hnext⟩ := hstep
      rw [hsplit] at hnew hmem haddr ⊢
      obtain ⟨t, hrest, ht⟩ := ih hnext hnew hmem haddr
      exact ⟨t, by rw [List.foldlM_cons, hload]; exact hrest, ht⟩

end

/-! ## The targets -/

/-- A symbol has a label, and the first instruction behind it has the PC `v`. -/
structure TargetPc (d : Definition) (pc : ℕ → Option ℕ) (target : Symbol) (v : ℕ) : Prop where
  label : ∃ before after, d.instructions = before ++ .label target :: after
  first : ∀ before after, d.instructions = before ++ .label target :: after →
    ∃ pJ, firstReal after = some pJ ∧ pc pJ.uid = some v

/-- The loop over the branches has set the symbols of the targets in a list, and no others. -/
structure TargetsSet (d : Definition) (pc : ℕ → Option ℕ) (branches : List Instruction)
    (address address' : Symbol → Option ℕ) : Prop where
  set : ∀ pI ∈ branches, pI.hasTarget = true →
    ∃ v, TargetPc d pc pI.target v ∧ address' pI.target = some v
  kept : ∀ symbol, (∀ pI ∈ branches, pI.hasTarget = true → pI.target ≠ symbol) →
    address' symbol = address symbol

variable {info : FunctionInfo} {address : Symbol → Option ℕ} {a : Assembler} {start : ℕ}
  {s : Assembler} {back : List Instruction}

/-- A definition in the memory of its function, before the targets are resolved. -/
structure InMemory (a : Assembler) (d : Definition) (info : FunctionInfo) (pc : ℕ → Option ℕ)
    (start : ℕ) : Prop where
  labels : ∀ name, info.labels name =
    (labelOffset name 0 d.instructions).or ((a.functions d.function).labels name)
  n : info.n = bytes d.instructions
  instrMem : ∀ p, info.instrMem p = (layout Instruction.instSize (reals d.instructions))[p]?
  placed : ∀ front pI back, reals d.instructions = front ++ pI :: back →
    pc pI.uid = some (start + extent Instruction.instSize front)

theorem TargetsSet.cons_of_not {address' : Symbol → Option ℕ}
    (hset : TargetsSet d pc back address address') (htarget : pI.hasTarget = false) :
    TargetsSet d pc (pI :: back) address address' := by
  constructor
  case set =>
    intro pJ hJ hJtarget
    rcases List.mem_cons.mp hJ with rfl | hJ
    · rw [htarget] at hJtarget
      cases hJtarget
    · exact hset.set pJ hJ hJtarget
  case kept => exact fun symbol hnone => hset.kept symbol fun pJ hJ => hnone pJ (.tail _ hJ)

theorem TargetsSet.cons {address' : Symbol → Option ℕ} {v : ℕ}
    (hset : TargetsSet d pc back (Function.update address pI.target (some v)) address')
    (hv : TargetPc d pc pI.target v) (htarget : pI.hasTarget = true) :
    TargetsSet d pc (pI :: back) address address' := by
  constructor
  case set =>
    intro pJ hJ hJtarget
    rcases List.mem_cons.mp hJ with rfl | hJ
    · by_cases hagain : ∃ pK ∈ back, pK.hasTarget = true ∧ pK.target = pJ.target
      · obtain ⟨pK, hK, hKtarget, hsame⟩ := hagain
        exact hsame ▸ hset.set pK hK hKtarget
      · refine ⟨v, hv, ?_⟩
        rw [hset.kept pJ.target fun pK hK hKt heq => hagain ⟨pK, hK, hKt, heq⟩,
          Function.update_self]
    · exact hset.set pJ hJ hJtarget
  case kept =>
    intro symbol hnone
    rw [hset.kept symbol fun pJ hJ => hnone pJ (.tail _ hJ),
      Function.update_of_ne (Ne.symm (hnone pI (.head _) htarget))]

theorem Resolvable.resolveTarget_ok (hr : Resolvable a d) (hm : InMemory a d info pc start)
    (hpI : pI ∈ reals d.instructions) (htarget : pI.hasTarget = true)
    (address : Symbol → Option ℕ) :
    (∃ v, resolveTarget info d.symtab pc pI.target address =
        .ok (Function.update address pI.target (some v)) ∧ TargetPc d pc pI.target v) ∨
      resolveTarget info d.symtab pc pI.target address = .error .loaderError := by
  rcases hr.target pI hpI htarget with ⟨hstale, hnone⟩ | ⟨hsymtab, ⟨before, after, hsplit⟩, hall⟩
  · right
    rw [resolveTarget, hm.labels, hnone, hstale]
    rfl
  · left
    have hbehind : ∀ before after, d.instructions = before ++ .label pI.target :: after →
        ∃ pJ, firstReal after = some pJ ∧ pc pJ.uid = some (start + bytes before) ∧
          info.instrMem (bytes before) = some (some pJ) := by
      intro before after hsplit
      obtain ⟨pJ, hfirst⟩ := Option.ne_none_iff_exists'.mp (hall before after hsplit).1
      obtain ⟨rest, hrest⟩ : ∃ rest, reals after = pJ :: rest :=
        List.head?_eq_some_iff.mp hfirst
      have hreals : reals d.instructions = reals before ++ pJ :: rest := by
        rw [hsplit, reals_append, reals_label, hrest]
      refine ⟨pJ, hfirst, hm.placed _ _ _ hreals, ?_⟩
      rw [hm.instrMem, hreals]
      exact getElem?_layout instSize_pos _ _ _
    obtain ⟨pJ, -, hpc, hcell⟩ := hbehind before after hsplit
    have hoffset := (hall before after hsplit).2
    refine ⟨start + bytes before, ?_, ⟨before, after, hsplit⟩, fun before' after' hsplit' => ?_⟩
    · rw [resolveTarget, hm.labels, hoffset, Option.some_or]
      simp only [hcell, hsymtab, hpc]
    · obtain ⟨pK, hfirst, hpc', -⟩ := hbehind before' after' hsplit'
      have hsame : bytes before' = bytes before :=
        Option.some.inj ((hall before' after' hsplit').2.symm.trans hoffset)
      exact ⟨pK, hfirst, hsame ▸ hpc'⟩

theorem Resolvable.resolveFrom_ok (hr : Resolvable a d) (hm : InMemory a d info pc start)
    (front : List Instruction) (hsplit : reals d.instructions = front ++ back) {fuel : ℕ}
    (enough : extent Instruction.instSize back < fuel) (address : Symbol → Option ℕ) :
    (∃ address', resolveFrom info d.symtab pc fuel (extent Instruction.instSize front) address =
        .ok address' ∧ TargetsSet d pc back address address') ∨
      resolveFrom info d.symtab pc fuel (extent Instruction.instSize front) address =
        .error .loaderError := by
  induction back generalizing front fuel address with
  | nil =>
      obtain ⟨fuel, rfl⟩ := Nat.exists_eq_succ_of_ne_zero (Nat.ne_zero_of_lt enough)
      have hend : ¬ extent Instruction.instSize front < info.n := by
        rw [hm.n, bytes, hsplit, List.append_nil]
        exact Nat.lt_irrefl _
      refine .inl ⟨address, if_neg hend, ?_, fun _ _ => rfl⟩
      exact fun pI hpI => absurd hpI List.not_mem_nil
  | cons pI back ih =>
      obtain ⟨fuel, rfl⟩ := Nat.exists_eq_succ_of_ne_zero (Nat.ne_zero_of_lt enough)
      have hpos := instSize_pos pI
      have hcell : info.instrMem (extent Instruction.instSize front) = some (some pI) := by
        rw [hm.instrMem, hsplit]
        exact getElem?_layout instSize_pos _ _ _
      have hlt : extent Instruction.instSize front < info.n := by
        rw [hm.n, bytes, hsplit, extent_append, extent_cons]
        omega
      have hpI : pI ∈ reals d.instructions := by
        rw [hsplit]
        exact List.mem_append_right _ List.mem_cons_self
      have hnext : extent Instruction.instSize front + pI.instSize =
          extent Instruction.instSize (front ++ [pI]) := by
        rw [extent_append, extent_cons, extent_nil, Nat.add_zero]
      have hsplit' : reals d.instructions = (front ++ [pI]) ++ back := by
        rw [hsplit, List.append_assoc, List.singleton_append]
      have hfuel : extent Instruction.instSize back < fuel := by
        rw [extent_cons] at enough
        omega
      rw [resolveFrom, if_pos hlt]
      simp only [hcell, hnext]
      cases htarget : pI.hasTarget with
      | false =>
          simp only [Bool.false_eq_true, if_false, pure_bind]
          rcases ih _ hsplit' hfuel address with ⟨address', hrun, hset⟩ | herror
          · exact .inl ⟨address', hrun, hset.cons_of_not htarget⟩
          · exact .inr herror
      | true =>
          simp only [if_true]
          rcases hr.resolveTarget_ok hm hpI htarget address with
            ⟨v, hone, hv⟩ | hone
          · rw [hone]
            rcases ih _ hsplit' hfuel (Function.update address pI.target (some v)) with
              ⟨address', hrun, hset⟩ | herror
            · exact .inl ⟨address', hrun, hset.cons hv htarget⟩
            · exact .inr herror
          · rw [hone]
            exact .inr rfl

theorem Resolvable.resolve_ok (hr : Resolvable a d) (hm : InMemory a d info pc start)
    (address : Symbol → Option ℕ) :
    (∃ address', resolveFrom info d.symtab pc (info.n + 1) 0 address = .ok address' ∧
        TargetsSet d pc (reals d.instructions) address address') ∨
      resolveFrom info d.symtab pc (info.n + 1) 0 address = .error .loaderError := by
  have enough : extent Instruction.instSize (reals d.instructions) < info.n + 1 := by
    rw [hm.n]
    exact Nat.lt_succ_self _
  exact hr.resolveFrom_ok hm [] rfl enough address

/-! ## Sequences of definitions -/

/-- Where a definition stands: its instructions have their PCs, from an aligned start on, and are
found there, and its targets are set. -/
structure Stands (s : Assembler) (d : Definition) (start : ℕ) : Prop where
  aligned : start % maxInstSize = 0
  placed : ∀ front pI back, reals d.instructions = front ++ pI :: back →
    s.pc pI.uid = some (start + extent Instruction.instSize front) ∧
      s.pcToInsn[start + extent Instruction.instSize front]? = some (some pI)
  resolved : ∀ pI ∈ reals d.instructions, pI.hasTarget = true →
    ∃ v, TargetPc d s.pc pI.target v ∧ s.address pI.target = some v

/-- The state between two definitions. -/
structure Standing (s : Assembler) : Prop where
  nextPc : s.nextPc = s.pcToInsn.length % addrs
  bounded : s.pcToInsn.length ≤ addrs
  aligned : s.pcToInsn.length % 4 = 0
  startPc : ∀ function, (s.functions function).startPc % maxInstSize = 0
  found : ∀ pc pI, s.pcToInsn[pc]? = some (some pI) →
    ∃ d ∈ s.definitions, pI ∈ reals d.instructions ∧ s.pc pI.uid = some pc
  stands : ∀ d ∈ s.definitions, ∃ start, Stands s d start

theorem standing_init : Standing {} := by
  constructor
  case nextPc => rfl
  case bounded => exact Nat.zero_le _
  case aligned => rfl
  case startPc => exact fun _ => rfl
  case found => exact fun pc pI h => by simp at h
  case stands => exact fun d hd => absurd hd List.not_mem_nil

theorem pcToInstruction_eq_some {pc : ℕ} :
    pcToInstruction s pc = some pI ↔ s.pcToInsn[pc]? = some (some pI) := by
  rw [pcToInstruction]
  split_ifs with hlt
  · rw [List.getElem?_eq_getElem hlt, Option.some.injEq]
  · rw [List.getElem?_eq_none (Nat.not_lt.mp hlt)]
    exact iff_of_false nofun nofun

theorem Standing.laid (hs : Standing s) : Laid s := by
  have hplaced : ∀ d ∈ s.definitions, ∀ pI ∈ reals d.instructions,
      ∃ pc, s.pc pI.uid = some pc ∧ s.pcToInsn[pc]? = some (some pI) := by
    intro d hd pI hpI
    obtain ⟨start, hstands⟩ := hs.stands d hd
    obtain ⟨front, back, hsplit⟩ := List.append_of_mem hpI
    exact ⟨_, hstands.placed front pI back hsplit⟩
  constructor
  case placed =>
    intro d hd pI hpI
    obtain ⟨pc, hpc, hcell⟩ := hplaced d hd pI hpI
    exact ⟨pc, hpc, pcToInstruction_eq_some.mpr hcell⟩
  case unique =>
    intro d hd pI hpI d' hd' pJ hpJ heq
    obtain ⟨pc, hpc, hcell⟩ := hplaced d hd pI hpI
    obtain ⟨pc', hpc', hcell'⟩ := hplaced d' hd' pJ hpJ
    obtain rfl : pc = pc' := by
      rw [hpc, hpc'] at heq
      exact Option.some.inj heq
    exact Option.some.inj (Option.some.inj (hcell.symm.trans hcell'))
  case others =>
    intro pc hnone
    cases hfound : pcToInstruction s pc with
    | none => rfl
    | some pI =>
        obtain ⟨d, hd, hpI, hpc⟩ := hs.found pc pI (pcToInstruction_eq_some.mp hfound)
        exact absurd hpc (hnone d hd pI hpI)
  case aligned =>
    intro d hd pI hfirst
    obtain ⟨start, hstands⟩ := hs.stands d hd
    obtain ⟨rest, hrest⟩ := List.head?_eq_some_iff.mp hfirst
    exact ⟨start, (hstands.placed [] pI rest hrest).1, hstands.aligned⟩
  case startPc => exact hs.startPc
  case consecutive =>
    intro d hd front pI pJ back hsplit pc hpc
    obtain ⟨start, hstands⟩ := hs.stands d hd
    have hsplit' : reals d.instructions = (front ++ [pI]) ++ pJ :: back := by
      rw [hsplit, List.append_assoc, List.singleton_append]
    have hnext := (hstands.placed (front ++ [pI]) pJ back hsplit').1
    rw [(hstands.placed front pI _ hsplit).1] at hpc
    rw [hnext, ← Option.some.inj hpc, extent_append, extent_cons, extent_nil, Nat.add_zero,
      Nat.add_assoc]
  case resolved =>
    intro d hd pI hpI htarget
    obtain ⟨start, hstands⟩ := hs.stands d hd
    obtain ⟨v, hv, haddress⟩ := hstands.resolved pI hpI htarget
    refine ⟨hv.label, fun before after hsplit => ?_⟩
    obtain ⟨pJ, hfirst, hpc⟩ := hv.first before after hsplit
    exact ⟨pJ, hfirst, haddress.trans hpc.symm⟩

theorem Stands.mono {s t : Assembler} (hs : Stands s d start)
    (htable : ∀ (pc : ℕ) pI, s.pcToInsn[pc]? = some (some pI) →
      t.pcToInsn[pc]? = some (some pI))
    (hpc : ∀ pI ∈ reals d.instructions, t.pc pI.uid = s.pc pI.uid)
    (haddress : ∀ pI ∈ reals d.instructions, pI.hasTarget = true →
      t.address pI.target = s.address pI.target) : Stands t d start := by
  constructor
  case aligned => exact hs.aligned
  case placed =>
    intro front pI back hsplit
    have hmem : pI ∈ reals d.instructions := by
      rw [hsplit]
      exact List.mem_append_right _ List.mem_cons_self
    obtain ⟨hplaced, hcell⟩ := hs.placed front pI back hsplit
    exact ⟨(hpc pI hmem).trans hplaced, htable _ _ hcell⟩
  case resolved =>
    intro pI hpI htarget
    obtain ⟨v, hv, hset⟩ := hs.resolved pI hpI htarget
    refine ⟨v, ⟨hv.label, fun before after hsplit => ?_⟩, (haddress pI hpI htarget).trans hset⟩
    obtain ⟨pJ, hfirst, hJ⟩ := hv.first before after hsplit
    have hmem : pJ ∈ reals d.instructions := by
      rw [hsplit, reals_append, reals_label]
      exact List.mem_append_right _ (List.mem_of_mem_head? hfirst)
    exact ⟨pJ, hfirst, (hpc pJ hmem).trans hJ⟩

theorem Standing.length_padding (hs : Standing s) :
    (s.pcToInsn ++ List.replicate (s.nextPc % maxInstSize) none).length =
        s.pcToInsn.length + s.pcToInsn.length % maxInstSize ∧
      (s.pcToInsn.length + s.pcToInsn.length % maxInstSize) % maxInstSize = 0 := by
  have haligned := hs.aligned
  rw [List.length_append, List.length_replicate, hs.nextPc]
  simp only [maxInstSize, addrs]
  omega

theorem Standing.extend (hs : Standing s) (hnew : NewObjects s d)
    (hfits : s.pcToInsn.length + s.pcToInsn.length % maxInstSize + bytes d.instructions ≤ addrs)
    (hresolvable : Resolvable s d) {loaded : Loading}
    (hloaded : Loaded (s.pcToInsn ++ List.replicate (s.nextPc % maxInstSize) none)
      (s.functions d.function).labels s.pc d.instructions loaded)
    {address : Symbol → Option ℕ}
    (hset : TargetsSet d loaded.pc (reals d.instructions) s.address address)
    (hstart : info.startPc % maxInstSize = 0) :
    Standing {
      nextPc := loaded.PC
      pcToInsn := loaded.pcToInsn
      functions := Function.update s.functions d.function info
      pc := loaded.pc
      address := address
      definitions := s.definitions ++ [d] } := by
  obtain ⟨hlen, haligned⟩ := hs.length_padding
  have hlength : loaded.pcToInsn.length =
      s.pcToInsn.length + s.pcToInsn.length % maxInstSize + bytes d.instructions := by
    rw [hloaded.pcToInsn, List.length_append, hlen, length_layout instSize_pos]
    rfl
  have htable : ∀ (pc : ℕ) pI, s.pcToInsn[pc]? = some (some pI) →
      loaded.pcToInsn[pc]? = some (some pI) := by
    intro pc pI hcell
    obtain ⟨hlt, -⟩ := List.getElem?_eq_some_iff.mp hcell
    rw [hloaded.pcToInsn, List.append_assoc, List.getElem?_append_left hlt, hcell]
  have hkept : ∀ d' ∈ s.definitions, ∀ pI ∈ reals d'.instructions,
      loaded.pc pI.uid = s.pc pI.uid := by
    intro d' hd' pI hpI
    exact hloaded.kept _ fun pJ hJ => hnew.2 pJ hJ d' hd' pI hpI
  constructor
  case nextPc =>
    show loaded.PC = loaded.pcToInsn.length % addrs
    rw [hloaded.PC, hlength, hlen]
  case bounded => exact hlength ▸ hfits
  case aligned =>
    show loaded.pcToInsn.length % 4 = 0
    have hbytes : bytes d.instructions % 4 = 0 := extent_mod _
    rw [hlength]
    simp only [maxInstSize] at haligned ⊢
    omega
  case startPc =>
    intro function
    show (Function.update s.functions d.function info function).startPc % maxInstSize = 0
    by_cases heq : function = d.function
    · rw [heq, Function.update_self]
      exact hstart
    · rw [Function.update_of_ne heq]
      exact hs.startPc function
  case found =>
    intro pc pI hcell
    have hcell' : loaded.pcToInsn[pc]? = some (some pI) := hcell
    rw [hloaded.pcToInsn] at hcell'
    by_cases hlt : pc < (s.pcToInsn ++ List.replicate (s.nextPc % maxInstSize) none).length
    · rw [List.getElem?_append_left hlt] at hcell'
      by_cases hold : pc < s.pcToInsn.length
      · rw [List.getElem?_append_left hold] at hcell'
        obtain ⟨d', hd', hpI, hpc⟩ := hs.found pc pI hcell'
        exact ⟨d', List.mem_append_left _ hd', hpI, (hkept d' hd' pI hpI).trans hpc⟩
      · rw [List.getElem?_append_right (Nat.not_lt.mp hold), List.getElem?_replicate] at hcell'
        split_ifs at hcell'
        cases hcell'
    · rw [List.getElem?_append_right (Nat.not_lt.mp hlt)] at hcell'
      obtain ⟨front, back, hsplit, hoffset⟩ := exists_of_getElem?_layout instSize_pos hcell'
      refine ⟨d, List.mem_append_right _ (List.mem_singleton_self d), ?_, ?_⟩
      · rw [hsplit]
        exact List.mem_append_right _ List.mem_cons_self
      · show loaded.pc pI.uid = some pc
        rw [hloaded.placed front pI back hsplit, ← hoffset, Nat.add_sub_cancel' (Nat.not_lt.mp hlt)]
  case stands =>
    intro d' hd'
    rcases List.mem_append.mp hd' with hold | hnew'
    · obtain ⟨start, hstands⟩ := hs.stands d' hold
      refine ⟨start, hstands.mono htable (hkept d' hold) fun pI hpI htarget => ?_⟩
      exact hset.kept _ fun pJ hJ hJtarget heq =>
        hresolvable.fresh pJ hJ hJtarget d' hold pI hpI htarget heq.symm
    · obtain rfl := List.mem_singleton.mp hnew'
      refine ⟨_, hlen.symm ▸ haligned, fun front pI back hsplit => ⟨?_, ?_⟩, hset.set⟩
      · exact hloaded.placed front pI back hsplit
      · show loaded.pcToInsn[_]? = _
        rw [hloaded.pcToInsn, List.getElem?_append_right (Nat.le_add_right _ _),
          Nat.add_sub_cancel_left, hsplit]
        exact getElem?_layout instSize_pos front back pI

/-- The `function_info` between the two loops. -/
def loadedInfo (d : Definition) (s : Assembler) (loaded : Loading) : FunctionInfo :=
  { s.functions d.function with
    startPc := (s.nextPc + s.nextPc % maxInstSize) % addrs
    n := loaded.n
    instrMem := loaded.instrMem
    labels := loaded.labels }

/-- The variables of the first loop before it. -/
def startLoading (d : Definition) (s : Assembler) : Loading where
  PC := (s.nextPc + s.nextPc % maxInstSize) % addrs
  pcToInsn := s.pcToInsn ++ List.replicate (s.nextPc % maxInstSize) none
  labels := (s.functions d.function).labels
  pc := s.pc

theorem ptxAssemble_of_loaded {loaded : Loading}
    (hassembled : (s.functions d.function).assembled = false)
    (hrun : d.instructions.foldlM
      (loadStatement (maxInstSize * (d.instructions.length + 1) % addrs)) (startLoading d s) =
        .ok loaded) :
    ptxAssemble d s = (resolveFrom (loadedInfo d s loaded) d.symtab loaded.pc (loaded.n + 1) 0
      s.address).bind fun address => .ok {
        nextPc := loaded.PC
        pcToInsn := loaded.pcToInsn
        functions := Function.update s.functions d.function (loadedInfo d s loaded)
        pc := loaded.pc
        address := address
        definitions := s.definitions ++ [d] } := by
  have hnot : ¬ (s.functions d.function).assembled = true := by
    rw [hassembled]
    exact Bool.false_ne_true
  refine (if_neg hnot).trans ?_
  show (d.instructions.foldlM
    (loadStatement (maxInstSize * (d.instructions.length + 1) % addrs)) (startLoading d s)).bind _ =
    _
  rw [hrun]
  rfl

theorem Standing.load (hs : Standing s) (hnew : NewObjects s d)
    (hfits : s.pcToInsn.length + s.pcToInsn.length % maxInstSize + bytes d.instructions ≤ addrs)
    (hmemory : bytes d.instructions ≤ maxInstSize * (d.instructions.length + 1) % addrs) :
    ∃ loaded, d.instructions.foldlM
      (loadStatement (maxInstSize * (d.instructions.length + 1) % addrs)) (startLoading d s) =
        .ok loaded ∧
      Loaded (s.pcToInsn ++ List.replicate (s.nextPc % maxInstSize) none)
        (s.functions d.function).labels s.pc d.instructions loaded := by
  obtain ⟨hlen, -⟩ := hs.length_padding
  have hPC : (s.nextPc + s.nextPc % maxInstSize) % addrs =
      (s.pcToInsn ++ List.replicate (s.nextPc % maxInstSize) none).length % addrs := by
    rw [List.length_append, List.length_replicate, hs.nextPc, Nat.mod_add_mod]
  have hbegin : Loaded (s.pcToInsn ++ List.replicate (s.nextPc % maxInstSize) none)
      (s.functions d.function).labels s.pc [] (startLoading d s) := by
    refine ⟨rfl, hPC, (List.append_nil _).symm, fun _ => rfl, fun _ => rfl, ?_, fun _ _ => rfl⟩
    intro front pI back hsplit
    exact absurd hsplit (by simp [reals])
  exact hbegin.all hnew.1 hmemory (Nat.mod_lt _ (by decide)) (hlen ▸ hfits)

theorem Standing.assemble (hs : Standing s) (hnew : NewObjects s d)
    (hlays : LaysOut s (.assemble d)) :
    OkOr Standing (fun e => e = .loaderError) (ptxAssemble d s) := by
  obtain ⟨hassembled, hfits, hmemory, hresolvable⟩ := hlays
  obtain ⟨hlen, haligned⟩ := hs.length_padding
  obtain ⟨loaded, hrun, hloaded⟩ := hs.load hnew hfits hmemory
  have hstart : (s.nextPc + s.nextPc % maxInstSize) % addrs % maxInstSize = 0 := by
    rw [hs.nextPc, Nat.mod_add_mod, Nat.mod_mod_of_dvd _ (by decide),
      Nat.mod_mod_of_dvd _ (by decide)]
    exact haligned
  have hm : InMemory s d (loadedInfo d s loaded) loaded.pc _ :=
    ⟨hloaded.labels, hloaded.n, hloaded.instrMem, hloaded.placed⟩
  rw [ptxAssemble_of_loaded hassembled hrun]
  rcases hresolvable.resolve_ok hm s.address with ⟨address, hresolve, hset⟩ | herror
  · exact hresolve.symm ▸ hs.extend hnew hfits hresolvable hloaded hset hstart
  · exact herror.symm ▸ rfl

/-- In every sequence of definitions whose targets can be resolved, in the memory and the PCs there
are, every instruction has a PC of its own and is found there and nowhere else, functions are
aligned, and every target has the PC of the first instruction behind its label; or the loader
reports a label that does not appear. -/
theorem laid_of_reachable {r : Except AssemblyFailure Assembler}
    (reached : (assemblySystem.restrict (onOk LaysOut)).Reachable r) :
    OkOr Laid (fun e => e = .loaderError) r := by
  have hstanding : OkOr Standing (fun e => e = .loaderError) r := by
    apply reached.invariant_ofExcept
    · rintro s rfl
      exact standing_init
    · intro s action hs hlays henabled
      cases action with
      | assemble d => exact hs.assemble henabled hlays
      | doPdom function =>
          refine ⟨hs.nextPc, hs.bounded, hs.aligned, fun other => ?_, hs.found, fun d hd => ?_⟩
          · show (Function.update s.functions function _ other).startPc % maxInstSize = 0
            by_cases heq : other = function
            · rw [heq, Function.update_self]
              exact hs.startPc function
            · rw [Function.update_of_ne heq]
              exact hs.startPc other
          · obtain ⟨start, hstands⟩ := hs.stands d hd
            exact ⟨start, hstands.aligned, hstands.placed, hstands.resolved⟩
  exact hstanding.imp fun s hs => hs.laid

/-- A branch over a short instruction to the second of two labels in a row, behind another one. -/
def branchDefinition : Definition where
  function := 0
  instructions :=
    [.label ⟨"entry", 0⟩, .instruction ⟨0, .braOp, true, false, ⟨"done", 1⟩⟩,
      .instruction ⟨1, .otherOp, false, true, ⟨"", 3⟩⟩, .label ⟨"last", 2⟩] ++
    .label ⟨"done", 1⟩ :: [.instruction ⟨2, .retOp, false, false, ⟨"", 3⟩⟩]
  symtab name := if name = "done" then some ⟨"done", 1⟩ else none

theorem branch_resolvable : Resolvable {} branchDefinition := by
  constructor
  case fresh => exact fun _ _ _ d' hd' => absurd hd' List.not_mem_nil
  case target =>
    have hall : ∀ pI ∈ reals branchDefinition.instructions, pI.hasTarget = true →
        pI.target = ⟨"done", 1⟩ := by decide
    intro pI hpI htarget
    rw [hall pI hpI htarget]
    refine .inr ⟨rfl, ⟨_, _, rfl⟩, fun before after hsplit => ?_⟩
    obtain ⟨rfl, -, rfl⟩ := (List.append_cons_inj_of_notMem (by decide) (by decide)).mp hsplit
    exact ⟨by decide, by decide⟩

theorem laid_branchDefinition : OkOr Laid (fun e => e = .loaderError)
    (ptxAssemble branchDefinition {}) ∧
    (ptxAssemble branchDefinition {}).map (fun s => s.address ⟨"done", 1⟩) = .ok (some 12) := by
  refine ⟨laid_of_reachable (.step (.init ⟨{}, rfl, rfl⟩)
    (a := .assemble branchDefinition) ⟨?_, {}, rfl, ?_, rfl⟩), by decide⟩
  · exact ⟨rfl, by decide, by decide, branch_resolvable⟩
  · exact ⟨by decide, fun _ _ d' hd' => absurd hd' List.not_mem_nil⟩

/-- A branch to a label behind the last instruction. -/
def trailingDefinition : Definition where
  function := 0
  instructions := [.instruction ⟨0, .braOp, false, false, ⟨"done", 1⟩⟩, .label ⟨"done", 1⟩]
  symtab name := if name = "done" then some ⟨"done", 1⟩ else none

/-- What is read at its place in `m_instr_mem` has never been written. -/
theorem not_laid_trailingLabel :
    ¬ ∀ r, assemblySystem.Reachable r → OkOr Laid (fun e => e = .loaderError) r := by
  intro hall
  have hreached : assemblySystem.Reachable (ptxAssemble trailingDefinition {}) := by
    refine .step (.init ⟨{}, rfl, rfl⟩) (a := .assemble trailingDefinition) ⟨{}, rfl, ?_, rfl⟩
    exact ⟨by decide, fun _ _ d' hd' => absurd hd' List.not_mem_nil⟩
  have hrun : ptxAssemble trailingDefinition {} = .error .notInitialized := rfl
  have herror := (hall _ hreached).of_error hrun
  cases herror

end GpuCalorie.Ptx.Assembly
