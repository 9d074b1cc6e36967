/-
# When the layouts of a kernel's parameters agree

The parser and `finalize` align a parameter to what is declared, and the size of all parameters is
found by aligning each one to its own size. A vector counts as one of its elements everywhere. All
is as it should be if neither makes a difference.
-/

import GpuCalorie.Math.Layout
import GpuCalorie.Ptx.ParamLayout

namespace GpuCalorie.Ptx.Params

open GpuCalorie.Hardware GpuCalorie.Math GpuCalorie.Ptx.Symbols

/-! ## Sizes -/

namespace ParamEntry

variable {d : ParamEntry}

/-- The size the parser records. -/
def size (d : ParamEntry) : ℕ := d.gSize.toNat

/-- The parser takes the parameter. -/
def Known (d : ParamEntry) : Prop := 0 < d.gSize ∧ d.gAlignment ∈ knownAlignments

/-- The parameter is neither an array without a size nor a pointer to shared memory. -/
def Plain (d : ParamEntry) : Prop := d.array ≠ .noDim ∧ d.isPtrShared = false

theorem Known.size_pos (h : d.Known) : 0 < d.size := by
  have hpos := h.1
  rw [size]
  omega

theorem Known.gAlignment_pos (h : d.Known) : 0 < d.gAlignment := by
  have hall : ∀ a ∈ knownAlignments, 0 < a := by decide
  exact hall _ h.2

theorem size_of_scalarSize_pos {type : DeclaredType} (h : 0 < scalarSize type) :
    type.size = 8 * (scalarSize type).toNat := by
  cases type with
  | scalar type =>
      cases type with
      | pred => exact absurd h (by decide)
      | _ => rfl
  | texref | samplerref | surfref => exact absurd h (by decide)
  | _ => rfl

theorem scalarSize_pos (h : 0 < d.gSize) : 0 < scalarSize d.type := by
  rw [gSize] at h
  cases harray : d.array with
  | nonArray | noDim =>
      rw [harray] at h
      exact h
  | dim n =>
      rw [harray] at h
      dsimp only at h
      by_contra hnot
      have hle := Int.mul_le_mul_of_nonneg_right (Int.not_lt.1 hnot) (Int.natCast_nonneg n)
      rw [Int.zero_mul] at hle
      omega

theorem size_dim {n : ℕ} (harray : d.array = .dim n) (h : 0 < d.gSize) :
    d.size = (scalarSize d.type).toNat * n := by
  have hpos := scalarSize_pos h
  rw [size, gSize, harray]
  dsimp only
  rw [Int.toNat_mul hpos.le (Int.natCast_nonneg n), Int.toNat_natCast]

theorem size_nonArray (harray : d.array = .nonArray) : d.size = (scalarSize d.type).toNat := by
  rw [size, gSize, harray]

theorem Known.numBits_eq (h : d.Known) (hplain : d.array ≠ .noDim) : d.numBits = 8 * d.size := by
  have hscalar := size_of_scalarSize_pos (scalarSize_pos h.1)
  cases harray : d.array with
  | nonArray => rw [numBits, harray, hscalar, size_nonArray harray]
  | noDim => exact absurd harray hplain
  | dim n =>
      rw [numBits, harray, hscalar, size_dim harray h.1]
      dsimp only
      rw [Nat.mul_comm, Nat.mul_assoc]

theorem Known.bytes_eq (h : d.Known) (hplain : d.array ≠ .noDim) (hvector : d.vector = .none) :
    d.bytes = d.size := by
  have hscalar := size_of_scalarSize_pos (scalarSize_pos h.1)
  have helement : d.vector.lanes * d.type.size / 8 = (scalarSize d.type).toNat := by
    rw [hvector, hscalar, VectorSpec.lanes]
    omega
  cases harray : d.array with
  | nonArray => rw [bytes, harray, helement, size_nonArray harray]
  | noDim => exact absurd harray hplain
  | dim n =>
      rw [bytes, harray, helement, size_dim harray h.1]
      exact Nat.mul_comm _ _

theorem Known.requiredAlignment_dvd (h : d.Known) (hplain : d.array ≠ .noDim)
    (hvector : d.vector = .none) :
    d.requiredAlignment ∣ d.gAlignment := by
  have hscalar := size_of_scalarSize_pos (scalarSize_pos h.1)
  have helement : d.vector.lanes * d.type.size / 8 = (scalarSize d.type).toNat := by
    rw [hvector, hscalar, VectorSpec.lanes]
    omega
  rw [requiredAlignment, gAlignment, helement]
  cases d.alignment with
  | some alignment => exact dvd_rfl
  | none =>
      rw [Option.getD_none, Option.getD_none]
      change _ ∣ d.size
      cases harray : d.array with
      | nonArray => rw [size_nonArray harray]
      | noDim => exact absurd harray hplain
      | dim n =>
          rw [size_dim harray h.1]
          exact Nat.dvd_mul_right _ _

/-- The entry of a parameter that the parser makes. -/
def info (d : ParamEntry) : ParamInfo where
  size := d.numBits
  isPtrShared := d.isPtrShared
  alignmentSpec := d.alignment

end ParamEntry

/-! ## Parsing -/

/-- Where the parameters that are recorded end. -/
def configsEnd (configs : List (ℕ × ℕ)) : ℕ := match configs.getLast? with
  | none => 0
  | some last => last.2 + last.1

theorem addConfigParam_eq (configs : List (ℕ × ℕ)) (size : ℕ) {alignment : ℕ} (h : 0 < alignment) :
    addConfigParam configs size alignment = configs ++
      [(size, roundUp (configsEnd configs) alignment)] := by
  rw [addConfigParam, configsEnd]
  cases configs.getLast? with
  | none => rw [roundUp_zero h]
  | some last => rw [roundUp_eq_ite h]

/-- The offsets of the parameters behind a number. -/
abbrev paramOffsets (e : ℕ) (decls : List ParamEntry) : List ℕ :=
  offsets ParamEntry.size ParamEntry.gAlignment e decls

/-- What the parser records. -/
def configsOf (e : ℕ) (decls : List ParamEntry) : List (ℕ × ℕ) :=
  (decls.map ParamEntry.size).zip (paramOffsets e decls)

theorem configsOf_cons (e : ℕ) (d : ParamEntry) (decls : List ParamEntry) :
    configsOf e (d :: decls)
      = (d.size, roundUp e d.gAlignment) :: configsOf (roundUp e d.gAlignment + d.size) decls := rfl

variable {d : ParamEntry}

theorem addParam_ok (h : d.Known) (f : FunctionInfo) : addParam f d = .ok { f with
    params := f.params ++ [d.info]
    configs := f.configs ++ [(d.size, roundUp (configsEnd f.configs) d.gAlignment)] } := by
  rw [addParam, if_neg (not_not_intro h.1), if_neg (not_not_intro h.2),
    addConfigParam_eq _ _ h.gAlignment_pos]
  rfl

variable {decls : List ParamEntry} {e : ℕ}

theorem foldlM_addParam (h : ∀ d ∈ decls, d.Known) (f : FunctionInfo) :
    decls.foldlM addParam f = .ok { f with
      params := f.params ++ decls.map ParamEntry.info
      configs := f.configs ++ configsOf (configsEnd f.configs) decls } := by
  induction decls generalizing f with
  | nil =>
      rw [configsOf, List.map_nil, List.map_nil, List.zip_nil_left, List.append_nil,
        List.append_nil]
      rfl
  | cons d decls ih =>
      rw [List.foldlM_cons, addParam_ok (h d List.mem_cons_self)]
      refine (ih (fun d hd => h d (List.mem_cons_of_mem _ hd)) _).trans ?_
      have hend : configsEnd (f.configs ++ [(d.size, roundUp (configsEnd f.configs) d.gAlignment)])
          = roundUp (configsEnd f.configs) d.gAlignment + d.size := by
        rw [configsEnd, List.getLast?_concat]
      dsimp only
      rw [hend, configsOf_cons, List.append_assoc, List.append_assoc]
      rfl

theorem parse_ok (h : ∀ d ∈ decls, d.Known) :
    parse decls = .ok { params := decls.map ParamEntry.info, configs := configsOf 0 decls } :=
  foldlM_addParam h {}

theorem known_of_foldlM {f f₀ : FunctionInfo} (h : decls.foldlM addParam f = .ok f₀) :
    ∀ d ∈ decls, d.Known := by
  induction decls generalizing f with
  | nil => exact fun d hd => absurd hd List.not_mem_nil
  | cons d decls ih =>
      rw [List.foldlM_cons] at h
      obtain ⟨f₁, hd, hrest⟩ := bind_eq_ok.1 h
      have hknown : d.Known := by
        rw [addParam] at hd
        by_cases hsize : 0 < d.gSize
        · by_cases halign : d.gAlignment ∈ knownAlignments
          · exact ⟨hsize, halign⟩
          · rw [if_neg (not_not_intro hsize), if_pos halign] at hd
            cases hd
        · rw [if_pos hsize] at hd
          cases hd
      intro d' hd'
      obtain rfl | hd' := List.mem_cons.1 hd'
      · exact hknown
      · exact ih hrest d' hd'

/-! ## What is asked of each parameter -/

/-- Behind parameters that end at `e`, a parameter is placed as it should be: its own size rounds as
its alignment does, and a vector has its place within the words of an element, at a multiple of
what it is to be aligned to and before the next parameter. -/
def FitsAt (e : ℕ) (d : ParamEntry) (rest : List ParamEntry) : Prop :=
  d.Known ∧ d.Plain ∧ roundUp e d.size = roundUp e d.gAlignment ∧
    (d.vector ≠ .none →
      d.requiredAlignment ∣ roundUp e d.gAlignment ∧ d.bytes ≤ 4 * ((d.size + 3) / 4) ∧
        ∀ next ∈ rest.head?,
          roundUp e d.gAlignment + d.bytes ≤ roundUp
            (roundUp e d.gAlignment + d.size) next.gAlignment)

/-- The same of parameters that are no vectors too. -/
structure Placed (e : ℕ) (d : ParamEntry) (rest : List ParamEntry) : Prop where
  known : d.Known
  plain : d.Plain
  rounds : roundUp e d.size = roundUp e d.gAlignment
  aligned : d.requiredAlignment ∣ roundUp e d.gAlignment
  words : d.bytes ≤ 4 * ((d.size + 3) / 4)
  next : ∀ next ∈ rest.head?, next.Known →
    roundUp e d.gAlignment + d.bytes ≤ roundUp (roundUp e d.gAlignment + d.size) next.gAlignment

theorem FitsAt.placed {rest : List ParamEntry} (h : FitsAt e d rest) : Placed e d rest := by
  obtain ⟨hknown, hplain, hrounds, hvector⟩ := h
  by_cases hnone : d.vector = .none
  · have hbytes := hknown.bytes_eq hplain.1 hnone
    refine ⟨hknown, hplain, hrounds, (hknown.requiredAlignment_dvd hplain.1 hnone).trans
      dvd_roundUp,
      by omega, fun next _ hnext => ?_⟩
    rw [hbytes]
    exact le_roundUp hnext.gAlignment_pos
  · obtain ⟨haligned, hwords, hnext⟩ := hvector hnone
    exact ⟨hknown, hplain, hrounds, haligned, hwords, fun next hmem _ => hnext next hmem⟩

abbrev AllPlaced (e : ℕ) (decls : List ParamEntry) : Prop :=
  AtEach ParamEntry.size ParamEntry.gAlignment Placed e decls

theorem AllPlaced.known (h : AllPlaced e decls) : ∀ d ∈ decls, d.Known :=
  (AtEach.mono (fun _ _ _ hplaced => Placed.known hplaced) h).forall_mem

theorem AllPlaced.plain (h : AllPlaced e decls) : ∀ d ∈ decls, d.Plain :=
  (AtEach.mono (fun _ _ _ hplaced => Placed.plain hplaced) h).forall_mem

theorem Placed.next_le {rest : List ParamEntry} (h : Placed e d rest)
    (hrest : ∀ d ∈ rest, d.Known) : ∀ next ∈ rest.head?,
      roundUp e d.gAlignment + d.bytes ≤ roundUp
        (roundUp e d.gAlignment + d.size) next.gAlignment :=
  fun next hnext => h.next next hnext (hrest next (List.mem_of_mem_head? hnext))

/-! ## Parameters keep apart and are aligned -/

theorem le_of_mem_configsOf {e n : ℕ} (hknown : ∀ d ∈ decls, d.Known)
    (hfirst : ∀ next ∈ decls.head?, n ≤ roundUp e next.gAlignment) {q : ParamEntry × ℕ × ℕ}
    (hq : q ∈ decls.zip (configsOf e decls)) : n ≤ q.2.2 := by
  cases decls with
  | nil => exact absurd hq List.not_mem_nil
  | cons d decls =>
      have hd := hfirst d rfl
      obtain rfl | hq := List.mem_cons.1 hq
      · exact hd
      · have hmem := (List.of_mem_zip (List.of_mem_zip hq).2).2
        have hle := le_of_mem_offsets (fun d' hd' =>
          (hknown d' (List.mem_cons_of_mem d hd')).gAlignment_pos) hmem
        exact hd.trans ((Nat.le_add_right _ _).trans hle)

theorem AllPlaced.disjoint (h : AllPlaced e decls) :
    (decls.zip (configsOf e decls)).Pairwise fun p q => p.2.2 + p.1.bytes ≤ q.2.2 := by
  induction decls generalizing e with
  | nil => exact List.Pairwise.nil
  | cons d decls ih =>
      have hrest := AllPlaced.known h.2
      exact List.pairwise_cons.2 ⟨fun q hq =>
        le_of_mem_configsOf hrest (h.1.next_le hrest) hq, ih h.2⟩

theorem AllPlaced.aligned (h : AllPlaced e decls) :
    ∀ p ∈ decls.zip (configsOf e decls), p.1.requiredAlignment ∣ p.2.2 := by
  induction decls generalizing e with
  | nil =>
      intro p hp
      rw [List.zip_nil_left] at hp
      exact absurd hp List.not_mem_nil
  | cons d decls ih =>
      intro p hp
      obtain rfl | hp := List.mem_cons.1 hp
      · exact h.1.aligned
      · exact ih h.2 p hp

/-! ## What is copied -/

theorem foldl_overwrite (mem : ℕ → UInt8) (start : HostValue) (a n : ℕ) :
    (List.range n).foldl (fun mem word => overwrite mem (a + 4 * word) (cells start (4 * word) 4))
    mem
      = overwrite mem a (cells start 0 (4 * n)) := by
  induction n with
  | zero => rw [Nat.mul_zero, cells_zero, overwrite_nil, List.range_zero, List.foldl_nil]
  | succ n ih =>
      rw [List.range_succ, List.foldl_append, ih, Nat.mul_succ, cells_add, overwrite_append,
        length_cells,
        Nat.zero_add]
      rfl

theorem copyWords_eq (mem : ℕ → UInt8) (start : HostValue) (a size : ℕ) :
    copyWords mem start a size = overwrite mem a (cells start 0 (4 * ((size + 3) / 4))) :=
  foldl_overwrite mem start a _

/-- The memory after the values have been copied. -/
def stores : ℕ → (ℕ → UInt8) → List ParamEntry → List HostValue → ℕ → UInt8
  | e, mem, d :: decls, v :: values =>
    stores (roundUp e d.gAlignment + d.size) (copyWords mem v (roundUp e d.gAlignment) d.size) decls
      values
  | _, mem, _, _ => mem

theorem stores_of_lt {e a : ℕ} {mem : ℕ → UInt8} {values : List HostValue}
    (hknown : ∀ d ∈ decls, d.Known) (ha : ∀ next ∈ decls.head?, a < roundUp e next.gAlignment) :
    stores e mem decls values a = mem a := by
  induction decls generalizing e mem values with
  | nil => rw [stores.eq_def]
  | cons d decls ih =>
      cases values with
      | nil => rw [stores.eq_def]
      | cons v values =>
          have hlt := ha d rfl
          have hrest : ∀ d ∈ decls, d.Known := fun d' hd' => hknown d' (List.mem_cons_of_mem d hd')
          rw [stores, ih hrest fun next hnext => ?_, copyWords_eq, overwrite_of_lt hlt]
          have hnext' := hrest next (List.mem_of_mem_head? hnext)
          exact lt_of_lt_of_le hlt ((Nat.le_add_right _ _).trans (le_roundUp hnext'.gAlignment_pos))

theorem stores_head {e i : ℕ} (hknown : ∀ d ∈ decls, d.Known)
    (mem : ℕ → UInt8) (v : HostValue) (values : List HostValue) (hi : i < 4 * ((d.size + 3) / 4))
    (hnext : ∀ next ∈ decls.head?,
      roundUp e d.gAlignment + i < roundUp (roundUp e d.gAlignment + d.size) next.gAlignment) :
    stores e mem (d :: decls) (v :: values) (roundUp e d.gAlignment + i) = v i := by
  rw [stores, stores_of_lt hknown hnext, copyWords_eq,
    overwrite_add (by rw [length_cells]; exact hi)]
  simp [cells]

theorem AllPlaced.reads (h : AllPlaced e decls) (mem : ℕ → UInt8)
    (values : List HostValue) : ∀ p ∈ decls.zip (values.zip (configsOf e decls)),
      cells (stores e mem decls values) p.2.2.2 p.1.bytes = cells p.2.1 0 p.1.bytes := by
  induction decls generalizing e mem values with
  | nil =>
      intro p hp
      rw [List.zip_nil_left] at hp
      exact absurd hp List.not_mem_nil
  | cons d decls ih =>
      cases values with
      | nil =>
          intro p hp
          rw [List.zip_nil_left, List.zip_nil_right] at hp
          exact absurd hp List.not_mem_nil
      | cons v values =>
          have hrest := AllPlaced.known h.2
          intro p hp
          rw [configsOf_cons, List.zip_cons_cons, List.zip_cons_cons] at hp
          obtain rfl | hp := List.mem_cons.1 hp
          · refine List.map_congr_left fun i hi => ?_
            have hlt := List.mem_range.1 hi
            have hwords := h.1.words
            dsimp only at hlt ⊢
            rw [stores_head hrest mem v values (by omega) fun next hnext => ?_, Nat.zero_add]
            have hle := h.1.next_le hrest next hnext
            omega
          · exact ih h.2 _ values p hp

end GpuCalorie.Ptx.Params
