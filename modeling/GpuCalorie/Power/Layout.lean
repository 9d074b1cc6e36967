/-
# The vector of powers

`power_interface::cycle` turns the accesses of an interval into a power for each block of the
floor plan: seven for each SM, then the L2 and three memory controllers. It writes into a
vector of fixed length, and the last four always at the same place.

Powers are rational numbers here, so that the energies can be added up; the floating-point
arithmetic of the source rounds.
-/

import GpuCalorie.Math.Loop
import GpuCalorie.Math.Outcome
import Mathlib.Algebra.BigOperators.Fin
import Mathlib.Algebra.BigOperators.Field
import Mathlib.Algebra.Field.Rat
import Mathlib.Data.List.GetD
import Mathlib.Tactic.Ring

namespace GpuCalorie.Power

open GpuCalorie.Math

/-- The energies per access of the configuration. -/
structure EnergyPerAccess where
  decode : ℚ
  alu : ℚ
  fp : ℚ
  dp : ℚ
  mul32 : ℚ
  sfu : ℚ
  rf : ℚ
  l1 : ℚ
  shd : ℚ
  l2 : ℚ
  dram : ℚ

/-- The accesses of an SM in an interval. -/
structure SmAccesses where
  decode : ℕ
  alu : ℕ
  fp : ℕ
  dp : ℕ
  intMul32 : ℕ
  sfu : ℕ
  nbRf : ℕ
  l1 : ℕ
  shdMem : ℕ

/-- The accesses of an interval. Those of the L2 are its read hits and write hits. -/
structure Accesses where
  sm : ℕ → SmAccesses
  l2 : ℕ
  dram : ℕ

/-- A write outside of the vector. -/
inductive PowerFailure
  | outOfBounds
  deriving DecidableEq, Repr

/-- `vals`, with the slots that were written, in order. -/
structure Vals where
  slot : ℕ → ℚ
  written : List ℕ := []

/-- The length of `vals`. -/
def numVals : ℕ := 46

/-- `numComponents`. -/
def numComponents : ℕ := 7

/-- `vals[i] = x`. -/
def Vals.store (vals : Vals) (i : ℕ) (x : ℚ) : Except PowerFailure Vals :=
  if i < numVals then
    .ok { slot := Function.update vals.slot i x, written := vals.written ++ [i] }
  else .error .outOfBounds

/-- A round of the loop over the SMs in `cycle`. -/
def cycleSM (epa : EnergyPerAccess) (accesses : Accesses) (corePeriod : ℚ) (SM : ℕ) (vals : Vals) :
    Except PowerFailure Vals := do
  let a := accesses.sm SM
  let decodeP := a.decode * epa.decode / corePeriod
  let aluP := a.alu * epa.alu / corePeriod
  let fpP := a.fp * epa.fp / corePeriod
  let dpP := a.dp * epa.dp / corePeriod
  let intMul32P := a.intMul32 * epa.mul32 / corePeriod
  let sfuP := a.sfu * epa.sfu / corePeriod
  let nbRfP := a.nbRf * epa.rf / corePeriod
  let l1P := a.l1 * epa.l1 / corePeriod
  let shdMemP := a.shdMem * epa.shd / corePeriod
  let vals ← vals.store (SM * numComponents + 0) ((aluP + fpP + dpP + intMul32P + sfuP) / 2)
  let vals ← vals.store (SM * numComponents + 1) ((aluP + fpP + dpP + intMul32P + sfuP) / 2)
  let vals ← vals.store (SM * numComponents + 2) decodeP
  let vals ← vals.store (SM * numComponents + 3) (l1P / 2)
  let vals ← vals.store (SM * numComponents + 4) (l1P / 2)
  let vals ← vals.store (SM * numComponents + 5) nbRfP
  vals.store (SM * numComponents + 6) shdMemP

/-- `power_interface::cycle`, with what the vector has at first. -/
def cycle (epa : EnergyPerAccess) (accesses : Accesses) (corePeriod : ℚ) (numShaders : ℕ)
    (vals : ℕ → ℚ) : Except PowerFailure Vals := do
  let vals ← countUp (cycleSM epa accesses corePeriod) numShaders { slot := vals }
  let l2P := accesses.l2 * epa.l2 / corePeriod
  let dramP := accesses.dram * epa.dram / corePeriod
  let vals ← vals.store (6 * numComponents + 0) l2P
  let vals ← vals.store (6 * numComponents + 1) (dramP / 3)
  let vals ← vals.store (6 * numComponents + 2) (dramP / 3)
  vals.store (6 * numComponents + 3) (dramP / 3)

/-! ## What the vector is to be -/

/-- The slots there are: those of the SMs, of the L2 and of the memory controllers. -/
def numSlots (numShaders : ℕ) : ℕ := numShaders * numComponents + 4

/-- The energy of the accesses of an SM. -/
def smEnergy (epa : EnergyPerAccess) (a : SmAccesses) : ℚ :=
  a.decode * epa.decode + a.alu * epa.alu + a.fp * epa.fp + a.dp * epa.dp +
    a.intMul32 * epa.mul32 + a.sfu * epa.sfu + a.nbRf * epa.rf + a.l1 * epa.l1 + a.shdMem * epa.shd

/-- The energy of all accesses. -/
def totalEnergy (epa : EnergyPerAccess) (accesses : Accesses) (numShaders : ℕ) : ℚ :=
  ∑ SM ∈ Finset.range numShaders, smEnergy epa (accesses.sm SM) +
    (accesses.l2 * epa.l2 + accesses.dram * epa.dram)

/-- Every slot is written once and nothing else, and the powers are those of the energies. -/
structure Layout (epa : EnergyPerAccess) (accesses : Accesses) (corePeriod : ℚ) (numShaders : ℕ)
    (vals : Vals) : Prop where
  once : vals.written.Nodup
  slots : ∀ i, i ∈ vals.written ↔ i < numSlots numShaders
  sum : ∑ i ∈ Finset.range (numSlots numShaders), vals.slot i =
    totalEnergy epa accesses numShaders / corePeriod

/-! ## Writing slots in a row -/

namespace Vals

/-- Slots that follow each other are written. -/
def storeFrom (base : ℕ) : List ℚ → Vals → Except PowerFailure Vals
  | [], vals => .ok vals
  | x :: xs, vals => do storeFrom (base + 1) xs (← vals.store base x)

/-- The vector afterwards. -/
def stored (base : ℕ) (xs : List ℚ) (vals : Vals) : Vals where
  slot i := if i < base then vals.slot i else xs.getD (i - base) (vals.slot i)
  written := vals.written ++ List.range' base xs.length

theorem slot_stored_of_lt {base i : ℕ} (hi : i < base) (xs : List ℚ) (vals : Vals) :
    (stored base xs vals).slot i = vals.slot i := if_pos hi

variable {xs : List ℚ}

theorem slot_stored_add {base j : ℕ} (hj : j < xs.length) (vals : Vals) :
    (stored base xs vals).slot (base + j) = xs[j] := by
  have hnot : ¬ base + j < base := by omega
  rw [stored]
  dsimp only
  rw [if_neg hnot, Nat.add_sub_cancel_left, List.getD_eq_getElem _ _ hj]

theorem stored_cons (base : ℕ) (x : ℚ) (xs : List ℚ) (vals : Vals) :
    stored (base + 1) xs { slot := Function.update vals.slot base x, written :=
      vals.written ++ [base] } =
      stored base (x :: xs) vals := by
  rw [stored, stored, Vals.mk.injEq]
  refine ⟨funext fun i => ?_, by rw [List.length_cons, List.range'_succ, List.append_assoc]; rfl⟩
  dsimp only
  rcases Nat.lt_trichotomy i base with hlt | rfl | hgt
  · rw [if_pos hlt, if_pos (Nat.lt_succ_of_lt hlt), Function.update_of_ne hlt.ne]
  · rw [if_pos (Nat.lt_succ_self i), if_neg (lt_irrefl i), Function.update_self, Nat.sub_self]
    rfl
  · obtain ⟨j, rfl⟩ := Nat.exists_eq_add_of_lt hgt
    have hsub : base + j + 1 - base = j + 1 := by omega
    have hsub' : base + j + 1 - (base + 1) = j := by omega
    rw [if_neg (by omega), if_neg (by omega), Function.update_of_ne hgt.ne', hsub, hsub']
    rfl

theorem storeFrom_ok {base : ℕ} (hbound : base + xs.length ≤ numVals) (vals : Vals) :
    storeFrom base xs vals = .ok (stored base xs vals) := by
  induction xs generalizing base vals with
  | nil =>
      rw [storeFrom, stored]
      simp
  | cons x xs ih =>
      rw [List.length_cons] at hbound
      have hlt : base < numVals := by omega
      rw [storeFrom, store, if_pos hlt]
      show storeFrom (base + 1) xs _ = _
      rw [ih (by omega), stored_cons]

theorem storeFrom_error {base : ℕ} (hbound : numVals < base + xs.length)
    (hbase : base ≤ numVals) (vals : Vals) : storeFrom base xs vals = .error .outOfBounds := by
  induction xs generalizing base vals with
  | nil => exact absurd hbound (Nat.not_lt.mpr hbase)
  | cons x xs ih =>
      rw [List.length_cons] at hbound
      rw [storeFrom, store]
      split
      · rename_i hlt
        exact ih (by omega) hlt _
      · rfl

end Vals

/-- The powers of an SM, slot by slot. -/
def smSlots (epa : EnergyPerAccess) (a : SmAccesses) (corePeriod : ℚ) : List ℚ :=
  let aluP := a.alu * epa.alu / corePeriod
  let fpP := a.fp * epa.fp / corePeriod
  let dpP := a.dp * epa.dp / corePeriod
  let intMul32P := a.intMul32 * epa.mul32 / corePeriod
  let sfuP := a.sfu * epa.sfu / corePeriod
  let l1P := a.l1 * epa.l1 / corePeriod
  [(aluP + fpP + dpP + intMul32P + sfuP) / 2, (aluP + fpP + dpP + intMul32P + sfuP) / 2,
    a.decode * epa.decode / corePeriod, l1P / 2, l1P / 2, a.nbRf * epa.rf / corePeriod,
    a.shdMem * epa.shd / corePeriod]

/-- The powers of the memory, slot by slot. -/
def memSlots (epa : EnergyPerAccess) (accesses : Accesses) (corePeriod : ℚ) : List ℚ :=
  let dramP := accesses.dram * epa.dram / corePeriod
  [accesses.l2 * epa.l2 / corePeriod, dramP / 3, dramP / 3, dramP / 3]

variable {epa : EnergyPerAccess} {accesses : Accesses} {corePeriod : ℚ} {n SM : ℕ}

theorem sum_smSlots (a : SmAccesses) :
    (smSlots epa a corePeriod).sum = smEnergy epa a / corePeriod := by
  simp only [smSlots, smEnergy, List.sum_cons, List.sum_nil]
  ring

theorem sum_memSlots : (memSlots epa accesses corePeriod).sum =
    (accesses.l2 * epa.l2 + accesses.dram * epa.dram) / corePeriod := by
  simp only [memSlots, List.sum_cons, List.sum_nil]
  ring

theorem store_bind_ok (vals : Vals) (i : ℕ) (x : ℚ) :
    (vals.store i x >>= fun vals => .ok vals) = vals.store i x := by
  cases vals.store i x <;> rfl

theorem cycleSM_eq (vals : Vals) : cycleSM epa accesses corePeriod SM vals =
    Vals.storeFrom (SM * numComponents) (smSlots epa (accesses.sm SM) corePeriod) vals := by
  simp only [cycleSM, smSlots, Vals.storeFrom, store_bind_ok, Nat.add_assoc, Nat.reduceAdd,
    Nat.add_zero]

theorem cycle_eq (vals : ℕ → ℚ) : cycle epa accesses corePeriod n vals =
    countUp (cycleSM epa accesses corePeriod) n { slot := vals } >>=
      Vals.storeFrom (6 * numComponents) (memSlots epa accesses corePeriod) := by
  simp only [cycle, memSlots, Vals.storeFrom, store_bind_ok, Nat.add_assoc, Nat.reduceAdd,
    Nat.add_zero]

/-- The vector after the SMs below a number. -/
structure SmsStored (epa : EnergyPerAccess) (accesses : Accesses) (corePeriod : ℚ) (n : ℕ)
    (vals : Vals) :
    Prop where
  written : vals.written = List.range (n * numComponents)
  slots : ∀ SM < n, ∀ j (hj : j < (smSlots epa (accesses.sm SM) corePeriod).length),
    vals.slot (SM * numComponents + j) = (smSlots epa (accesses.sm SM) corePeriod)[j]

theorem range_append (base m : ℕ) :
    List.range base ++ List.range' base m = List.range (base + m) := by
  rw [List.range_eq_range', List.range_eq_range']
  simpa using List.range'_append_1 (s := 0) (m := base) (n := m)

theorem countUp_cycleSM (epa : EnergyPerAccess) (accesses : Accesses) (corePeriod : ℚ) (hn : n ≤ 6)
    (vals : ℕ → ℚ) :
    ∃ vals', countUp (cycleSM epa accesses corePeriod) n { slot := vals } = .ok vals' ∧
      SmsStored epa accesses corePeriod n vals' := by
  apply countUp_ok n
  · rintro k hk v ⟨hwritten, hslots⟩
    have hbound : k * numComponents + (smSlots epa (accesses.sm k) corePeriod).length ≤
        numVals := by
      have hlt : k < 6 := by omega
      show k * 7 + 7 ≤ 46
      omega
    rw [cycleSM_eq, Vals.storeFrom_ok hbound]
    refine ⟨_, rfl, ?_, fun SM hSM j hj => ?_⟩
    · show v.written ++ List.range' (k * numComponents) 7 = _
      rw [hwritten, range_append]
      exact congrArg List.range (Nat.succ_mul k numComponents).symm
    · rcases Nat.lt_succ_iff_lt_or_eq.mp hSM with hlt | rfl
      · have hbefore : SM * numComponents + j < k * numComponents := by
          have hj' : j < 7 := hj
          show SM * 7 + j < k * 7
          omega
        rw [Vals.slot_stored_of_lt hbefore]
        exact hslots SM hlt j hj
      · exact Vals.slot_stored_add hj v
  · exact ⟨rfl, nofun⟩

theorem sum_slots (f : ℕ → ℚ) (n : ℕ) : ∑ i ∈ Finset.range (numSlots n), f i =
    ∑ SM ∈ Finset.range n, ∑ j ∈ Finset.range numComponents, f (SM * numComponents + j) +
      ∑ j ∈ Finset.range 4, f (n * numComponents + j) := by
  rw [numSlots, Finset.sum_range_add]
  congr 1
  induction n with
  | zero => rw [Nat.zero_mul]; rfl
  | succ n ih => rw [Nat.succ_mul, Finset.sum_range_add, Finset.sum_range_succ, ih]

theorem sum_range_getElem (xs : List ℚ) (f : ℕ → ℚ) (h : ∀ j (hj : j < xs.length), f j = xs[j]) :
    ∑ j ∈ Finset.range xs.length, f j = xs.sum := by
  rw [← Fin.sum_univ_eq_sum_range f, ← Fin.sum_univ_getElem]
  exact Finset.sum_congr rfl fun j _ => h j j.isLt

theorem layout_of_six (vals : ℕ → ℚ) :
    OkOr (Layout epa accesses corePeriod 6) (fun _ => False)
      (cycle epa accesses corePeriod 6 vals) := by
  obtain ⟨v, hv, hwritten, hslots⟩ :=
    countUp_cycleSM epa accesses corePeriod le_rfl vals
  have hbound : 6 * numComponents + (memSlots epa accesses corePeriod).length ≤ numVals := le_rfl
  rw [cycle_eq, hv]
  show OkOr _ _ (Vals.storeFrom (6 * numComponents) (memSlots epa accesses corePeriod) v)
  rw [Vals.storeFrom_ok hbound]
  have hall : (Vals.stored (6 * numComponents) (memSlots epa accesses corePeriod) v).written =
      List.range (numSlots 6) := by
    rw [Vals.stored, hwritten]
    exact range_append (6 * numComponents) 4
  refine ⟨?_, fun i => ?_, ?_⟩
  · rw [hall]
    exact List.nodup_range
  · rw [hall]
    exact List.mem_range
  · have hsm : ∀ SM ∈ Finset.range 6, ∑ j ∈ Finset.range numComponents,
        (Vals.stored (6 * numComponents) (memSlots epa accesses corePeriod) v).slot
          (SM * numComponents + j) =
          smEnergy epa (accesses.sm SM) / corePeriod := by
      intro SM hSM
      have hlt := Finset.mem_range.mp hSM
      rw [← sum_smSlots]
      refine sum_range_getElem (smSlots epa (accesses.sm SM) corePeriod) _ fun j hj => ?_
      have hj' : j < 7 := hj
      have hbefore : SM * numComponents + j < 6 * numComponents := by
        show SM * 7 + j < 6 * 7
        omega
      rw [Vals.slot_stored_of_lt hbefore]
      exact hslots SM hlt j hj
    have hmem := sum_range_getElem (memSlots epa accesses corePeriod)
      (fun j => (Vals.stored (6 * numComponents) (memSlots epa accesses corePeriod) v).slot
        (6 * numComponents + j)) fun j hj => Vals.slot_stored_add hj v
    rw [sum_slots, Finset.sum_congr rfl hsm, ← Finset.sum_div]
    rw [show (4 : ℕ) = (memSlots epa accesses corePeriod).length from rfl, hmem, sum_memSlots,
      totalEnergy]
    ring

theorem not_layout_of_lt (hn : n < 6) (vals : ℕ → ℚ) :
    ¬ OkOr (Layout epa accesses corePeriod n) (fun _ => False)
      (cycle epa accesses corePeriod n vals) := by
  obtain ⟨v, hv, hwritten, -⟩ :=
    countUp_cycleSM epa accesses corePeriod hn.le vals
  have hbound : 6 * numComponents + (memSlots epa accesses corePeriod).length ≤ numVals := le_rfl
  rw [cycle_eq, hv]
  show ¬ OkOr _ _ (Vals.storeFrom (6 * numComponents) (memSlots epa accesses corePeriod) v)
  rw [Vals.storeFrom_ok hbound]
  intro hlayout
  -- the slot of the L2 is written behind the last one
  have hmem : 6 * numComponents ∈
      (Vals.stored (6 * numComponents) (memSlots epa accesses corePeriod) v).written := by
    rw [Vals.stored]
    exact List.mem_append_right _ (List.mem_range'_1.mpr
      ⟨le_rfl, Nat.lt_add_of_pos_right (Nat.succ_pos 3)⟩)
  have hlt : 6 * 7 < n * 7 + 4 := (hlayout.slots _).mp hmem
  omega

theorem cycle_eq_error (hn : 6 < n) (vals : ℕ → ℚ) :
    cycle epa accesses corePeriod n vals = .error .outOfBounds := by
  obtain ⟨v, hv, -⟩ :=
    countUp_cycleSM epa accesses corePeriod le_rfl vals
  have hbound : numVals < 6 * numComponents + (smSlots epa (accesses.sm 6) corePeriod).length :=
    show 46 < 6 * 7 + 7 by decide
  have hloop : countUp (cycleSM epa accesses corePeriod) n { slot := vals } =
      .error .outOfBounds := by
    induction n, hn using Nat.le_induction with
    | base =>
        rw [countUp, hv]
        show cycleSM epa accesses corePeriod 6 v = _
        rw [cycleSM_eq, Vals.storeFrom_error hbound (by decide)]
    | succ n _ ih =>
        rw [countUp, ih]
        rfl
  rw [cycle_eq, hloop]
  rfl

/-- Energies of one for each access. -/
def unitEnergy : EnergyPerAccess := ⟨1, 1, 1, 1, 1, 1, 1, 1, 1, 1, 1⟩

end GpuCalorie.Power
