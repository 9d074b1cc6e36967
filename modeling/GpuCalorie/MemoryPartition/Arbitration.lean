/-
# The credits of a DRAM channel

The sub-partitions of a memory partition share its DRAM channel by credits. Each has one of
its own, and the rest is shared up to a limit that the queues of the channel set; a limit
of zero stands for none. A credit is borrowed for a request, the own one first, and
returned in the same order.

For any history of requests the credits that are out are the requests that are: the shared
ones are, summed over the sub-partitions, the outstanding requests less the own credit.
-/

import GpuCalorie.Dram.Types
import GpuCalorie.Math.Outcome
import Mathlib.Algebra.Order.BigOperators.Group.Finset
import Mathlib.Tactic.Ring

namespace GpuCalorie.MemoryPartition

open Dram GpuCalorie.Math

/-- The assertions of `arbitration_metadata`. -/
inductive CreditFailure
  /-- `m_shared_credit_limit >= 0` -/
  | negativeLimit
  /-- "Borrowing from depleted credit!" -/
  | depleted
  /-- "Returning more than available credits!" -/
  | returnedTooMany
  deriving DecidableEq, Repr

/-- `arbitration_metadata`. The credits of the sub-partitions are those borrowed. -/
structure Arbitration where
  lastBorrower : ℕ
  sharedCreditLimit : ℤ
  privateCreditLimit : ℤ
  privateCredit : ℕ → ℤ
  sharedCredit : ℤ

namespace Arbitration

/-- The limit of the shared credits. -/
def limitOf (cfg : DramConfig) (nSub : ℕ) : ℤ :=
  if cfg.schedQueueSize = 0 ∨ cfg.returnQueueSize = 0 then 0
  else cfg.schedQueueSize + cfg.returnQueueSize - (nSub - 1) +
    if cfg.seperateWriteQueueEnabled then (cfg.writeQueueSize : ℤ) else 0

/-- The constructor. -/
def new (cfg : DramConfig) (nSub : ℕ) : Except CreditFailure Arbitration :=
  if limitOf cfg nSub < 0 then .error .negativeLimit
  else .ok
    { lastBorrower := nSub - 1
      sharedCreditLimit := limitOf cfg nSub
      privateCreditLimit := 1
      privateCredit := fun _ => 0
      sharedCredit := 0 }

/-- The shared credits are not used up. -/
def SharedLeft (a : Arbitration) : Prop :=
  a.sharedCreditLimit = 0 ∨ a.sharedCredit < a.sharedCreditLimit

instance (a : Arbitration) : Decidable a.SharedLeft :=
  inferInstanceAs (Decidable (_ ∨ _))

/-- `has_credits`. -/
def hasCredits (a : Arbitration) (spid : ℕ) : Bool :=
  decide (a.privateCredit spid < a.privateCreditLimit ∨ a.SharedLeft)

/-- `borrow_credit`. -/
def borrowCredit (a : Arbitration) (spid : ℕ) : Except CreditFailure Arbitration :=
  if a.privateCredit spid < a.privateCreditLimit then
    .ok { a with
      privateCredit := Function.update a.privateCredit spid (a.privateCredit spid + 1)
      lastBorrower := spid }
  else if a.SharedLeft then
    .ok { a with sharedCredit := a.sharedCredit + 1, lastBorrower := spid }
  else .error .depleted

/-- `return_credit`. -/
def returnCredit (a : Arbitration) (spid : ℕ) : Except CreditFailure Arbitration :=
  let returned :=
    if 0 < a.privateCredit spid then
      { a with privateCredit := Function.update a.privateCredit spid (a.privateCredit spid - 1) }
    else { a with sharedCredit := a.sharedCredit - 1 }
  if 0 ≤ returned.sharedCredit then .ok returned else .error .returnedTooMany

/-! ## The credits and the requests they are for -/

/-- The credits fit the numbers of outstanding requests of the sub-partitions. -/
structure Balanced (nSub : ℕ) (a : Arbitration) (outstanding : ℕ → ℕ) : Prop where
  limit : a.privateCreditLimit = 1
  own : ∀ p, p < nSub → a.privateCredit p = 0 ∨ a.privateCredit p = 1
  covered : ∀ p, p < nSub → a.privateCredit p ≤ outstanding p
  shared : a.sharedCredit = ∑ p ∈ Finset.range nSub, ((outstanding p : ℤ) - a.privateCredit p)
  bounded : a.sharedCreditLimit = 0 ∨ a.sharedCredit ≤ a.sharedCreditLimit

variable {nSub : ℕ} {a : Arbitration} {outstanding outstanding' : ℕ → ℕ}

theorem sum_of_change {n p : ℕ} (hp : p < n) {f g : ℕ → ℤ} (hrest : ∀ i, i ≠ p → f i = g i) :
    ∑ i ∈ Finset.range n, f i = ∑ i ∈ Finset.range n, g i + (f p - g p) := by
  have hmem : p ∈ Finset.range n := Finset.mem_range.mpr hp
  have hsame : ∑ i ∈ (Finset.range n).erase p, f i = ∑ i ∈ (Finset.range n).erase p, g i :=
    Finset.sum_congr rfl fun i hi => hrest i (Finset.ne_of_mem_erase hi)
  rw [← Finset.add_sum_erase _ f hmem, ← Finset.add_sum_erase _ g hmem, hsame]
  ring

theorem Balanced.shared_nonneg (h : a.Balanced nSub outstanding) : 0 ≤ a.sharedCredit := by
  rw [h.shared]
  apply Finset.sum_nonneg
  intro p hp
  have hcovered := h.covered p (Finset.mem_range.mp hp)
  omega

theorem balanced_new {cfg : DramConfig} (h : new cfg nSub = .ok a) :
    a.Balanced nSub fun _ => 0 := by
  unfold new at h
  split_ifs at h with hlimit
  cases h
  refine ⟨rfl, fun _ _ => .inl rfl, fun _ _ => le_rfl, ?_, .inr (not_lt.mp hlimit)⟩
  simp

section Change

variable {p lastBorrower : ℕ} {change : ℤ} (h : a.Balanced nSub outstanding) (hp : p < nSub)
  (hat : (outstanding' p : ℤ) = outstanding p + change)
  (hrest : ∀ i, i ≠ p → outstanding' i = outstanding i)
include h hp hat hrest

theorem Balanced.changeOwn
    (hown : a.privateCredit p + change = 0 ∨ a.privateCredit p + change = 1) :
    Balanced nSub
      { a with
        privateCredit := Function.update a.privateCredit p (a.privateCredit p + change)
        lastBorrower }
      outstanding' := by
  refine ⟨h.limit, fun i hi => ?_, fun i hi => ?_, h.shared.trans ?_, h.bounded⟩
  · by_cases hip : i = p
    · subst hip
      simpa using hown
    · simpa [hip] using h.own i hi
  · have hcovered := h.covered i hi
    by_cases hip : i = p
    · subst hip
      simp only [Function.update_self]
      omega
    · simpa [hip, hrest i hip] using hcovered
  · refine Finset.sum_congr rfl fun i _ => ?_
    by_cases hip : i = p
    · subst hip
      simp only [Function.update_self]
      omega
    · simp [hip, hrest i hip]

theorem Balanced.changeShared (hcovered : a.privateCredit p ≤ outstanding' p)
    (hbounded : a.sharedCreditLimit = 0 ∨ a.sharedCredit + change ≤ a.sharedCreditLimit) :
    Balanced nSub { a with sharedCredit := a.sharedCredit + change, lastBorrower }
      outstanding' := by
  refine ⟨h.limit, h.own, fun i hi => ?_, ?_, hbounded⟩
  · by_cases hip : i = p
    · exact hip ▸ hcovered
    · exact hrest i hip ▸ h.covered i hi
  · show a.sharedCredit + change =
      ∑ i ∈ Finset.range nSub, ((outstanding' i : ℤ) - a.privateCredit i)
    rw [sum_of_change hp (g := fun i => (outstanding i : ℤ) - a.privateCredit i)
      fun i hi => by rw [hrest i hi], ← h.shared, hat]
    ring

end Change

theorem Balanced.borrow (h : a.Balanced nSub outstanding) {p : ℕ} (hp : p < nSub)
    (hcredits : a.hasCredits p = true) (hmore : outstanding' p = outstanding p + 1)
    (hrest : ∀ i, i ≠ p → outstanding' i = outstanding i) :
    ∃ next, a.borrowCredit p = .ok next ∧ next.Balanced nSub outstanding' := by
  have hcredits : a.privateCredit p < a.privateCreditLimit ∨ a.SharedLeft := by
    simpa [hasCredits] using hcredits
  have hat : (outstanding' p : ℤ) = outstanding p + 1 := by omega
  have hown := h.own p hp
  have hcovered := h.covered p hp
  unfold borrowCredit
  split_ifs with hless hleft
  · rw [h.limit] at hless
    exact ⟨_, rfl, h.changeOwn hp hat hrest (by omega)⟩
  · exact ⟨_, rfl, h.changeShared hp hat hrest (by omega) (hleft.imp_right fun hlt => hlt)⟩
  · exact absurd hcredits (not_or.mpr ⟨hless, hleft⟩)

theorem Balanced.giveBack (h : a.Balanced nSub outstanding) {p : ℕ} (hp : p < nSub)
    (hless : outstanding p = outstanding' p + 1)
    (hrest : ∀ i, i ≠ p → outstanding' i = outstanding i) :
    ∃ next, a.returnCredit p = .ok next ∧ next.Balanced nSub outstanding' := by
  have hat : (outstanding' p : ℤ) = outstanding p + -1 := by omega
  have hown := h.own p hp
  have hcases : ∃ next, (if 0 < a.privateCredit p then
      { a with privateCredit := Function.update a.privateCredit p (a.privateCredit p - 1) }
      else { a with sharedCredit := a.sharedCredit - 1 }) = next ∧
      next.Balanced nSub outstanding' := by
    split_ifs with hpos
    · exact ⟨_, rfl, h.changeOwn hp hat hrest (by omega)⟩
    · have hbounded := h.bounded
      exact ⟨_, rfl, h.changeShared hp hat hrest (by omega) (by omega)⟩
  obtain ⟨next, hnext, hbalanced⟩ := hcases
  refine ⟨next, ?_, hbalanced⟩
  unfold returnCredit
  simp only [hnext, if_pos hbalanced.shared_nonneg]

end Arbitration

end GpuCalorie.MemoryPartition
