/-
# Sorting by a strict weak order

A sort by a strict weak order leaves elements that are equivalent in any order. What holds of all
its outcomes is said here of the first elements: one is among the first `k` of every outcome
exactly when it is before all but `k` elements.
-/

import Mathlib.Data.List.Nodup
import Mathlib.Data.List.Sort
import Mathlib.Order.Defs.Unbundled

namespace GpuCalorie.Math

universe u

variable {α : Type u}

/-- What a sort leaves: the same elements, and none after one that it is before. -/
structure Sorts (lt : α → α → Prop) (input sorted : List α) : Prop where
  perm : sorted.Perm input
  pairwise : sorted.Pairwise fun a b => ¬ lt b a

variable {lt : α → α → Prop}

theorem not_lt_trans [IsStrictWeakOrder α lt] {a b c : α} (hab : ¬ lt b a) (hbc : ¬ lt c b) :
    ¬ lt c a := by
  intro hlt
  have hcb : ¬ lt b c := fun h => hab (IsTrans.trans _ _ _ h hlt)
  have hba : ¬ lt a b := fun h => hbc (IsTrans.trans _ _ _ hlt h)
  exact (IsStrictWeakOrder.incomp_trans c b a ⟨hbc, hcb⟩ ⟨hab, hba⟩).1 hlt

namespace Sorts

variable {input sorted : List α}

theorem exists_sorts [IsStrictWeakOrder α lt] [DecidableRel lt] (input : List α) :
    ∃ sorted, Sorts lt input sorted := by
  let le : α → α → Bool := fun a b => !decide (lt b a)
  have hle : ∀ {a b}, le a b = true ↔ ¬ lt b a := fun {a b} => by simp [le]
  refine ⟨input.mergeSort le, List.mergeSort_perm input le, ?_⟩
  have htrans : ∀ a b c, le a b = true → le b c = true → le a c = true :=
    fun a b c hab hbc => hle.2 (not_lt_trans (hle.1 hab) (hle.1 hbc))
  have htotal : ∀ a b, (le a b || le b a) = true := by
    intro a b
    by_cases hlt : lt b a
    · have hnot : ¬ lt a b := fun h => irrefl_of lt b (IsTrans.trans _ _ _ hlt h)
      rw [hle.2 hnot, Bool.or_true]
    · rw [hle.2 hlt, Bool.true_or]
  have hpairwise := List.pairwise_mergeSort htrans htotal input
  exact hpairwise.imp hle.1

theorem mem_iff (h : Sorts lt input sorted) {a : α} : a ∈ sorted ↔ a ∈ input := h.perm.mem_iff

theorem not_lt_of_take (h : Sorts lt input sorted) {k : ℕ} {a b : α} (ha : a ∈ sorted.take k)
    (hb : b ∈ input) (hleft : b ∉ sorted.take k) : ¬ lt b a := by
  have hpairwise := h.pairwise
  have hmem := h.mem_iff.2 hb
  rw [← List.take_append_drop k sorted] at hpairwise hmem
  have hdrop := (List.mem_append.1 hmem).resolve_left hleft
  exact (List.pairwise_append.1 hpairwise).2.2 a ha b hdrop

theorem pairwise_take (h : Sorts lt input sorted) (k : ℕ) :
    (sorted.take k).Pairwise fun a b => ¬ lt b a :=
  h.pairwise.sublist (List.take_sublist k sorted)

variable [DecidableRel lt] {a : α} {k : ℕ}

theorem countP_cons_self [IsStrictWeakOrder α lt] (a : α) (rest : List α) :
    (a :: rest).countP (fun b => ¬ lt a b) = rest.countP (fun b => ¬ lt a b) + 1 := by
  rw [List.countP_cons]
  simp [irrefl_of lt a]

theorem mem_take [IsStrictWeakOrder α lt] (h : Sorts lt input sorted) (ha : a ∈ input)
    (hk : input.countP (fun b => ¬ lt a b) ≤ k) : a ∈ sorted.take k := by
  obtain ⟨first, rest, rfl⟩ := List.append_of_mem (h.mem_iff.2 ha)
  have hfirst : ∀ b ∈ first, ¬ lt a b := fun b hb =>
    (List.pairwise_append.1 h.pairwise).2.2 b hb a (List.mem_cons_self ..)
  have hcount : first.length < (first ++ a :: rest).countP fun b => ¬ lt a b := by
    have hall : first.countP (fun b => ¬ lt a b) = first.length :=
      List.countP_eq_length.2 fun b hb => decide_eq_true (hfirst b hb)
    rw [List.countP_append, hall, countP_cons_self]
    omega
  rw [h.perm.countP_eq] at hcount
  obtain ⟨left, rfl⟩ := Nat.exists_eq_add_of_lt (lt_of_lt_of_le hcount hk)
  rw [Nat.add_assoc, List.take_length_add_append, List.take_succ_cons]
  exact List.mem_append_right _ (List.mem_cons_self ..)

theorem exists_notMem_take [IsStrictWeakOrder α lt] [DecidableEq α] (hnodup : input.Nodup)
    (ha : a ∈ input) (hk : k < input.countP fun b => ¬ lt a b) :
    ∃ sorted, Sorts lt input sorted ∧ a ∉ sorted.take k := by
  -- `a` is put after all that it is not before
  obtain ⟨low, hlow⟩ : ∃ low, Sorts lt ((input.erase a).filter fun b => ¬ lt a b) low :=
    exists_sorts _
  obtain ⟨high, hhigh⟩ : ∃ high, Sorts lt ((input.erase a).filter fun b => lt a b) high :=
    exists_sorts _
  have hlowMem : ∀ b ∈ low, b ∈ input.erase a ∧ ¬ lt a b := fun b hb => by
    simpa using hlow.mem_iff.1 hb
  have hhighMem : ∀ b ∈ high, lt a b := fun b hb =>
    (by simpa using hhigh.mem_iff.1 hb : b ∈ input.erase a ∧ lt a b).2
  have hparts : (low ++ high).Perm (input.erase a) := by
    have hfilter := List.filter_append_perm (fun b => decide (¬ lt a b)) (input.erase a)
    simp only [decide_not, Bool.not_not] at hfilter
    exact (hlow.perm.append hhigh.perm).trans (by simpa using hfilter)
  have hlength : k ≤ low.length := by
    have hcount := (List.perm_cons_erase ha).countP_eq fun b => decide (¬ lt a b)
    rw [countP_cons_self] at hcount
    rw [hlow.perm.length_eq, ← List.countP_eq_length_filter]
    omega
  refine ⟨low ++ a :: high, ⟨?_, ?_⟩, ?_⟩
  · exact List.perm_middle.trans ((hparts.cons a).trans (List.perm_cons_erase ha).symm)
  · refine List.pairwise_append.2 ⟨hlow.pairwise, List.pairwise_cons.2 ⟨?_, hhigh.pairwise⟩, ?_⟩
    · intro b hb hlt
      exact irrefl_of lt a (IsTrans.trans _ _ _ (hhighMem b hb) hlt)
    · intro b hb c hc hlt
      obtain rfl | hc := List.mem_cons.1 hc
      · exact (hlowMem b hb).2 hlt
      · exact (hlowMem b hb).2 (IsTrans.trans _ _ _ (hhighMem c hc) hlt)
  · rw [List.take_append_of_le_length hlength]
    intro hmem
    exact hnodup.not_mem_erase (hlowMem a (List.mem_of_mem_take hmem)).1

end Sorts

end GpuCalorie.Math
