/-
# First fit

Items come one after the other, and each is put into the first bin without an item it is in
conflict with, or into a new one. The bin of an item is the least number that no earlier item
in conflict with it has. These numbers are a property of the items alone; a list of bins is what
they say when its bins agree with them so far.
-/

import Mathlib.Data.Finset.Max
import Mathlib.Data.Nat.Find
import Mathlib.Order.Bounds.Basic

namespace GpuCalorie.Math

universe u v

section Numbers

variable {ι : Type u} [LinearOrder ι] {items : Finset ι} {conflict : ι → ι → Prop} {number : ι → ℕ}

/-- Each item has the least number that no earlier item in conflict with it has. -/
def IsFirstFit (items : Finset ι) (conflict : ι → ι → Prop) (number : ι → ℕ) : Prop :=
  ∀ i ∈ items, IsLeast {n | ∀ j ∈ items, j < i → conflict j i → number j ≠ n} (number i)

section

variable (h : IsFirstFit items conflict number)
include h

theorem IsFirstFit.not_conflict {i j : ι} (hi : i ∈ items)
    (hj : j ∈ items) (hlt : j < i) (heq : number j = number i) : ¬ conflict j i :=
  fun hconflict => (h i hi).1 j hj hlt hconflict heq

theorem IsFirstFit.exists_conflict {i : ι} (hi : i ∈ items)
    {n : ℕ} (hn : n < number i) : ∃ j ∈ items, j < i ∧ conflict j i ∧ number j = n := by
  by_contra hnone
  refine absurd ((h i hi).2 fun j hj hlt hconflict heq => hnone ⟨j, hj, hlt, hconflict, heq⟩) ?_
  exact Nat.not_le_of_gt hn

theorem IsFirstFit.congr {conflict' : ι → ι → Prop}
    (hsame : ∀ i ∈ items, ∀ j ∈ items, conflict j i ↔ conflict' j i) :
    IsFirstFit items conflict' number := by
  intro i hi
  refine ⟨fun j hj hlt hconflict => (h i hi).1 j hj hlt ((hsame i hi j hj).mpr hconflict), ?_⟩
  exact fun n hn => (h i hi).2 fun j hj hlt hconflict =>
    hn j hj hlt ((hsame i hi j hj).mp hconflict)

end

theorem exists_isFirstFit (items : Finset ι) (conflict : ι → ι → Prop) :
    ∃ number, IsFirstFit items conflict number := by
  classical
  induction items using Finset.induction_on_max with
  | empty => exact ⟨fun _ => 0, fun i hi => absurd hi (Finset.notMem_empty i)⟩
  | insert a items hmax ih =>
      obtain ⟨number, h⟩ := ih
      -- some number is greater than those of all earlier items
      have hfree : ∃ n, ∀ j ∈ items, number j ≠ n :=
        ⟨items.sup number + 1, fun j hj => Nat.ne_of_lt (Nat.lt_succ_of_le (Finset.le_sup hj))⟩
      have hsome : ∃ n, ∀ j ∈ items, conflict j a → number j ≠ n :=
        hfree.imp fun n hn j hj _ => hn j hj
      have hkept : ∀ j ∈ items, Function.update number a (Nat.find hsome) j = number j :=
        fun j hj => Function.update_of_ne (hmax j hj).ne _ _
      refine ⟨Function.update number a (Nat.find hsome), fun i hi => ?_⟩
      rcases Finset.mem_insert.mp hi with rfl | hi
      · rw [Function.update_self]
        refine ⟨fun j hj hlt hconflict => ?_,
          fun n hn => Nat.find_min' hsome fun j hj hconflict => ?_⟩
        · have hj := (Finset.mem_insert.mp hj).resolve_left hlt.ne
          rw [hkept j hj]
          exact Nat.find_spec hsome j hj hconflict
        · rw [← hkept j hj]
          exact hn j (Finset.mem_insert_of_mem hj) (hmax j hj) hconflict
      · have hearlier : ∀ j ∈ insert a items, j < i → j ∈ items := fun j hj hlt =>
          (Finset.mem_insert.mp hj).resolve_left fun heq => (heq ▸ hlt).asymm (hmax i hi)
        rw [hkept i hi]
        refine ⟨fun j hj hlt hconflict => ?_, fun n hn => (h i hi).2 fun j hj hlt hconflict => ?_⟩
        · rw [hkept j (hearlier j hj hlt)]
          exact (h i hi).1 j (hearlier j hj hlt) hlt hconflict
        · rw [← hkept j hj]
          exact hn j (Finset.mem_insert_of_mem hj) hlt hconflict

end Numbers

section Place

variable {β : Type v} {room : β → Bool} {add : β → β} {new : β} {bins : List β}

/-- The first bin with room gets the item, or a new one. -/
def place (room : β → Bool) (add : β → β) (new : β) : List β → List β
  | [] => [add new]
  | bin :: bins => if room bin then add bin :: bins else bin :: place room add new bins

theorem getElem?_place {n : ℕ} (hbefore : ∀ k < n, ∀ bin ∈ bins[k]?, room bin = false)
    (hle : n ≤ bins.length) (hat : ∀ bin ∈ bins[n]?, room bin = true) (k : ℕ) :
    (place room add new bins)[k]? =
      if k = n then some (add (bins[n]?.getD new)) else bins[k]? := by
  induction bins generalizing n k with
  | nil =>
      obtain rfl := Nat.le_zero.mp hle
      cases k <;> rfl
  | cons bin bins ih =>
      rw [place]
      cases n with
      | zero =>
          rw [if_pos (hat bin rfl)]
          cases k <;> rfl
      | succ n =>
          have hroom := hbefore 0 (Nat.succ_pos n) bin rfl
          rw [if_neg (by rw [hroom]; decide)]
          cases k with
          | zero => rfl
          | succ k =>
              rw [List.getElem?_cons_succ, ih (fun k hk => hbefore (k + 1) (Nat.succ_lt_succ hk))
                (Nat.le_of_succ_le_succ hle) hat]
              simp only [Nat.succ_inj, List.getElem?_cons_succ]

end Place

end GpuCalorie.Math
