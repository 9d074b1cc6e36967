/-
# Rounds of banked accesses

Each access is to a word of a bank, and in a round a bank serves one word, to all accesses to
it. The accesses can be served in as many rounds as the busiest bank has words, and in no
fewer.

A weaker memory serves a word to one access a round, but for one word that all accesses to it
share: then the accesses of a bank count, those to that word as one.
-/

import Mathlib.Data.Finset.Lattice.Fold
import Mathlib.Data.Fintype.EquivFin
import Mathlib.Order.Bounds.Basic
import Mathlib.Order.Lattice.Nat

namespace GpuCalorie.Math

universe u v w

variable {ι : Type u} {β : Type v} {ω : Type w} [DecidableEq β] [DecidableEq ω]

/-- The accesses can be served in `k` rounds, in which a bank serves one word each. -/
def Servable (accesses : Finset ι) (bank : ι → β) (word : ι → ω) (k : ℕ) : Prop :=
  ∃ round : ι → ℕ, (∀ i ∈ accesses, round i < k) ∧
    ∀ i ∈ accesses, ∀ j ∈ accesses, bank i = bank j → round i = round j → word i = word j

/-- The words of a bank. -/
def bankWords (accesses : Finset ι) (bank : ι → β) (word : ι → ω) (b : β) : Finset ω :=
  (accesses.filter fun i => bank i = b).image word

/-- The number of words of the busiest bank. -/
def mostWords (accesses : Finset ι) (bank : ι → β) (word : ι → ω) : ℕ :=
  accesses.sup fun i => (bankWords accesses bank word (bank i)).card

variable {accesses : Finset ι} {bank : ι → β} {word : ι → ω}

theorem Servable.card_le {k : ℕ} (h : Servable accesses bank word k) (b : β) :
    (bankWords accesses bank word b).card ≤ k := by
  classical
  obtain ⟨round, hlt, hword⟩ := h
  have hrep : ∀ w ∈ bankWords accesses bank word b,
      ∃ i, i ∈ accesses ∧ bank i = b ∧ word i = w := by
    intro w hw
    obtain ⟨i, hi, rfl⟩ := Finset.mem_image.mp hw
    obtain ⟨hi, hb⟩ := Finset.mem_filter.mp hi
    exact ⟨i, hi, hb, rfl⟩
  choose rep hmem hbank hrep using hrep
  -- the rounds of one access to each word are different
  have hcard : (bankWords accesses bank word b).attach.card ≤ (Finset.range k).card := by
    refine Finset.card_le_card_of_injOn (fun w => round (rep w.1 w.2)) ?_ ?_
    · intro w _
      exact Finset.mem_coe.mpr (Finset.mem_range.mpr (hlt _ (hmem w.1 w.2)))
    · intro w _ w' _ heq
      have hbanks : bank (rep w.1 w.2) = bank (rep w'.1 w'.2) :=
        (hbank w.1 w.2).trans (hbank w'.1 w'.2).symm
      have hwords := hword _ (hmem w.1 w.2) _ (hmem w'.1 w'.2) hbanks heq
      rw [hrep, hrep] at hwords
      exact Subtype.ext hwords
  rwa [Finset.card_attach, Finset.card_range] at hcard

theorem servable_mostWords :
    Servable accesses bank word (mostWords accesses bank word) := by
  classical
  have hmem : ∀ i ∈ accesses, word i ∈ bankWords accesses bank word (bank i) := fun i hi =>
    Finset.mem_image_of_mem word (Finset.mem_filter.mpr ⟨hi, rfl⟩)
  -- the round of an access is the place of its word among those of its bank
  refine ⟨fun i => if hi : i ∈ accesses then
    ((bankWords accesses bank word (bank i)).equivFin ⟨word i, hmem i hi⟩).val else 0, ?_, ?_⟩
  · intro i hi
    have hle : (bankWords accesses bank word (bank i)).card ≤ mostWords accesses bank word :=
      Finset.le_sup (f := fun i => (bankWords accesses bank word (bank i)).card) hi
    simp only [dif_pos hi]
    exact (Fin.isLt _).trans_le hle
  · intro i hi j hj hbank heq
    simp only [dif_pos hi, dif_pos hj] at heq
    have hplace : ∀ b (hb : b = bank i) (hw : word j ∈ bankWords accesses bank word b),
        ((bankWords accesses bank word b).equivFin ⟨word j, hw⟩).val =
          ((bankWords accesses bank word (bank i)).equivFin ⟨word i, hmem i hi⟩).val →
        word i = word j := by
      rintro b rfl hw heq
      have hsame := Equiv.injective _ (Fin.ext heq)
      exact (congrArg Subtype.val hsame).symm
    exact hplace (bank j) hbank.symm (hmem j hj) heq.symm

theorem isLeast_mostWords :
    IsLeast {k | Servable accesses bank word k} (mostWords accesses bank word) :=
  ⟨servable_mostWords, fun _ h => Finset.sup_le fun i _ => h.card_le (bank i)⟩

theorem mostWords_le_card : mostWords accesses bank word ≤ accesses.card :=
  Finset.sup_le fun _ _ => Finset.card_image_le.trans (Finset.card_filter_le _ _)

theorem one_le_mostWords (h : accesses.Nonempty) : 1 ≤ mostWords accesses bank word := by
  obtain ⟨i, hi⟩ := h
  refine le_trans ?_ (Finset.le_sup (f := fun i => (bankWords accesses bank word (bank i)).card) hi)
  exact Finset.card_pos.mpr ⟨word i, Finset.mem_image_of_mem word (Finset.mem_filter.mpr ⟨hi, rfl⟩)⟩

theorem mostWords_le_one (h : ∀ i ∈ accesses, ∀ j ∈ accesses, word i = word j) :
    mostWords accesses bank word ≤ 1 := by
  refine Finset.sup_le fun i _ => Finset.card_le_one.mpr fun a ha b hb => ?_
  obtain ⟨i, hi, rfl⟩ := Finset.mem_image.mp ha
  obtain ⟨j, hj, rfl⟩ := Finset.mem_image.mp hb
  exact h i (Finset.mem_filter.mp hi).1 j (Finset.mem_filter.mp hj).1

theorem foldl_max_eq_sup {f : ι → ℕ} {l : List ℕ} (hmem : ∀ i ∈ accesses, f i ∈ l)
    (hof : ∀ n ∈ l, ∃ i ∈ accesses, f i = n) : l.foldl max 0 = accesses.sup f := by
  have hfold : ∀ (l : List ℕ) (n m : ℕ), l.foldl max n ≤ m ↔ n ≤ m ∧ ∀ k ∈ l, k ≤ m := by
    intro l
    induction l with
    | nil => simp
    | cons k l ih =>
        intro n m
        rw [List.foldl_cons, ih, Nat.max_le, List.forall_mem_cons, and_assoc]
  refine eq_of_forall_ge_iff fun m => ?_
  rw [hfold, Finset.sup_le_iff]
  constructor
  · exact fun h i hi => h.2 _ (hmem i hi)
  · refine fun h => ⟨Nat.zero_le m, fun n hn => ?_⟩
    obtain ⟨i, hi, rfl⟩ := hof n hn
    exact h i hi

/-! ## One shared word -/

/-- An access, where those to the shared word are one. -/
def collapse (word : ι → ω) (shared : Option ω) (i : ι) : Option ι :=
  if some (word i) = shared then none else some i

variable [DecidableEq ι]

/-- The accesses of a bank, where those to the shared word are one. -/
def bankAccessesOnce (accesses : Finset ι) (bank : ι → β) (word : ι → ω) (shared : Option ω)
    (b : β) : Finset (Option ι) :=
  (accesses.filter fun i => bank i = b).image (collapse word shared)

/-- The most accesses of a bank, where those to the shared word are one. -/
def mostAccesses (accesses : Finset ι) (bank : ι → β) (word : ι → ω) (shared : Option ω) : ℕ :=
  accesses.sup fun i => (bankAccessesOnce accesses bank word shared (bank i)).card

theorem card_image_collapse_none (s : Finset ι) :
    (s.image (collapse word none)).card = s.card :=
  Finset.card_image_of_injective s fun i j h => by
    simpa [collapse] using h

theorem card_image_collapse {s : Finset ι} {w : ω} (h : ∃ i ∈ s, word i = w) :
    (s.image (collapse word (some w))).card =
      s.card - ((s.filter fun i => word i = w).card - 1) := by
  have himage : s.image (collapse word (some w)) =
      insert none ((s.filter fun i => ¬ word i = w).image some) := by
    ext a
    simp only [Finset.mem_image, Finset.mem_insert, Finset.mem_filter, collapse,
      Option.some.injEq]
    constructor
    · rintro ⟨i, hi, rfl⟩
      by_cases hw : word i = w
      · exact .inl (if_pos hw)
      · exact .inr ⟨i, ⟨hi, hw⟩, (if_neg hw).symm⟩
    · rintro (rfl | ⟨i, ⟨hi, hw⟩, rfl⟩)
      · obtain ⟨i, hi, hw⟩ := h
        exact ⟨i, hi, if_pos hw⟩
      · exact ⟨i, hi, if_neg hw⟩
  have hsplit := Finset.card_filter_add_card_filter_not (s := s) fun i => word i = w
  have hpos : 0 < (s.filter fun i => word i = w).card := by
    obtain ⟨i, hi, hw⟩ := h
    exact Finset.card_pos.mpr ⟨i, Finset.mem_filter.mpr ⟨hi, hw⟩⟩
  rw [himage, Finset.card_insert_of_notMem (by simp),
    Finset.card_image_of_injective _ (Option.some_injective ι)]
  omega

theorem card_image_collapse_of_forall_ne {s : Finset ι} {w : ω} (h : ∀ i ∈ s, word i ≠ w) :
    (s.image (collapse word (some w))).card = s.card := by
  refine Finset.card_image_of_injOn fun i hi j hj heq => ?_
  have hi' : some (word i) ≠ some w := fun hsome => h i hi (Option.some.inj hsome)
  have hj' : some (word j) ≠ some w := fun hsome => h j hj (Option.some.inj hsome)
  rw [collapse, if_neg hi', collapse, if_neg hj'] at heq
  exact Option.some.inj heq

variable {shared : Option ω}

theorem mostAccesses_le_card : mostAccesses accesses bank word shared ≤ accesses.card :=
  Finset.sup_le fun _ _ => Finset.card_image_le.trans (Finset.card_filter_le _ _)

theorem one_le_mostAccesses (h : accesses.Nonempty) :
    1 ≤ mostAccesses accesses bank word shared := by
  obtain ⟨i, hi⟩ := h
  refine le_trans ?_
    (Finset.le_sup (f := fun i => (bankAccessesOnce accesses bank word shared (bank i)).card) hi)
  exact Finset.card_pos.mpr
    ⟨_, Finset.mem_image_of_mem (collapse word shared) (Finset.mem_filter.mpr ⟨hi, rfl⟩)⟩

theorem mostAccesses_le_one (h : ∀ i ∈ accesses, ∀ j ∈ accesses,
    collapse word shared i = collapse word shared j) :
    mostAccesses accesses bank word shared ≤ 1 := by
  refine Finset.sup_le fun i _ => Finset.card_le_one.mpr fun a ha b hb => ?_
  obtain ⟨i, hi, rfl⟩ := Finset.mem_image.mp ha
  obtain ⟨j, hj, rfl⟩ := Finset.mem_image.mp hb
  exact h i (Finset.mem_filter.mp hi).1 j (Finset.mem_filter.mp hj).1

end GpuCalorie.Math
