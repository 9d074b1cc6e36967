/-
# Keys reserved by holders, and answers that are due

A table has the keys that are reserved. A holder reserves its keys as a whole when it
starts. Some holders wait for a number of answers: `pending` counts them by key, as that is
all that is looked up when an answer comes in. A key is free again when its holder has left
and none of the answers is due.

`Ledger.Sound` relates the table and the counts to the holders. The rules below say what
keeps it: to acquire and to release keys, to charge a holder with answers, to settle one,
and to let a holder leave whose answers are still due.
-/

import Mathlib.Data.List.Perm.Basic

namespace GpuCalorie.Math

universe u v

variable {α : Type u} {κ : Type v}

/-- Holders, the answers that are due to them, the table and the counts. -/
structure Ledger (α : Type u) (κ : Type v) where
  held : List α
  due : List α
  table : κ → Prop
  pending : κ → ℕ

namespace Ledger

/-- A holder that is there, or has an answer due. -/
def Has (L : Ledger α κ) (a : α) : Prop :=
  a ∈ L.held ∨ a ∈ L.due

/-- The table has the keys of the holders, no key has two holders, and the counts are
those of the answers that are due. -/
structure Sound (keys : α → κ → Prop) [∀ a k, Decidable (keys a k)] (L : Ledger α κ) : Prop where
  table : ∀ k, L.table k ↔ ∃ a, L.Has a ∧ keys a k
  unique : ∀ a b k, L.Has a → L.Has b → keys a k → keys b k → a = b
  pending : ∀ k, L.pending k = L.due.countP fun a => keys a k

variable {keys : α → κ → Prop} [∀ a k, Decidable (keys a k)] {L L' : Ledger α κ} {a : α} {k : κ}

namespace Sound

variable (h : L.Sound keys)
include h

theorem pending_eq_zero_iff (hhas : L.Has a) (hk : keys a k) : L.pending k = 0 ↔ a ∉ L.due := by
  rw [h.pending, List.countP_eq_zero]
  constructor
  · intro hnone ha
    simpa [hk] using hnone a ha
  · intro ha b hb hkeys
    have heq : a = b := h.unique a b k hhas (.inr hb) hk (by simpa using hkeys)
    exact ha (heq ▸ hb)

theorem congr (hhas : ∀ b, L'.Has b ↔ L.Has b) (hdue : L'.due.Perm L.due)
    (htable : ∀ k, L'.table k ↔ L.table k) (hpending : ∀ k, L'.pending k = L.pending k) :
    L'.Sound keys where
  table k := by
    rw [htable, h.table]
    exact exists_congr fun b => and_congr_left fun _ => (hhas b).symm
  unique b c k hb hc := h.unique b c k ((hhas b).mp hb) ((hhas c).mp hc)
  pending k := by rw [hpending, h.pending, hdue.countP_eq]

theorem acquire (hfree : ∀ k, keys a k → ¬ L.table k)
    (hhas : ∀ b, L'.Has b ↔ L.Has b ∨ b = a) (hdue : L'.due.Perm L.due)
    (htable : ∀ k, L'.table k ↔ L.table k ∨ keys a k)
    (hpending : ∀ k, L'.pending k = L.pending k) : L'.Sound keys where
  table k := by
    rw [htable, h.table]
    constructor
    · rintro (⟨b, hb, hk⟩ | hk)
      · exact ⟨b, (hhas b).mpr (.inl hb), hk⟩
      · exact ⟨a, (hhas a).mpr (.inr rfl), hk⟩
    · rintro ⟨b, hb, hk⟩
      rcases (hhas b).mp hb with hb | rfl
      · exact .inl ⟨b, hb, hk⟩
      · exact .inr hk
  unique b c k hb hc hkb hkc := by
    rcases (hhas b).mp hb with hb | rfl <;> rcases (hhas c).mp hc with hc | rfl
    · exact h.unique b c k hb hc hkb hkc
    · exact absurd ((h.table k).mpr ⟨b, hb, hkb⟩) (hfree k hkc)
    · exact absurd ((h.table k).mpr ⟨c, hc, hkc⟩) (hfree k hkb)
    · rfl
  pending k := by rw [hpending, h.pending, hdue.countP_eq]

theorem release (hhas : ∀ b, L.Has b ↔ L'.Has b ∨ b = a) (hgone : ¬ L'.Has a)
    (hdue : L'.due.Perm L.due) (htable : ∀ k, L'.table k ↔ L.table k ∧ ¬ keys a k)
    (hpending : ∀ k, L'.pending k = L.pending k) : L'.Sound keys where
  table k := by
    rw [htable, h.table]
    constructor
    · rintro ⟨⟨b, hb, hk⟩, hfree⟩
      rcases (hhas b).mp hb with hb | rfl
      · exact ⟨b, hb, hk⟩
      · exact absurd hk hfree
    · rintro ⟨b, hb, hk⟩
      refine ⟨⟨b, (hhas b).mpr (.inl hb), hk⟩, fun hka => ?_⟩
      have heq := h.unique b a k ((hhas b).mpr (.inl hb)) ((hhas a).mpr (.inr rfl)) hk hka
      exact hgone (heq ▸ hb)
  unique b c k hb hc := h.unique b c k ((hhas b).mpr (.inl hb)) ((hhas c).mpr (.inl hc))
  pending k := by rw [hpending, h.pending, hdue.countP_eq]

omit h in
theorem charge (n : ℕ) (h : L.Sound keys) (hhas : ∀ b, L'.Has b ↔ L.Has b)
    (hdue : L'.due.Perm (List.replicate n a ++ L.due)) (htable : ∀ k, L'.table k ↔ L.table k)
    (hpending : ∀ k, L'.pending k = L.pending k + if keys a k then n else 0) :
    L'.Sound keys where
  table k := by
    rw [htable, h.table]
    exact exists_congr fun b => and_congr_left fun _ => (hhas b).symm
  unique b c k hb hc := h.unique b c k ((hhas b).mp hb) ((hhas c).mp hc)
  pending k := by
    rw [hpending, h.pending, hdue.countP_eq, List.countP_append, List.countP_replicate]
    split_ifs with hk hk' hk'
    · exact Nat.add_comm _ _
    · exact absurd (decide_eq_true hk) hk'
    · exact absurd (of_decide_eq_true hk') hk
    · exact (Nat.zero_add _).symm

theorem settle (hheld : ∀ b, b ∈ L'.held ↔ b ∈ L.held) (hdue : L.due.Perm (a :: L'.due))
    (hpending : ∀ k, L'.pending k = L.pending k - if keys a k then 1 else 0)
    (htable : ∀ k, L'.table k ↔ L.table k ∧ ¬ (keys a k ∧ L'.pending k = 0 ∧ a ∉ L'.held)) :
    L'.Sound keys := by
  have hhas : ∀ b, L.Has b ↔ L'.Has b ∨ b = a := by
    intro b
    rw [Has, Has, hheld, hdue.mem_iff, List.mem_cons]
    constructor
    · rintro (hb | rfl | hb)
      · exact .inl (.inl hb)
      · exact .inr rfl
      · exact .inl (.inr hb)
    · rintro ((hb | hb) | rfl)
      · exact .inl hb
      · exact .inr (.inr hb)
      · exact .inr (.inl rfl)
  have hunique : ∀ b c k, L'.Has b → L'.Has c → keys b k → keys c k → b = c :=
    fun b c k hb hc => h.unique b c k ((hhas b).mpr (.inl hb)) ((hhas c).mpr (.inl hc))
  have hcount : ∀ k, L'.pending k = L'.due.countP fun b => keys b k := by
    intro k
    rw [hpending, h.pending, hdue.countP_eq, List.countP_cons]
    by_cases hk : keys a k <;> simp [hk]
  -- the answer was the last one if and only if the count of its keys is zero
  have hlast : ∀ k, keys a k → (L'.pending k = 0 ↔ a ∉ L'.due) := by
    intro k hk
    rw [hcount, List.countP_eq_zero]
    constructor
    · intro hnone ha
      simpa [hk] using hnone a ha
    · intro ha b hb hkeys
      have heq : a = b := h.unique a b k ((hhas a).mpr (.inr rfl)) ((hhas b).mpr (.inl (.inr hb)))
        hk (by simpa using hkeys)
      exact ha (heq ▸ hb)
  refine ⟨fun k => ?_, hunique, hcount⟩
  rw [htable, h.table]
  constructor
  · rintro ⟨⟨b, hb, hk⟩, hkept⟩
    rcases (hhas b).mp hb with hb | rfl
    · exact ⟨b, hb, hk⟩
    · refine ⟨b, ?_, hk⟩
      by_contra hgone
      rw [Has, not_or] at hgone
      exact hkept ⟨hk, (hlast k hk).mpr hgone.2, hgone.1⟩
  · rintro ⟨b, hb, hk⟩
    refine ⟨⟨b, (hhas b).mpr (.inl hb), hk⟩, ?_⟩
    rintro ⟨hka, hzero, hgone⟩
    have heq := h.unique b a k ((hhas b).mpr (.inl hb)) ((hhas a).mpr (.inr rfl)) hk hka
    rcases hb with hb | hb
    · exact hgone (heq ▸ hb)
    · exact (hlast k hka).mp hzero (heq ▸ hb)

end Sound

end Ledger

end GpuCalorie.Math
