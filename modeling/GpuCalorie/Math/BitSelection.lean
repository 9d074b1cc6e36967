/-
# Selections of the bits of a word

A selection is a list of positions. Gathering along it collects the bits at these positions into
a word of its own, the first position at the bottom. Two words with the same gathered word agree at
the positions that fit in it, and a selection identifies words exactly when it has every position.
-/

import Mathlib.Data.List.Range
import Mathlib.Data.List.Nodup
import Mathlib.Data.BitVec

namespace GpuCalorie.Math

variable {v w : ℕ} {ps : List ℕ} {x : BitVec w}

/-! ## Positions -/

/-- The positions of the bits that are set, the lowest first. -/
def setBits (x : BitVec w) : List ℕ := (List.range w).filter x.getLsbD

@[simp] theorem mem_setBits {i : ℕ} : i ∈ setBits x ↔ x.getLsbD i = true := by
  rw [setBits, List.mem_filter, List.mem_range]
  constructor
  · intro h
    exact h.2
  · intro h
    exact ⟨BitVec.lt_of_getLsbD h, h⟩

theorem setBits_nodup (x : BitVec w) : (setBits x).Nodup := List.nodup_range.filter _

theorem length_setBits_le (x : BitVec w) : (setBits x).length ≤ w := by
  have h := List.length_filter_le x.getLsbD (List.range w)
  rw [List.length_range] at h
  exact h

theorem filter_range'_eq_setBits {low high : ℕ} (hhigh : high ≤ w)
    (hall : ∀ i, x.getLsbD i = true → low ≤ i ∧ i < high) :
    (List.range' low (high - low)).filter x.getLsbD = setBits x := by
  rcases Nat.lt_or_ge low high with hlow | hlow
  · have hupper : List.range' low (high - low) ++ List.range' high (w - high) =
        List.range' low (w - low) := by
      have h := List.range'_append_1 (s := low) (m := high - low) (n := w - high)
      have hlength : high - low + (w - high) = w - low := by omega
      rwa [Nat.add_sub_of_le hlow.le, hlength] at h
    have hsplit : List.range w =
        List.range' 0 low ++ (List.range' low (high - low) ++ List.range' high (w - high)) := by
      have h := List.range'_append_1 (s := 0) (m := low) (n := w - low)
      rw [Nat.zero_add, Nat.add_sub_of_le (hlow.le.trans hhigh)] at h
      rw [hupper, h, List.range_eq_range']
    have hbelow : (List.range' 0 low).filter x.getLsbD = [] := by
      rw [List.filter_eq_nil_iff]
      intro i hi hbit
      have := (hall i hbit).1
      rw [List.mem_range'_1] at hi
      omega
    have habove : (List.range' high (w - high)).filter x.getLsbD = [] := by
      rw [List.filter_eq_nil_iff]
      intro i hi hbit
      have := (hall i hbit).2
      rw [List.mem_range'_1] at hi
      omega
    rw [setBits, hsplit, List.filter_append, List.filter_append, hbelow, habove, List.nil_append,
      List.append_nil]
  · have hempty : setBits x = [] := by
      rw [List.eq_nil_iff_forall_not_mem]
      intro i hi
      have := hall i (mem_setBits.mp hi)
      omega
    rw [hempty, Nat.sub_eq_zero_of_le hlow]
    rfl

/-! ## One position -/

section Position

variable {x : BitVec w} {i j : ℕ}

theorem getLsbD_bit (hi : i < w) : (1#w <<< i).getLsbD j = decide (i = j) := by
  rw [← BitVec.twoPow_eq, BitVec.getLsbD_twoPow, decide_eq_true hi, Bool.true_and]

theorem and_bit_ne_zero_iff (hi : i < w) : x &&& 1#w <<< i ≠ 0 ↔ x.getLsbD i = true := by
  rw [← BitVec.twoPow_eq, BitVec.and_twoPow]
  by_cases hbit : x.getLsbD i = true
  · have hne : BitVec.twoPow w i ≠ 0 := by
      intro h
      have hget := congrArg (fun y => y.getLsbD i) h
      simp [hi] at hget
    simp only [hbit, if_true]
    exact iff_of_true hne trivial
  · rw [if_neg hbit]
    exact iff_of_false (fun h => h rfl) hbit

theorem toNat_bit_sub_one (hi : i < w) : (1#w <<< i - 1#w).toNat = 2 ^ i - 1 := by
  have hpow : 2 ^ i < 2 ^ w := Nat.pow_lt_pow_right (by omega) hi
  have hpos : 0 < 2 ^ i := Nat.two_pow_pos i
  have hone : 1 < 2 ^ w := Nat.one_lt_two_pow (by omega)
  have hsplit : 2 ^ w - 1 + 2 ^ i = 2 ^ i - 1 + 2 ^ w := by omega
  rw [BitVec.toNat_sub, BitVec.toNat_shiftLeft, BitVec.toNat_ofNat, Nat.mod_eq_of_lt hone,
    Nat.shiftLeft_eq, one_mul, Nat.mod_eq_of_lt hpow, hsplit, Nat.add_mod_right,
    Nat.mod_eq_of_lt (by omega)]

theorem getLsbD_bit_sub_one (hi : i < w) : (1#w <<< i - 1#w).getLsbD j = decide (j < i) := by
  rw [← BitVec.testBit_toNat, toNat_bit_sub_one hi, Nat.testBit_two_pow_sub_one]

theorem toNat_and_bit_sub_one (hi : i < w) : (x &&& 1#w <<< i - 1#w).toNat = x.toNat % 2 ^ i := by
  rw [BitVec.toNat_and, toNat_bit_sub_one hi, Nat.and_two_pow_sub_one_eq_mod]

end Position

/-! ## Agreement -/

/-- Two words have the same bits at the positions of a selection. -/
def AgreeOn (ps : List ℕ) (x y : BitVec w) : Prop := ∀ i ∈ ps, x.getLsbD i = y.getLsbD i

theorem AgreeOn.append {ps qs : List ℕ} {x y : BitVec w} :
    AgreeOn (ps ++ qs) x y ↔ AgreeOn ps x y ∧ AgreeOn qs x y := by
  constructor
  · intro h
    exact ⟨fun i hi => h i (List.mem_append_left _ hi), fun i hi =>
      h i (List.mem_append_right _ hi)⟩
  · intro h i hi
    rcases List.mem_append.mp hi with hi | hi
    · exact h.1 i hi
    · exact h.2 i hi

theorem agreeOn_injective_iff : (∀ x y : BitVec w, AgreeOn ps x y → x = y) ↔ ∀ i < w, i ∈ ps := by
  constructor
  · intro hinj i hi
    by_contra hmem
    -- The words that differ at the missing position only.
    have heq := hinj (BitVec.twoPow w i) 0 (by
      intro j hj
      have hne : i ≠ j := fun h => hmem (h ▸ hj)
      rw [BitVec.getLsbD_twoPow]
      simp [hne])
    have hbit := congrArg (fun x => x.getLsbD i) heq
    simp [hi] at hbit
  · intro hall x y h
    apply BitVec.eq_of_getLsbD_eq
    intro i hi
    exact h i (hall i hi)

/-! ## Gathering -/

/-- The bits at the selected positions, the first at the bottom. -/
def gather (v : ℕ) (ps : List ℕ) (x : BitVec w) : BitVec v :=
  (BitVec.ofBoolListLE (ps.map x.getLsbD)).setWidth v

theorem getLsbD_gather {j : ℕ} :
    (gather v ps x).getLsbD j = (decide (j < v) && (ps.map x.getLsbD).getD j false) := by
  rw [gather, BitVec.getLsbD_setWidth, BitVec.getLsbD_ofBoolListLE]

theorem setWidth_gather {u : ℕ} (h : u ≤ v) : (gather v ps x).setWidth u = gather u ps x :=
  BitVec.setWidth_setWidth_of_le _ h

theorem gather_eq_iff {x y : BitVec w} :
    gather v ps x = gather v ps y ↔ AgreeOn (ps.take v) x y := by
  constructor
  · intro h i hi
    obtain ⟨j, hj, hget⟩ := List.getElem_of_mem hi
    rw [List.length_take] at hj
    rw [List.getElem_take] at hget
    have hjv : j < v := by omega
    have hlen : j < ps.length := by omega
    have hbit := congrArg (fun z => z.getLsbD j) h
    simp only [getLsbD_gather, hjv, decide_true, Bool.true_and, List.getD_eq_getElem?_getD,
      List.getElem?_map, List.getElem?_eq_getElem hlen, Option.map_some, Option.getD_some,
      hget] at hbit
    exact hbit
  · intro h
    apply BitVec.eq_of_getLsbD_eq
    intro j hj
    rw [getLsbD_gather, getLsbD_gather]
    by_cases hlen : j < ps.length
    · have hmem : ps[j] ∈ ps.take v := by
        rw [List.mem_take_iff_getElem]
        exact ⟨j, by omega, rfl⟩
      simp [hlen, h ps[j] hmem]
    · simp [Nat.not_lt.mp hlen]

end GpuCalorie.Math
