/-
# Bytes and arrays of cells

Numbers put together of a higher part and a lower digit, to any base: which numbers there are,
and that the parts are found again. A number is stored as its bytes, the least significant one
first; as many bytes as were stored give the number back, up to what the bytes can hold.

An array has a cell for every number. A list may be written at an address, and the cells of a
range may be read. What is read is what was written there last: the rules below say what of a
range a write changes.
-/

import Mathlib.Algebra.Group.Nat.Defs
import Mathlib.Algebra.Ring.Nat
import Mathlib.Data.List.Range
import Mathlib.Data.Nat.Basic
import Mathlib.Tactic.Common

namespace GpuCalorie.Math

theorem digits_unique {d high high' low low' : ℕ} (hlow : low < d) (hlow' : low' < d)
    (h : high * d + low = high' * d + low') : high = high' ∧ low = low' := by
  have hmod := congrArg (· % d) h
  simp only [Nat.mul_add_mod', Nat.mod_eq_of_lt hlow, Nat.mod_eq_of_lt hlow'] at hmod
  rw [hmod] at h
  exact ⟨Nat.eq_of_mul_eq_mul_right (by omega) (Nat.add_right_cancel h), hmod⟩

theorem digits_lt {d n high low : ℕ} (hhigh : high < n) (hlow : low < d) :
    high * d + low < n * d :=
  calc high * d + low < high * d + d := Nat.add_lt_add_left hlow _
    _ = (high + 1) * d := (Nat.succ_mul high d).symm
    _ ≤ n * d := Nat.mul_le_mul_right d hhigh

/-! ## Bytes -/

/-- The number that bytes stand for. -/
def ofBytes : List UInt8 → ℕ
  | [] => 0
  | byte :: rest => byte.toNat + 256 * ofBytes rest

/-- The lower bytes of a number. -/
def toBytes : ℕ → ℕ → List UInt8
  | 0, _ => []
  | n + 1, value => UInt8.ofNat value :: toBytes n (value / 256)

@[simp] theorem length_toBytes (n value : ℕ) : (toBytes n value).length = n := by
  induction n generalizing value with
  | zero => rfl
  | succ n ih => rw [toBytes, List.length_cons, ih]

theorem toBytes_add (m n value : ℕ) :
    toBytes (m + n) value = toBytes m value ++ toBytes n (value / 256 ^ m) := by
  induction m generalizing value with
  | zero => rw [Nat.zero_add, pow_zero, Nat.div_one, toBytes, List.nil_append]
  | succ m ih =>
      rw [Nat.succ_add, toBytes, ih, toBytes, List.cons_append, pow_succ', Nat.div_div_eq_div_mul]

theorem ofBytes_lt (bytes : List UInt8) : ofBytes bytes < 256 ^ bytes.length := by
  induction bytes with
  | nil => exact Nat.one_pos
  | cons byte rest ih =>
      have hbyte : byte.toNat < 256 := byte.toNat_lt
      rw [ofBytes, List.length_cons, pow_succ]
      omega

theorem toBytes_ofBytes (bytes : List UInt8) : toBytes bytes.length (ofBytes bytes) = bytes := by
  induction bytes with
  | nil => rfl
  | cons byte rest ih =>
      have hbyte : byte.toNat < 256 := byte.toNat_lt
      have hlow : UInt8.ofNat (byte.toNat + 256 * ofBytes rest) = byte := by
        refine UInt8.toNat_inj.mp ?_
        rw [UInt8.toNat_ofNat']
        omega
      rw [List.length_cons, toBytes, ofBytes, hlow,
        show (byte.toNat + 256 * ofBytes rest) / 256 = ofBytes rest by omega, ih]

theorem ofBytes_toBytes (n value : ℕ) : ofBytes (toBytes n value) = value % 256 ^ n := by
  induction n generalizing value with
  | zero => rw [pow_zero, Nat.mod_one, toBytes, ofBytes]
  | succ n ih =>
      have hbyte : (UInt8.ofNat value).toNat = value % 256 := UInt8.toNat_ofNat'
      rw [toBytes, ofBytes, ih, hbyte, pow_succ', Nat.mod_mul]

/-! ## Arrays of cells -/

universe u

variable {α : Type u} {f g : ℕ → α} {a c n : ℕ} {data : List α}

/-- An array after a list was written at an address. -/
def overwrite (f : ℕ → α) (a : ℕ) (data : List α) : ℕ → α := fun i =>
  if a ≤ i then data[i - a]?.getD (f i) else f i

/-- The cells of a range. -/
def cells (f : ℕ → α) (a n : ℕ) : List α := (List.range n).map fun i => f (a + i)

/-! ## Writing -/

theorem overwrite_of_lt {i : ℕ} (h : i < a) : overwrite f a data i = f i :=
  if_neg (Nat.not_le.mpr h)

theorem overwrite_of_le {i : ℕ} (h : a + data.length ≤ i) : overwrite f a data i = f i := by
  rw [overwrite]
  split_ifs with hle
  · rw [List.getElem?_eq_none (by omega), Option.getD_none]
  · rfl

theorem overwrite_add {i : ℕ} (h : i < data.length) : overwrite f a data (a + i) = data[i] := by
  rw [overwrite, if_pos (Nat.le_add_right a i), Nat.add_sub_cancel_left, List.getElem?_eq_getElem h,
    Option.getD_some]

@[simp] theorem overwrite_nil : overwrite f a [] = f := by
  funext i
  rw [overwrite]
  split_ifs <;> rfl

theorem overwrite_append (f : ℕ → α) (a : ℕ) (first rest : List α) :
    overwrite f a (first ++ rest) = overwrite (overwrite f a first) (a + first.length) rest := by
  funext i
  by_cases hbelow : i < a
  · rw [overwrite_of_lt hbelow, overwrite_of_lt (by omega), overwrite_of_lt hbelow]
  · obtain ⟨j, rfl⟩ := Nat.exists_eq_add_of_le (Nat.not_lt.mp hbelow)
    by_cases hfirst : j < first.length
    · rw [overwrite_add (by rw [List.length_append]; omega), overwrite_of_lt (by omega),
        overwrite_add hfirst,
        List.getElem_append_left hfirst]
    · obtain ⟨k, rfl⟩ := Nat.exists_eq_add_of_le (Nat.not_lt.mp hfirst)
      by_cases hrest : k < rest.length
      · rw [overwrite_add (by rw [List.length_append]; omega), ← Nat.add_assoc, overwrite_add hrest,
          List.getElem_append_right (by omega)]
        simp
      · rw [overwrite_of_le (by rw [List.length_append]; omega), overwrite_of_le (by omega),
          overwrite_of_le (by omega)]

/-! ## Reading -/

@[simp] theorem length_cells : (cells f a n).length = n := by
  rw [cells, List.length_map, List.length_range]

@[simp] theorem cells_zero : cells f a 0 = [] := rfl

theorem cells_congr (h : ∀ i < n, f (a + i) = g (a + i)) : cells f a n = cells g a n :=
  List.map_congr_left fun i hi => h i (List.mem_range.mp hi)

theorem cells_add (f : ℕ → α) (a m n : ℕ) :
    cells f a (m + n) = cells f a m ++ cells f (a + m) n := by
  rw [cells, cells, cells, List.range_add, List.map_append, List.map_map]
  refine congrArg _ (List.map_congr_left fun i _ => ?_)
  exact congrArg f (Nat.add_assoc a m i).symm

theorem cells_overwrite : cells (overwrite f a data) a data.length = data := by
  refine List.ext_getElem length_cells fun i hi hi' => ?_
  simp only [cells, List.getElem_map, List.getElem_range]
  exact overwrite_add hi'

theorem cells_overwrite_of_length (h : data.length = n) :
    cells (overwrite f a data) a n = data := by
  subst h
  exact cells_overwrite

theorem cells_overwrite_of_disjoint (h : c + n ≤ a ∨ a + data.length ≤ c) :
    cells (overwrite f a data) c n = cells f c n := by
  refine cells_congr fun i hi => ?_
  rcases h with hbelow | habove
  · exact overwrite_of_lt (by omega)
  · exact overwrite_of_le (by omega)

end GpuCalorie.Math
