/-
# Items laid out one behind another

Items are placed in turn, each at the next multiple of its unit behind those before it. What is said
of each item may depend on where those before it end, and on the items behind it.

An item of positive size takes as many cells, of which the first holds the item and the others
are empty. An item is found at the total size of those before it and nowhere else.
-/

import Mathlib.Algebra.BigOperators.Group.List.Basic
import Mathlib.Algebra.GroupWithZero.Nat
import Mathlib.Algebra.Order.Group.Nat
import Mathlib.Data.List.Basic
import Mathlib.Tactic.Common

namespace GpuCalorie.Math

/-- The next multiple of a unit. -/
def roundUp (n unit : ℕ) : ℕ := (n + unit - 1) / unit * unit

section RoundUp

variable {n unit : ℕ}

theorem dvd_roundUp : unit ∣ roundUp n unit := Nat.dvd_mul_left _ _

theorem le_roundUp (hunit : 0 < unit) : n ≤ roundUp n unit := by
  have hdiv := Nat.div_add_mod (n + unit - 1) unit
  have hmod := Nat.mod_lt (n + unit - 1) hunit
  rw [roundUp, Nat.mul_comm]
  omega

theorem roundUp_eq_ite (hunit : 0 < unit) :
    roundUp n unit = if n % unit ≠ 0 then (n / unit + 1) * unit else n := by
  have hdiv := Nat.div_add_mod n unit
  have hmod := Nat.mod_lt n hunit
  rw [roundUp]
  split_ifs with h
  · have hsum : n + unit - 1 = (n % unit - 1) + unit * (n / unit + 1) := by
      rw [Nat.mul_succ]
      omega
    rw [hsum, Nat.add_mul_div_left _ _ hunit, Nat.div_eq_of_lt (by omega), Nat.zero_add]
  · have hsum : n + unit - 1 = (unit - 1) + unit * (n / unit) := by omega
    rw [hsum, Nat.add_mul_div_left _ _ hunit, Nat.div_eq_of_lt (by omega), Nat.zero_add,
      Nat.mul_comm]
    omega

theorem roundUp_zero (hunit : 0 < unit) : roundUp 0 unit = 0 := by
  rw [roundUp_eq_ite hunit, Nat.zero_mod]
  rfl

end RoundUp

section Placement

universe u

variable {α : Type u} (size unit : α → ℕ)

/-- Where items are placed behind a number. -/
def offsets : ℕ → List α → List ℕ
  | _, [] => []
  | e, a :: items => roundUp e (unit a) :: offsets (roundUp e (unit a) + size a) items

/-- What is said of every item, of the end of those before it and of the items behind it. -/
def AtEach (P : ℕ → α → List α → Prop) : ℕ → List α → Prop
  | _, [] => True
  | e, a :: items => P e a items ∧ AtEach P (roundUp e (unit a) + size a) items

variable {size unit} {items : List α}

@[simp] theorem length_offsets (e : ℕ) (items : List α) :
    (offsets size unit e items).length = items.length := by
  induction items generalizing e with
  | nil => rfl
  | cons a items ih => rw [offsets, List.length_cons, ih, List.length_cons]

theorem AtEach.mono {P Q : ℕ → α → List α → Prop} (h : ∀ e a items, P e a items → Q e a items)
    {e : ℕ} (hP : AtEach size unit P e items) : AtEach size unit Q e items := by
  induction items generalizing e with
  | nil => trivial
  | cons a items ih => exact ⟨h e a items hP.1, ih hP.2⟩

theorem AtEach.and {P Q : ℕ → α → List α → Prop} {e : ℕ} (hP : AtEach size unit P e items)
    (hQ : AtEach size unit Q e items) : AtEach size unit
    (fun e a items => P e a items ∧ Q e a items) e items := by
  induction items generalizing e with
  | nil => trivial
  | cons a items ih => exact ⟨⟨hP.1, hQ.1⟩, ih hP.2 hQ.2⟩

theorem AtEach.forall_mem {P : α → Prop} {e : ℕ} (h : AtEach size unit (fun _ a _ => P a) e items) :
    ∀ a ∈ items, P a := by
  induction items generalizing e with
  | nil => exact nofun
  | cons b items ih =>
      intro a ha
      obtain rfl | ha := List.mem_cons.1 ha
      · exact h.1
      · exact ih h.2 a ha

theorem AtEach.of_forall {P : α → Prop} (h : ∀ a ∈ items, P a) (e : ℕ) :
    AtEach size unit (fun _ a _ => P a) e items := by
  induction items generalizing e with
  | nil => trivial
  | cons a items ih =>
      exact ⟨h a List.mem_cons_self, ih (fun b hb => h b (List.mem_cons_of_mem a hb)) _⟩

theorem le_of_mem_offsets {e o : ℕ} (hunit : ∀ a ∈ items, 0 < unit a)
    (h : o ∈ offsets size unit e items) : e ≤ o := by
  induction items generalizing e with
  | nil => exact absurd h List.not_mem_nil
  | cons a items ih =>
      have hle : e ≤ roundUp e (unit a) := le_roundUp (hunit a List.mem_cons_self)
      obtain rfl | h := List.mem_cons.1 h
      · exact hle
      · have hrest := ih (fun b hb => hunit b (List.mem_cons_of_mem a hb)) h
        omega

end Placement

/-! ## Cells -/

universe u

variable {α : Type u} (size : α → ℕ)

/-- The total size of some items. -/
def extent (items : List α) : ℕ :=
  (items.map size).sum

/-- The cells of some items. -/
def layout (items : List α) : List (Option α) :=
  items.flatMap fun a => some a :: List.replicate (size a - 1) none

@[simp]
theorem extent_nil : extent size [] = 0 := rfl

@[simp]
theorem extent_cons (a : α) (items : List α) :
    extent size (a :: items) = size a + extent size items := rfl

@[simp]
theorem extent_append (before after : List α) :
    extent size (before ++ after) = extent size before + extent size after := by
  rw [extent, List.map_append, List.sum_append]
  rfl

@[simp]
theorem layout_nil : layout size [] = [] := rfl

theorem layout_cons (a : α) (items : List α) : layout size (a :: items) =
    (some a :: List.replicate (size a - 1) none) ++ layout size items := rfl

theorem layout_append (before after : List α) :
    layout size (before ++ after) = layout size before ++ layout size after :=
  List.flatMap_append

variable {size} (hpos : ∀ a, 0 < size a)
include hpos

theorem length_cell (a : α) :
    (some a :: List.replicate (size a - 1) (none : Option α)).length = size a := by
  rw [List.length_cons, List.length_replicate]
  exact Nat.succ_pred_eq_of_pos (hpos a)

@[simp]
theorem length_layout (items : List α) : (layout size items).length = extent size items := by
  induction items with
  | nil => rfl
  | cons a items ih => rw [layout_cons, List.length_append, length_cell hpos, ih, extent_cons]

theorem getElem?_layout (before after : List α) (a : α) :
    (layout size (before ++ a :: after))[extent size before]? = some (some a) := by
  rw [layout_append, List.getElem?_append_right (Nat.le_of_eq (length_layout hpos before)),
    length_layout hpos before, Nat.sub_self, layout_cons]
  rfl

theorem exists_of_getElem?_layout {items : List α} {p : ℕ} {a : α}
    (h : (layout size items)[p]? = some (some a)) :
    ∃ before after, items = before ++ a :: after ∧ p = extent size before := by
  induction items generalizing p with
  | nil => simp at h
  | cons b items ih =>
      rw [layout_cons] at h
      by_cases hlt : p < size b
      · rw [List.getElem?_append_left (by rwa [length_cell hpos])] at h
        cases p with
        | zero =>
            obtain rfl : b = a := by simpa using h
            exact ⟨[], items, rfl, rfl⟩
        | succ p =>
            rw [List.getElem?_cons_succ, List.getElem?_replicate] at h
            split_ifs at h
            cases h
      · have hle : size b ≤ p := Nat.not_lt.mp hlt
        rw [List.getElem?_append_right (by rwa [length_cell hpos]), length_cell hpos] at h
        obtain ⟨before, after, rfl, hp⟩ := ih h
        refine ⟨b :: before, after, rfl, ?_⟩
        rw [extent_cons, ← hp, Nat.add_sub_cancel' hle]

end GpuCalorie.Math
