/-
# Grouping by a key

The loop that sorts items into an ordered map of accumulators: an item is added to the
accumulator of its key, which starts out empty. Whatever additions only ever put into
accumulators is, in the end, there exactly where an item of that key put it.

A visit of the map afterwards is described element by element.
-/

import Mathlib.Algebra.BigOperators.Group.Finset.Basic
import Mathlib.Algebra.GroupWithZero.Nat

namespace GpuCalorie.Math

universe u v w

variable {κ : Type u} {β : Type v} {ι : Type w} [Ord κ] [Inhabited β]

/-- `f` on the accumulator of a key, as `map[key]` makes it when it is not there. -/
def upsert (m : Std.TreeMap κ β) (k : κ) (f : β → β) : Std.TreeMap κ β :=
  m.alter k fun old => some (f (old.getD default))

/-- Items added one by one, each to the accumulator of its key. -/
def group (key : ι → κ) (add : ι → β → β) (items : List ι) (m : Std.TreeMap κ β) :
    Std.TreeMap κ β :=
  items.foldl (fun m item => upsert m (key item) (add item)) m

variable {key : ι → κ} {add : ι → β → β} {items : List ι} {m : Std.TreeMap κ β}

@[simp] theorem group_nil : group key add [] m = m := rfl

@[simp] theorem group_cons {item : ι} :
    group key add (item :: items) m = group key add items (upsert m (key item) (add item)) := rfl

theorem group_append {more : List ι} :
    group key add (items ++ more) m = group key add more (group key add items m) :=
  List.foldl_append

/-- What an accumulator has of a property; an absent one is empty. -/
def HasAt (φ : β → Prop) (m : Std.TreeMap κ β) (k : κ) : Prop := φ (m[k]?.getD default)

variable [Std.TransOrd κ] {k : κ}

@[simp] theorem upsert_self {f : β → β} : (upsert m k f)[k]? = some (f (m[k]?.getD default)) := by
  rw [upsert, Std.TreeMap.getElem?_alter_self]

variable [Std.LawfulEqOrd κ]

theorem upsert_of_ne {k k' : κ} {f : β → β} (h : k ≠ k') : (upsert m k f)[k']? = m[k']? := by
  rw [upsert, Std.TreeMap.getElem?_alter, if_neg]
  intro heq
  exact h (Std.LawfulEqOrd.eq_of_compare heq)

theorem isSome_group :
    (group key add items m)[k]?.isSome ↔ m[k]?.isSome ∨ ∃ item ∈ items, key item = k := by
  induction items generalizing m with
  | nil => simp
  | cons item items ih =>
      rw [group_cons, ih]
      by_cases hkey : key item = k
      · subst hkey
        simp
      · simp [upsert_of_ne hkey, hkey]

theorem hasAt_group {φ : β → Prop} {ψ : ι → Prop}
    (hadd : ∀ item acc, φ (add item acc) ↔ φ acc ∨ ψ item) :
    HasAt φ (group key add items m) k ↔ HasAt φ m k ∨ ∃ item ∈ items, key item = k ∧ ψ item := by
  induction items generalizing m with
  | nil => simp
  | cons item items ih =>
      rw [group_cons, ih]
      by_cases hkey : key item = k
      · subst hkey
        simp only [HasAt, upsert_self, Option.getD_some, hadd, List.mem_cons, exists_eq_or_imp,
          true_and, or_assoc]
      · simp only [HasAt, upsert_of_ne hkey, List.mem_cons, exists_eq_or_imp, hkey, false_and,
          false_or]

theorem getD_group [DecidableEq κ] : (group key add items m)[k]?.getD default =
      (items.filter fun item => key item = k).foldl (fun acc item => add item acc)
        (m[k]?.getD default) := by
  induction items generalizing m with
  | nil => rfl
  | cons item items ih =>
      rw [group_cons, ih]
      by_cases hkey : key item = k
      · subst hkey
        rw [upsert_self, List.filter_cons, if_pos (decide_eq_true rfl)]
        rfl
      · rw [upsert_of_ne hkey, List.filter_cons, if_neg (by simpa using hkey)]

/-! ## Counts -/

section Counts

variable [DecidableEq κ]

/-- How often each key occurs. -/
def counts (key : ι → κ) (items : List ι) : Std.TreeMap κ ℕ :=
  group key (fun _ n => n + 1) items ∅

theorem getD_counts :
    (counts key items)[k]?.getD 0 = (items.filter fun item => key item = k).length := by
  have hfold : ∀ (l : List ι) (n : ℕ), l.foldl (fun n _ => n + 1) n = n + l.length := by
    intro l
    induction l with
    | nil => exact fun n => rfl
    | cons item l ih =>
        intro n
        rw [List.foldl_cons, ih, List.length_cons]
        omega
  have hgetD : (counts key items)[k]?.getD 0 = _ := getD_group
  rw [hgetD, Std.TreeMap.getElem?_emptyc, hfold]
  exact Nat.zero_add _

theorem getElem?_counts {n : ℕ} : (counts key items)[k]? = some n ↔
      (∃ item ∈ items, key item = k) ∧ (items.filter fun item => key item = k).length = n := by
  have hsome : (counts key items)[k]?.isSome ↔ _ := isSome_group
  rw [Std.TreeMap.getElem?_emptyc, Option.isSome_none] at hsome
  simp only [Bool.false_eq_true, false_or] at hsome
  rw [← hsome, ← getD_counts]
  cases (counts key items)[k]? <;> simp

omit [DecidableEq κ] in
theorem mem_keys_counts : k ∈ (counts key items).keys ↔ ∃ item ∈ items, key item = k := by
  have hsome : (counts key items)[k]?.isSome ↔ _ := isSome_group
  rw [Std.TreeMap.getElem?_emptyc, Option.isSome_none] at hsome
  simp only [Bool.false_eq_true, false_or] at hsome
  rw [← hsome]
  simp

theorem toFinset_keys_counts : (counts key items).keys.toFinset = (items.map key).toFinset := by
  ext k
  rw [List.mem_toFinset, mem_keys_counts, List.mem_toFinset, List.mem_map]

theorem size_counts : (counts key items).size = (items.map key).toFinset.card := by
  rw [← toFinset_keys_counts, List.toFinset_card_of_nodup Std.TreeMap.nodup_keys,
    Std.TreeMap.length_keys]

theorem sum_counts : ((counts key items).toList.map Prod.snd).sum = items.length := by
  have hsnd : (counts key items).toList.map Prod.snd =
      (counts key items).keys.map fun k => (items.map key).count k := by
    rw [← Std.TreeMap.map_fst_toList_eq_keys, List.map_map]
    refine List.map_congr_left fun entry hmem => ?_
    obtain ⟨k, n⟩ := entry
    obtain ⟨-, hlength⟩ :=
      getElem?_counts.mp (Std.TreeMap.mem_toList_iff_getElem?_eq_some.mp hmem)
    rw [Function.comp_apply, List.count_eq_countP, List.countP_map, List.countP_eq_length_filter]
    exact hlength.symm
  rw [hsnd, ← List.sum_toFinset _ Std.TreeMap.nodup_keys, toFinset_keys_counts,
    List.sum_toFinset_count_eq_length, List.length_map]

end Counts

/-! ## The map visited in order -/

section Visit

variable {ε γ : Type*} {α : Type*} {R : α → γ → Prop} {xs : List α} {f : α → Except ε γ}
  {ys : List γ}

theorem mapM_eq_ok_map {g : α → γ}
    (h : ∀ x ∈ xs, f x = .ok (g x)) : xs.mapM f = .ok (xs.map g) := by
  induction xs with
  | nil => rfl
  | cons x xs ih =>
      rw [List.mapM_cons, h x List.mem_cons_self,
        ih fun x' hx' => h x' (List.mem_cons_of_mem x hx')]
      rfl

theorem exists_of_mem_forall₂
    (hall : List.Forall₂ R xs ys) {y : γ} (hy : y ∈ ys) : ∃ x ∈ xs, R x y := by
  induction hall with
  | nil => exact absurd hy List.not_mem_nil
  | cons hR hall ih =>
      rcases List.mem_cons.mp hy with rfl | hy
      · exact ⟨_, List.mem_cons_self, hR⟩
      · obtain ⟨x, hx, hR⟩ := ih hy
        exact ⟨x, List.mem_cons_of_mem _ hx, hR⟩

theorem exists_of_forall₂_mem
    (hall : List.Forall₂ R xs ys) {x : α} (hx : x ∈ xs) : ∃ y ∈ ys, R x y := by
  induction hall with
  | nil => exact absurd hx List.not_mem_nil
  | cons hR hall ih =>
      rcases List.mem_cons.mp hx with rfl | hx
      · exact ⟨_, List.mem_cons_self, hR⟩
      · obtain ⟨y, hy, hR⟩ := ih hx
        exact ⟨y, List.mem_cons_of_mem _ hy, hR⟩

theorem exists_mapM_forall₂ (h : ∀ x ∈ xs, ∃ y, f x = .ok y ∧ R x y) :
    ∃ ys, xs.mapM f = .ok ys ∧ List.Forall₂ (fun x y => x ∈ xs ∧ R x y) xs ys := by
  induction xs with
  | nil => exact ⟨[], rfl, .nil⟩
  | cons x xs ih =>
      obtain ⟨y, hy, hR⟩ := h x List.mem_cons_self
      obtain ⟨ys, hys, hall⟩ := ih fun x' hx' => h x' (List.mem_cons_of_mem x hx')
      refine ⟨y :: ys, by rw [List.mapM_cons, hy, hys]; rfl, .cons ⟨List.mem_cons_self, hR⟩ ?_⟩
      exact hall.imp fun _ _ h => ⟨List.mem_cons_of_mem x h.1, h.2⟩

theorem exists_mapM_eq_ok (h : ∀ x ∈ xs, ∃ y, f x = .ok y ∧ R x y) :
    ∃ ys, xs.mapM f = .ok ys ∧ (∀ x ∈ xs, ∃ y ∈ ys, R x y) ∧ ∀ y ∈ ys, ∃ x ∈ xs, R x y := by
  obtain ⟨ys, hys, hall⟩ := exists_mapM_forall₂ h
  refine ⟨ys, hys, fun x hx => ?_, fun y hy => ?_⟩
  · obtain ⟨y, hy, -, hR⟩ := exists_of_forall₂_mem hall hx
    exact ⟨y, hy, hR⟩
  · obtain ⟨x, hx, -, hR⟩ := exists_of_mem_forall₂ hall hy
    exact ⟨x, hx, hR⟩

theorem pairwise_of_forall₂ {P : α → α → Prop} {Q : γ → γ → Prop}
    (hall : List.Forall₂ R xs ys) (hxs : xs.Pairwise P)
    (hto : ∀ x x' y y', R x y → R x' y' → P x x' → Q y y') : ys.Pairwise Q := by
  induction hall with
  | nil => exact .nil
  | cons hR hall ih =>
      obtain ⟨hfirst, hrest⟩ := List.pairwise_cons.mp hxs
      refine List.pairwise_cons.mpr ⟨fun y' hy' => ?_, ih hrest⟩
      obtain ⟨x', hx', hR'⟩ := exists_of_mem_forall₂ hall hy'
      exact hto _ _ _ _ hR hR' (hfirst x' hx')

theorem exists_of_mem_mapM
    (h : xs.mapM f = .ok ys) {y : γ} (hy : y ∈ ys) : ∃ x ∈ xs, f x = .ok y := by
  induction xs generalizing ys with
  | nil =>
      cases h
      exact absurd hy List.not_mem_nil
  | cons x xs ih =>
      rw [List.mapM_cons] at h
      cases hx : f x with
      | error e =>
          rw [hx] at h
          exact nomatch h
      | ok y' =>
          cases hxs : xs.mapM f with
          | error e =>
              rw [hx, hxs] at h
              exact nomatch h
          | ok ys' =>
              rw [hx, hxs] at h
              cases h
              rcases List.mem_cons.mp hy with rfl | hy
              · exact ⟨x, List.mem_cons_self, hx⟩
              · obtain ⟨x', hx', hy'⟩ := ih hxs hy
                exact ⟨x', List.mem_cons_of_mem x hx', hy'⟩

end Visit

end GpuCalorie.Math
