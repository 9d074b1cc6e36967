/-
# Search trees

A binary tree that finds its keys by a comparison. What it finds depends on the shape of the tree
as long as nothing is known of the comparison; when it orders the keys strictly, a tree whose
entries are sorted finds exactly what is in it, however it is balanced.
-/

import Mathlib.Data.List.Pairwise
import Mathlib.Data.Set.Basic

namespace GpuCalorie.Math

universe u v

variable {κ : Type u} {ι : Type v}

/-- A comparison that is a strict weak order on a set of keys. -/
structure StrictWeakOrderOn (comp : κ → κ → Bool) (K : Set κ) : Prop where
  irrefl : ∀ a ∈ K, ¬comp a a
  trans : ∀ a ∈ K, ∀ b ∈ K, ∀ c ∈ K, comp a b → comp b c → comp a c
  incomp_trans : ∀ a ∈ K, ∀ b ∈ K, ∀ c ∈ K, ¬comp a b → ¬comp b a → ¬comp b c → ¬comp c b →
    ¬comp a c ∧ ¬comp c a

/-- The keys a comparison does not tell apart are the equal ones. -/
def Separates (comp : κ → κ → Bool) (K : Set κ) : Prop :=
  ∀ a ∈ K, ∀ b ∈ K, (¬comp a b ∧ ¬comp b a) ↔ a = b

/-- A binary tree with a key and a value at every node. -/
inductive SearchTree (κ : Type u) (ι : Type v) where
  | leaf
  | node (left : SearchTree κ ι) (key : κ) (value : ι) (right : SearchTree κ ι)

namespace SearchTree

variable (comp : κ → κ → Bool)

/-- The keys and their values from left to right. -/
def entries : SearchTree κ ι → List (κ × ι)
  | leaf => []
  | node l key value r => l.entries ++ (key, value) :: r.entries

/-- The descent to the first entry that is not before a key; `best` is the last node left to the
right. -/
def lowerBound : SearchTree κ ι → κ → Option (κ × ι) → Option (κ × ι)
  | leaf, _, best => best
  | node l key value r, k, best =>
      if comp key k then lowerBound r k best else lowerBound l k (some (key, value))

/-- The value of a key. -/
def find (t : SearchTree κ ι) (k : κ) : Option ι :=
  match t.lowerBound comp k none with
  | some e => if comp k e.1 then none else some e.2
  | none => none

/-- A new node where the descent for its key ends. -/
def insert : SearchTree κ ι → κ → ι → SearchTree κ ι
  | leaf, k, v => node leaf k v leaf
  | node l key value r, k, v =>
      if comp k key then node (insert l k v) key value r else node l key value (insert r k v)

/-- The keys of the entries are in order. -/
def Sorted (t : SearchTree κ ι) : Prop := t.entries.Pairwise fun e e' => comp e.1 e'.1

variable {comp} {t : SearchTree κ ι} {K : Set κ} {k : κ} {v i : ι}

@[simp] theorem entries_leaf : (leaf : SearchTree κ ι).entries = [] := rfl

variable (comp) in
theorem entries_insert (t : SearchTree κ ι) (k : κ) (v : ι) :
    ∃ before after, t.entries = before ++ after ∧
      (t.insert comp k v).entries = before ++ (k, v) :: after := by
  induction t with
  | leaf => exact ⟨[], [], rfl, rfl⟩
  | node l key value r ihl ihr =>
      by_cases hk : comp k key
      · obtain ⟨before, after, hl, hinsert⟩ := ihl
        refine ⟨before, after ++ (key, value) :: r.entries, ?_, ?_⟩
        · rw [entries, hl, List.append_assoc]
        · rw [insert, if_pos hk, entries, hinsert, List.append_assoc, List.cons_append]
      · obtain ⟨before, after, hr, hinsert⟩ := ihr
        refine ⟨l.entries ++ (key, value) :: before, after, ?_, ?_⟩
        · rw [entries, hr, List.append_assoc, List.cons_append]
        · rw [insert, if_neg hk, entries, hinsert, List.append_assoc, List.cons_append]

theorem mem_entries_insert {e : κ × ι} :
    e ∈ (t.insert comp k v).entries ↔ e = (k, v) ∨ e ∈ t.entries := by
  obtain ⟨before, after, ht, hinsert⟩ := entries_insert comp t k v
  rw [ht, hinsert, List.mem_append, List.mem_cons, List.mem_append]
  exact or_left_comm

section Ordered

variable (horder : StrictWeakOrderOn comp K) (hsep : Separates comp K)

include horder

variable (hsorted : t.Sorted comp) (hkeys : ∀ e ∈ t.entries, e.1 ∈ K)
include hsorted hkeys

theorem lowerBound_eq (hk : k ∈ K) (best : Option (κ × ι)) :
    t.lowerBound comp k best = (t.entries.find? fun e => !comp e.1 k).or best := by
  induction t generalizing best with
  | leaf => rfl
  | node l key value r ihl ihr =>
      obtain ⟨hl, hr, hlr⟩ := List.pairwise_append.mp hsorted
      have hkeyl : ∀ e ∈ l.entries, e.1 ∈ K := fun e he =>
        hkeys e (List.mem_append_left _ he)
      have hkeyr : ∀ e ∈ r.entries, e.1 ∈ K := fun e he =>
        hkeys e (List.mem_append_right _ (List.mem_cons_of_mem _ he))
      have hkey : key ∈ K :=
        hkeys (key, value) (List.mem_append_right _ List.mem_cons_self)
      rw [lowerBound, entries, List.find?_append]
      by_cases hcomp : comp key k
      · -- the node is before the key, and so is all that is on its left
        have hnone : l.entries.find? (fun e => !comp e.1 k) = none := by
          rw [List.find?_eq_none]
          intro e he
          have hbefore := hlr e he (key, value) List.mem_cons_self
          simp [horder.trans _ (hkeyl e he) _ hkey _ hk hbefore hcomp]
        rw [if_pos hcomp, ihr (List.Pairwise.of_cons hr) hkeyr, hnone, Option.none_or,
          List.find?_cons_of_neg (by simp [hcomp])]
      · rw [if_neg hcomp, ihl hl hkeyl, List.find?_cons_of_pos (by simp [hcomp]),
          Option.or_assoc, Option.some_or]

include hsep

theorem find_eq_some_iff (hk : k ∈ K) : t.find comp k = some i ↔ (k, i) ∈ t.entries := by
  rw [find, lowerBound_eq horder hsorted hkeys hk, Option.or_none]
  constructor
  · intro hfind
    cases hfirst : t.entries.find? fun e => !comp e.1 k with
    | none => simp [hfirst] at hfind
    | some e =>
        have hmem := List.mem_of_find?_eq_some hfirst
        have hle : ¬comp e.1 k := by simpa using List.find?_some hfirst
        have hge : ¬comp k e.1 := by
          intro hlt
          simp [hfirst, hlt] at hfind
        have hkey : e.1 = k := (hsep _ (hkeys e hmem) _ hk).mp ⟨hle, hge⟩
        have hvalue : e.2 = i := by simpa [hfirst, hge] using hfind
        rwa [← hkey, ← hvalue]
  · intro hmem
    obtain ⟨before, after, heq⟩ := List.append_of_mem hmem
    have hself : ¬comp k k := horder.irrefl k hk
    have hnone : before.find? (fun e => !comp e.1 k) = none := by
      rw [List.find?_eq_none]
      intro e he
      rw [Sorted, heq] at hsorted
      simp [(List.pairwise_append.mp hsorted).2.2 e he (k, i) List.mem_cons_self]
    rw [heq, List.find?_append, hnone, Option.none_or, List.find?_cons_of_pos (by simp [hself])]
    simp [hself]

theorem find_eq_none_iff (hk : k ∈ K) : t.find comp k = none ↔ ∀ e ∈ t.entries, e.1 ≠ k := by
  rw [Option.eq_none_iff_forall_ne_some]
  constructor
  · rintro hnone ⟨_, i⟩ he rfl
    exact hnone i ((find_eq_some_iff horder hsep hsorted hkeys hk).mpr he)
  · intro habsent i hfind
    exact habsent _ ((find_eq_some_iff horder hsep hsorted hkeys hk).mp hfind) rfl

theorem Sorted.insert (hk : k ∈ K)
    (habsent : ∀ e ∈ t.entries, e.1 ≠ k) : (t.insert comp k v).Sorted comp := by
  induction t with
  | leaf => exact List.pairwise_singleton _ _
  | node l key value r ihl ihr =>
      obtain ⟨hl, hr, hlr⟩ := List.pairwise_append.mp hsorted
      have hkey : key ∈ K :=
        hkeys (key, value) (List.mem_append_right _ List.mem_cons_self)
      by_cases hcomp : comp k key
      · have hleft : ∀ e ∈ (l.insert comp k v).entries, ∀ e' ∈ (key, value) :: r.entries,
            comp e.1 e'.1 := by
          intro e he e' he'
          obtain rfl | he := mem_entries_insert.mp he
          · obtain rfl | hafter := List.mem_cons.mp he'
            · exact hcomp
            · exact horder.trans _ hk _ hkey _ (hkeys e' (List.mem_append_right _ he')) hcomp
                (List.rel_of_pairwise_cons hr hafter)
          · exact hlr e he e' he'
        rw [SearchTree.insert, if_pos hcomp]
        exact List.pairwise_append.mpr ⟨ihl hl (fun e he => hkeys e (List.mem_append_left _ he))
          fun e he => habsent e (List.mem_append_left _ he), hr, hleft⟩
      · -- the key is not the node's, so that it is after it
        have hafter : comp key k := by
          by_contra hnot
          exact habsent (key, value) (List.mem_append_right _ List.mem_cons_self)
            ((hsep key hkey k hk).mp ⟨hnot, hcomp⟩)
        have hright : ∀ e ∈ (r.insert comp k v).entries, comp key e.1 := by
          intro e he
          obtain rfl | he := mem_entries_insert.mp he
          · exact hafter
          · exact List.rel_of_pairwise_cons hr he
        have hleft : ∀ e ∈ l.entries, ∀ e' ∈ (key, value) :: (r.insert comp k v).entries,
            comp e.1 e'.1 := by
          intro e he e' he'
          have hbefore := hlr e he (key, value) List.mem_cons_self
          obtain rfl | he' := List.mem_cons.mp he'
          · exact hbefore
          obtain rfl | he' := mem_entries_insert.mp he'
          · exact horder.trans _ (hkeys e (List.mem_append_left _ he)) _ hkey _ hk hbefore hafter
          · exact hlr e he e' (List.mem_cons_of_mem _ he')
        have hr' := ihr (List.Pairwise.of_cons hr)
          (fun e he => hkeys e (List.mem_append_right _ (List.mem_cons_of_mem _ he)))
          fun e he => habsent e (List.mem_append_right _ (List.mem_cons_of_mem _ he))
        rw [SearchTree.insert, if_neg hcomp]
        exact List.pairwise_append.mpr ⟨hl, List.pairwise_cons.mpr ⟨hright, hr'⟩, hleft⟩

end Ordered

end SearchTree

end GpuCalorie.Math
