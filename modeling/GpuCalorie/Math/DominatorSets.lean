/-
# Dominator sets by iteration, and their closest members

A finite graph is given by the neighbours of each vertex, towards a root. The sets of vertices
on all paths to the root are the solution of a data-flow equation that an iteration from the
full sets downwards arrives at, whatever the order in which it visits the vertices:
`DescendingSets` is its invariant, and every visit that changes a set lowers `setWeight`.

A vertex that does not reach the root keeps the full set. So such neighbours do not matter.

`pruneSets` leaves the closest of the vertices of a set: it goes over the set and erases what
is in the sets of the others, while it goes.
-/

import GpuCalorie.Math.Postdominance
import Mathlib.Algebra.Order.BigOperators.Group.Finset
import Mathlib.Algebra.BigOperators.Group.Finset.Basic
import Mathlib.Data.Finset.Sort

namespace GpuCalorie.Math

variable {n root : ℕ} {next D D' : ℕ → Finset ℕ} {v w h : ℕ}

/-! ## The equation -/

/-- The edges to the neighbours. -/
def neighbourEdge (n : ℕ) (next : ℕ → Finset ℕ) (v w : ℕ) : Prop :=
  v < n ∧ w ∈ next v

/-- The right-hand side of the equation at a vertex. -/
def meetSets (n : ℕ) (next D : ℕ → Finset ℕ) (v : ℕ) : Finset ℕ :=
  insert v ((Finset.range n).filter fun w => ∀ s ∈ next v, w ∈ D s)

theorem mem_meetSets :
    w ∈ meetSets n next D v ↔ w = v ∨ (w < n ∧ ∀ s ∈ next v, w ∈ D s) := by
  simp [meetSets]

theorem meetSets_mono (hle : ∀ v, D' v ⊆ D v) : meetSets n next D' v ⊆ meetSets n next D v := by
  intro w hw
  rw [mem_meetSets] at hw ⊢
  exact hw.imp_right fun ⟨hlt, hall⟩ => ⟨hlt, fun s hs => hle s (hall s hs)⟩

/-- What holds of the sets throughout the iteration: they lie between the solution and the
full sets, and the equation would only shrink them. -/
structure DescendingSets (n root : ℕ) (next D : ℕ → Finset ℕ) : Prop where
  root_eq : D root = {root}
  complete : ∀ v < n, ∀ w < n, Postdominates (neighbourEdge n next) root w v → w ∈ D v
  shrinks : ∀ v < n, v ≠ root → meetSets n next D v ⊆ D v
  bounded : ∀ v < n, D v ⊆ Finset.range n

/-- How many elements the sets have. -/
def setWeight (n : ℕ) (D : ℕ → Finset ℕ) : ℕ :=
  ∑ v ∈ Finset.range n, (D v).card

namespace DescendingSets

theorem full (hroot : root < n) (hself : D root = {root})
    (hall : ∀ v < n, v ≠ root → D v = Finset.range n) : DescendingSets n root next D where
  root_eq := hself
  complete v hv w hw hpd := by
    by_cases hvr : v = root
    · rw [hvr] at hpd ⊢
      rw [hself, Finset.mem_singleton]
      exact postdominates_exit_iff.mp hpd
    · rw [hall v hv hvr]
      exact Finset.mem_range.mpr hw
  shrinks v hv hvr w hw := by
    rw [hall v hv hvr, Finset.mem_range]
    rcases mem_meetSets.mp hw with rfl | hw
    · exact hv
    · exact hw.1
  bounded v hv := by
    by_cases hvr : v = root
    · rw [hvr, hself, Finset.singleton_subset_iff]
      exact Finset.mem_range.mpr hroot
    · exact (hall v hv hvr).subset

theorem setWeight_le (hD : DescendingSets n root next D) : setWeight n D ≤ n * n := by
  have hcard : ∀ v ∈ Finset.range n, (D v).card ≤ n := by
    intro v hv
    simpa using Finset.card_le_card (hD.bounded v (Finset.mem_range.mp hv))
  simpa [setWeight] using Finset.sum_le_card_nsmul _ _ _ hcard

section Visit

variable (hnext : ∀ v < n, ∀ s ∈ next v, s < n)
include hnext

theorem mem_meetSets_of_postdominates (hD : DescendingSets n root next D) (hv : v < n)
    (hne : v ≠ root) (hw : w < n) (hpd : Postdominates (neighbourEdge n next) root w v) :
    w ∈ meetSets n next D v := by
  rw [mem_meetSets]
  refine ((postdominates_iff_of_ne_exit hne).mp hpd).imp_right fun hall => ⟨hw, ?_⟩
  intro s hs
  exact hD.complete s (hnext v hv s hs) w hw (hall s ⟨hv, hs⟩)

theorem update (hD : DescendingSets n root next D) (hh : h < n) (hne : h ≠ root) :
    DescendingSets n root next (Function.update D h (meetSets n next D h)) := by
  have hle : ∀ u, Function.update D h (meetSets n next D h) u ⊆ D u := by
    intro u
    by_cases hu : u = h
    · subst hu
      simpa using hD.shrinks u hh hne
    · simp [hu]
  refine ⟨?_, ?_, ?_, fun u hu => (hle u).trans (hD.bounded u hu)⟩
  · rw [Function.update_of_ne hne.symm]
    exact hD.root_eq
  · intro u hu w hw hpd
    by_cases huh : u = h
    · subst huh
      simpa using hD.mem_meetSets_of_postdominates hnext hu hne hw hpd
    · simpa [huh] using hD.complete u hu w hw hpd
  · intro u hu hur
    by_cases huh : u = h
    · subst huh
      simpa using meetSets_mono hle
    · simpa [huh] using (meetSets_mono hle).trans (hD.shrinks u hu hur)

end Visit

theorem setWeight_update_lt (hD : DescendingSets n root next D) (hh : h < n) (hne : h ≠ root)
    (hchange : meetSets n next D h ≠ D h) :
    setWeight n (Function.update D h (meetSets n next D h)) < setWeight n D := by
  have hcard : (meetSets n next D h).card < (D h).card :=
    Finset.card_lt_card (Finset.ssubset_iff_subset_ne.mpr ⟨hD.shrinks h hh hne, hchange⟩)
  refine Finset.sum_lt_sum (fun u _ => ?_) ⟨h, Finset.mem_range.mpr hh, by simpa using hcard⟩
  by_cases hu : u = h
  · subst hu
    simpa using hcard.le
  · simp [hu]

theorem mem_iff_of_solution (hroot : root < n) (hD : DescendingSets n root next D)
    (hsol : ∀ v < n, v ≠ root → meetSets n next D v = D v) (hv : v < n) (hw : w < n) :
    w ∈ D v ↔ Postdominates (neighbourEdge n next) root w v := by
  refine ⟨fun hmem => ?_, hD.complete v hv w hw⟩
  refine postdominates_of_solution (D := fun v w => v < n → w ∈ D v) ?_ ?_ fun _ => hmem
  · intro u hu
    simpa [hD.root_eq] using hu hroot
  · intro u x y hx hedge
    by_cases hur : u = root
    · have hmem := hx hedge.1
      rw [hur, hD.root_eq, Finset.mem_singleton] at hmem
      exact .inl (hmem.trans hur.symm)
    · have hmeet := hx hedge.1
      rw [← hsol u hedge.1 hur, mem_meetSets] at hmeet
      exact hmeet.imp_right fun hall _ => hall.2 y hedge.2

end DescendingSets

/-! ## Rounds -/

/-- What a round that started with the sets `D₀` has achieved when some vertices are visited:
an element is gone, or nothing has changed and these solve the equation. -/
structure RoundSets (n root : ℕ) (next D₀ : ℕ → Finset ℕ) (visited : ℕ → Prop) (D : ℕ → Finset ℕ)
    (change : Bool) : Prop where
  descending : DescendingSets n root next D
  achieved : if change then setWeight n D < setWeight n D₀
    else D = D₀ ∧ ∀ v, visited v → meetSets n next D v = D v

namespace RoundSets

variable {D₀ : ℕ → Finset ℕ} {visited visited' : ℕ → Prop} {change : Bool}

theorem start (hD : DescendingSets n root next D) (hnone : ∀ v, ¬ visited v) :
    RoundSets n root next D visited D false :=
  ⟨hD, rfl, fun v hv => absurd hv (hnone v)⟩

theorem visit_same (hround : RoundSets n root next D₀ visited D change)
    (heq : meetSets n next D h = D h) (hvisited : ∀ v, visited' v → v = h ∨ visited v) :
    RoundSets n root next D₀ visited' D change := by
  refine ⟨hround.descending, ?_⟩
  cases change with
  | true => exact hround.achieved
  | false =>
      obtain ⟨hstart, hdone⟩ := hround.achieved
      refine ⟨hstart, fun v hv => ?_⟩
      rcases hvisited v hv with rfl | hv
      · exact heq
      · exact hdone v hv

theorem visit_change (hnext : ∀ v < n, ∀ s ∈ next v, s < n)
    (hround : RoundSets n root next D₀ visited D change) (hh : h < n) (hne : h ≠ root)
    (hchange : meetSets n next D h ≠ D h) :
    RoundSets n root next D₀ visited' (Function.update D h (meetSets n next D h)) true := by
  have hless := hround.descending.setWeight_update_lt hh hne hchange
  refine ⟨hround.descending.update hnext hh hne, ?_⟩
  cases change with
  | true => exact hless.trans hround.achieved
  | false => exact hround.achieved.1 ▸ hless

end RoundSets

/-! ## Closest members -/

/-- Erase the other members of a set that are in the set of `s`, in order. -/
def pruneSet (P : ℕ → Finset ℕ) (s : ℕ) (tmp : Finset ℕ) : Finset ℕ :=
  (tmp.sort (· ≤ ·)).foldl (fun T t => if s = t then T else if t ∈ P s then T.erase t else T) tmp

/-- Do so for the members that are left when their turn comes. -/
def pruneSets (P : ℕ → Finset ℕ) : List ℕ → Finset ℕ → Finset ℕ
  | [], tmp => tmp
  | s :: rest, tmp => pruneSets P rest (if s ∈ tmp then pruneSet P s tmp else tmp)

variable {P : ℕ → Finset ℕ} {tmp : Finset ℕ} {s i : ℕ} {ids : List ℕ}

theorem mem_foldl_prune {Q : Finset ℕ} :
    w ∈ ids.foldl (fun T t => if s = t then T else if t ∈ Q then T.erase t else T) tmp ↔
      w ∈ tmp ∧ (w ∈ ids → s = w ∨ w ∉ Q) := by
  induction ids generalizing tmp with
  | nil => simp
  | cons t rest ih =>
      rw [List.foldl_cons, ih]
      by_cases hs : s = t
      · subst hs
        simp only [if_true, List.mem_cons]
        tauto
      · by_cases ht : t ∈ Q
        · simp only [hs, ht, if_true, if_false, Finset.mem_erase, List.mem_cons]
          constructor
          · rintro ⟨⟨hne, hmem⟩, hrest⟩
            exact ⟨hmem, fun h => hrest (h.resolve_left hne)⟩
          · rintro ⟨hmem, hall⟩
            refine ⟨⟨?_, hmem⟩, fun h => hall (.inr h)⟩
            rintro rfl
            exact (hall (.inl rfl)).elim hs fun hnot => hnot ht
        · simp only [hs, ht, if_false, List.mem_cons]
          constructor
          · rintro ⟨hmem, hrest⟩
            refine ⟨hmem, ?_⟩
            rintro (rfl | h)
            · exact .inr ht
            · exact hrest h
          · exact fun ⟨hmem, hall⟩ => ⟨hmem, fun h => hall (.inr h)⟩

theorem mem_pruneSet : w ∈ pruneSet P s tmp ↔ w ∈ tmp ∧ (s = w ∨ w ∉ P s) := by
  rw [pruneSet, mem_foldl_prune, Finset.mem_sort]
  exact ⟨fun ⟨hmem, hall⟩ => ⟨hmem, hall hmem⟩, fun ⟨hmem, hkeep⟩ => ⟨hmem, fun _ => hkeep⟩⟩

theorem pruneSets_eq_singleton (hmem : i ∈ tmp) (hclosest : ∀ t ∈ tmp, t ∈ P i)
    (hlast : ∀ t ∈ tmp, i ∈ P t → t = i) (hvisit : i ∈ ids ∨ tmp = {i}) :
    pruneSets P ids tmp = {i} := by
  induction ids generalizing tmp with
  | nil => exact hvisit.resolve_left List.not_mem_nil
  | cons s rest ih =>
      rw [pruneSets]
      by_cases hs : s ∈ tmp
      · rw [if_pos hs]
        have hsub : ∀ t ∈ pruneSet P s tmp, t ∈ tmp := fun t ht => (mem_pruneSet.mp ht).1
        have hkept : i ∈ pruneSet P s tmp := by
          refine mem_pruneSet.mpr ⟨hmem, ?_⟩
          by_cases hpd : i ∈ P s
          · exact .inl (hlast s hs hpd)
          · exact .inr hpd
        refine ih hkept (fun t ht => hclosest t (hsub t ht)) (fun t ht => hlast t (hsub t ht)) ?_
        rcases hvisit with hvisit | halone
        · rcases List.mem_cons.mp hvisit with rfl | hrest
          · -- the visit of `i` itself erases everything else
            refine .inr (Finset.eq_singleton_iff_unique_mem.mpr ⟨hkept, fun t ht => ?_⟩)
            obtain ⟨htmp, hkeep⟩ := mem_pruneSet.mp ht
            exact (hkeep.resolve_right fun hnot => hnot (hclosest t htmp)).symm
          · exact .inl hrest
        · refine .inr (Finset.eq_singleton_iff_unique_mem.mpr ⟨hkept, fun t ht => ?_⟩)
          exact Finset.mem_singleton.mp (halone ▸ hsub t ht)
      · rw [if_neg hs]
        refine ih hmem hclosest hlast (hvisit.imp_left fun hvisit => ?_)
        rcases List.mem_cons.mp hvisit with rfl | hrest
        · exact absurd hmem hs
        · exact hrest

theorem pruneSets_nonempty (htmp : tmp.Nonempty) : (pruneSets P ids tmp).Nonempty := by
  induction ids generalizing tmp with
  | nil => exact htmp
  | cons s rest ih =>
      rw [pruneSets]
      apply ih
      split_ifs with hs
      · exact ⟨s, mem_pruneSet.mpr ⟨hs, .inl rfl⟩⟩
      · exact htmp

theorem pruneSets_subset : pruneSets P ids tmp ⊆ tmp := by
  induction ids generalizing tmp with
  | nil => exact Finset.Subset.refl tmp
  | cons s rest ih =>
      rw [pruneSets]
      refine ih.trans ?_
      split_ifs
      · exact fun t ht => (mem_pruneSet.mp ht).1
      · exact Finset.Subset.refl tmp

end GpuCalorie.Math
