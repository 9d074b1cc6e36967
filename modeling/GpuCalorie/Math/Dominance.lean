/-
# Dominance in a graph with a distinguished entry

A vertex dominates another when every path from the entry to the second runs through it.
Along reversed edges these are the paths to an exit, and dominance is post-dominance; the
laws of the one are those of the other.
-/

import GpuCalorie.Math.Postdominance

namespace GpuCalorie.Math

universe u

variable {V : Type u}

/-- The vertices, in order, of a path from the entry to a vertex. -/
inductive PathFrom (edge : V → V → Prop) (entry : V) : V → List V → Prop
  | here : PathFrom edge entry entry [entry]
  | step {v w : V} {path : List V} (walked : PathFrom edge entry v path) (taken : edge v w) :
      PathFrom edge entry w (path ++ [w])

/-- Every path from the entry to `v` runs through `w`. -/
def Dominates (edge : V → V → Prop) (entry w v : V) : Prop :=
  ∀ path, PathFrom edge entry v path → w ∈ path

/-- Dominance by another vertex. -/
def StrictlyDominates (edge : V → V → Prop) (entry w v : V) : Prop :=
  w ≠ v ∧ Dominates edge entry w v

/-- The closest strict dominator: every other one dominates it. -/
def ImmediatelyDominates (edge : V → V → Prop) (entry i v : V) : Prop :=
  StrictlyDominates edge entry i v ∧
    ∀ w, StrictlyDominates edge entry w v → Dominates edge entry w i

/-- Some path leads from the entry to the vertex. -/
def ReachedFrom (edge : V → V → Prop) (entry v : V) : Prop :=
  ∃ path, PathFrom edge entry v path

/-- The same edges, backwards. -/
abbrev reversed (edge : V → V → Prop) : V → V → Prop :=
  fun v u => edge u v

variable {edge : V → V → Prop} {entry v w x i j : V} {path : List V} {P : V → Prop} {rest : List V}

/-! ## Backwards -/

theorem PathFrom.reverse (h : PathFrom edge entry v path) :
    PathTo (reversed edge) entry v path.reverse := by
  induction h with
  | here => exact .here
  | step _ taken ih =>
      rw [List.reverse_append]
      exact .edge taken ih

theorem PathTo.reverse (h : PathTo (reversed edge) entry v path) :
    PathFrom edge entry v path.reverse := by
  induction h with
  | here => exact .here
  | edge taken _ ih =>
      rw [List.reverse_cons]
      exact .step ih taken

theorem PathFrom.forall_mem (start : P entry) (ends : ∀ v w, edge v w → P w)
    (h : PathFrom edge entry v path) : ∀ w ∈ path, P w := by
  induction h with
  | here =>
      intro w hw
      rw [List.mem_singleton.mp hw]
      exact start
  | step _ taken ih =>
      intro w hw
      rcases List.mem_append.mp hw with hw | hw
      · exact ih w hw
      · rw [List.mem_singleton.mp hw]
        exact ends _ _ taken

theorem Dominates.of_reached (h : Dominates edge entry w v)
    (hreached : ReachedFrom edge entry v) (start : P entry) (ends : ∀ v w, edge v w → P w) :
    P w := by
  obtain ⟨path, hpath⟩ := hreached
  exact hpath.forall_mem start ends w (h path hpath)

theorem reachedFrom_iff : ReachedFrom edge entry v ↔ ReachesExit (reversed edge) entry v :=
  ⟨fun ⟨_, h⟩ => ⟨_, h.reverse⟩, fun ⟨_, h⟩ => ⟨_, h.reverse⟩⟩

theorem dominates_iff : Dominates edge entry w v ↔ Postdominates (reversed edge) entry w v := by
  constructor
  · intro h path hpath
    exact List.mem_reverse.mp (h _ hpath.reverse)
  · intro h path hpath
    exact List.mem_reverse.mp (h _ hpath.reverse)

theorem strictlyDominates_iff :
    StrictlyDominates edge entry w v ↔ StrictlyPostdominates (reversed edge) entry w v :=
  and_congr_right fun _ => dominates_iff

theorem immediatelyDominates_iff :
    ImmediatelyDominates edge entry i v ↔ ImmediatelyPostdominates (reversed edge) entry i v :=
  and_congr strictlyDominates_iff
    (forall_congr' fun _ => imp_congr strictlyDominates_iff dominates_iff)

/-! ## The laws -/

theorem Dominates.refl (edge : V → V → Prop) (entry v : V) : Dominates edge entry v v :=
  dominates_iff.mpr (.refl _ _ _)

theorem entry_dominates (edge : V → V → Prop) (entry v : V) : Dominates edge entry entry v :=
  dominates_iff.mpr (exit_postdominates _ _ _)

theorem dominates_entry_iff : Dominates edge entry w entry ↔ w = entry :=
  dominates_iff.trans postdominates_exit_iff

theorem Dominates.trans (hxw : Dominates edge entry x w) (hwv : Dominates edge entry w v) :
    Dominates edge entry x v :=
  dominates_iff.mpr ((dominates_iff.mp hxw).trans (dominates_iff.mp hwv))

theorem Dominates.antisymm (hwv : Dominates edge entry w v) (hvw : Dominates edge entry v w)
    (hv : ReachedFrom edge entry v) : w = v :=
  (dominates_iff.mp hwv).antisymm (dominates_iff.mp hvw) (reachedFrom_iff.mp hv)

theorem PathFrom.append (h : PathFrom edge entry v path)
    (hchain : List.IsChain edge (v :: rest)) (hlast : (v :: rest).getLast? = some w) :
    PathFrom edge entry w (path ++ rest) := by
  induction rest generalizing v path with
  | nil =>
      obtain rfl : v = w := Option.some.inj hlast
      rwa [List.append_nil]
  | cons u rest ih =>
      obtain ⟨taken, hrest⟩ := List.isChain_cons_cons.mp hchain
      rw [List.append_cons]
      exact ih (h.step taken) hrest (by rwa [List.getLast?_cons_cons] at hlast)

theorem reachedFrom_of_isChain (hchain : List.IsChain edge (entry :: rest))
    (hlast : (entry :: rest).getLast? = some v) : ReachedFrom edge entry v :=
  ⟨_, PathFrom.here.append hchain hlast⟩

theorem not_dominates_of_isChain (hchain : List.IsChain edge (entry :: rest))
    (hlast : (entry :: rest).getLast? = some v) (haround : w ∉ entry :: rest) :
    ¬ Dominates edge entry w v :=
  fun h => haround (h _ (PathFrom.here.append hchain hlast))

theorem dominates_of_only_way_in (outside : ¬ P entry)
    (only : ∀ a b, edge a b → ¬ P a → P b → b = w) (inside : P v) : Dominates edge entry w v := by
  intro path hpath
  induction hpath with
  | here => exact absurd inside outside
  | @step a b path walked taken ih =>
      by_cases ha : P a
      · exact List.mem_append_left _ (ih ha)
      · rw [only a b taken ha inside]
        exact List.mem_append_right _ (List.mem_singleton_self w)

theorem Dominates.reached (h : Dominates edge entry w v) (hv : ReachedFrom edge entry v) :
    ReachedFrom edge entry w := by
  obtain ⟨path, hpath⟩ := reachedFrom_iff.mp hv
  obtain ⟨before, after, rfl⟩ := List.append_of_mem (dominates_iff.mp h path hpath)
  exact reachedFrom_iff.mpr ⟨_, hpath.suffix⟩

theorem exists_immediatelyDominates (hv : v ≠ entry) (hreached : ReachedFrom edge entry v) :
    ∃ i, ImmediatelyDominates edge entry i v := by
  obtain ⟨i, hi⟩ := exists_immediatelyPostdominates hv (reachedFrom_iff.mp hreached)
  exact ⟨i, immediatelyDominates_iff.mpr hi⟩

theorem ImmediatelyDominates.reached (h : ImmediatelyDominates edge entry i v)
    (hv : ReachedFrom edge entry v) : ReachedFrom edge entry i :=
  h.1.2.reached hv

theorem ImmediatelyDominates.unique (hi : ImmediatelyDominates edge entry i v)
    (hj : ImmediatelyDominates edge entry j v) (hreached : ReachedFrom edge entry v) : j = i :=
  (immediatelyDominates_iff.mp hi).unique (immediatelyDominates_iff.mp hj)
    (reachedFrom_iff.mp (hi.reached hreached))

end GpuCalorie.Math
