/-
# Post-dominance in a graph with a distinguished exit

A vertex post-dominates another when every path from the second to the exit runs
through it. The graph is any relation on any type: it may have loops, vertices that
nothing reaches and vertices that reach nothing.

Where every vertex reaches the exit, post-dominance is a partial order, and each
vertex other than the exit has exactly one closest strict post-dominator. Sets of
post-dominators are the greatest solution of a backward data-flow equation;
`postdominates_of_solution` says that no solution is larger and
`postdominates_iff_of_ne_exit` that post-dominance is one.
-/

import Mathlib.Data.List.Basic
import Mathlib.Tactic.Common

namespace GpuCalorie.Math

universe u

variable {V : Type u}

/-- The vertices, in order, of a path from a vertex to the exit. -/
inductive PathTo (succ : V → V → Prop) (exit : V) : V → List V → Prop
  | here : PathTo succ exit exit [exit]
  | edge {v w : V} {path : List V} (taken : succ v w) (rest : PathTo succ exit w path) :
      PathTo succ exit v (v :: path)

/-- Every path from `v` to the exit runs through `w`. -/
def Postdominates (succ : V → V → Prop) (exit w v : V) : Prop :=
  ∀ path, PathTo succ exit v path → w ∈ path

/-- Post-dominance by another vertex. -/
def StrictlyPostdominates (succ : V → V → Prop) (exit w v : V) : Prop :=
  w ≠ v ∧ Postdominates succ exit w v

/-- The closest strict post-dominator: every other one post-dominates it. -/
def ImmediatelyPostdominates (succ : V → V → Prop) (exit i v : V) : Prop :=
  StrictlyPostdominates succ exit i v ∧
    ∀ w, StrictlyPostdominates succ exit w v → Postdominates succ exit w i

/-- Some path leads to the exit. -/
def ReachesExit (succ : V → V → Prop) (exit v : V) : Prop :=
  ∃ path, PathTo succ exit v path

variable {succ : V → V → Prop} {exit v w x i j : V} {path before after : List V}

/-! ## Paths -/

theorem PathTo.mem_self (h : PathTo succ exit v path) : v ∈ path := by
  cases h with
  | here => exact List.mem_singleton_self _
  | edge => exact List.mem_cons_self

theorem pathTo_cons_iff : PathTo succ exit v (w :: path) ↔
    w = v ∧ ((v = exit ∧ path = []) ∨ ∃ x, succ v x ∧ PathTo succ exit x path) := by
  constructor
  · intro h
    cases h with
    | here => exact ⟨rfl, .inl ⟨rfl, rfl⟩⟩
    | edge taken rest => exact ⟨rfl, .inr ⟨_, taken, rest⟩⟩
  · rintro ⟨rfl, ⟨rfl, rfl⟩ | ⟨x, taken, rest⟩⟩
    · exact .here
    · exact .edge taken rest

theorem PathTo.tail_of_append (h : PathTo succ exit v (x :: (before ++ w :: after))) :
    x = v ∧ ∃ y, succ v y ∧ PathTo succ exit y (before ++ w :: after) := by
  obtain ⟨rfl, ⟨-, hnil⟩ | onward⟩ := pathTo_cons_iff.mp h
  · simp at hnil
  · exact ⟨rfl, onward⟩

theorem PathTo.suffix (h : PathTo succ exit v (before ++ w :: after)) :
    PathTo succ exit w (w :: after) := by
  induction before generalizing v with
  | nil =>
      obtain ⟨rfl, -⟩ := pathTo_cons_iff.mp h
      exact h
  | cons u rest ih =>
      obtain ⟨-, y, -, onward⟩ := h.tail_of_append
      exact ih onward

theorem PathTo.reroute {detour : List V} (h : PathTo succ exit v (before ++ w :: after))
    (onward : PathTo succ exit w detour) : PathTo succ exit v (before ++ detour) := by
  induction before generalizing v with
  | nil =>
      obtain ⟨rfl, -⟩ := pathTo_cons_iff.mp h
      exact onward
  | cons u rest ih =>
      obtain ⟨rfl, y, taken, later⟩ := h.tail_of_append
      exact .edge taken (ih later)

theorem PathTo.exists_edge (h : PathTo succ exit v path) (hv : v ≠ exit) :
    ∃ w rest, succ v w ∧ PathTo succ exit w rest ∧ path = v :: rest := by
  cases h with
  | here => exact absurd rfl hv
  | edge taken rest => exact ⟨_, _, taken, rest, rfl⟩

/-! ## The order -/

theorem Postdominates.refl (succ : V → V → Prop) (exit v : V) : Postdominates succ exit v v :=
  fun _ h => h.mem_self

theorem exit_postdominates (succ : V → V → Prop) (exit v : V) :
    Postdominates succ exit exit v := by
  intro path h
  induction h with
  | here => exact List.mem_singleton_self _
  | edge _ _ ih => exact List.mem_cons_of_mem _ ih

theorem postdominates_exit_iff : Postdominates succ exit w exit ↔ w = exit := by
  constructor
  · intro h
    exact List.mem_singleton.mp (h _ .here)
  · rintro rfl
    exact .refl _ _ _

theorem StrictlyPostdominates.ne_exit (h : StrictlyPostdominates succ exit w v) : v ≠ exit := by
  rintro rfl
  exact h.1 (postdominates_exit_iff.mp h.2)

theorem Postdominates.eq_or_strictly (h : Postdominates succ exit w v) :
    w = v ∨ StrictlyPostdominates succ exit w v :=
  (eq_or_ne w v).imp_right fun hne => ⟨hne, h⟩

theorem Postdominates.trans (hxw : Postdominates succ exit x w)
    (hwv : Postdominates succ exit w v) : Postdominates succ exit x v := by
  intro path h
  obtain ⟨before, after, rfl⟩ := List.append_of_mem (hwv path h)
  exact List.mem_append_right _ (hxw _ h.suffix)

theorem Postdominates.antisymm (hwv : Postdominates succ exit w v)
    (hvw : Postdominates succ exit v w) (hv : ReachesExit succ exit v) : w = v := by
  by_contra hne
  obtain ⟨path, h⟩ := hv
  induction hlength : path.length using Nat.strongRecOn generalizing path with
  | _ n ih =>
      obtain ⟨before, after, rfl⟩ := List.append_of_mem (hwv path h)
      obtain ⟨between, rest, heq⟩ := List.append_of_mem (hvw _ h.suffix)
      cases between with
      | nil => exact hne (List.cons.inj heq).1
      | cons u between =>
          have hcut : PathTo succ exit v (v :: rest) := by
            have := h.suffix
            rw [heq] at this
            exact this.suffix
          refine ih _ ?_ _ hcut rfl
          have hlengths := congrArg List.length heq
          simp only [List.length_cons, List.length_append] at hlengths hlength ⊢
          omega

/-! ## The data-flow equation -/

theorem Postdominates.of_edge (h : Postdominates succ exit w v) (hne : w ≠ v)
    (taken : succ v x) : Postdominates succ exit w x := fun _ hx =>
  (List.mem_cons.mp (h _ (.edge taken hx))).resolve_left hne

theorem StrictlyPostdominates.of_edge (h : StrictlyPostdominates succ exit w v)
    (taken : succ v x) : w = x ∨ StrictlyPostdominates succ exit w x :=
  (h.2.of_edge h.1 taken).eq_or_strictly

theorem postdominates_iff_of_ne_exit (hv : v ≠ exit) :
    Postdominates succ exit w v ↔ w = v ∨ ∀ x, succ v x → Postdominates succ exit w x := by
  constructor
  · intro h
    by_cases hne : w = v
    · exact .inl hne
    · exact .inr fun x taken => h.of_edge hne taken
  · rintro (rfl | h)
    · exact .refl _ _ _
    · intro path hpath
      obtain ⟨x, rest, taken, onward, rfl⟩ := hpath.exists_edge hv
      exact List.mem_cons_of_mem _ (h x taken rest onward)

theorem postdominates_of_solution {D : V → V → Prop} (hexit : ∀ w, D exit w → w = exit)
    (hedge : ∀ v w x, D v w → succ v x → w = v ∨ D x w) (h : D v w) :
    Postdominates succ exit w v := by
  intro path hpath
  induction hpath with
  | here => exact List.mem_singleton.mpr (hexit w h)
  | edge taken _ ih =>
      rcases hedge _ _ _ h taken with rfl | hx
      · exact List.mem_cons_self
      · exact List.mem_cons_of_mem _ (ih hx)

/-! ## Immediate post-dominators -/

theorem exists_first_mem {P : V → Prop} (h : ∃ w ∈ path, P w) :
    ∃ before w after, path = before ++ w :: after ∧ P w ∧ ∀ x ∈ before, ¬ P x := by
  classical
  induction path with
  | nil => simp at h
  | cons u rest ih =>
      by_cases hu : P u
      · exact ⟨[], u, rest, rfl, hu, by simp⟩
      · have hrest : ∃ w ∈ rest, P w := by
          obtain ⟨w, hw, hP⟩ := h
          rcases List.mem_cons.mp hw with rfl | hw
          · exact absurd hP hu
          · exact ⟨w, hw, hP⟩
        obtain ⟨before, w, after, rfl, hP, hbefore⟩ := ih hrest
        refine ⟨u :: before, w, after, rfl, hP, ?_⟩
        intro x hx
        rcases List.mem_cons.mp hx with rfl | hx
        · exact hu
        · exact hbefore x hx

theorem exists_immediatelyPostdominates (hv : v ≠ exit) (hreaches : ReachesExit succ exit v) :
    ∃ i, ImmediatelyPostdominates succ exit i v := by
  obtain ⟨path, hpath⟩ := hreaches
  obtain ⟨before, i, after, rfl, hi, hbefore⟩ :=
    exists_first_mem (P := fun w => StrictlyPostdominates succ exit w v)
      ⟨exit, exit_postdominates succ exit v path hpath, hv.symm, exit_postdominates succ exit v⟩
  refine ⟨i, hi, fun w hw detour hdetour => ?_⟩
  have hmem := hw.2 _ (hpath.reroute hdetour)
  rcases List.mem_append.mp hmem with hmem | hmem
  · exact absurd hw (hbefore w hmem)
  · exact hmem

theorem ImmediatelyPostdominates.unique (hi : ImmediatelyPostdominates succ exit i v)
    (hj : ImmediatelyPostdominates succ exit j v) (hreaches : ReachesExit succ exit i) :
    j = i :=
  (hi.2 j hj.1).antisymm (hj.2 i hi.1) hreaches

end GpuCalorie.Math
