/-
# The data-flow iteration computes post-dominance

Every state of the iteration is the original function with other post-dominator sets.
The sets only shrink, they always contain all true post-dominators, and they never fall
below the data-flow equation. A round without a change has therefore found a solution
between the two, and there is only one: post-dominance itself. Each round with a change
removes an element somewhere, which bounds the number of rounds.
-/

import GpuCalorie.Math.DominatorSets
import GpuCalorie.Ptx.BasicBlock

namespace GpuCalorie.Ptx

open GpuCalorie.Math

namespace FunctionInfo

variable {f : FunctionInfo} {D : ℕ → Finset ℕ} {h s v w : ℕ}

/-! ## The graph -/

/-- The control-flow edges between the blocks of the vector. -/
def edge (f : FunctionInfo) (v w : ℕ) : Prop :=
  v < f.size ∧ w ∈ (f.block v).successorIds

/-- The exit block is the last one. -/
def exitBlock (f : FunctionInfo) : ℕ :=
  f.size - 1

/-- `w` lies on every path from `v` to the exit block. -/
def PostdominatedBy (f : FunctionInfo) (v w : ℕ) : Prop :=
  Postdominates f.edge f.exitBlock w v

theorem WellFormed.lt_of_pathTo (wf : f.WellFormed) {path : List ℕ} (hv : v < f.size)
    (hpath : PathTo f.edge f.exitBlock v path) (hw : w ∈ path) : w < f.size := by
  induction hpath with
  | here =>
      rw [List.mem_singleton] at hw
      exact hw ▸ hv
  | edge taken _ ih =>
      rcases List.mem_cons.mp hw with rfl | hw
      · exact hv
      · exact ih (wf.successorIds _ taken.1 _ taken.2) hw

theorem WellFormed.lt_of_postdominatedBy (wf : f.WellFormed) (hv : v < f.size)
    (hreach : ReachesExit f.edge f.exitBlock v) (hpd : f.PostdominatedBy v w) : w < f.size := by
  obtain ⟨path, hpath⟩ := hreach
  exact wf.lt_of_pathTo hv hpath (hpd path hpath)

/-! ## States of the iteration -/

/-- The function with other post-dominator sets. -/
def withPostdominators (f : FunctionInfo) (D : ℕ → Finset ℕ) : FunctionInfo :=
  { f with block := fun i => { f.block i with postdominatorIds := D i } }

@[simp]
theorem size_withPostdominators : (f.withPostdominators D).size = f.size := rfl

@[simp]
theorem block_withPostdominators :
    (f.withPostdominators D).block v = { f.block v with postdominatorIds := D v } := rfl

/-- The data-flow equation's right-hand side. -/
def meet (f : FunctionInfo) (D : ℕ → Finset ℕ) (h : ℕ) : Finset ℕ :=
  insert h ((Finset.range f.size).filter fun w => ∀ s ∈ (f.block h).successorIds, w ∈ D s)

theorem mem_meet : w ∈ f.meet D h ↔
    w = h ∨ (w < f.size ∧ ∀ s ∈ (f.block h).successorIds, w ∈ D s) := by
  simp [meet]

theorem meetSuccessors_withPostdominators :
    (f.withPostdominators D).meetSuccessors h = f.meet D h := by
  ext w
  rw [mem_meet, meetSuccessors, Finset.mem_insert]
  simp only [block_withPostdominators, mem_foldl_intersect, size_withPostdominators,
    Finset.mem_range, Finset.mem_sort]

theorem modify_withPostdominators (T : Finset ℕ) :
    ((f.withPostdominators D).modify h fun b => { b with postdominatorIds := T }) =
      f.withPostdominators (Function.update D h T) := by
  simp only [withPostdominators, modify, FunctionInfo.mk.injEq, true_and]
  funext i
  by_cases hi : i = h
  · subst hi
    simp
  · simp [hi]

/-- What holds of the sets throughout the iteration: they lie between post-dominance
and the full sets, and the equation would only shrink them. -/
structure Descending (f : FunctionInfo) (D : ℕ → Finset ℕ) : Prop where
  exit : D f.exitBlock = {f.exitBlock}
  complete : ∀ v < f.size, ∀ w < f.size, f.PostdominatedBy v w → w ∈ D v
  shrinks : ∀ v < f.exitBlock, f.meet D v ⊆ D v
  bounded : ∀ v < f.size, D v ⊆ Finset.range f.size

/-- How many elements the sets of the visited blocks have. -/
def weight (f : FunctionInfo) (D : ℕ → Finset ℕ) : ℕ :=
  ∑ v ∈ Finset.range f.exitBlock, (D v).card

theorem WellFormed.exists_initPostdominators (wf : f.WellFormed) :
    ∃ D, f.initPostdominators = f.withPostdominators D ∧ f.Descending D := by
  have htwo := wf.twoBlocks
  have hexit : f.exitBlock + 1 = f.size := by
    simp only [exitBlock]
    omega
  refine ⟨_, rfl, ?_, ?_, ?_, ?_⟩
  · have hlt : f.exitBlock < f.size := by omega
    simp [hexit, wf.bbId _ hlt, wf.postdominatorIds _ hlt]
  · intro v hv w hw hpd
    by_cases hlast : v + 1 = f.size
    · have hve : v = f.exitBlock := by omega
      subst hve
      have hwe : w = f.exitBlock := postdominates_exit_iff.mp hpd
      simp [hexit, hwe, wf.bbId _ hv]
    · simp [hlast, hw]
  · intro v hv w hw
    have hlast : v + 1 ≠ f.size := by omega
    have hwlt : w < f.size := by
      rcases mem_meet.mp hw with rfl | hw
      · omega
      · exact hw.1
    simp [hlast, hwlt]
  · intro v hv w hw
    by_cases hlast : v + 1 = f.size
    · simp only [hlast, if_true, wf.postdominatorIds v hv, wf.bbId v hv, insert_empty_eq,
        Finset.mem_singleton] at hw
      exact Finset.mem_range.mpr (hw ▸ hv)
    · simpa [hlast, wf.postdominatorIds v hv] using hw

/-! ## One block -/

/-- The blocks a block continues in. -/
abbrev successors (f : FunctionInfo) (v : ℕ) : Finset ℕ :=
  (f.block v).successorIds

theorem WellFormed.descending_iff (wf : f.WellFormed) :
    f.Descending D ↔ DescendingSets f.size f.exitBlock f.successors D := by
  have hexit : ∀ v, v < f.exitBlock ↔ v < f.size ∧ v ≠ f.exitBlock := by
    have htwo := wf.twoBlocks
    simp only [exitBlock]
    omega
  constructor
  · exact fun hD => ⟨hD.exit, hD.complete, fun v hv hne => hD.shrinks v ((hexit v).mpr ⟨hv, hne⟩),
      hD.bounded⟩
  · exact fun hD => ⟨hD.root_eq, hD.complete, fun v hv => hD.shrinks v ((hexit v).mp hv).1 hv.ne,
      hD.bounded⟩

theorem Descending.update (wf : f.WellFormed) (hD : f.Descending D) (hv : v < f.exitBlock) :
    f.Descending (Function.update D v (f.meet D v)) := by
  have hlt : v < f.size := lt_of_lt_of_le hv (Nat.sub_le _ _)
  exact wf.descending_iff.mpr ((wf.descending_iff.mp hD).update wf.successorIds hlt hv.ne)

theorem Descending.weight_update_lt (hD : f.Descending D) (hv : v < f.exitBlock)
    (hne : f.meet D v ≠ D v) : f.weight (Function.update D v (f.meet D v)) < f.weight D := by
  have hcard : (f.meet D v).card < (D v).card :=
    Finset.card_lt_card (Finset.ssubset_iff_subset_ne.mpr ⟨hD.shrinks v hv, hne⟩)
  refine Finset.sum_lt_sum (fun u _ => ?_) ⟨v, Finset.mem_range.mpr hv, by simpa using hcard⟩
  by_cases hu : u = v
  · subst hu
    simpa using hcard.le
  · simp [hu]

theorem Descending.weight_le (hD : f.Descending D) : f.weight D ≤ f.size * f.size := by
  have hcard : ∀ v ∈ Finset.range f.exitBlock, (D v).card ≤ f.size := by
    intro v hv
    have hlt : v < f.size := lt_of_lt_of_le (Finset.mem_range.mp hv) (Nat.sub_le _ _)
    simpa using Finset.card_le_card (hD.bounded v hlt)
  calc f.weight D ≤ f.exitBlock * f.size := by
        simpa [weight] using Finset.sum_le_card_nsmul _ _ _ hcard
    _ ≤ f.size * f.size := Nat.mul_le_mul_right _ (Nat.sub_le _ _)

/-! ## One round, and all rounds -/

/-- What a round that started with the sets `D₀` has achieved when the blocks from `k`
up are done: nothing changed and they solve the equation, or an element is gone. -/
def RoundInvariant (f : FunctionInfo) (D₀ : ℕ → Finset ℕ) (k : ℕ) (acc : FunctionInfo × Bool) :
    Prop :=
  ∃ D, acc.1 = f.withPostdominators D ∧ f.Descending D ∧
    if acc.2 then f.weight D < f.weight D₀
    else D = D₀ ∧ ∀ v < f.exitBlock, k ≤ v → f.meet D v = D v

theorem WellFormed.visitBlock_ok (wf : f.WellFormed) {D₀ : ℕ → Finset ℕ}
    {acc : FunctionInfo × Bool} (hh : h < f.exitBlock) (hacc : f.RoundInvariant D₀ (h + 1) acc) :
    ∃ next, visitBlock h acc = .ok next ∧ f.RoundInvariant D₀ h next := by
  obtain ⟨g, change⟩ := acc
  obtain ⟨D, rfl : g = _, hD, hround⟩ := hacc
  have hid : (f.block h).bbId = h := wf.bbId h (lt_of_lt_of_le hh (Nat.sub_le _ _))
  simp only [visitBlock, block_withPostdominators, hid, ne_eq, not_true, if_false,
    meetSuccessors_withPostdominators, modify_withPostdominators]
  by_cases heq : f.meet D h = D h
  · -- no change at this block
    rw [(isEqual_iff _ _).mpr heq]
    refine ⟨_, rfl, D, rfl, hD, ?_⟩
    cases change with
    | true => exact hround
    | false =>
        obtain ⟨hstart, hdone⟩ := hround
        refine ⟨hstart, fun v hv hle => ?_⟩
        rcases hle.eq_or_lt with rfl | hlt
        · exact heq
        · exact hdone v hv hlt
  · have hfalse : isEqual (f.meet D h) (D h) = false :=
      Bool.eq_false_iff.mpr fun htrue => heq ((isEqual_iff _ _).mp htrue)
    rw [hfalse]
    have hless := hD.weight_update_lt hh heq
    refine ⟨_, rfl, _, rfl, hD.update wf hh, ?_⟩
    cases change with
    | true => exact hless.trans hround
    | false => exact hround.1 ▸ hless

theorem WellFormed.visitBlocks_ok (wf : f.WellFormed) (hD : f.Descending D) :
    ∃ D' again, visitBlocks (f.withPostdominators D) = .ok (f.withPostdominators D', again) ∧
      f.Descending D' ∧
      if again then f.weight D' < f.weight D else ∀ v < f.exitBlock, f.meet D' v = D' v := by
  have hstart : f.RoundInvariant D f.exitBlock (f.withPostdominators D, false) :=
    ⟨D, rfl, hD, rfl, fun v hv hle => absurd hv (Nat.not_lt.mpr hle)⟩
  obtain ⟨⟨g, again⟩, hrun, D', rfl : g = _, hD', hround⟩ :=
    countDown_ok (I := f.RoundInvariant D) f.exitBlock
      (fun k hk _ hacc => wf.visitBlock_ok hk hacc) hstart
  refine ⟨D', again, hrun, hD', ?_⟩
  cases again with
  | true => exact hround
  | false => exact fun v hv => hround.2 v hv (Nat.zero_le v)

theorem Descending.mem_iff_of_solution (wf : f.WellFormed) (hD : f.Descending D)
    (hsol : ∀ v < f.exitBlock, f.meet D v = D v) (hv : v < f.size) (hw : w < f.size) :
    w ∈ D v ↔ f.PostdominatedBy v w := by
  have htwo := wf.twoBlocks
  have hexit : f.exitBlock < f.size := Nat.sub_lt (by omega) Nat.one_pos
  refine (wf.descending_iff.mp hD).mem_iff_of_solution hexit (fun u hu hne => ?_) hv hw
  exact hsol u (lt_of_le_of_ne (Nat.le_sub_one_of_lt hu) hne)

/-- The states between two rounds. -/
def BetweenRounds (f g : FunctionInfo) : Prop :=
  ∃ D, g = f.withPostdominators D ∧ f.Descending D

/-- The states after the last round. -/
def Solved (f g : FunctionInfo) : Prop :=
  ∀ D, g = f.withPostdominators D → ∀ v < f.exitBlock, f.meet D v = D v

theorem withPostdominators_injective : Function.Injective f.withPostdominators := by
  intro D D' heq
  funext v
  exact congrArg (fun g : FunctionInfo => (g.block v).postdominatorIds) heq

theorem WellFormed.visitBlocks_between (wf : f.WellFormed) (g : FunctionInfo)
    (hg : f.BetweenRounds g) :
    ∃ next again, visitBlocks g = .ok (next, again) ∧ f.BetweenRounds next ∧
      if again then f.weight (fun v => (next.block v).postdominatorIds) <
        f.weight fun v => (g.block v).postdominatorIds
      else f.Solved next := by
  obtain ⟨D, rfl, hD⟩ := hg
  obtain ⟨D', again, hround, hD', hagain⟩ := wf.visitBlocks_ok hD
  refine ⟨_, again, hround, ⟨D', rfl, hD'⟩, ?_⟩
  cases again with
  | true => exact hagain
  | false =>
      intro D'' heq
      rw [← withPostdominators_injective heq]
      exact hagain

theorem WellFormed.findPostdominators_ok (wf : f.WellFormed) {fuel : ℕ}
    (enough : f.size * f.size < fuel) :
    ∃ D, f.findPostdominators fuel = .ok (f.withPostdominators D) ∧
      (∀ v < f.size, ∀ w < f.size, w ∈ D v ↔ f.PostdominatedBy v w) ∧
      ∀ v < f.size, D v ⊆ Finset.range f.size := by
  obtain ⟨D₀, hinit, hD₀⟩ := wf.exists_initPostdominators
  have hfuel : f.weight (fun v => (f.initPostdominators.block v).postdominatorIds) < fuel := by
    rw [hinit]
    exact lt_of_le_of_lt hD₀.weight_le enough
  obtain ⟨g, hrun, ⟨D, rfl, hD⟩, hsol⟩ :=
    repeatWhile_ok AnalysisFailure.outOfFuel
      (fun g : FunctionInfo => f.weight fun v => (g.block v).postdominatorIds)
      wf.visitBlocks_between fuel hfuel ⟨D₀, hinit, hD₀⟩
  refine ⟨D, ?_, fun v hv w hw => hD.mem_iff_of_solution wf (hsol D rfl) hv hw, hD.bounded⟩
  rw [findPostdominators, if_neg (Nat.not_lt.mpr wf.twoBlocks)]
  exact hrun

end FunctionInfo

end GpuCalorie.Ptx
