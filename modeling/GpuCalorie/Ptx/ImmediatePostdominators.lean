/-
# The reconvergence analysis is exact

`find_ipostdominators` prunes the strict post-dominators of a block while it iterates
over them. What survives is the immediate post-dominator: it is never erased, because
no other element has it as a post-dominator, and when the loop visits it everything else
goes. Each block other than the exit therefore keeps exactly one candidate, and
`get_reconvergence_pairs` sends a branch to the first instruction of that block.
-/

import GpuCalorie.Ptx.Postdominators
import Mathlib.Tactic.IntervalCases

namespace GpuCalorie.Ptx

open GpuCalorie.Math

namespace FunctionInfo

variable {f : FunctionInfo} {D T : ℕ → Finset ℕ} {I : ℕ → ℤ} {i n s t v w : ℕ}

/-! ## States of the computation -/

/-- The function with other results of the analysis. -/
def withResults (f : FunctionInfo) (D T : ℕ → Finset ℕ) (I : ℕ → ℤ) : FunctionInfo :=
  { f with
    block := fun i =>
      { f.block i with postdominatorIds := D i, tmpIds := T i, immediatepostdominatorId := I i } }

theorem withPostdominators_eq_withResults : f.withPostdominators D =
    f.withResults D (fun i => (f.block i).tmpIds) fun i => (f.block i).immediatepostdominatorId :=
  rfl

@[simp]
theorem size_withResults : (f.withResults D T I).size = f.size := rfl

@[simp]
theorem block_withResults : (f.withResults D T I).block v =
    { f.block v with
      postdominatorIds := D v, tmpIds := T v, immediatepostdominatorId := I v } := rfl

theorem modify_tmpIds (tmp : Finset ℕ) :
    ((f.withResults D T I).modify n fun b => { b with tmpIds := tmp }) =
      f.withResults D (Function.update T n tmp) I := by
  simp only [withResults, modify, FunctionInfo.mk.injEq, true_and]
  funext i
  by_cases hi : i = n
  · subst hi
    simp
  · simp [hi]

theorem modify_immediate (id : ℤ) :
    ((f.withResults D T I).modify n fun b => { b with immediatepostdominatorId := id }) =
      f.withResults D T (Function.update I n id) := by
  simp only [withResults, modify, FunctionInfo.mk.injEq, true_and]
  funext i
  by_cases hi : i = n
  · subst hi
    simp
  · simp [hi]

/-! ## The pruning loops -/

theorem pruneWith_eq (tmp : Finset ℕ) :
    f.pruneWith s tmp = pruneSet (fun v => (f.block v).postdominatorIds) s tmp := rfl

theorem pruneFrom_eq (ids : List ℕ) (tmp : Finset ℕ) :
    f.pruneFrom ids tmp = pruneSets (fun v => (f.block v).postdominatorIds) ids tmp := by
  induction ids generalizing tmp with
  | nil => rfl
  | cons s rest ih =>
      rw [pruneFrom, pruneSets, pruneWith_eq]
      split_ifs
      · exact ih _
      · exact ih _

/-! ## The three loops of `find_ipostdominators` -/

/-- The sets computed by `find_postdominators`, on a graph whose blocks reach the exit. -/
structure Exact (f : FunctionInfo) (D : ℕ → Finset ℕ) : Prop where
  wellFormed : f.WellFormed
  reaches : ∀ v < f.size, ReachesExit f.edge f.exitBlock v
  mem_iff : ∀ v < f.size, ∀ w, w ∈ D v ↔ f.PostdominatedBy v w

/-- The first loop when the blocks below `n` are done. -/
def TmpInitialised (f : FunctionInfo) (D : ℕ → Finset ℕ) (n : ℕ) (g : FunctionInfo) : Prop :=
  ∃ T, g = f.withResults D T (fun i => (f.block i).immediatepostdominatorId) ∧
    ∀ v < n, T v = (D v).erase v

/-- The second loop when the blocks from `n` up are done: their `Tmp` holds the
immediate post-dominator and nothing else, and the others are untouched. -/
def TmpPruned (f : FunctionInfo) (D T : ℕ → Finset ℕ) (I : ℕ → ℤ) (n : ℕ) (g : FunctionInfo) :
    Prop :=
  ∃ T', g = f.withResults D T' I ∧
    (∀ v < f.exitBlock, n ≤ v →
      ∀ i, ImmediatelyPostdominates f.edge f.exitBlock i v → T' v = {i}) ∧
    T' f.exitBlock = T f.exitBlock ∧ ∀ v < n, T' v = T v

/-- The third loop when the blocks from `n` up are done: it has found one candidate at
each of them but the exit, and counted them. -/
def ImmediateAssigned (f : FunctionInfo) (D T : ℕ → Finset ℕ) (n : ℕ) (acc : FunctionInfo × ℕ) :
    Prop :=
  ∃ I, acc = (f.withResults D T I, f.exitBlock - n) ∧ ∀ v < f.exitBlock, n ≤ v →
    ∀ i, ImmediatelyPostdominates f.edge f.exitBlock i v → I v = i

namespace Exact

variable (ex : f.Exact D)
include ex

theorem exitBlock_lt : f.exitBlock < f.size :=
  Nat.sub_lt (Nat.lt_of_lt_of_le Nat.zero_lt_two ex.wellFormed.twoBlocks) Nat.one_pos

theorem exists_immediate (hv : v < f.exitBlock) :
    ∃ i, ImmediatelyPostdominates f.edge f.exitBlock i v :=
  exists_immediatelyPostdominates hv.ne (ex.reaches v (hv.trans ex.exitBlock_lt))

theorem immediate_lt (hv : v < f.exitBlock)
    (hi : ImmediatelyPostdominates f.edge f.exitBlock i v) : i < f.size :=
  have hlt := hv.trans ex.exitBlock_lt
  ex.wellFormed.lt_of_postdominatedBy hlt (ex.reaches v hlt) hi.1.2

theorem initTmp_ok : ∃ g, countUp initTmp f.size (f.withPostdominators D) = .ok g ∧
    f.TmpInitialised D f.size g := by
  refine countUp_ok f.size ?_
    ⟨_, withPostdominators_eq_withResults, fun v hv => absurd hv (Nat.not_lt_zero v)⟩
  rintro k hk _ ⟨T, rfl, hT⟩
  refine ⟨_, ?_, Function.update T k ((D k).erase k), rfl, fun v hv => ?_⟩
  · rw [initTmp, block_withResults, ex.wellFormed.bbId k hk, if_neg (not_not.mpr rfl),
      ← modify_tmpIds]
    rfl
  · rcases Nat.lt_succ_iff_lt_or_eq.mp hv with hlt | rfl
    · rw [Function.update_of_ne hlt.ne]
      exact hT v hlt
    · rw [Function.update_self]

theorem pruneFrom_ok (hv : v < f.exitBlock)
    (hi : ImmediatelyPostdominates f.edge f.exitBlock i v) (hT : T v = (D v).erase v) :
    (f.withResults D T I).pruneFrom ((T v).sort (· ≤ ·)) (T v) = {i} := by
  have hlt := hv.trans ex.exitBlock_lt
  have hil := ex.immediate_lt hv hi
  have hstrict : ∀ t, t ∈ T v ↔ StrictlyPostdominates f.edge f.exitBlock t v := by
    intro t
    rw [hT, Finset.mem_erase, ex.mem_iff v hlt]
    exact Iff.rfl
  have hmem : i ∈ T v := (hstrict i).mpr hi.1
  rw [pruneFrom_eq]
  refine pruneSets_eq_singleton hmem ?_ ?_ (.inl ((Finset.mem_sort _).mpr hmem))
  · intro t ht
    exact (ex.mem_iff i hil t).mpr (hi.2 t ((hstrict t).mp ht))
  · intro t ht hpd
    have htv := (hstrict t).mp ht
    have htl := ex.wellFormed.lt_of_postdominatedBy hlt (ex.reaches v hlt) htv.2
    exact (hi.2 t htv).antisymm ((ex.mem_iff t htl i).mp hpd) (ex.reaches i hil)

theorem pruneTmp_ok (hT : ∀ v < f.size, T v = (D v).erase v) :
    ∃ g, countDown pruneTmp f.exitBlock (f.withResults D T I) = .ok g ∧
      f.TmpPruned D T I 0 g := by
  refine countDown_ok f.exitBlock ?_
    ⟨T, rfl, fun v hv hle => absurd hv (Nat.not_lt.mpr hle), rfl, fun _ _ => rfl⟩
  rintro k hk _ ⟨T', rfl, hdone, hexit, hrest⟩
  have hTk : T' k = (D k).erase k :=
    (hrest k (Nat.lt_succ_self k)).trans (hT k (hk.trans ex.exitBlock_lt))
  refine ⟨_, rfl, _, modify_tmpIds _, fun v hv hle j hj => ?_, ?_, fun v hv => ?_⟩
  · rcases hle.eq_or_lt with rfl | hlt
    · rw [Function.update_self]
      exact ex.pruneFrom_ok hk hj hTk
    · rw [Function.update_of_ne hlt.ne']
      exact hdone v hv hlt j hj
  · rw [Function.update_of_ne hk.ne']
    exact hexit
  · rw [Function.update_of_ne hv.ne]
    exact hrest v (hv.trans (Nat.lt_succ_self k))

theorem assignImmediate_ok
    (hT : ∀ v < f.exitBlock, ∀ i, ImmediatelyPostdominates f.edge f.exitBlock i v → T v = {i})
    (hexit : T f.exitBlock = ∅) :
    ∃ acc, countDown assignImmediate f.size (f.withResults D T I, 0) = .ok acc ∧
      f.ImmediateAssigned D T 0 acc := by
  have hstart : f.ImmediateAssigned D T f.size (f.withResults D T I, 0) :=
    ⟨I, by rw [Nat.sub_eq_zero_of_le ex.exitBlock_lt.le],
      fun v hv hle => absurd (hv.trans ex.exitBlock_lt) (Nat.not_lt.mpr hle)⟩
  refine countDown_ok f.size ?_ hstart
  rintro k hk _ ⟨I', rfl, hdone⟩
  rcases Nat.lt_or_ge k f.exitBlock with hlt | hge
  · obtain ⟨i, hi⟩ := ex.exists_immediate hlt
    have hTk := hT k hlt i hi
    have hnum : f.exitBlock - (k + 1) + 1 = f.exitBlock - k := by omega
    refine ⟨_, ?_, Function.update I' k i, rfl, ?_⟩
    · simp [assignImmediate, hTk, modify_immediate, hnum]
    · intro v hv hle j hj
      rcases hle.eq_or_lt with rfl | hgt
      · have hsame : j = i := Finset.singleton_injective ((hT k hv j hj).symm.trans hTk)
        rw [Function.update_self, hsame]
      · rw [Function.update_of_ne hgt.ne']
        exact hdone v hv hgt j hj
  · have hke : k = f.exitBlock := le_antisymm (Nat.le_sub_one_of_lt hk) hge
    have hnum : f.exitBlock - (k + 1) = f.exitBlock - k := by omega
    refine ⟨_, ?_, I', rfl, fun v hv hle => absurd hv (Nat.not_lt.mpr (hke ▸ hle))⟩
    simp [assignImmediate, hke, hexit]

theorem findIpostdominators_ok : ∃ T I,
    (f.withPostdominators D).findIpostdominators = .ok (f.withResults D T I) ∧
      ∀ v < f.exitBlock, ∀ i, ImmediatelyPostdominates f.edge f.exitBlock i v → I v = i := by
  obtain ⟨_, hinit, T₀, rfl, hT₀⟩ := ex.initTmp_ok
  obtain ⟨_, hprune, T, rfl, hT, hTexit, -⟩ :=
    ex.pruneTmp_ok (I := fun i => (f.block i).immediatepostdominatorId) hT₀
  have hexit : T f.exitBlock = ∅ := by
    ext w
    have hiff : f.PostdominatedBy f.exitBlock w ↔ w = f.exitBlock := postdominates_exit_iff
    simp [hTexit, hT₀ _ ex.exitBlock_lt, ex.mem_iff _ ex.exitBlock_lt, hiff]
  obtain ⟨_, hassign, I, rfl, hI⟩ := ex.assignImmediate_ok
    (I := fun i => (f.block i).immediatepostdominatorId) (fun v hv => hT v hv (Nat.zero_le v)) hexit
  refine ⟨T, I, ?_, fun v hv => hI v hv (Nat.zero_le v)⟩
  have htwo : ¬ f.size < 2 := Nat.not_lt.mpr ex.wellFormed.twoBlocks
  have hlast : f.size - 1 = f.exitBlock := rfl
  rw [findIpostdominators, size_withPostdominators, if_neg htwo]
  simp only [hinit, Except.bind, bind, size_withResults]
  rw [hlast, hprune]
  simp only [size_withResults, hassign, Nat.sub_zero, hlast]
  rw [if_neg (not_not.mpr rfl)]
  rfl

end Exact

/-! ## Reconvergence pairs -/

/-- The branches of a function, with their blocks. -/
def branches (f : FunctionInfo) : List (ℕ × PtxInstruction) :=
  (List.range f.exitBlock).filterMap fun v => (f.branchAt v).map (v, ·)

/-- A pair sends a branch of block `v` to the first instruction of the immediate
post-dominator of `v`, and to −2 exactly if that is the exit. -/
def IsReconvergencePair (f : FunctionInfo) (branch : ℕ × PtxInstruction) (pair : GpgpuRecon) :
    Prop :=
  pair.sourceInst = branch.2 ∧ pair.sourcePc = branch.2.pc ∧
    ∃ i, ImmediatelyPostdominates f.edge f.exitBlock i branch.1 ∧
      pair.targetInst = (f.block i).ptxBegin ∧
      (∀ target, pair.targetInst = some target → pair.targetPc = target.pc) ∧
      (pair.targetPc = reconvergeReturnPc ↔ i = f.exitBlock)

theorem pc_ne_reconvergeReturnPc (pI : PtxInstruction) :
    pI.pc ≠ reconvergeReturnPc := by
  intro heq
  have h := pI.aligned
  rw [heq] at h
  exact absurd h (by decide)

theorem getReconvergencePairs_eq_map (f : FunctionInfo) : f.getReconvergencePairs =
    f.branches.map fun branch => f.reconvergencePair branch.1 branch.2 := by
  simp only [getReconvergencePairs, branches, List.map_filterMap, Option.map_map]
  rfl

theorem Exact.isReconvergencePair (ex : f.Exact D)
    (hI : ∀ v < f.exitBlock, ∀ i, ImmediatelyPostdominates f.edge f.exitBlock i v → I v = i)
    {branch : ℕ × PtxInstruction} (hbranch : branch ∈ f.branches) :
    f.IsReconvergencePair branch
      ((f.withResults D T I).reconvergencePair branch.1 branch.2) := by
  obtain ⟨v, hv, hat⟩ := List.mem_filterMap.mp hbranch
  obtain ⟨pI, -, rfl⟩ := Option.map_eq_some_iff.mp hat
  rw [List.mem_range] at hv
  obtain ⟨i, hi⟩ := ex.exists_immediate hv
  have hnull := ex.wellFormed.ptxBegin i (ex.immediate_lt hv hi)
  simp only [reconvergencePair, block_withResults, hI v hv i hi, Int.toNat_natCast]
  cases htarget : (f.block i).ptxBegin with
  | none =>
      exact ⟨rfl, rfl, i, hi, htarget.symm, by simp, by simpa [exitBlock] using hnull.mp htarget⟩
  | some target =>
      have hne : i ≠ f.exitBlock := fun heq => by simp [hnull.mpr heq] at htarget
      exact ⟨rfl, rfl, i, hi, htarget.symm, by simp,
        by simp [pc_ne_reconvergeReturnPc target, hne]⟩

/-- The reconvergence analysis is exact on every control-flow graph whose blocks all
reach the exit: it ends, its assertions hold, `postdominatorIds` is post-dominance,
`immediatepostdominatorId` is the one closest strict post-dominator, and the branches
are paired with the first instructions of those blocks. -/
theorem WellFormed.reconvergence_exact (wf : f.WellFormed)
    (reaches : ∀ v < f.size, ReachesExit f.edge f.exitBlock v) {fuel : ℕ}
    (enough : f.size * f.size < fuel) :
    ∃ p g, f.findPostdominators fuel = .ok p ∧ p.findIpostdominators = .ok g ∧
      (∀ v < f.size, ∀ w, w ∈ (g.block v).postdominatorIds ↔ f.PostdominatedBy v w) ∧
      (∀ v < f.exitBlock, ∃ i : ℕ, (g.block v).immediatepostdominatorId = i ∧
        ∀ j, ImmediatelyPostdominates f.edge f.exitBlock j v ↔ j = i) ∧
      List.Forall₂ f.IsReconvergencePair f.branches g.getReconvergencePairs := by
  obtain ⟨D, hrun, hmem, hbound⟩ := wf.findPostdominators_ok enough
  have ex : f.Exact D := ⟨wf, reaches, fun v hv w =>
    ⟨fun hw => (hmem v hv w (Finset.mem_range.mp (hbound v hv hw))).mp hw,
      fun hw => (hmem v hv w (wf.lt_of_postdominatedBy hv (reaches v hv) hw)).mpr hw⟩⟩
  obtain ⟨T, I, hipdom, hI⟩ := ex.findIpostdominators_ok
  refine ⟨_, _, hrun, hipdom, ex.mem_iff, fun v hv => ?_, ?_⟩
  · obtain ⟨i, hi⟩ := ex.exists_immediate hv
    refine ⟨i, hI v hv i hi, fun j => ⟨fun hj => ?_, fun heq => heq ▸ hi⟩⟩
    exact hi.unique hj (ex.reaches i (ex.immediate_lt hv hi))
  · have hbranches : (f.withResults D T I).branches = f.branches := rfl
    rw [getReconvergencePairs_eq_map, hbranches, List.forall₂_map_right_iff, List.forall₂_same]
    exact fun branch hbranch => ex.isReconvergencePair hI hbranch

/-! ## A diamond -/

/-- A branch over one block: `0: @p bra 16`, `8: nop`, `16: exit`, and the exit block. -/
def diamond : FunctionInfo where
  size := 4
  block
    | 0 => { bbId := 0, ptxBegin := some ⟨.braOp, 0, rfl⟩, ptxEnd := some ⟨.braOp, 0, rfl⟩,
             successorIds := {1, 2} }
    | 1 => { bbId := 1, ptxBegin := some ⟨.otherOp, 8, rfl⟩, ptxEnd := some ⟨.otherOp, 8, rfl⟩,
             successorIds := {2} }
    | 2 => { bbId := 2, ptxBegin := some ⟨.exitOp, 16, rfl⟩, ptxEnd := some ⟨.exitOp, 16, rfl⟩,
             successorIds := {3} }
    | n => { bbId := n, ptxBegin := none, ptxEnd := none, successorIds := ∅ }

theorem diamond_wellFormed : diamond.WellFormed where
  twoBlocks := by decide
  bbId := by decide
  successorIds := by decide
  postdominatorIds := by decide
  ptxBegin := by decide
  ptxEnd := by decide

theorem diamond_reachesExit :
    ∀ v < diamond.size, ReachesExit diamond.edge diamond.exitBlock v := by
  have hthree : PathTo diamond.edge diamond.exitBlock 3 [3] := .here
  have htwo : PathTo diamond.edge diamond.exitBlock 2 [2, 3] :=
    .edge ⟨by decide, by decide⟩ hthree
  have hone : PathTo diamond.edge diamond.exitBlock 1 [1, 2, 3] :=
    .edge ⟨by decide, by decide⟩ htwo
  have hzero : PathTo diamond.edge diamond.exitBlock 0 [0, 2, 3] :=
    .edge ⟨by decide, by decide⟩ htwo
  intro v hv
  have hsize : diamond.size = 4 := rfl
  rw [hsize] at hv
  interval_cases v
  · exact ⟨_, hzero⟩
  · exact ⟨_, hone⟩
  · exact ⟨_, htwo⟩
  · exact ⟨_, hthree⟩

/-- In the diamond the branch reconverges at the join. -/
theorem reconvergence_exact_diamond :
    ∃ p g, diamond.findPostdominators 17 = .ok p ∧ p.findIpostdominators = .ok g ∧
      List.Forall₂ diamond.IsReconvergencePair [(0, ⟨.braOp, 0, rfl⟩)] g.getReconvergencePairs := by
  obtain ⟨p, g, hp, hg, -, -, hpairs⟩ :=
    diamond_wellFormed.reconvergence_exact diamond_reachesExit (by decide : 4 * 4 < 17)
  exact ⟨p, g, hp, hg, hpairs⟩

end FunctionInfo

end GpuCalorie.Ptx
