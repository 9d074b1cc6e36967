/-
# The dominators are exact where the entry has no predecessor

The iteration ends with the solution of the data-flow equation, in which a block that is not
reached keeps the full set; as such a block dominates nothing that is reached, and pruning only
looks at sets of dominators, it does not matter for the others.

In the end every block but the entry has been counted, for its immediate dominator or for not
having predecessors. So the last assertion holds exactly if the entry has none.
-/

import GpuCalorie.Ptx.FlowGraph

namespace GpuCalorie.Ptx

open GpuCalorie.Math

universe u

variable {α : Type u}

namespace FlowGraph

variable {g : FlowGraph α} {D T : ℕ → Finset ℕ} {I : ℕ → ℤ} {fuel h v w : ℕ}

/-! ## States of the computation -/

/-- The graph with other results of the analysis. -/
def withResults (g : FlowGraph α) (D T : ℕ → Finset ℕ) (I : ℕ → ℤ) : FlowGraph α :=
  { g with
    block := fun i =>
      { g.block i with dominatorIds := D i, tmpIds := T i, immediatedominatorId := I i } }

/-- What the analysis does not write. -/
abbrev predecessors (g : FlowGraph α) (v : ℕ) : Finset ℕ :=
  (g.block v).predecessorIds

@[simp]
theorem size_withResults : (g.withResults D T I).size = g.size := rfl

@[simp]
theorem block_withResults : (g.withResults D T I).block v =
    { g.block v with dominatorIds := D v, tmpIds := T v, immediatedominatorId := I v } := rfl

theorem modify_dominatorIds (set : Finset ℕ) :
    ((g.withResults D T I).modify h fun b => { b with dominatorIds := set }) =
      g.withResults (Function.update D h set) T I := by
  simp only [withResults, modify, FlowGraph.mk.injEq, true_and]
  funext i
  by_cases hi : i = h
  · subst hi
    simp
  · simp [hi]

theorem modify_tmpIds (set : Finset ℕ) :
    ((g.withResults D T I).modify h fun b => { b with tmpIds := set }) =
      g.withResults D (Function.update T h set) I := by
  simp only [withResults, modify, FlowGraph.mk.injEq, true_and]
  funext i
  by_cases hi : i = h
  · subst hi
    simp
  · simp [hi]

theorem modify_immediate (id : ℤ) :
    ((g.withResults D T I).modify h fun b => { b with immediatedominatorId := id }) =
      g.withResults D T (Function.update I h id) := by
  simp only [withResults, modify, FlowGraph.mk.injEq, true_and]
  funext i
  by_cases hi : i = h
  · subst hi
    simp
  · simp [hi]

/-- What earlier runs may have left. -/
structure Prior (g : FlowGraph α) : Prop where
  entry : (g.block 0).dominatorIds ⊆ {0}
  bounded : ∀ v < g.size, (g.block v).dominatorIds ⊆ Finset.range g.size
  immediate : (g.block 0).immediatedominatorId = -1

theorem WellFormed.withResults (wf : g.WellFormed) : (g.withResults D T I).WellFormed :=
  ⟨wf.twoBlocks, wf.bbId, wf.predecessorIds⟩

/-! ## The data-flow iteration -/

/-- The sets of the blocks solve the equation of the predecessors. -/
abbrev Descending (g : FlowGraph α) (D : ℕ → Finset ℕ) : Prop :=
  DescendingSets g.size 0 g.predecessors D

theorem meetPredecessors_withResults :
    (g.withResults D T I).meetPredecessors h = meetSets g.size g.predecessors D h := by
  ext w
  rw [mem_meetSets, meetPredecessors, Finset.mem_insert]
  simp only [block_withResults, mem_foldl_intersect, size_withResults,
    Finset.mem_range, Finset.mem_sort]

theorem WellFormed.exists_initDominators (wf : g.WellFormed) (hprior : g.Prior) :
    ∃ D, g.initDominators = g.withResults D (fun i => (g.block i).tmpIds)
        (fun i => (g.block i).immediatedominatorId) ∧ g.Descending D := by
  have htwo := wf.twoBlocks
  refine ⟨_, rfl, .full (by omega) ?_ fun v hv hne => ?_⟩
  · have hzero : (g.block 0).bbId = 0 := wf.bbId 0 (by omega)
    rw [if_pos rfl, hzero]
    exact Finset.insert_eq_of_mem (Finset.mem_singleton_self 0) ▸
      (Finset.Subset.antisymm (Finset.insert_subset (Finset.mem_singleton_self 0) hprior.entry)
        (Finset.singleton_subset_iff.mpr (Finset.mem_insert_self ..)))
  · rw [if_neg hne]
    exact Finset.union_eq_right.mpr (hprior.bounded v hv)

theorem WellFormed.visitBlock_ok (wf : g.WellFormed) {D₀ : ℕ → Finset ℕ} {k : ℕ} {change : Bool}
    (hk : k < g.size - 1)
    (hround : RoundSets g.size 0 g.predecessors D₀ (fun v => 0 < v ∧ v ≤ k) D change) :
    ∃ D' change', visitBlock (k + 1) (g.withResults D T I, change) =
        .ok (g.withResults D' T I, change') ∧
      RoundSets g.size 0 g.predecessors D₀ (fun v => 0 < v ∧ v ≤ k + 1) D' change' := by
  have hlt : k + 1 < g.size := by omega
  have hid : (g.block (k + 1)).bbId = k + 1 := wf.bbId _ hlt
  simp only [visitBlock, block_withResults, hid, ne_eq, not_true, if_false,
    meetPredecessors_withResults, modify_dominatorIds]
  by_cases heq : meetSets g.size g.predecessors D (k + 1) = D (k + 1)
  · rw [(isEqual_iff _ _).mpr heq]
    refine ⟨D, change, rfl, hround.visit_same heq fun v hv => ?_⟩
    exact (Nat.le_succ_iff.mp hv.2).symm.imp_right fun hle => ⟨hv.1, hle⟩
  · have hfalse : isEqual (meetSets g.size g.predecessors D (k + 1)) (D (k + 1)) = false :=
      Bool.eq_false_iff.mpr fun htrue => heq ((isEqual_iff _ _).mp htrue)
    rw [hfalse]
    exact ⟨_, true, rfl, hround.visit_change wf.predecessorIds hlt (Nat.succ_ne_zero k) heq⟩

theorem WellFormed.visitBlocks_ok (wf : g.WellFormed) (hD : g.Descending D) :
    ∃ D' again, visitBlocks (g.withResults D T I) = .ok (g.withResults D' T I, again) ∧
      RoundSets g.size 0 g.predecessors D (fun v => 0 < v ∧ v ≤ g.size - 1) D' again := by
  have hloop := @countUp_ok _ _ (fun k => visitBlock (k + 1)) (g.withResults D T I, false)
    (fun k acc => ∃ D', acc.1 = g.withResults D' T I ∧
      RoundSets g.size 0 g.predecessors D (fun v => 0 < v ∧ v ≤ k) D' acc.2)
    (g.size - 1)
    (by
      rintro k hk ⟨_, change⟩ ⟨D', rfl : _ = _, hround⟩
      obtain ⟨D'', change', hvisit, hround'⟩ := wf.visitBlock_ok hk hround
      exact ⟨_, hvisit, D'', rfl, hround'⟩)
    ⟨D, rfl, .start hD fun v hv => by omega⟩
  obtain ⟨⟨_, again⟩, hrun, D', rfl : _ = _, hround⟩ := hloop
  exact ⟨D', again, hrun, hround⟩

theorem WellFormed.repeat_ok (wf : g.WellFormed) (hprior : g.Prior)
    (enough : g.size * g.size < fuel) :
    ∃ D, repeatWhile .outOfFuel visitBlocks fuel g.initDominators =
        .ok (g.withResults D (fun i => (g.block i).tmpIds)
          fun i => (g.block i).immediatedominatorId) ∧
      D 0 = {0} ∧ (∀ v < g.size, D v ⊆ Finset.range g.size) ∧
      ∀ v < g.size, ∀ w < g.size, w ∈ D v ↔ Dominates g.edge 0 w v := by
  obtain ⟨D₀, hinit, hD₀⟩ := wf.exists_initDominators hprior
  have hfuel : setWeight g.size (fun v => (g.initDominators.block v).dominatorIds) < fuel := by
    rw [hinit]
    exact hD₀.setWeight_le.trans_lt enough
  have hloop := repeatWhile_ok FlowFailure.outOfFuel
    (I := fun s => ∃ D, s = g.withResults D (fun i => (g.block i).tmpIds)
      (fun i => (g.block i).immediatedominatorId) ∧ g.Descending D)
    (Q := fun s => ∀ v < g.size, v ≠ 0 → meetSets g.size g.predecessors
      (fun v => (s.block v).dominatorIds) v = (s.block v).dominatorIds)
    (fun s : FlowGraph α => setWeight g.size fun v => (s.block v).dominatorIds)
    (by
      rintro _ ⟨D, rfl, hD⟩
      obtain ⟨D', again, hrun, hround⟩ := wf.visitBlocks_ok hD
      refine ⟨_, again, hrun, ⟨D', rfl, hround.descending⟩, ?_⟩
      cases again with
      | true => exact hround.achieved
      | false =>
          intro v hv hne
          exact hround.achieved.2 v ⟨Nat.pos_of_ne_zero hne, Nat.le_sub_one_of_lt hv⟩)
    fuel hfuel ⟨D₀, hinit, hD₀⟩
  obtain ⟨_, hrun, ⟨D, rfl, hD⟩, hsol⟩ := hloop
  have htwo := wf.twoBlocks
  refine ⟨D, hrun, hD.root_eq, hD.bounded, fun v hv w hw => ?_⟩
  exact (hD.mem_iff_of_solution (by omega) hsol hv hw).trans dominates_iff.symm

/-- The sets after `find_dominators`. -/
structure FoundDominators (g : FlowGraph α) (D : ℕ → Finset ℕ) : Prop where
  entry : D 0 = {0}
  bounded : ∀ v < g.size, D v ⊆ Finset.range g.size
  cleared : ∀ v, v ≠ 0 → g.predecessors v = ∅ → D v = ∅
  mem_iff : ∀ v < g.size, v = 0 ∨ g.predecessors v ≠ ∅ →
    ∀ w < g.size, w ∈ D v ↔ Dominates g.edge 0 w v

theorem WellFormed.findDominators_ok (wf : g.WellFormed) (hprior : g.Prior)
    (enough : g.size * g.size < fuel) :
    ∃ D, g.findDominators fuel = .ok (g.withResults D (fun i => (g.block i).tmpIds)
        fun i => (g.block i).immediatedominatorId) ∧ g.FoundDominators D := by
  obtain ⟨D, hrun, hentry, hbounded, hmem⟩ := wf.repeat_ok hprior enough
  refine ⟨fun i => if i ≠ 0 ∧ (g.block i).predecessorIds = ∅ then ∅ else D i, ?_, ?_⟩
  · rw [findDominators, if_neg (Nat.not_lt.mpr wf.twoBlocks), hrun]
    rfl
  · constructor
    case entry =>
      rw [if_neg fun h => h.1 rfl]
      exact hentry
    case bounded =>
      intro v hv
      split_ifs
      · exact Finset.empty_subset _
      · exact hbounded v hv
    case cleared =>
      intro v hne hnone
      exact if_pos ⟨hne, hnone⟩
    case mem_iff =>
      intro v hv hpred w hw
      rw [if_neg fun h => hpred.elim h.1 fun hne => hne h.2]
      exact hmem v hv w hw

/-! ## The loops of `find_idominators` -/

theorem WellFormed.initTmp_ok (wf : g.WellFormed) :
    ∃ T', countUp initTmp g.size (g.withResults D T I) = .ok (g.withResults D T' I) ∧
      ∀ v < g.size, T' v = (D v).erase v := by
  obtain ⟨_, hrun, T', rfl, hT'⟩ := @countUp_ok _ _ initTmp (g.withResults D T I)
    (fun k s => ∃ T', s = g.withResults D T' I ∧ ∀ v < k, T' v = (D v).erase v) g.size
    (by
      rintro k hk _ ⟨T', rfl, hT'⟩
      refine ⟨_, ?_, Function.update T' k ((D k).erase k), rfl, fun v hv => ?_⟩
      · rw [initTmp, block_withResults, wf.bbId k hk, if_neg (not_not.mpr rfl), ← modify_tmpIds]
        rfl
      · rcases Nat.lt_succ_iff_lt_or_eq.mp hv with hlt | rfl
        · rw [Function.update_of_ne hlt.ne]
          exact hT' v hlt
        · rw [Function.update_self])
    ⟨T, rfl, fun v hv => absurd hv (Nat.not_lt_zero v)⟩
  exact ⟨T', hrun, hT'⟩

theorem pruneTmp_ok (g : FlowGraph α) (D T : ℕ → Finset ℕ) (I : ℕ → ℤ) :
    ∃ T', countUp pruneTmp g.size (g.withResults D T I) = .ok (g.withResults D T' I) ∧
      ∀ v < g.size, T' v = pruneSets D ((T v).sort (· ≤ ·)) (T v) := by
  obtain ⟨_, hrun, T', rfl, hdone, -⟩ := @countUp_ok _ _ pruneTmp (g.withResults D T I)
    (fun k s => ∃ T', s = g.withResults D T' I ∧
      (∀ v < k, T' v = pruneSets D ((T v).sort (· ≤ ·)) (T v)) ∧ ∀ v, k ≤ v → T' v = T v) g.size
    (by
      rintro k hk _ ⟨T', rfl, hdone, hrest⟩
      refine ⟨_, rfl, _, modify_tmpIds _, fun v hv => ?_, fun v hv => ?_⟩
      · rcases Nat.lt_succ_iff_lt_or_eq.mp hv with hlt | rfl
        · rw [Function.update_of_ne hlt.ne]
          exact hdone v hlt
        · rw [Function.update_self]
          simp only [block_withResults, hrest v (Nat.le_refl v)]
      · rw [Function.update_of_ne (Nat.lt_of_succ_le hv).ne']
        exact hrest v (Nat.le_of_succ_le hv))
    ⟨T, rfl, fun v hv => absurd hv (Nat.not_lt_zero v), fun v _ => rfl⟩
  exact ⟨T', hrun, hdone⟩

theorem assignImmediate_ok (I : ℕ → ℤ)
    (hT : ∀ v < g.size, T v = ∅ ↔ v = 0 ∨ g.predecessors v = ∅) (hsize : 0 < g.size) :
    ∃ I' numIdoms numNopred, countUp assignImmediate g.size { graph := g.withResults D T I } =
        .ok ⟨g.withResults D T I', numIdoms, numNopred⟩ ∧
      (numIdoms = g.size - numNopred ↔ g.predecessors 0 = ∅) ∧
      (∀ v < g.size, ∀ i : ℕ, T v = {i} → I' v = i) ∧ ∀ v < g.size, T v = ∅ → I' v = I v := by
  have hloop :=
    @countUp_ok _ _ assignImmediate ({ graph := g.withResults D T I } : ImmediateCount α)
    (fun k c => ∃ I', c.graph = g.withResults D T I' ∧
      c.numIdoms + c.numNopred + (if 0 < k ∧ g.predecessors 0 ≠ ∅ then 1 else 0) = k ∧
      (∀ v < k, ∀ i : ℕ, T v = {i} → I' v = i) ∧ ∀ v < g.size, T v = ∅ → I' v = I v) g.size
    (by
      rintro k hk ⟨_, numIdoms, numNopred⟩ ⟨I', rfl : _ = _, hcount, hfound, hkept⟩
      have hfound' : ∀ id : ℤ, (∀ i : ℕ, T k = {i} → id = i) →
          ∀ v < k + 1, ∀ i : ℕ, T v = {i} → Function.update I' k id v = i := by
        intro id hid v hv i hi
        rcases Nat.lt_succ_iff_lt_or_eq.mp hv with hlt | rfl
        · rw [Function.update_of_ne hlt.ne]
          exact hfound v hlt i hi
        · rw [Function.update_self]
          exact hid i hi
      by_cases hne : (T k).Nonempty
      · have hstay : ¬ (k = 0 ∨ g.predecessors k = ∅) := fun h =>
          hne.ne_empty ((hT k hk).mpr h)
        have hk0 : 0 < k := Nat.pos_of_ne_zero fun h => hstay (.inl h)
        refine ⟨_, dif_pos hne, Function.update I' k ((T k).min' hne), modify_immediate _, ?_, ?_,
          ?_⟩
        · simp only [Nat.succ_pos, hk0, true_and] at hcount ⊢
          omega
        · refine hfound' _ fun i hi => ?_
          simp [hi]
        · intro v hv hempty
          have hvk : v ≠ k := fun heq => hne.ne_empty (heq ▸ hempty)
          rw [Function.update_of_ne hvk]
          exact hkept v hv hempty
      · have hempty : T k = ∅ := Finset.not_nonempty_iff_eq_empty.mp hne
        have hnone : ∀ i, T k ≠ {i} := fun i hi => by
          rw [hempty] at hi
          exact absurd hi.symm (Finset.singleton_ne_empty i)
        have hfound'' : ∀ v < k + 1, ∀ i : ℕ, T v = {i} → I' v = i := by
          intro v hv i hi
          rcases Nat.lt_succ_iff_lt_or_eq.mp hv with hlt | rfl
          · exact hfound v hlt i hi
          · exact absurd hi (hnone i)
        by_cases hpred : g.predecessors k = ∅
        · refine ⟨_, (dif_neg hne).trans (if_pos hpred), I', rfl, ?_, hfound'', hkept⟩
          by_cases hk0 : k = 0
          · subst hk0
            simp only [Nat.lt_irrefl, if_false, hpred, not_true, and_false, ne_eq] at hcount ⊢
            omega
          · simp only [Nat.succ_pos, Nat.pos_of_ne_zero hk0, true_and] at hcount ⊢
            omega
        · have hk0 : k = 0 := ((hT k hk).mp hempty).resolve_right hpred
          refine ⟨_, (dif_neg hne).trans (if_neg hpred), I', rfl, ?_, hfound'', hkept⟩
          subst hk0
          simp only [Nat.lt_irrefl, false_and, if_false] at hcount
          simp only [Nat.zero_add, Nat.one_pos, true_and, ne_eq, hpred, not_false_iff, if_true]
          omega)
    ⟨I, rfl, rfl, fun v hv => absurd hv (Nat.not_lt_zero v), fun _ _ _ => rfl⟩
  obtain ⟨⟨_, numIdoms, numNopred⟩, hrun, I', rfl : _ = _, hcount, hfound, hkept⟩ := hloop
  refine ⟨I', numIdoms, numNopred, hrun, ?_, hfound, hkept⟩
  simp only [hsize, true_and] at hcount
  by_cases hpred : g.predecessors 0 = ∅
  · simp only [hpred, ne_eq, not_true, if_false] at hcount
    exact iff_of_true (by omega) hpred
  · simp only [hpred, ne_eq, not_false_iff, if_true] at hcount
    exact iff_of_false (by omega) hpred

/-! ## The analysis -/

theorem WellFormed.lt_of_dominates (wf : g.WellFormed) (hreached : ReachedFrom g.edge 0 v)
    (hw : Dominates g.edge 0 w v) : w < g.size :=
  hw.of_reached (P := (· < g.size)) hreached (Nat.zero_lt_of_lt wf.twoBlocks) fun _ _ taken =>
    taken.1

theorem eq_zero_or_predecessors (hreached : ReachedFrom g.edge 0 v) :
    v = 0 ∨ g.predecessors v ≠ ∅ := by
  obtain ⟨path, hpath⟩ := hreached
  cases hpath with
  | here => exact .inl rfl
  | step _ taken => exact .inr (Finset.ne_empty_of_mem taken.2)

theorem FoundDominators.erase_eq_empty_iff (found : g.FoundDominators D) (hv : v < g.size) :
    (D v).erase v = ∅ ↔ v = 0 ∨ g.predecessors v = ∅ := by
  constructor
  · intro hempty
    by_contra hne
    obtain ⟨hzero, hpred⟩ := not_or.mp hne
    have hmem : 0 ∈ D v := (found.mem_iff v hv (.inr hpred) 0 (Nat.zero_lt_of_lt hv)).mpr
      (entry_dominates _ _ _)
    exact Finset.ne_empty_of_mem (Finset.mem_erase.mpr ⟨Ne.symm hzero, hmem⟩) hempty
  · rintro (rfl | hpred)
    · rw [found.entry]
      rfl
    · by_cases hzero : v = 0
      · rw [hzero, found.entry]
        rfl
      · rw [found.cleared v hzero hpred]
        rfl

namespace FoundDominators

variable (found : g.FoundDominators D) (wf : g.WellFormed)
include found wf

theorem mem_iff_of_reached (hv : v < g.size) (hreached : ReachedFrom g.edge 0 v) (w : ℕ) :
    w ∈ D v ↔ Dominates g.edge 0 w v := by
  have hiff := found.mem_iff v hv (eq_zero_or_predecessors hreached) w
  constructor
  · intro hmem
    exact (hiff (Finset.mem_range.mp (found.bounded v hv hmem))).mp hmem
  · intro hdom
    exact (hiff (wf.lt_of_dominates hreached hdom)).mpr hdom

theorem pruneSets_eq {i : ℕ} (hv : v < g.size) (hreached : ReachedFrom g.edge 0 v)
    (hi : ImmediatelyDominates g.edge 0 i v) :
    pruneSets D (((D v).erase v).sort (· ≤ ·)) ((D v).erase v) = {i} := by
  have hstrict : ∀ t, t ∈ (D v).erase v ↔ StrictlyDominates g.edge 0 t v := by
    intro t
    rw [Finset.mem_erase, found.mem_iff_of_reached wf hv hreached]
    exact Iff.rfl
  have hmem : i ∈ (D v).erase v := (hstrict i).mpr hi.1
  have hlt : ∀ t, StrictlyDominates g.edge 0 t v → t < g.size ∧ ReachedFrom g.edge 0 t :=
    fun t ht => ⟨wf.lt_of_dominates hreached ht.2, ht.2.reached hreached⟩
  apply pruneSets_eq_singleton hmem ?_ ?_ (.inl ((Finset.mem_sort _).mpr hmem))
  · intro t ht
    obtain ⟨hil, hir⟩ := hlt i hi.1
    exact (found.mem_iff_of_reached wf hil hir t).mpr (hi.2 t ((hstrict t).mp ht))
  · intro t ht hdom
    have htv := (hstrict t).mp ht
    obtain ⟨htl, htr⟩ := hlt t htv
    exact (hi.2 t htv).antisymm ((found.mem_iff_of_reached wf htl htr i).mp hdom) (hlt i hi.1).2

theorem findIdominators_cases (hprior : I 0 = -1) :
    (g.predecessors 0 = ∅ → ∃ T' I', (g.withResults D T I).findIdominators =
        .ok (g.withResults D T' I') ∧ I' 0 = -1 ∧
        g.DominatorsExact (g.withResults D T' I')) ∧
      (g.predecessors 0 ≠ ∅ →
        (g.withResults D T I).findIdominators = .error .missingImmediate) := by
  obtain ⟨T₁, hinit, hT₁⟩ := wf.initTmp_ok (D := D) (T := T) (I := I)
  obtain ⟨T₂, hprune, hT₂⟩ := pruneTmp_ok g D T₁ I
  have hempty : ∀ v < g.size, T₂ v = ∅ ↔ v = 0 ∨ g.predecessors v = ∅ := by
    intro v hv
    rw [← found.erase_eq_empty_iff hv, ← hT₁ v hv, hT₂ v hv]
    constructor
    · intro h
      by_contra hne
      exact (pruneSets_nonempty (Finset.nonempty_iff_ne_empty.mpr hne)).ne_empty h
    · intro h
      exact Finset.subset_empty.mp (h ▸ pruneSets_subset)
  have hsize : 0 < g.size := Nat.zero_lt_of_lt wf.twoBlocks
  obtain ⟨I', numIdoms, numNopred, hassign, hcount, hfound, hkept⟩ :=
    assignImmediate_ok (D := D) I hempty hsize
  have hrun : (g.withResults D T I).findIdominators =
      if numIdoms ≠ g.size - numNopred then .error .missingImmediate
      else .ok (g.withResults D T₂ I') := by
    rw [findIdominators, size_withResults, if_neg (Nat.not_lt.mpr wf.twoBlocks)]
    simp only [hinit, Except.bind, bind, size_withResults, hprune, hassign]
    by_cases hmissing : numIdoms ≠ g.size - numNopred
    · exact (if_pos hmissing).trans (if_pos hmissing).symm
    · exact (if_neg hmissing).trans (if_neg hmissing).symm
  rw [hrun]
  constructor
  · intro hentry
    have hI0 : I' 0 = -1 := by
      rw [hkept 0 hsize ((hempty 0 hsize).mpr (.inl rfl)), hprior]
    refine ⟨T₂, I', if_neg (not_not.mpr (hcount.mpr hentry)), hI0, fun v hv hreached => ?_⟩
    have himmediate : v ≠ 0 → ∃ i : ℕ, ImmediatelyDominates g.edge 0 i v ∧
        (∀ j, ImmediatelyDominates g.edge 0 j v → j = i) ∧ I' v = i := by
      intro hne
      obtain ⟨i, hi⟩ := exists_immediatelyDominates hne hreached
      refine ⟨i, hi, fun j hj => hi.unique hj hreached, hfound v hv i ?_⟩
      rw [hT₂ v hv, hT₁ v hv]
      exact found.pruneSets_eq wf hv hreached hi
    refine ⟨found.mem_iff_of_reached wf hv hreached, ⟨fun hneg => ?_, ?_⟩, himmediate⟩
    · by_contra hne
      obtain ⟨i, -, -, hi⟩ := himmediate hne
      have hneg' : I' v = -1 := hneg
      rw [hi] at hneg'
      exact absurd hneg' (by simp)
    · rintro rfl
      exact hI0
  · exact fun hentry => if_pos fun heq => hentry (hcount.mp heq)

end FoundDominators

theorem WellFormed.analyse_cases (wf : g.WellFormed) (hprior : g.Prior)
    (enough : g.size * g.size < fuel) :
    (g.predecessors 0 = ∅ → ∃ D T I, g.analyse fuel = .ok (g.withResults D T I) ∧
        g.FoundDominators D ∧ I 0 = -1 ∧ g.DominatorsExact (g.withResults D T I)) ∧
      (g.predecessors 0 ≠ ∅ → g.analyse fuel = .error .missingImmediate) := by
  obtain ⟨D, hfind, found⟩ := wf.findDominators_ok hprior enough
  have hcases := found.findIdominators_cases wf (T := fun i => (g.block i).tmpIds)
    (I := fun i => (g.block i).immediatedominatorId) hprior.immediate
  have hrun : g.analyse fuel = (g.withResults D (fun i => (g.block i).tmpIds)
      fun i => (g.block i).immediatedominatorId).findIdominators := by
    rw [analyse, hfind]
    rfl
  rw [hrun]
  constructor
  · intro hentry
    obtain ⟨T', I', hok, hI, hexact⟩ := hcases.1 hentry
    exact ⟨D, T', I', hok, found, hI, hexact⟩
  · exact hcases.2

/-! ## Repeated runs -/

/-- What stays so however often the analysis runs. -/
structure Analysable (g : FlowGraph α) : Prop where
  wellFormed : g.WellFormed
  prior : g.Prior

theorem Fresh.prior (wf : g.WellFormed) (hfresh : g.Fresh) : g.Prior := by
  have hsize : 0 < g.size := Nat.zero_lt_of_lt wf.twoBlocks
  refine ⟨?_, fun v hv => ?_, (hfresh 0 hsize).2⟩
  · rw [(hfresh 0 hsize).1]
    exact Finset.empty_subset _
  · rw [(hfresh v hv).1]
    exact Finset.empty_subset _

theorem analysable_of_reachable {r : Except FlowFailure (FlowGraph α)}
    (reached : (flowSystem α).Reachable r) : OkOr Analysable (fun _ => True) r := by
  apply TransitionSystem.Reachable.invariant_ofExcept_all ?_ ?_ reached
  · rintro g ⟨wf, hfresh⟩
    exact ⟨wf, hfresh.prior wf⟩
  · rintro g action ⟨wf, hprior⟩ henabled
    cases action with
    | analyse =>
        have hcases := wf.analyse_cases hprior (Nat.lt_succ_self (g.size * g.size))
        by_cases hentry : g.predecessors 0 = ∅
        · obtain ⟨D, T, I, hrun, found, hI, -⟩ := hcases.1 hentry
          have hok : OkOr Analysable (fun _ => True) (g.analyse g.enoughFuel) := by
            rw [enoughFuel, hrun]
            exact ⟨wf.withResults, found.entry.subset, found.bounded, hI⟩
          exact hok
        · have herror : OkOr Analysable (fun _ => True) (g.analyse g.enoughFuel) := by
            rw [enoughFuel, hcases.2 hentry]
            trivial
          exact herror
    | relink predecessorIds successorIds =>
        exact ⟨⟨wf.twoBlocks, wf.bbId, henabled⟩, hprior.entry, hprior.bounded, hprior.immediate⟩

/-- In every graph, also after earlier runs of the analysis and changes of the edges, the analysis
ends, and finds the dominators of all blocks that are reached, exactly if the entry has no
predecessor. -/
theorem dominatorsExact_iff {g : FlowGraph α} (reached : (flowSystem α).Reachable (.ok g))
    {fuel : ℕ} (enough : g.size * g.size < fuel) :
    (∃ result, g.analyse fuel = .ok result ∧ g.DominatorsExact result) ↔
      (g.block 0).predecessorIds = ∅ := by
  obtain ⟨wf, hprior⟩ := (analysable_of_reachable reached).of_ok rfl
  have hcases := wf.analyse_cases hprior enough
  constructor
  · rintro ⟨result, hrun, -⟩
    by_contra hentry
    rw [hcases.2 hentry] at hrun
    cases hrun
  · intro hentry
    obtain ⟨D, T, I, hrun, -, -, hexact⟩ := hcases.1 hentry
    exact ⟨_, hrun, hexact⟩

/-- A graph without results, by the predecessors of its blocks. -/
def ofPredecessors (predecessorIds : List (Finset ℕ)) : FlowGraph Unit where
  size := predecessorIds.length
  block i :=
    { bbId := i
      ptxBegin := some ()
      ptxEnd := some ()
      predecessorIds := predecessorIds.getD i ∅ }

theorem reachable_ofPredecessors {predecessorIds : List (Finset ℕ)}
    (htwo : 2 ≤ predecessorIds.length)
    (hlt : ∀ i < predecessorIds.length, ∀ p ∈ predecessorIds.getD i ∅, p < predecessorIds.length) :
    (flowSystem Unit).Reachable (.ok (ofPredecessors predecessorIds)) :=
  .init ⟨_, rfl, ⟨htwo, fun _ _ => rfl, hlt⟩, fun _ _ => ⟨rfl, rfl⟩⟩

/-- A loop behind the entry, and a block in front of it that is not reached. -/
theorem dominatorsExact_loop :
    ∃ result, (ofPredecessors [∅, {0, 1, 3}, {1}, ∅]).analyse 17 = .ok result ∧
      (ofPredecessors [∅, {0, 1, 3}, {1}, ∅]).DominatorsExact result :=
  (dominatorsExact_iff (reachable_ofPredecessors (by decide) (by decide)) (by decide)).mpr rfl

/-- Where the first instruction of a function is a branch target the entry has a predecessor, and
the last assertion of `find_idominators` fails. -/
theorem not_dominatorsExact_loopToEntry :
    ¬ ∀ g : FlowGraph Unit, (flowSystem Unit).Reachable (.ok g) → ∀ fuel, g.size * g.size < fuel →
      ∃ result, g.analyse fuel = .ok result ∧ g.DominatorsExact result := by
  intro hall
  have hreached : (flowSystem Unit).Reachable (.ok (ofPredecessors [{0}, {0}, {1}])) :=
    reachable_ofPredecessors (by decide) (by decide)
  obtain ⟨result, hrun, -⟩ := hall _ hreached 10 (by decide)
  obtain ⟨wf, hprior⟩ := (analysable_of_reachable hreached).of_ok rfl
  rw [(wf.analyse_cases hprior (by decide)).2 (by decide)] at hrun
  cases hrun

end FlowGraph

end GpuCalorie.Ptx
