/-
# The loop over the break targets

A round computes the dominators of the edges it finds, and gives every break the label of the
closest `breakaddr`: the edges it leaves are `retarget` of those. It asks for another round
exactly if these differ. So the loop ends when the edges come to a stop; as there are finitely
many, they do unless they come back to what they have left.
-/

import GpuCalorie.Ptx.BreakTargets
import Mathlib.Data.Fintype.Pi
import Mathlib.Data.Fintype.Powerset

namespace GpuCalorie.Ptx

open GpuCalorie.Math

variable {f : FlowFunction} {g h : FlowGraph ℕ} {successors : ℕ → Finset ℕ} {i v d : ℕ}

/-! ## States between two steps -/

theorem FlowGraph.Prior.unlink (hprior : h.Prior) : (h.unlink i).Prior :=
  ⟨hprior.entry, hprior.bounded, hprior.immediate⟩

namespace FlowGraph.HasSuccessors

variable (hs : g.HasSuccessors successors h)
include hs

theorem edge_eq : h.edge = FlowFunction.successorEdge g.size successors := by
  funext v w
  apply propext
  rw [edge, hs.size]
  exact and_congr_right fun hw => hs.predecessorIds w hw v

theorem wellFormed (wf : g.WellFormed) : h.WellFormed := by
  refine ⟨hs.size ▸ wf.twoBlocks, fun i hi => ?_, fun i hi p hp => ?_⟩
  · rw [hs.bbId]
    exact wf.bbId i (hs.size ▸ hi)
  · rw [hs.size] at hi ⊢
    exact ((hs.predecessorIds i hi p).mp hp).1

theorem predecessors_entry (wf : g.WellFormed) :
    h.predecessors 0 = ∅ ↔ FlowFunction.NoEdgeToEntry g.size successors := by
  have hzero : 0 < g.size := Nat.zero_lt_of_lt wf.twoBlocks
  rw [Finset.eq_empty_iff_forall_notMem]
  constructor
  · exact fun hnone v hv hmem => hnone v ((hs.predecessorIds 0 hzero v).mpr ⟨hv, hmem⟩)
  · intro hnone v hv
    obtain ⟨hlt, hmem⟩ := (hs.predecessorIds 0 hzero v).mp hv
    exact hnone v hlt hmem

theorem blockTarget (f : FlowFunction) (v : ℕ) :
    f.blockTarget (h.block v) = f.blockTarget (g.block v) := by
  rw [FlowFunction.blockTarget, FlowFunction.blockTarget, FlowFunction.backwards,
    FlowFunction.backwards, hs.ptxBegin, hs.ptxEnd]

theorem breakAt (f : FlowFunction) (v : ℕ) : f.breakAt (h.block v) = f.breakAt (g.block v) := by
  rw [FlowFunction.breakAt, FlowFunction.breakAt, hs.ptxEnd]

theorem withResults (D T : ℕ → Finset ℕ) (I : ℕ → ℤ) :
    g.HasSuccessors successors (h.withResults D T I) :=
  ⟨hs.size, hs.bbId, hs.ptxBegin, hs.ptxEnd, hs.successorIds, hs.predecessorIds⟩

theorem connect (hi : i < g.size) (f : FlowFunction)
    (addr : ℕ) (pI : FlowInstruction) (target : String) :
    g.HasSuccessors (Function.update successors i (f.breakSuccessors addr pI target))
      (if pI.hasPred then ((h.unlink i).link i (f.bb (f.labels target))).link i
          (f.bb (addr + pI.instSize))
        else (h.unlink i).link i (f.bb (f.labels target))) := by
  have hlinked := (hs.unlink hi).link hi (f.bb (f.labels target))
  rw [Function.update_self, Function.update_idem, insert_empty_eq] at hlinked
  rw [FlowFunction.breakSuccessors]
  split_ifs
  · have hboth := hlinked.link hi (f.bb (addr + pI.instSize))
    rwa [Function.update_self, Function.update_idem] at hboth
  · exact hlinked

end FlowGraph.HasSuccessors

/-! ## The search for a target -/

/-- The results of the analysis of given edges. -/
def FlowGraph.ExactFor (size : ℕ) (edge : ℕ → ℕ → Prop) (result : FlowGraph ℕ) : Prop :=
  ∀ v < size, ReachedFrom edge 0 v →
    (∀ w, w ∈ (result.block v).dominatorIds ↔ Dominates edge 0 w v) ∧
    ((result.block v).immediatedominatorId = -1 ↔ v = 0) ∧
    (v ≠ 0 → ∃ i : ℕ, ImmediatelyDominates edge 0 i v ∧
      (∀ j, ImmediatelyDominates edge 0 j v → j = i) ∧
      (result.block v).immediatedominatorId = i)

namespace FlowFunction

variable {edge : ℕ → ℕ → Prop} {size fuel k : ℕ} {pI : FlowInstruction} {addr : ℕ}

theorem ClosestBreakaddr.unique {d' : ℕ} (hd : f.ClosestBreakaddr g edge v d)
    (hd' : f.ClosestBreakaddr g edge v d') (hreached : ReachedFrom edge 0 v) : d' = d :=
  (hd.closest d' hd'.notEntry hd'.dominates hd'.target).antisymm
    (hd'.closest d hd.notEntry hd.dominates hd.target) (hd.dominates.reached hreached)

theorem card_dominators_lt (hexact : h.ExactFor size edge)
    (hlt : ∀ {v w}, ReachedFrom edge 0 v → Dominates edge 0 w v → w < size)
    (hreached : ReachedFrom edge 0 v) (hi : ImmediatelyDominates edge 0 i v) :
    (h.block i).dominatorIds.card < (h.block v).dominatorIds.card := by
  have hri : ReachedFrom edge 0 i := hi.reached hreached
  have hdomv := (hexact v (hlt hreached (.refl _ _ v)) hreached).1
  have hdomi := (hexact i (hlt hri (.refl _ _ i)) hri).1
  apply Finset.card_lt_card
  rw [Finset.ssubset_iff_of_subset]
  · refine ⟨v, (hdomv v).mpr (.refl _ _ v), fun hv => ?_⟩
    exact hi.1.1 (hi.1.2.antisymm ((hdomi v).mp hv) hreached)
  · intro w hw
    exact (hdomv w).mpr (((hdomi w).mp hw).trans hi.1.2)

theorem searchUp_ok (hexact : h.ExactFor size edge)
    (hlt : ∀ {v w}, ReachedFrom edge 0 v → Dominates edge 0 w v → w < size)
    (htarget : ∀ v, f.blockTarget (h.block v) = f.blockTarget (g.block v))
    (hreached : ReachedFrom edge 0 v) (hd : f.ClosestBreakaddr g edge v d)
    (enough : (h.block v).dominatorIds.card < fuel) :
    ∃ target, f.searchUp h fuel v = .ok target ∧ f.blockTarget (g.block d) = some target := by
  induction fuel generalizing v with
  | zero => exact absurd enough (Nat.not_lt_zero _)
  | succ fuel ih =>
      obtain ⟨-, hentry, himmediate⟩ := hexact v (hlt hreached (.refl _ _ v)) hreached
      have hne : v ≠ 0 := by
        rintro rfl
        exact hd.notEntry (dominates_entry_iff.mp hd.dominates)
      obtain ⟨i, hi, -, hid⟩ := himmediate hne
      rw [searchUp, if_neg (fun h => hne (hentry.mp h)), htarget]
      cases hblock : f.blockTarget (g.block v) with
      | some target =>
          have hself : f.blockTarget (g.block v) ≠ none := by simp [hblock]
          have hdv : d = v :=
            hd.dominates.antisymm (hd.closest v hne (.refl _ _ v) hself) hreached
          exact ⟨target, rfl, hdv ▸ hblock⟩
      | none =>
          have hdv : d ≠ v := by
            rintro rfl
            exact hd.target hblock
          have hri : ReachedFrom edge 0 i := hi.reached hreached
          have hdi : f.ClosestBreakaddr g edge i d :=
            ⟨hd.notEntry, hi.2 d ⟨hdv, hd.dominates⟩, hd.target,
              fun d' hd' hdom => hd.closest d' hd' (hdom.trans hi.1.2)⟩
          rw [hid, Int.toNat_natCast]
          exact ih hri hdi (Nat.lt_of_lt_of_le (card_dominators_lt hexact hlt hreached hi)
            (Nat.le_of_lt_succ enough))

theorem Blocks.lt_of_dominates (hb : f.Blocks g) {v w : ℕ}
    (hreached : ReachedFrom (successorEdge g.size successors) 0 v)
    (hdom : Dominates (successorEdge g.size successors) 0 w v) : w < g.size :=
  hdom.of_reached (P := (· < g.size)) hreached (Nat.zero_lt_of_lt hb.wellFormed.twoBlocks)
    fun _ _ taken => taken.1

theorem card_dominators_le {σ : ℕ → Finset ℕ} (hs : g.HasSuccessors σ h) (hprior : h.Prior)
    (hi : i < g.size) : (h.block i).dominatorIds.card < h.size + 1 := by
  have hsub := hprior.bounded i (hs.size ▸ hi)
  exact Nat.lt_succ_of_le ((Finset.card_le_card hsub).trans_eq (Finset.card_range _))

theorem findBreakTarget_ok {σ : ℕ → Finset ℕ} (hb : f.Blocks g) (hs : g.HasSuccessors σ h)
    (hprior : h.Prior) (hexact : h.ExactFor g.size (successorEdge g.size successors))
    (hi : i < g.size) (hreached : ReachedFrom (successorEdge g.size successors) 0 i)
    (hd : f.ClosestBreakaddr g (successorEdge g.size successors) i d) :
    ∃ target, f.findBreakTarget h i = .ok target ∧ f.blockTarget (g.block d) = some target :=
  searchUp_ok hexact hb.lt_of_dominates (hs.blockTarget f) hreached hd
    (card_dominators_le hs hprior hi)

/-! ## A round -/

/-- The edges after the breaks of the blocks below `k` have been connected. -/
noncomputable def connectedBelow (f : FlowFunction) (g : FlowGraph ℕ)
    (successors : ℕ → Finset ℕ) (k i : ℕ) : Finset ℕ :=
  if i < k then f.retarget g successors i else successors i

theorem connectedBelow_of_le {k : ℕ} (hki : k ≤ i) :
    f.connectedBelow g successors k i = successors i :=
  if_neg (Nat.not_lt.mpr hki)

theorem connectedBelow_succ (k : ℕ) : f.connectedBelow g successors (k + 1) =
    Function.update (f.connectedBelow g successors k) k (f.retarget g successors k) := by
  funext i
  rcases Nat.lt_trichotomy i k with hlt | rfl | hgt
  · rw [Function.update_of_ne hlt.ne, connectedBelow, connectedBelow,
      if_pos (Nat.lt_succ_of_lt hlt), if_pos hlt]
  · rw [Function.update_self, connectedBelow, if_pos (Nat.lt_succ_self i)]
  · rw [Function.update_of_ne hgt.ne', connectedBelow_of_le (Nat.succ_le_of_lt hgt),
      connectedBelow_of_le hgt.le]

theorem connectedBelow_size :
    f.connectedBelow g successors g.size = f.retarget g successors := by
  funext i
  rw [connectedBelow]
  split_ifs with hi
  · rfl
  · rw [retarget, if_neg hi]

theorem retarget_of_breakAt_none (hnone : f.breakAt (g.block i) = none) :
    f.retarget g successors i = successors i := by
  rw [retarget, hnone, ite_self]

theorem retarget_of_closest {target : String} (hi : i < g.size)
    (hbreak : f.breakAt (g.block i) = some (addr, pI))
    (hreached : ReachedFrom (successorEdge g.size successors) 0 i)
    (hd : f.ClosestBreakaddr g (successorEdge g.size successors) i d)
    (htarget : f.blockTarget (g.block d) = some target) :
    f.retarget g successors i = f.breakSuccessors addr pI target := by
  have hfinds : f.FindsBreakaddr g (successorEdge g.size successors) i := ⟨d, hd⟩
  have hchosen : hfinds.choose = d := hd.unique hfinds.choose_spec hreached
  rw [retarget, if_pos hi, hbreak]
  exact (dif_pos hfinds).trans (by rw [hchosen, htarget]; rfl)

theorem breakAt_eq_some {b : FlowBlock ℕ} (hbreak : f.breakAt b = some (addr, pI)) :
    b.ptxEnd = some addr ∧ f.instrMem addr = some pI ∧ pI.opcode = .breakOp := by
  obtain ⟨last, hend, hlast⟩ := Option.bind_eq_some_iff.mp hbreak
  obtain ⟨instr, hinstr, hval⟩ := Option.bind_eq_some_iff.mp hlast
  obtain ⟨hop, heq⟩ := Option.ite_none_right_eq_some.mp hval
  obtain ⟨rfl, rfl⟩ := Prod.mk.inj (Option.some.inj heq)
  exact ⟨hend, hinstr, hop⟩

/-- The graph in a round before the block `k` is connected, with the dominators of the edges at
the beginning of the round. -/
structure Connecting (f : FlowFunction) (g : FlowGraph ℕ) (successors : ℕ → Finset ℕ) (k : ℕ)
    (s : FlowGraph ℕ × Bool) : Prop where
  edges : g.HasSuccessors (f.connectedBelow g successors k) s.1
  exact : s.1.ExactFor g.size (successorEdge g.size successors)
  prior : s.1.Prior
  modified : s.2 = true ↔ ∃ i < k, f.retarget g successors i ≠ successors i

namespace Connecting

variable {k : ℕ} {modified : Bool}

theorem keep (hc : Connecting f g successors k (h, modified))
    (hnone : f.breakAt (g.block k) = none) :
    Connecting f g successors (k + 1) (h, modified) := by
  have hsame : f.retarget g successors k = successors k := retarget_of_breakAt_none hnone
  refine ⟨?_, hc.exact, hc.prior, hc.modified.trans ?_⟩
  · have hupdate : f.connectedBelow g successors (k + 1) = f.connectedBelow g successors k := by
      rw [connectedBelow_succ, hsame, Function.update_eq_self_iff, connectedBelow_of_le le_rfl]
    exact hupdate ▸ hc.edges
  · exact (Nat.exists_lt_succ_right.trans (or_iff_left (not_not.mpr hsame))).symm

theorem connect (hb : f.Blocks g) (hc : Connecting f g successors k (h, modified))
    (hk : k < g.size) (hbreak : f.breakAt (g.block k) = some (addr, pI))
    (hreached : ReachedFrom (successorEdge g.size successors) 0 k)
    (hfinds : f.FindsBreakaddr g (successorEdge g.size successors) k) :
    ∃ s, f.connectBreak k (h, modified) = .ok s ∧ Connecting f g successors (k + 1) s := by
  obtain ⟨d, hd⟩ := hfinds
  have hbb : f.bb addr = k := hb.bbEnd k hk addr (breakAt_eq_some hbreak).1
  have hunlinked := hc.edges.unlink hk
  obtain ⟨target, hfound, htarget⟩ :=
    findBreakTarget_ok hb hunlinked hc.prior.unlink hc.exact hk hreached hd
  have hsucc : f.retarget g successors k = f.breakSuccessors addr pI target :=
    retarget_of_closest hk hbreak hreached hd htarget
  have hconnected := hc.edges.connect hk f addr pI target
  rw [← hsucc, ← connectedBelow_succ] at hconnected
  refine ⟨(if pI.hasPred then ((h.unlink k).link k (f.bb (f.labels target))).link k
      (f.bb (addr + pI.instSize)) else (h.unlink k).link k (f.bb (f.labels target)),
    modified || decide (successors k ≠ f.retarget g successors k)), ?_, hconnected, ?_, ?_, ?_⟩
  · rw [connectBreak, hc.edges.breakAt, hbreak]
    simp only [hbb, hfound, Except.bind, bind, pure, Except.pure]
    rw [hconnected.successorIds k hk, hc.edges.successorIds k hk, connectedBelow_of_le le_rfl,
      connectedBelow, if_pos (Nat.lt_succ_self k)]
  · simp only
    split_ifs <;> exact hc.exact
  · simp only
    split_ifs <;> exact ⟨hc.prior.entry, hc.prior.bounded, hc.prior.immediate⟩
  · rw [Nat.exists_lt_succ_right, ← hc.modified, Bool.or_eq_true, decide_eq_true_iff, ne_comm]

end Connecting

theorem Connecting.all (hb : f.Blocks g) (hfinds : f.FindsAll g successors)
    (start : Connecting f g successors 0 (h, false)) :
    ∃ s, countUp f.connectBreak g.size (h, false) = .ok s ∧
      Connecting f g successors g.size s := by
  apply countUp_ok g.size ?_ start
  rintro k hk ⟨next, modified⟩ hc
  cases hbreak : f.breakAt (g.block k) with
  | none =>
      refine ⟨(next, modified), ?_, hc.keep hbreak⟩
      rw [connectBreak, hc.edges.breakAt, hbreak]
  | some found =>
      obtain ⟨hreached, hfound⟩ := hfinds k hk (by simp [hbreak])
      exact hc.connect hb hk hbreak hreached hfound

theorem analyse_connecting (hb : f.Blocks g) (hs : g.HasSuccessors successors h)
    (hprior : h.Prior) (hentry : NoEdgeToEntry g.size successors) :
    ∃ next, h.analyse h.enoughFuel = .ok next ∧ next.size = g.size ∧
      Connecting f g successors 0 (next, false) := by
  have wf := hs.wellFormed hb.wellFormed
  obtain ⟨D, T, I, hrun, found, hI, hexact⟩ :=
    (wf.analyse_cases hprior (Nat.lt_succ_self (h.size * h.size))).1
      ((hs.predecessors_entry hb.wellFormed).mpr hentry)
  refine ⟨h.withResults D T I, hrun, hs.size, ?_, ?_, ?_, by simp⟩
  · have hnone : f.connectedBelow g successors 0 = successors :=
      funext fun i => connectedBelow_of_le (Nat.zero_le i)
    rw [hnone]
    exact hs.withResults D T I
  · rw [← hs.edge_eq, ← hs.size]
    exact hexact
  · exact ⟨found.entry.subset, found.bounded, hI⟩

theorem round_ok (hb : f.Blocks g) (hs : g.HasSuccessors successors h) (hprior : h.Prior)
    (hentry : NoEdgeToEntry g.size successors) (hfinds : f.FindsAll g successors) :
    ∃ next again, f.round h = .ok (next, again) ∧
      g.HasSuccessors (f.retarget g successors) next ∧ next.Prior ∧
      next.ExactFor g.size (successorEdge g.size successors) ∧
      (again = true ↔ f.retarget g successors ≠ successors) := by
  obtain ⟨analysed, hrun, hsize, start⟩ := analyse_connecting hb hs hprior hentry
  obtain ⟨⟨next, again⟩, hconnect, hc⟩ := start.all hb hfinds
  refine ⟨next, again, ?_, connectedBelow_size ▸ hc.edges, hc.prior, hc.exact, ?_⟩
  · rw [round, hrun]
    show countUp f.connectBreak analysed.size (analysed, false) = _
    rw [hsize]
    exact hconnect
  · rw [hc.modified, ← not_iff_not, not_not, funext_iff]
    constructor
    · intro hsame i
      by_cases hi : i < g.size
      · by_contra hne
        exact hsame ⟨i, hi, hne⟩
      · rw [retarget, if_neg hi]
    · rintro hsame ⟨i, -, hne⟩
      exact hne (hsame i)

theorem round_error (hb : f.Blocks g) (hs : g.HasSuccessors successors h) (hprior : h.Prior)
    (hentry : ¬ NoEdgeToEntry g.size successors) : f.round h = .error .missingImmediate := by
  have wf := hs.wellFormed hb.wellFormed
  have herror := (wf.analyse_cases hprior (Nat.lt_succ_self (h.size * h.size))).2
    (mt (hs.predecessors_entry hb.wellFormed).mp hentry)
  rw [round, FlowGraph.enoughFuel, herror]
  rfl

/-! ## The loop -/

/-- The graph before the round `k`. -/
structure Running (f : FlowFunction) (g : FlowGraph ℕ) (k : ℕ) (h : FlowGraph ℕ) : Prop where
  edges : g.HasSuccessors (f.successorsAfter g k) h
  prior : h.Prior

theorem Blocks.running (hb : f.Blocks g) : f.Running g 0 g := by
  refine ⟨⟨rfl, fun _ => rfl, fun _ => rfl, fun _ => rfl, fun _ _ => rfl, fun w hw v => ?_⟩,
    hb.fresh.prior hb.wellFormed⟩
  constructor
  · intro hmem
    have hv := hb.wellFormed.predecessorIds w hw v hmem
    exact ⟨hv, (hb.linked v hv w hw).mp hmem⟩
  · rintro ⟨hv, hmem⟩
    exact (hb.linked v hv w hw).mpr hmem

/-- What the loop has left when it ends. -/
structure Rested (f : FlowFunction) (g : FlowGraph ℕ) (n : ℕ) (result : FlowGraph ℕ) : Prop where
  rest : f.successorsAfter g (n + 1) = f.successorsAfter g n
  edges : g.HasSuccessors (f.successorsAfter g n) result
  prior : result.Prior
  exact : result.ExactFor g.size (successorEdge g.size (f.successorsAfter g n))

theorem Running.round_ok (hb : f.Blocks g) (hr : f.Running g k h)
    (hfinds : f.FindsAll g (f.successorsAfter g k))
    (hentry : NoEdgeToEntry g.size (f.successorsAfter g k)) :
    ∃ next again, f.round h = .ok (next, again) ∧ f.Running g (k + 1) next ∧
      (again = false → f.Rested g k next) ∧
      (again = true → f.successorsAfter g (k + 1) ≠ f.successorsAfter g k) := by
  obtain ⟨next, again, hrun, hedges, hprior, hexact, hagain⟩ :=
    FlowFunction.round_ok hb hr.edges hr.prior hentry hfinds
  refine ⟨next, again, hrun, ⟨hedges, hprior⟩, fun hstop => ?_, hagain.mp⟩
  have hrest : f.retarget g (f.successorsAfter g k) = f.successorsAfter g k := by
    by_contra hne
    rw [hagain.mpr hne] at hstop
    cases hstop
  exact ⟨hrest, hrest ▸ hedges, hprior, hexact⟩

theorem Running.settle_ok (fuel : ℕ) (hb : f.Blocks g) (hfound : f.BreaksFound g)
    (hentry : ∀ j, NoEdgeToEntry g.size (f.successorsAfter g j)) {n : ℕ}
    (hrest : ∀ m, n ≤ m → f.successorsAfter g (m + 1) = f.successorsAfter g m)
    (enough : n < k + fuel) (hfuel : 0 < fuel) (hr : f.Running g k h) :
    ∃ m result, f.settle fuel h = .ok result ∧ f.Rested g m result := by
  induction fuel generalizing k h with
  | zero => exact absurd hfuel (Nat.lt_irrefl 0)
  | succ fuel ih =>
      obtain ⟨next, again, hrun, hnext, hstop, hgo⟩ :=
        hr.round_ok hb (hfound k fun j _ => hentry j) (hentry k)
      have hunfold : f.settle (fuel + 1) h =
          if again then f.settle fuel next else .ok next := by
        rw [settle, repeatWhile, hrun]
        rfl
      rw [hunfold]
      cases again with
      | false => exact ⟨k, next, rfl, hstop rfl⟩
      | true =>
          have hlt : k < n := by
            by_contra hge
            exact hgo rfl (hrest k (Nat.not_lt.mp hge))
          exact ih (by omega) (by omega) hnext

theorem Running.rested_of_settle (hb : f.Blocks g) (hfound : f.BreaksFound g)
    (hr : f.Running g k h) (hbefore : ∀ j < k, NoEdgeToEntry g.size (f.successorsAfter g j))
    {result : FlowGraph ℕ} (hok : f.settle fuel h = .ok result) :
    ∃ m, f.Rested g m result ∧ ∀ j ≤ m, NoEdgeToEntry g.size (f.successorsAfter g j) := by
  induction fuel generalizing k h with
  | zero => cases hok
  | succ fuel ih =>
      by_cases hentry : NoEdgeToEntry g.size (f.successorsAfter g k)
      · have hall : ∀ j ≤ k, NoEdgeToEntry g.size (f.successorsAfter g j) := by
          intro j hj
          rcases Nat.lt_or_eq_of_le hj with hlt | rfl
          · exact hbefore j hlt
          · exact hentry
        obtain ⟨next, again, hrun, hnext, hstop, -⟩ := hr.round_ok hb (hfound k hall) hentry
        have hunfold : f.settle (fuel + 1) h =
            if again then f.settle fuel next else .ok next := by
          rw [settle, repeatWhile, hrun]
          rfl
        rw [hunfold] at hok
        cases again with
        | false =>
            cases hok
            exact ⟨k, hstop rfl, hall⟩
        | true => exact ih hnext (fun j hj => hall j (Nat.le_of_lt_succ hj)) hok
      · have herror : f.settle (fuel + 1) h = .error .missingImmediate := by
          rw [settle, repeatWhile, round_error hb hr.edges hr.prior hentry]
          rfl
        rw [herror] at hok
        cases hok

end FlowFunction

end GpuCalorie.Ptx
