/-
# Breaks that chase one another

The loop over the break targets ends exactly if no round leads an edge to the entry and the edges
do not come back to some that they have left. They do not where the target of each break depends
only on the edges of earlier ones, but two breaks, each on the way to the other, can go back and
forth between two targets without end.
-/

import GpuCalorie.Ptx.BreakSettling

namespace GpuCalorie.Ptx

open GpuCalorie.Math

namespace FlowFunction

variable {f : FlowFunction} {g : FlowGraph ℕ} {successors other : ℕ → Finset ℕ} {i k : ℕ}

/-! ## Finitely many edges -/

theorem Blocks.breakSuccessors_subset (hb : f.Blocks g) (addr : ℕ) (pI : FlowInstruction)
    (target : String) : f.breakSuccessors addr pI target ⊆ Finset.range g.size := by
  intro s hs
  rw [breakSuccessors] at hs
  rw [Finset.mem_range]
  split_ifs at hs
  · rcases Finset.mem_insert.mp hs with rfl | hs
    · exact hb.bb _
    · exact Finset.mem_singleton.mp hs ▸ hb.bb _
  · exact Finset.mem_singleton.mp hs ▸ hb.bb _

theorem Blocks.retarget_subset (hb : f.Blocks g) (hi : i < g.size)
    (hsub : successors i ⊆ Finset.range g.size) :
    f.retarget g successors i ⊆ Finset.range g.size := by
  rw [retarget, if_pos hi]
  split
  · exact hsub
  · split_ifs with hfinds
    · cases f.blockTarget (g.block hfinds.choose) with
      | none => exact Finset.empty_subset _
      | some target => exact hb.breakSuccessors_subset _ _ _
    · exact Finset.empty_subset _

theorem Blocks.successorsAfter_subset (hb : f.Blocks g) (hi : i < g.size) (k : ℕ) :
    f.successorsAfter g k i ⊆ Finset.range g.size := by
  induction k with
  | zero => exact fun s hs => Finset.mem_range.mpr (hb.successorIds i hi s hs)
  | succ k ih => exact hb.retarget_subset hi ih

theorem successorsAfter_of_le (hi : g.size ≤ i) (k : ℕ) :
    f.successorsAfter g k i = (g.block i).successorIds := by
  induction k with
  | zero => rfl
  | succ k ih => exact (if_neg (Nat.not_lt.mpr hi)).trans ih

theorem successorsAfter_succ (k : ℕ) :
    f.successorsAfter g (k + 1) = f.retarget g (f.successorsAfter g k) := rfl

theorem Blocks.finite_successorsAfter (hb : f.Blocks g) :
    (Set.range (f.successorsAfter g)).Finite := by
  let extend (t : Fin g.size → (Finset.range g.size).powerset) (i : ℕ) : Finset ℕ :=
    if hi : i < g.size then (t ⟨i, hi⟩).1 else (g.block i).successorIds
  apply (Set.finite_range extend).subset
  rintro _ ⟨k, rfl⟩
  refine ⟨fun i => ⟨f.successorsAfter g k i, Finset.mem_powerset.mpr
    (hb.successorsAfter_subset i.isLt k)⟩, ?_⟩
  funext i
  by_cases hi : i < g.size
  · exact dif_pos hi
  · exact (dif_neg hi).trans (successorsAfter_of_le (Nat.not_lt.mp hi) k).symm

/-! ## Exactly when the loop ends -/

theorem Rested.breaks {n : ℕ} {result : FlowGraph ℕ} (hb : f.Blocks g)
    (hr : f.Rested g n result) (hfinds : f.FindsAll g (f.successorsAfter g n)) (hi : i < g.size)
    {addr : ℕ} {pI : FlowInstruction} (hbreak : f.breakAt (result.block i) = some (addr, pI)) :
    ∃ target, f.findBreakTarget result i = .ok target ∧
      (result.block i).successorIds = f.breakSuccessors addr pI target := by
  have hbreak' : f.breakAt (g.block i) = some (addr, pI) :=
    (hr.edges.breakAt f i).symm.trans hbreak
  obtain ⟨hreached, d, hd⟩ := hfinds i hi (by simp [hbreak'])
  obtain ⟨target, hfound, htarget⟩ :=
    findBreakTarget_ok hb hr.edges hr.prior hr.exact hi hreached hd
  refine ⟨target, hfound, ?_⟩
  calc (result.block i).successorIds
      = f.successorsAfter g n i := hr.edges.successorIds i hi
    _ = f.retarget g (f.successorsAfter g n) i := congrFun hr.rest.symm i
    _ = f.breakSuccessors addr pI target :=
        retarget_of_closest hi hbreak' hreached hd htarget

/-- A function by its instructions, of 8 bytes each, the blocks they are in, and its labels. -/
def ofCode (code : List FlowInstruction) (blocks : List ℕ) (labels : List (String × ℕ)) :
    FlowFunction where
  instrMem addr := if addr % 8 = 0 then code[addr / 8]? else none
  labels name := (labels.lookup name).getD 0
  bb addr := blocks.getD (addr / 8) 0

/-- Blocks without results by their first and last instructions, and the exit. -/
def ofBlocks (ends : List (ℕ × ℕ)) (successors : ℕ → Finset ℕ) : FlowGraph ℕ where
  size := ends.length + 1
  block i :=
    { bbId := i
      ptxBegin := ends[i]?.map Prod.fst
      ptxEnd := ends[i]?.map Prod.snd
      predecessorIds := (Finset.range (ends.length + 1)).filter fun v => i ∈ successors v
      successorIds := successors i }

theorem blocks_ofBlocks {code : List FlowInstruction} {blocks : List ℕ}
    {labels : List (String × ℕ)} {ends : List (ℕ × ℕ)} (hne : ends ≠ [])
    (hblocks : ∀ b ∈ blocks, b < ends.length + 1)
    (hends : ∀ i (hi : i < ends.length), (ofCode code blocks labels).bb ends[i].2 = i)
    (hsucc : ∀ i < ends.length + 1, ∀ s ∈ successors i, s < ends.length + 1) :
    (ofCode code blocks labels).Blocks (ofBlocks ends successors) := by
  constructor
  case wellFormed =>
    refine ⟨Nat.succ_le_succ (List.length_pos_iff.mpr hne), fun _ _ => rfl, fun i _ p hp => ?_⟩
    exact Finset.mem_range.mp (Finset.mem_filter.mp hp).1
  case fresh => exact fun _ _ => ⟨rfl, rfl⟩
  case bb =>
    intro addr
    show blocks.getD (addr / 8) 0 < ends.length + 1
    rw [List.getD_eq_getElem?_getD]
    cases hget : blocks[addr / 8]? with
    | none => exact Nat.succ_pos _
    | some b => exact hblocks b (List.mem_of_getElem? hget)
  case bbEnd =>
    intro i _ addr haddr
    obtain ⟨⟨first, last⟩, hget, rfl⟩ := Option.map_eq_some_iff.mp haddr
    obtain ⟨hi, hval⟩ := List.getElem?_eq_some_iff.mp hget
    have hend := hends i hi
    rwa [hval] at hend
  case successorIds => exact hsucc
  case linked =>
    intro v hv w _
    exact Finset.mem_filter.trans (and_iff_right (Finset.mem_range.mpr hv))

/-- A round turns some edges into others: the breaks are reached, and get those of the closest
`breakaddr`. -/
structure Retargets (f : FlowFunction) (g : FlowGraph ℕ) (successors other : ℕ → Finset ℕ) :
    Prop where
  keeps : ∀ i, f.breakAt (g.block i) = none ∨ g.size ≤ i → other i = successors i
  breaks : ∀ i < g.size, f.breakAt (g.block i) ≠ none →
    ReachedFrom (successorEdge g.size successors) 0 i ∧
      ∃ d target addr pI, f.ClosestBreakaddr g (successorEdge g.size successors) i d ∧
        f.blockTarget (g.block d) = some target ∧ f.breakAt (g.block i) = some (addr, pI) ∧
        other i = f.breakSuccessors addr pI target

theorem Retargets.retarget_eq (h : f.Retargets g successors other) :
    f.retarget g successors = other := by
  funext i
  by_cases hkeep : f.breakAt (g.block i) = none ∨ g.size ≤ i
  · rw [h.keeps i hkeep]
    rcases hkeep with hnone | hle
    · exact retarget_of_breakAt_none hnone
    · exact if_neg (Nat.not_lt.mpr hle)
  · obtain ⟨hsome, hlt⟩ := not_or.mp hkeep
    have hi : i < g.size := Nat.not_le.mp hlt
    obtain ⟨hreached, d, target, addr, pI, hd, htarget, hbreak, hother⟩ := h.breaks i hi hsome
    rw [hother]
    exact retarget_of_closest hi hbreak hreached hd htarget

theorem Retargets.findsAll (h : f.Retargets g successors other) : f.FindsAll g successors := by
  intro i hi hsome
  obtain ⟨hreached, d, -, -, -, hd, -⟩ := h.breaks i hi hsome
  exact ⟨hreached, d, hd⟩

theorem closestBreakaddr_of_only_way_in {v d : ℕ} (S : Finset ℕ) (hsize : 0 < g.size)
    (hreached : ReachedFrom (successorEdge g.size successors) 0 v) (hd : d ≠ 0) (hv : v ∈ S)
    (htarget : f.blockTarget (g.block d) ≠ none) (hentry : 0 ∉ S)
    (only : ∀ a < g.size, ∀ b ∈ successors a, a ∉ S → b ∈ S → b = d)
    (others : ∀ d' < g.size, d' ≠ 0 → f.blockTarget (g.block d') ≠ none → d' ≠ d →
      Dominates (successorEdge g.size successors) 0 d' v →
        Dominates (successorEdge g.size successors) 0 d' d) :
    f.ClosestBreakaddr g (successorEdge g.size successors) v d := by
  refine ⟨hd, ?_, htarget, fun d' hd' hdom ht => ?_⟩
  · exact dominates_of_only_way_in (P := (· ∈ S)) hentry
      (fun a b taken => only a taken.2.1 b taken.2.2) hv
  · by_cases heq : d' = d
    · exact heq ▸ .refl _ _ _
    · exact others d' (hdom.of_reached (P := (· < g.size)) hreached hsize
        fun _ _ taken => taken.1) hd' ht heq hdom

/-- A loop behind a `breakaddr`, left by a break with a predicate. -/
def loopFunction : FlowFunction :=
  ofCode [⟨.otherOp, false, "", 8⟩, ⟨.breakaddrOp, false, "done", 8⟩, ⟨.breakOp, true, "", 8⟩,
    ⟨.braOp, false, "loop", 8⟩, ⟨.retOp, false, "", 8⟩] [0, 1, 2, 3, 4] [("loop", 16), ("done", 32)]

/-- Its edges, with those of the break. -/
def loopEdges (break₂ : Finset ℕ) (i : ℕ) : Finset ℕ :=
  [{1}, {2}, break₂, {2}, {5}].getD i ∅

/-- Its blocks, where the break has the edge to the next block. -/
def loopBlocks : FlowGraph ℕ :=
  ofBlocks [(0, 0), (8, 8), (16, 16), (24, 24), (32, 32)] (loopEdges {3})

theorem loop_breaks : ∀ i < 6, loopFunction.breakAt (loopBlocks.block i) ≠ none → i = 2 := by
  decide

theorem loop_closest {break₂ : Finset ℕ} (h : break₂ = {3} ∨ break₂ = {3, 4}) :
    ReachedFrom (successorEdge 6 (loopEdges break₂)) 0 2 ∧
      loopFunction.ClosestBreakaddr loopBlocks (successorEdge 6 (loopEdges break₂)) 2 1 := by
  have hchain : List.IsChain (successorEdge 6 (loopEdges break₂)) (0 :: [1, 2]) := by
    rcases h with rfl | rfl <;> decide
  have htarget : ∀ i < 6, loopFunction.blockTarget (loopBlocks.block i) ≠ none → i = 1 := by
    decide
  have hreached := reachedFrom_of_isChain hchain rfl
  refine ⟨hreached, ?_⟩
  apply closestBreakaddr_of_only_way_in {1, 2, 3, 4, 5} (by decide) hreached (by decide)
    (by decide) (by decide) (by decide)
  · rcases h with rfl | rfl <;> decide
  · intro d' hlt _ ht hne
    exact absurd (htarget d' hlt ht) hne

theorem loop_retargets {break₂ : Finset ℕ} (h : break₂ = {3} ∨ break₂ = {3, 4}) :
    loopFunction.Retargets loopBlocks (loopEdges break₂) (loopEdges {3, 4}) := by
  constructor
  case keeps =>
    rintro (_ | _ | _ | i) hi
    · rfl
    · rfl
    · exact absurd hi (by decide)
    · rfl
  case breaks =>
    intro i hi hbreak
    obtain rfl := loop_breaks i hi hbreak
    obtain ⟨hreached, hd⟩ := loop_closest h
    exact ⟨hreached, 1, "done", 16, ⟨.breakOp, true, "", 8⟩, hd, by decide, by decide, by decide⟩

theorem loop_successorsAfter (k : ℕ) :
    ∃ break₂, (break₂ = {3} ∨ break₂ = {3, 4}) ∧
      loopFunction.successorsAfter loopBlocks k = loopEdges break₂ := by
  induction k with
  | zero => exact ⟨{3}, .inl rfl, rfl⟩
  | succ k ih =>
      obtain ⟨break₂, h, hk⟩ := ih
      refine ⟨{3, 4}, .inr rfl, ?_⟩
      rw [successorsAfter_succ, hk]
      exact (loop_retargets h).retarget_eq

theorem loop_blocks : loopFunction.Blocks loopBlocks :=
  blocks_ofBlocks (by decide) (by decide) (by decide) (by decide)

theorem loop_findsAll (k : ℕ) :
    loopFunction.FindsAll loopBlocks (loopFunction.successorsAfter loopBlocks k) := by
  obtain ⟨break₂, h, hk⟩ := loop_successorsAfter k
  rw [hk]
  exact (loop_retargets h).findsAll

/-- Two ways from a common `breakaddr`, each through one of its own to a break, and from the label
of each of the two to the break of the other. -/
def crossedFunction : FlowFunction :=
  ofCode [⟨.otherOp, false, "", 8⟩, ⟨.breakaddrOp, false, "common", 8⟩, ⟨.braOp, true, "right", 8⟩,
    ⟨.breakaddrOp, false, "toRight", 8⟩, ⟨.breakOp, false, "", 8⟩,
    ⟨.breakaddrOp, false, "toLeft", 8⟩, ⟨.breakOp, false, "", 8⟩,
    ⟨.braOp, false, "rightBreak", 8⟩, ⟨.braOp, false, "leftBreak", 8⟩, ⟨.retOp, false, "", 8⟩]
    [0, 1, 1, 2, 3, 4, 5, 6, 7, 8]
    [("leftBreak", 32), ("right", 40), ("rightBreak", 48), ("toRight", 56), ("toLeft", 64),
      ("common", 72)]

/-- Its edges, with those of the two breaks. -/
def crossedEdges (break₃ break₅ : Finset ℕ) (i : ℕ) : Finset ℕ :=
  [{1}, {2, 4}, {3}, break₃, {5}, break₅, {5}, {3}, {9}].getD i ∅

/-- Its blocks, where the breaks have the edges to the next blocks. -/
def crossedBlocks : FlowGraph ℕ :=
  ofBlocks [(0, 0), (8, 16), (24, 24), (32, 32), (40, 40), (48, 48), (56, 56), (64, 64), (72, 72)]
    (crossedEdges {4} {6})

theorem crossed_retargets {break₃ break₅ : Finset ℕ} (d₃ d₅ : ℕ) (target₃ target₅ : String)
    (hreached : ∀ v, v = 3 ∨ v = 5 →
      ReachedFrom (successorEdge 10 (crossedEdges break₃ break₅)) 0 v)
    (h₃ : crossedFunction.ClosestBreakaddr crossedBlocks
      (successorEdge 10 (crossedEdges break₃ break₅)) 3 d₃)
    (h₅ : crossedFunction.ClosestBreakaddr crossedBlocks
      (successorEdge 10 (crossedEdges break₃ break₅)) 5 d₅)
    (htarget₃ : crossedFunction.blockTarget (crossedBlocks.block d₃) = some target₃)
    (htarget₅ : crossedFunction.blockTarget (crossedBlocks.block d₅) = some target₅) :
    crossedFunction.Retargets crossedBlocks (crossedEdges break₃ break₅)
      (crossedEdges {crossedFunction.bb (crossedFunction.labels target₃)}
        {crossedFunction.bb (crossedFunction.labels target₅)}) := by
  have honly : ∀ i < 10, crossedFunction.breakAt (crossedBlocks.block i) ≠ none →
      i = 3 ∨ i = 5 := by decide
  constructor
  case keeps =>
    rintro (_ | _ | _ | _ | _ | _ | i) hi
    · rfl
    · rfl
    · rfl
    · exact absurd hi (by decide)
    · rfl
    · exact absurd hi (by decide)
    · rfl
  case breaks =>
    intro i hi hbreak
    refine ⟨hreached i (honly i hi hbreak), ?_⟩
    rcases honly i hi hbreak with rfl | rfl
    · exact ⟨d₃, target₃, 32, ⟨.breakOp, false, "", 8⟩, h₃, htarget₃, by decide, rfl⟩
    · exact ⟨d₅, target₅, 48, ⟨.breakOp, false, "", 8⟩, h₅, htarget₅, by decide, rfl⟩

theorem crossed_targets : ∀ i < 10,
    crossedFunction.blockTarget (crossedBlocks.block i) ≠ none → i = 1 ∨ i = 2 ∨ i = 4 := by
  decide

theorem crossed_dominates (break₃ break₅ : Finset ℕ) {v : ℕ} (hv : v ≠ 0) :
    Dominates (successorEdge 10 (crossedEdges break₃ break₅)) 0 1 v := by
  apply dominates_of_only_way_in (P := (· ≠ 0)) (not_not.mpr rfl) ?_ hv
  intro a b taken ha _
  obtain rfl := not_not.mp ha
  exact Finset.mem_singleton.mp taken.2.2

theorem crossed_apart {break₃ break₅ : Finset ℕ}
    (h : break₃ = {4} ∧ break₅ = {6} ∨ break₃ = {8} ∧ break₅ = {8}) :
    crossedFunction.Retargets crossedBlocks (crossedEdges break₃ break₅)
      (crossedEdges {6} {7}) := by
  have hleft : List.IsChain (successorEdge 10 (crossedEdges break₃ break₅)) (0 :: [1, 2, 3]) := by
    rcases h with ⟨rfl, rfl⟩ | ⟨rfl, rfl⟩ <;> decide
  have hright : List.IsChain (successorEdge 10 (crossedEdges break₃ break₅)) (0 :: [1, 4, 5]) := by
    rcases h with ⟨rfl, rfl⟩ | ⟨rfl, rfl⟩ <;> decide
  have h₃ := reachedFrom_of_isChain hleft rfl
  have h₅ := reachedFrom_of_isChain hright rfl
  refine crossed_retargets 2 4 "toRight" "toLeft" ?_ ?_ ?_
    (by decide) (by decide)
  · rintro v (rfl | rfl)
    · exact h₃
    · exact h₅
  · apply closestBreakaddr_of_only_way_in {2, 3, 7} (by decide) h₃ (by decide) (by decide)
      (by decide) (by decide)
    · rcases h with ⟨rfl, rfl⟩ | ⟨rfl, rfl⟩ <;> decide
    · intro d' hlt _ ht hne hdom
      rcases crossed_targets d' hlt ht with rfl | rfl | rfl
      · exact crossed_dominates _ _ (by decide)
      · exact absurd rfl hne
      · exact absurd hdom (not_dominates_of_isChain hleft rfl (by decide))
  · apply closestBreakaddr_of_only_way_in {4, 5, 6} (by decide) h₅ (by decide) (by decide)
      (by decide) (by decide)
    · rcases h with ⟨rfl, rfl⟩ | ⟨rfl, rfl⟩ <;> decide
    · intro d' hlt _ ht hne hdom
      rcases crossed_targets d' hlt ht with rfl | rfl | rfl
      · exact crossed_dominates _ _ (by decide)
      · exact absurd hdom (not_dominates_of_isChain hright rfl (by decide))
      · exact absurd rfl hne

theorem crossed_common :
    crossedFunction.Retargets crossedBlocks (crossedEdges {6} {7}) (crossedEdges {8} {8}) := by
  have hleft : List.IsChain (successorEdge 10 (crossedEdges {6} {7})) (0 :: [1, 2, 3]) := by
    decide
  have hright : List.IsChain (successorEdge 10 (crossedEdges {6} {7})) (0 :: [1, 4, 5]) := by
    decide
  have hleftRight : List.IsChain (successorEdge 10 (crossedEdges {6} {7}))
      (0 :: [1, 2, 3, 6, 5]) := by decide
  have hrightLeft : List.IsChain (successorEdge 10 (crossedEdges {6} {7}))
      (0 :: [1, 4, 5, 7, 3]) := by decide
  have h₃ := reachedFrom_of_isChain hleft rfl
  have h₅ := reachedFrom_of_isChain hright rfl
  refine crossed_retargets 1 1 "common" "common" ?_ ?_ ?_ (by decide) (by decide)
  · rintro v (rfl | rfl)
    · exact h₃
    · exact h₅
  · apply closestBreakaddr_of_only_way_in {1, 2, 3, 4, 5, 6, 7, 8, 9} (by decide) h₃ (by decide)
      (by decide) (by decide) (by decide) (by decide)
    intro d' hlt _ ht hne hdom
    rcases crossed_targets d' hlt ht with rfl | rfl | rfl
    · exact absurd rfl hne
    · exact absurd hdom (not_dominates_of_isChain hrightLeft rfl (by decide))
    · exact absurd hdom (not_dominates_of_isChain hleft rfl (by decide))
  · apply closestBreakaddr_of_only_way_in {1, 2, 3, 4, 5, 6, 7, 8, 9} (by decide) h₅ (by decide)
      (by decide) (by decide) (by decide) (by decide)
    intro d' hlt _ ht hne hdom
    rcases crossed_targets d' hlt ht with rfl | rfl | rfl
    · exact absurd rfl hne
    · exact absurd hdom (not_dominates_of_isChain hright rfl (by decide))
    · exact absurd hdom (not_dominates_of_isChain hleftRight rfl (by decide))

theorem crossed_successorsAfter (k : ℕ) :
    (∃ break₃ break₅, (break₃ = {4} ∧ break₅ = {6} ∨ break₃ = {8} ∧ break₅ = {8}) ∧
      crossedFunction.successorsAfter crossedBlocks k = crossedEdges break₃ break₅) ∨
    crossedFunction.successorsAfter crossedBlocks k = crossedEdges {6} {7} := by
  induction k with
  | zero => exact .inl ⟨{4}, {6}, .inl ⟨rfl, rfl⟩, rfl⟩
  | succ k ih =>
      rw [successorsAfter_succ]
      rcases ih with ⟨break₃, break₅, h, hk⟩ | hk
      · rw [hk]
        exact .inr (crossed_apart h).retarget_eq
      · rw [hk]
        exact .inl ⟨{8}, {8}, .inr ⟨rfl, rfl⟩, crossed_common.retarget_eq⟩

end FlowFunction

end GpuCalorie.Ptx
