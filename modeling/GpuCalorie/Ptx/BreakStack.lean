/-
# The targets that breaks take

A thread has a stack of break addresses: `breakaddr` pushes its operand, and `break` jumps to the
label it pops. `find_break_target` has to say beforehand which this will be. Where the operand
that a break pops always comes from one `breakaddr`, the two agree exactly if in the dominator
tree the closest `breakaddr`, the entry block excepted, names the same label.
-/

import GpuCalorie.Math.Transition
import GpuCalorie.Ptx.BreakChase

namespace GpuCalorie.Ptx

open GpuCalorie.Math

/-- A thread in a function: its next instruction and `m_breakaddrs`, the top first. An operand on
the stack is known by the address of the `breakaddr` that has pushed it. -/
structure ThreadState where
  addr : ℕ
  breakaddrs : List ℕ := []
  deriving DecidableEq, Repr

namespace FlowFunction

variable (f : FlowFunction)

/-- The name in the operand of the instruction at an address. -/
def operandName (addr : ℕ) : String :=
  ((f.instrMem addr).map FlowInstruction.dst).getD ""

/-- Where an instruction that is no break can go on: behind it or, at the end of a block, at the
beginning of a successor. -/
def FlowsTo (g : FlowGraph ℕ) (addr next : ℕ) : Prop :=
  if (g.block (f.bb addr)).ptxEnd = some addr then
    ∃ s ∈ (g.block (f.bb addr)).successorIds, (g.block s).ptxBegin = some next
  else ∃ pI, f.instrMem addr = some pI ∧ next = addr + pI.instSize

/-- One instruction of a thread. -/
inductive ThreadStep (g : FlowGraph ℕ) : ThreadState → ThreadState → Prop
  /-- `push_breakaddr` -/
  | breakaddr {addr next : ℕ} {stack : List ℕ} {pI : FlowInstruction}
      (fetched : f.instrMem addr = some pI) (isBreakaddr : pI.opcode = .breakaddrOp)
      (flows : f.FlowsTo g addr next) : ThreadStep g ⟨addr, stack⟩ ⟨next, addr :: stack⟩
  /-- `pop_breakaddr`; there is no step with an empty stack, where an assertion fails. -/
  | broken {addr top : ℕ} {stack : List ℕ} {pI : FlowInstruction}
      (fetched : f.instrMem addr = some pI) (isBreak : pI.opcode = .breakOp) :
      ThreadStep g ⟨addr, top :: stack⟩ ⟨f.labels (f.operandName top), stack⟩
  /-- The predicate is false. -/
  | passed {addr : ℕ} {stack : List ℕ} {pI : FlowInstruction}
      (fetched : f.instrMem addr = some pI) (isBreak : pI.opcode = .breakOp)
      (guarded : pI.hasPred = true) : ThreadStep g ⟨addr, stack⟩ ⟨addr + pI.instSize, stack⟩
  | other {addr next : ℕ} {stack : List ℕ} {pI : FlowInstruction}
      (fetched : f.instrMem addr = some pI) (noBreakaddr : pI.opcode ≠ .breakaddrOp)
      (noBreak : pI.opcode ≠ .breakOp) (flows : f.FlowsTo g addr next) :
      ThreadStep g ⟨addr, stack⟩ ⟨next, stack⟩

/-- The executions of a function by a thread. -/
def threadSystem (g : FlowGraph ℕ) : TransitionSystem ThreadState Unit where
  init s := (g.block 0).ptxBegin = some s.addr ∧ s.breakaddrs = []
  step s _ t := f.ThreadStep g s t

/-- Every break has its matching `breakaddr`: in every execution that reaches it this has pushed
what it pops. -/
def PopsMatching (g : FlowGraph ℕ) (matching : ℕ → ℕ) : Prop :=
  ∀ s, (f.threadSystem g).Reachable s → ∀ pI, f.instrMem s.addr = some pI →
    pI.opcode = .breakOp → s.breakaddrs.head? = some (matching s.addr)

/-- `assert(0)` is not reached, and in the end the target of every break is what it pops in every
execution that reaches it, and where it goes then is one of its successors. -/
def PredictsBreaks (g : FlowGraph ℕ) : Prop :=
  (∀ fuel, f.settle fuel g ≠ .error .noBreakTarget) ∧
    ∀ fuel result, f.settle fuel g = .ok result → ∀ i < g.size, ∀ addr pI,
      f.breakAt (result.block i) = some (addr, pI) → ∀ s, (f.threadSystem g).Reachable s →
        s.addr = addr → ∃ top stack, s.breakaddrs = top :: stack ∧
          f.findBreakTarget result i = .ok (f.operandName top) ∧
          f.bb (f.labels (f.operandName top)) ∈ (result.block i).successorIds

/-- In every round that is made the breaks are reached from the entry. -/
def BreaksReached (g : FlowGraph ℕ) : Prop :=
  ∀ k, (∀ j ≤ k, NoEdgeToEntry g.size (f.successorsAfter g j)) →
    (∀ j < k, f.FindsAll g (f.successorsAfter g j)) → ∀ i < g.size,
      f.breakAt (g.block i) ≠ none →
        ReachedFrom (successorEdge g.size (f.successorsAfter g k)) 0 i

/-- In the end the closest `breakaddr` of every break that is executed names the label of the
matching one. -/
def ClosestMatches (g : FlowGraph ℕ) (matching : ℕ → ℕ) : Prop :=
  ∀ n, f.successorsAfter g (n + 1) = f.successorsAfter g n →
    (∀ j ≤ n, NoEdgeToEntry g.size (f.successorsAfter g j)) → ∀ i < g.size, ∀ addr pI,
      f.breakAt (g.block i) = some (addr, pI) →
        (∃ s, (f.threadSystem g).Reachable s ∧ s.addr = addr) →
          ∃ d, f.ClosestBreakaddr g (successorEdge g.size (f.successorsAfter g n)) i d ∧
            f.blockTarget (g.block d) = some (f.operandName (matching addr))

variable {f} {g h : FlowGraph ℕ} {successors : ℕ → Finset ℕ} {edge : ℕ → ℕ → Prop}
  {matching : ℕ → ℕ} {size fuel i k v : ℕ}

/-! ## Where no `breakaddr` is found -/

theorem searchUp_error (hexact : h.ExactFor size edge)
    (hlt : ∀ {v w}, ReachedFrom edge 0 v → Dominates edge 0 w v → w < size)
    (htarget : ∀ v, f.blockTarget (h.block v) = f.blockTarget (g.block v))
    (hreached : ReachedFrom edge 0 v) (hnone : ¬ f.FindsBreakaddr g edge v)
    (enough : (h.block v).dominatorIds.card < fuel) :
    f.searchUp h fuel v = .error .noBreakTarget := by
  induction fuel generalizing v with
  | zero => exact absurd enough (Nat.not_lt_zero _)
  | succ fuel ih =>
      obtain ⟨-, hentry, himmediate⟩ := hexact v (hlt hreached (.refl _ _ v)) hreached
      rw [searchUp]
      by_cases hzero : v = 0
      · rw [if_pos (hentry.mpr hzero)]
      obtain ⟨i, hi, -, hid⟩ := himmediate hzero
      rw [if_neg (fun h => hzero (hentry.mp h)), htarget]
      cases hblock : f.blockTarget (g.block v) with
      | some target =>
          have hself : f.blockTarget (g.block v) ≠ none := by simp [hblock]
          exact absurd ⟨v, hzero, .refl _ _ v, hself, fun _ _ hdom _ => hdom⟩ hnone
      | none =>
          have hri : ReachedFrom edge 0 i := hi.reached hreached
          have hnone' : ¬ f.FindsBreakaddr g edge i := by
            rintro ⟨d, hd⟩
            refine hnone ⟨d, hd.notEntry, hd.dominates.trans hi.1.2, hd.target, ?_⟩
            intro d' hd' hdom ht
            have hne : d' ≠ v := by
              rintro rfl
              exact ht hblock
            exact hd.closest d' hd' (hi.2 d' ⟨hne, hdom⟩) ht
          rw [hid, Int.toNat_natCast]
          exact ih hri hnone' (Nat.lt_of_lt_of_le (card_dominators_lt hexact hlt hreached hi)
            (Nat.le_of_lt_succ enough))

section

variable (hb : f.Blocks g)
include hb

theorem connect_error {modified : Bool}
    (hc : Connecting f g successors k (h, modified)) (hk : k < g.size)
    (hbreak : f.breakAt (g.block k) ≠ none)
    (hreached : ReachedFrom (successorEdge g.size successors) 0 k)
    (hnone : ¬ f.FindsBreakaddr g (successorEdge g.size successors) k) :
    f.connectBreak k (h, modified) = .error .noBreakTarget := by
  obtain ⟨⟨addr, pI⟩, hbreak⟩ := Option.ne_none_iff_exists'.mp hbreak
  have hbb : f.bb addr = k := hb.bbEnd k hk addr (breakAt_eq_some hbreak).1
  have hunlinked := hc.edges.unlink hk
  have herror : f.findBreakTarget (h.unlink k) k = .error .noBreakTarget :=
    searchUp_error hc.exact hb.lt_of_dominates (hunlinked.blockTarget f) hreached hnone
      (card_dominators_le hunlinked hc.prior.unlink hk)
  rw [connectBreak, hc.edges.breakAt, hbreak]
  simp only [hbb, herror, Except.bind, bind]

theorem Connecting.below (start : Connecting f g successors 0 (h, false))
    (hreached : ∀ i < g.size, f.breakAt (g.block i) ≠ none →
      ReachedFrom (successorEdge g.size successors) 0 i) (hk : k ≤ g.size) :
    (∃ s, countUp f.connectBreak k (h, false) = .ok s ∧ Connecting f g successors k s ∧
      ∀ i < k, f.breakAt (g.block i) ≠ none →
        f.FindsBreakaddr g (successorEdge g.size successors) i) ∨
    (countUp f.connectBreak k (h, false) = .error .noBreakTarget ∧
      ∃ i < k, f.breakAt (g.block i) ≠ none ∧
        ¬ f.FindsBreakaddr g (successorEdge g.size successors) i) := by
  induction k with
  | zero => exact .inl ⟨_, rfl, start, fun i hi => absurd hi (Nat.not_lt_zero i)⟩
  | succ k ih =>
      rw [countUp]
      rcases ih (Nat.le_of_succ_le hk) with
        ⟨⟨next, modified⟩, hrun, hc, hfinds⟩ | ⟨herror, i, hi, hnone⟩
      · rw [hrun]
        show (∃ s, f.connectBreak k (next, modified) = .ok s ∧ _) ∨
          f.connectBreak k (next, modified) = .error .noBreakTarget ∧ _
        cases hbreak : f.breakAt (g.block k) with
        | none =>
            refine .inl ⟨(next, modified), ?_, hc.keep hbreak, fun i hi hsome => ?_⟩
            · rw [connectBreak, hc.edges.breakAt, hbreak]
            · rcases Nat.lt_succ_iff_lt_or_eq.mp hi with hlt | rfl
              · exact hfinds i hlt hsome
              · exact absurd hbreak hsome
        | some found =>
            have hsome : f.breakAt (g.block k) ≠ none := by simp [hbreak]
            by_cases hfound : f.FindsBreakaddr g (successorEdge g.size successors) k
            · obtain ⟨s, hstep, hnext⟩ := hc.connect hb hk hbreak (hreached k hk hsome) hfound
              refine .inl ⟨s, hstep, hnext, fun i hi hsome => ?_⟩
              rcases Nat.lt_succ_iff_lt_or_eq.mp hi with hlt | rfl
              · exact hfinds i hlt hsome
              · exact hfound
            · exact .inr ⟨connect_error hb hc hk hsome (hreached k hk hsome) hfound,
                k, Nat.lt_succ_self k, hsome, hfound⟩
      · rw [herror]
        exact .inr ⟨rfl, i, Nat.lt_succ_of_lt hi, hnone⟩

theorem round_noBreakTarget (hs : g.HasSuccessors successors h)
    (hprior : h.Prior) (hentry : NoEdgeToEntry g.size successors)
    (hreached : ∀ i < g.size, f.breakAt (g.block i) ≠ none →
      ReachedFrom (successorEdge g.size successors) 0 i)
    (hnot : ¬ f.FindsAll g successors) : f.round h = .error .noBreakTarget := by
  obtain ⟨analysed, hrun, hsize, start⟩ := analyse_connecting hb hs hprior hentry
  rcases start.below hb hreached le_rfl with ⟨-, -, -, hfinds⟩ | ⟨herror, -⟩
  · exact absurd (fun i hi hsome => ⟨hreached i hi hsome, hfinds i hi hsome⟩) hnot
  · rw [round, hrun]
    show countUp f.connectBreak analysed.size (analysed, false) = _
    rw [hsize]
    exact herror

/-! ## When `assert(0)` is reached -/

theorem Running.settle_noBreakTarget {n : ℕ} (hle : k ≤ n)
    (hentry : ∀ j ≤ n, NoEdgeToEntry g.size (f.successorsAfter g j))
    (hfinds : ∀ j < n, f.FindsAll g (f.successorsAfter g j))
    (hreached : ∀ i < g.size, f.breakAt (g.block i) ≠ none →
      ReachedFrom (successorEdge g.size (f.successorsAfter g n)) 0 i)
    (hnot : ¬ f.FindsAll g (f.successorsAfter g n)) (hr : f.Running g k h) :
    f.settle (n - k + 1) h = .error .noBreakTarget := by
  induction hrounds : n - k generalizing k h with
  | zero =>
      obtain rfl : k = n := by omega
      rw [settle, repeatWhile, round_noBreakTarget hb hr.edges hr.prior (hentry k le_rfl)
        hreached hnot]
      rfl
  | succ rounds ih =>
      have hlt : k < n := by omega
      obtain ⟨next, again, hrun, hnext, hstop, -⟩ :=
        hr.round_ok hb (hfinds k hlt) (hentry k hle)
      cases again with
      | false =>
          have hsame := orbit_eq_of_rest successorsAfter_succ (hstop rfl).rest hle
          exact absurd (hsame ▸ hfinds k hlt) hnot
      | true =>
          have hrest := ih hlt hnext (by omega)
          rw [settle] at hrest ⊢
          rw [repeatWhile, hrun]
          exact hrest

theorem Running.settle_ne_noBreakTarget (hfound : f.BreaksFound g)
    (hbefore : ∀ j < k, NoEdgeToEntry g.size (f.successorsAfter g j)) (hr : f.Running g k h) :
    f.settle fuel h ≠ .error .noBreakTarget := by
  induction fuel generalizing k h with
  | zero => rintro ⟨⟩
  | succ fuel ih =>
      by_cases hentry : NoEdgeToEntry g.size (f.successorsAfter g k)
      · have hall : ∀ j ≤ k, NoEdgeToEntry g.size (f.successorsAfter g j) := by
          intro j hj
          rcases Nat.lt_or_eq_of_le hj with hlt | rfl
          · exact hbefore j hlt
          · exact hentry
        obtain ⟨next, again, hrun, hnext, -, -⟩ := hr.round_ok hb (hfound k hall) hentry
        have hunfold : f.settle (fuel + 1) h =
            if again then f.settle fuel next else .ok next := by
          rw [settle, repeatWhile, hrun]
          rfl
        rw [hunfold]
        cases again with
        | false => rintro ⟨⟩
        | true => exact ih (fun j hj => hall j (Nat.le_of_lt_succ hj)) hnext
      · rw [settle, repeatWhile, round_error hb hr.edges hr.prior hentry]
        rintro ⟨⟩

theorem settle_ne_noBreakTarget_iff (hreached : f.BreaksReached g) :
    (∀ fuel, f.settle fuel g ≠ .error .noBreakTarget) ↔ f.BreaksFound g := by
  constructor
  · intro hnever n hentry
    induction n using Nat.strong_induction_on with
    | _ n ih =>
        have hfinds : ∀ j < n, f.FindsAll g (f.successorsAfter g j) := fun j hj =>
          ih j hj fun l hl => hentry l (hl.trans hj.le)
        by_contra hnot
        exact hnever _ (hb.running.settle_noBreakTarget hb (Nat.zero_le n) hentry hfinds
          (hreached n hentry hfinds) hnot)
  · intro hfound fuel
    exact hb.running.settle_ne_noBreakTarget hb hfound fun j hj => absurd hj (Nat.not_lt_zero j)

end

/-! ## When the targets are right -/

theorem PopsMatching.stack (hm : f.PopsMatching g matching) {s : ThreadState}
    (reached : (f.threadSystem g).Reachable s) {b : FlowBlock ℕ} {pI : FlowInstruction}
    (hbreak : f.breakAt b = some (s.addr, pI)) :
    ∃ stack, s.breakaddrs = matching s.addr :: stack := by
  obtain ⟨-, hfetched, hop⟩ := breakAt_eq_some hbreak
  have hhead := hm s reached pI hfetched hop
  cases hstack : s.breakaddrs with
  | nil => simp [hstack] at hhead
  | cons top stack =>
      rw [hstack, List.head?_cons] at hhead
      exact ⟨stack, by rw [Option.some.inj hhead]⟩

/-- The places `FlowsTo` allows, in order. -/
def flows (f : FlowFunction) (g : FlowGraph ℕ) (addr : ℕ) (pI : FlowInstruction) : List ℕ :=
  if (g.block (f.bb addr)).ptxEnd = some addr then
    (List.range g.size).filterMap fun s =>
      if s ∈ (g.block (f.bb addr)).successorIds then (g.block s).ptxBegin else none
  else [addr + pI.instSize]

/-- The states after an instruction. -/
def nexts (f : FlowFunction) (g : FlowGraph ℕ) (s : ThreadState) : List ThreadState :=
  match f.instrMem s.addr with
  | none => []
  | some pI =>
    if pI.opcode = .breakaddrOp then
      (f.flows g s.addr pI).map (⟨·, s.addr :: s.breakaddrs⟩)
    else if pI.opcode = .breakOp then
      (s.breakaddrs.head?.toList.map fun top =>
        ⟨f.labels (f.operandName top), s.breakaddrs.tail⟩) ++
      if pI.hasPred then [⟨s.addr + pI.instSize, s.breakaddrs⟩] else []
    else (f.flows g s.addr pI).map (⟨·, s.breakaddrs⟩)

theorem Blocks.mem_flows (hb : f.Blocks g) {addr next : ℕ} {pI : FlowInstruction}
    (fetched : f.instrMem addr = some pI) (h : f.FlowsTo g addr next) :
    next ∈ f.flows g addr pI := by
  rw [FlowsTo] at h
  rw [flows]
  split_ifs at h ⊢ with hend
  · obtain ⟨s, hs, hnext⟩ := h
    have hlt := hb.successorIds _ (hb.bb addr) s hs
    exact List.mem_filterMap.mpr ⟨s, List.mem_range.mpr hlt, (if_pos hs).trans hnext⟩
  · obtain ⟨pI', fetched', rfl⟩ := h
    rw [fetched] at fetched'
    rw [Option.some.inj fetched']
    exact List.mem_singleton_self _

theorem Blocks.mem_nexts (hb : f.Blocks g) {s t : ThreadState} (h : f.ThreadStep g s t) :
    t ∈ f.nexts g s := by
  cases h with
  | breakaddr fetched isBreakaddr flows =>
      simp only [nexts, fetched, isBreakaddr, if_true]
      exact List.mem_map_of_mem (hb.mem_flows fetched flows)
  | broken fetched isBreak => simp [nexts, fetched, isBreak]
  | passed fetched isBreak guarded => simp [nexts, fetched, isBreak, guarded]
  | other fetched noBreakaddr noBreak flows =>
      simp only [nexts, fetched, noBreakaddr, noBreak, if_false]
      exact List.mem_map_of_mem (hb.mem_flows fetched flows)

theorem Blocks.mem_of_reachable (hb : f.Blocks g) (states : List ThreadState)
    (start : ∀ addr, (g.block 0).ptxBegin = some addr → ⟨addr, []⟩ ∈ states)
    (closed : ∀ s ∈ states, ∀ t ∈ f.nexts g s, t ∈ states) {s : ThreadState}
    (reached : (f.threadSystem g).Reachable s) : s ∈ states := by
  apply reached.invariant
  · rintro ⟨addr, stack⟩ ⟨hbegin, rfl : stack = []⟩
    exact start addr hbegin
  · intro s _ t _ hs taken
    exact closed s hs t (hb.mem_nexts taken)

theorem loop_popsMatching : loopFunction.PopsMatching loopBlocks fun _ => 8 := by
  intro s reached pI hfetched hop
  have hs := loop_blocks.mem_of_reachable [⟨0, []⟩, ⟨8, []⟩, ⟨16, [8]⟩, ⟨24, [8]⟩, ⟨32, []⟩]
    (fun addr hbegin => by obtain rfl := Option.some.inj hbegin; decide) (by decide) reached
  have hall : ∀ s ∈ ([⟨0, []⟩, ⟨8, []⟩, ⟨16, [8]⟩, ⟨24, [8]⟩, ⟨32, []⟩] : List ThreadState),
      (loopFunction.instrMem s.addr).map FlowInstruction.opcode = some .breakOp →
        s.breakaddrs.head? = some 8 := by decide
  exact hall s hs (by rw [hfetched, Option.map_some, hop])

/-- A `breakaddr` in the entry block, and the break right behind it. -/
def entryFunction : FlowFunction :=
  ofCode [⟨.breakaddrOp, false, "done", 8⟩, ⟨.breakOp, false, "", 8⟩, ⟨.retOp, false, "", 8⟩]
    [0, 0, 1] [("done", 16)]

def entryBlocks : FlowGraph ℕ :=
  ofBlocks [(0, 8), (16, 16)] ([{1}, {2}].getD · ∅)

theorem entry_blocks : entryFunction.Blocks entryBlocks :=
  blocks_ofBlocks (by decide) (by decide) (by decide) (by decide)

end FlowFunction

end GpuCalorie.Ptx
