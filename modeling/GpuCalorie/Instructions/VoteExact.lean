/-
# When a vote is exact

The state after some lanes of a vote have executed is a function of the list of these
lanes: the tally of their predicates while the lane the first one looked up is not among
them, and the written result with free static variables once it is. That lane is the
highest active one, so no lane executes after it.

A vote is therefore exact if and only if no lane executes it, or its highest active lane
does and its mode is not the agreement. Since an exact vote leaves the static variables
free, the votes of a run are all exact if and only if each of them is of this kind.
-/

import GpuCalorie.Instructions.Vote
import Mathlib.Data.Finset.Max

namespace GpuCalorie.Instructions

/-! ## The pieces of a vote -/

variable {mask : Finset ℕ}

theorem lastActive_eq_some {bound last : ℕ} (hmem : last ∈ mask)
    (hlt : last < bound) (highest : ∀ lane ∈ mask, lane < bound → lane ≤ last) :
    lastActive mask bound = some last := by
  induction bound with
  | zero => exact absurd hlt (Nat.not_lt_zero _)
  | succ bound ih =>
      by_cases hbound : bound ∈ mask
      · have hle : bound ≤ last := highest bound hbound (Nat.lt_succ_self bound)
        have heq : last = bound := by omega
        rw [lastActive, if_pos hbound, heq]
      · have hne : last ≠ bound := fun h => hbound (h ▸ hmem)
        rw [lastActive, if_neg hbound]
        exact ih (by omega) fun lane hlane hlow => highest lane hlane (by omega)

theorem writeThreads_apply (dst : ℕ) (data : PtxReg) (threads : List HwThread)
    (regs : HwThread → RegisterFile) (thread : HwThread) (symbol : ℕ) :
    writeThreads dst data threads regs thread symbol =
      if thread ∈ threads ∧ symbol = dst then data else regs thread symbol := by
  induction threads generalizing regs with
  | nil => simp [writeThreads]
  | cons head tail ih =>
      have hunfold : writeThreads dst data (head :: tail) regs =
          writeThreads dst data tail
            (Function.update regs head (setOperandValue (regs head) ⟨dst, .whole⟩ data)) :=
        rfl
      rw [hunfold, ih]
      by_cases hhead : thread = head
      · subst hhead
        by_cases hsymbol : symbol = dst
        · simp [hsymbol, setOperandValue]
        · simp [hsymbol, setOperandValue]
      · simp [hhead]

/-- The ballot of some lanes. -/
def ballotOf (holds : ℕ → Bool) (lanes : List ℕ) : BitVec 32 :=
  lanes.foldl (fun ballot lane => if holds lane then ballot ||| 1#32 <<< lane else ballot) 0

theorem getLsbD_ballotOf (holds : ℕ → Bool) (lanes : List ℕ) (bit : ℕ) :
    (ballotOf holds lanes).getLsbD bit = decide (bit < 32 ∧ bit ∈ lanes ∧ holds bit) := by
  induction lanes using List.reverseRecOn with
  | nil => simp [ballotOf]
  | append_singleton lanes lane ih =>
      have hunfold : ballotOf holds (lanes ++ [lane]) =
          if holds lane then ballotOf holds lanes ||| 1#32 <<< lane else ballotOf holds lanes := by
        simp [ballotOf]
      rw [hunfold]
      by_cases hholds : holds lane
      · rw [if_pos hholds, BitVec.getLsbD_or, ih]
        by_cases hbit : bit = lane
        · subst hbit
          by_cases hlow : bit < 32 <;> simp [hlow, hholds]
        · by_cases hless : bit < lane
          · simp [hbit, hless]
          · have hdiff : bit - lane ≠ 0 := by omega
            simp [hbit, hdiff]
      · rw [if_neg hholds, ih]
        by_cases hbit : bit = lane
        · subst hbit
          simp [hholds]
        · simp [hbit]

namespace VoteIssue

variable {cfg : CoreConfig} (v : VoteIssue cfg)

/-- The static variables when some lanes have voted and the vote is not over. -/
def tally (last : ℕ) (lanes : List ℕ) : VoteStatics where
  firstInWarp := false
  andAll := lanes.all v.holds
  orAll := lanes.any v.holds
  ballotResult := ballotOf v.holds lanes
  threadsInWarp := lanes.map v.thread
  lastTid := cfg.warpSize * v.warpId + last

/-- The state when some lanes have executed, the highest active lane being `last`. -/
def stateAfter (statics : VoteStatics) (last : ℕ) (lanes : List ℕ) : VoteState :=
  if lanes = [] then ⟨v.regs, statics⟩
  else if last ∈ lanes then
    { regs := writeThreads v.pI.dst (voteData v.pI.mode (v.tally last lanes))
        (lanes.map v.thread) v.regs
      statics := { v.tally last lanes with firstInWarp := true } }
  else ⟨v.regs, v.tally last lanes⟩

/-- The lanes below a bound that execute the vote. -/
def lanesBelow (bound : ℕ) : List ℕ :=
  executing v.mask v.skipped bound

variable {v} {statics : VoteStatics} {last : ℕ} {lane : ℕ}

theorem stateAfter_regs {lanes : List ℕ} (hlast : last ∉ lanes) :
    (v.stateAfter statics last lanes).regs = v.regs := by
  unfold stateAfter
  split_ifs <;> rfl

theorem not_mem_lanesBelow (hle : lane ≤ last) : last ∉ v.lanesBelow lane := by
  intro hmem
  have hlt : last < lane := (mem_executing.mp hmem).1
  omega

theorem thread_mod (hlane : lane < cfg.warpSize) : (v.thread lane).hwTid % cfg.warpSize = lane := by
  simp [thread, Nat.mod_eq_of_lt hlane]

theorem addVote_tally (hlane : lane < cfg.warpSize) (lanes : List ℕ) :
    addVote cfg (v.thread lane) (v.holds lane) (v.tally last lanes) =
      v.tally last (lanes ++ [lane]) := by
  simp [addVote, tally, thread_mod hlane, ballotOf]

theorem beginVote_free (hlane : lane < cfg.warpSize)
    (hfree : statics.firstInWarp = true) (hlast : lastActive mask maxWarpSize = some last) :
    beginVote cfg mask (v.thread lane) statics = .ok (v.tally last []) := by
  have hwarp : cfg.warpSize * v.warpId + lane - lane = cfg.warpSize * v.warpId := by omega
  rw [beginVote, if_pos hfree, hlast]
  simp only [thread_mod hlane]
  simp [tally, thread, ballotOf, hwarp]

theorem voteImpl_stateAfter (hlane : lane < cfg.warpSize)
    (hle : lane ≤ last) (hfree : statics.firstInWarp = true)
    (hlast : lastActive mask maxWarpSize = some last) :
    voteImpl cfg v.pI mask (v.thread lane) (v.stateAfter statics last (v.lanesBelow lane)) =
      .ok (v.stateAfter statics last (v.lanesBelow lane ++ [lane])) := by
  have hnot : last ∉ v.lanesBelow lane := not_mem_lanesBelow hle
  have hbegin : beginVote cfg mask (v.thread lane)
      (v.stateAfter statics last (v.lanesBelow lane)).statics =
        .ok (v.tally last (v.lanesBelow lane)) := by
    by_cases hnil : v.lanesBelow lane = []
    · rw [hnil, stateAfter, if_pos rfl]
      exact beginVote_free hlane hfree hlast
    · rw [stateAfter, if_neg hnil, if_neg hnot]
      rfl
  have hholds : v.pI.holds (v.regs (v.thread lane)) = v.holds lane := rfl
  have htid : (v.thread lane).hwTid = (v.tally last (v.lanesBelow lane ++ [lane])).lastTid ↔
      last = lane := by
    simp only [thread, tally]
    omega
  simp only [voteImpl, hbegin, stateAfter_regs hnot, hholds]
  change (if (v.thread lane).hwTid = (addVote cfg (v.thread lane) (v.holds lane) _).lastTid
    then _ else _) = _
  rw [addVote_tally hlane]
  by_cases heq : last = lane
  · rw [if_pos (htid.mpr heq), stateAfter, if_neg (by simp), if_pos (by simp [heq])]
    rfl
  · have hmem : last ∉ v.lanesBelow lane ++ [lane] := by simp [hnot, heq]
    rw [if_neg (mt htid.mp heq), stateAfter, if_neg (by simp), if_neg hmem]
    rfl

theorem execute_eq (hfree : statics.firstInWarp = true) (hmem : last ∈ v.mask)
    (highest : ∀ lane ∈ v.mask, lane ≤ last) :
    v.execute statics = .ok (v.stateAfter statics last v.lanes) := by
  have hmax : ∀ lane < cfg.warpSize, lane < maxWarpSize := fun lane hlane =>
    Nat.lt_of_lt_of_le hlane cfg.warpSize_le
  have hrun := executeWarpInst_ok v.mask v.skipped
    (fun s lane => Guard.skips (s.regs (v.thread lane)) v.pI.guard)
    (fun mask lane => voteImpl cfg v.pI mask (v.thread lane))
    (fun lane s => s = v.stateAfter statics last (v.lanesBelow lane))
    cfg.warpSize ⟨v.regs, statics⟩ ?_ ?_ ?_ rfl
  · obtain ⟨core, hcore, hlanes⟩ := hrun
    rw [execute, hcore, hlanes]
    rfl
  · intro lane _ hlane core hcore
    have hnot : last ∉ v.lanesBelow lane := not_mem_lanesBelow (highest lane hlane)
    rw [hcore, stateAfter_regs hnot]
    rfl
  · intro lane _ hpassed core hcore
    rw [hcore, lanesBelow, lanesBelow, executing_succ_of_not hpassed]
  · intro lane hlane hactive hskip core hcore
    have hlow : last ∈ maskAt v.mask v.skipped lane := by simp [hmem, highest lane hactive]
    have hlook : lastActive (maskAt v.mask v.skipped lane) maxWarpSize = some last := by
      apply lastActive_eq_some hlow (hmax last (v.mask_lt last hmem))
      intro other hother _
      exact highest other (mem_maskAt.mp hother).1
    refine ⟨v.stateAfter statics last (v.lanesBelow (lane + 1)), ?_, rfl⟩
    rw [hcore, voteImpl_stateAfter hlane (highest lane hactive) hfree hlook, lanesBelow,
      lanesBelow, executing_succ_of_mem hactive hskip]

theorem execute_empty (hmask : v.mask = ∅) : v.execute statics = .ok ⟨v.regs, statics⟩ := by
  have hrun := executeWarpInst_ok v.mask v.skipped
    (fun s lane => Guard.skips (s.regs (v.thread lane)) v.pI.guard)
    (fun mask lane => voteImpl cfg v.pI mask (v.thread lane))
    (fun _ s => s = ⟨v.regs, statics⟩)
    cfg.warpSize ⟨v.regs, statics⟩ ?_ ?_ ?_ rfl
  · obtain ⟨core, hcore, hstate⟩ := hrun
    rw [execute, hcore, hstate]
    rfl
  · intro lane _ hlane
    simp [hmask] at hlane
  · intro lane _ _ core hcore
    exact hcore
  · intro lane _ hlane
    simp [hmask] at hlane

/-! ## The result -/

theorem isResult_voteData (hmode : v.pI.mode ≠ .uni) :
    v.IsResult (voteData v.pI.mode (v.tally last v.lanes)) := by
  unfold IsResult voteData
  cases hcase : v.pI.mode with
  | any =>
      show predicateData (v.lanes.any v.holds) = _
      congr 1
      simp [List.any_eq]
  | all =>
      show predicateData (v.lanes.all v.holds) = _
      congr 1
      simp [List.all_eq]
  | uni => exact absurd hcase hmode
  | ballot =>
      intro bit
      have hlow : bit ∈ v.lanes → bit < 32 := fun hbit =>
        Nat.lt_of_lt_of_le (mem_executing.mp hbit).1 cfg.warpSize_le
      show ((ballotOf v.holds v.lanes).setWidth 64).getLsbD bit = _
      rw [BitVec.getLsbD_setWidth, getLsbD_ballotOf]
      by_cases hbit : bit ∈ v.lanes
      · have hsmall : bit < 32 := hlow hbit
        have hword : bit < 64 := by omega
        simp [hbit, hsmall, hword]
      · simp [hbit]

theorem not_isResult_uni (hmode : v.pI.mode = .uni) (hlanes : v.lanes ≠ []) :
    ¬ v.IsResult (voteData v.pI.mode (v.tally last v.lanes)) := by
  unfold IsResult voteData
  rw [hmode]
  show predicateData (v.lanes.any v.holds ^^ v.lanes.all v.holds) ≠ _
  obtain ⟨first, hfirst⟩ := List.exists_mem_of_ne_nil _ hlanes
  by_cases hagree : ∀ lane ∈ v.lanes, ∀ other ∈ v.lanes, v.holds lane = v.holds other
  · have hall : v.lanes.all v.holds = v.holds first := by
      cases hvalue : v.holds first with
      | true => simpa using fun lane hlane => (hagree lane hlane first hfirst).trans hvalue
      | false => simpa using ⟨first, hfirst, hvalue⟩
    have hany : v.lanes.any v.holds = v.holds first := by
      cases hvalue : v.holds first with
      | true => simpa using ⟨first, hfirst, hvalue⟩
      | false => simpa using fun lane hlane => (hagree lane hlane first hfirst).trans hvalue
    rw [hall, hany, decide_eq_true hagree]
    cases v.holds first <;> decide
  · obtain ⟨lane, hlane, other, hother, hne⟩ :
        ∃ lane ∈ v.lanes, ∃ other ∈ v.lanes, v.holds lane ≠ v.holds other := by
      simpa using hagree
    have hmixed : ∃ yes ∈ v.lanes, ∃ no ∈ v.lanes, v.holds yes = true ∧ v.holds no = false := by
      cases hvalue : v.holds lane with
      | true => exact ⟨lane, hlane, other, hother, hvalue, by simpa [hvalue] using hne⟩
      | false => exact ⟨other, hother, lane, hlane, by simpa [hvalue] using hne, hvalue⟩
    obtain ⟨yes, hyes, no, hno, htrue, hfalse⟩ := hmixed
    have hany : v.lanes.any v.holds = true := by simpa using ⟨yes, hyes, htrue⟩
    have hall : v.lanes.all v.holds = false := by simpa using ⟨no, hno, hfalse⟩
    rw [hall, hany, decide_eq_false hagree]
    decide

theorem stateAfter_lanes (statics : VoteStatics) (hlast : last ∈ v.lanes) :
    (v.stateAfter statics last v.lanes).statics.firstInWarp = true ∧
      ∀ thread symbol, (v.stateAfter statics last v.lanes).regs thread symbol =
        if thread ∈ v.lanes.map v.thread ∧ symbol = v.pI.dst
        then voteData v.pI.mode (v.tally last v.lanes) else v.regs thread symbol := by
  have hne : v.lanes ≠ [] := List.ne_nil_of_mem hlast
  rw [stateAfter, if_neg hne, if_pos hlast]
  exact ⟨rfl, writeThreads_apply _ _ _ _⟩

theorem exact_iff (hfree : statics.firstInWarp = true) :
    (∃ last, v.execute statics = .ok last ∧ v.Exact last) ↔ v.Counted := by
  by_cases hmask : v.mask = ∅
  · have hlanes : v.lanes = [] := by simp [lanes, executing, hmask]
    constructor
    · intro _
      exact .inl hlanes
    · intro _
      refine ⟨_, execute_empty hmask, ?_, fun _ _ _ => rfl, hfree⟩
      simp [hlanes]
  · obtain ⟨last, hmem, highest⟩ : ∃ last ∈ v.mask, ∀ lane ∈ v.mask, lane ≤ last :=
      Finset.exists_max_image v.mask id (Finset.nonempty_iff_ne_empty.mpr hmask)
    have hexec := execute_eq hfree hmem highest
    constructor
    · rintro ⟨final, hfinal, hexact⟩
      rw [hexec] at hfinal
      cases hfinal
      by_cases hlanes : v.lanes = []
      · exact .inl hlanes
      · have hlast : last ∈ v.lanes := by
          by_contra hout
          have hleft := hexact.free
          rw [stateAfter, if_neg hlanes, if_neg hout] at hleft
          exact Bool.false_ne_true hleft
        refine .inr ⟨fun hmode => ?_, last, hlast, highest⟩
        have hresult := hexact.result last hlast
        rw [(stateAfter_lanes statics hlast).2, if_pos ⟨List.mem_map_of_mem hlast, rfl⟩] at hresult
        exact not_isResult_uni hmode hlanes hresult
    · intro hcounted
      refine ⟨_, hexec, ?_⟩
      cases hcounted with
      | inl hlanes =>
          rw [stateAfter, if_pos hlanes]
          exact ⟨by simp [hlanes], fun _ _ _ => rfl, hfree⟩
      | inr hlast =>
          obtain ⟨hmode, top, htop, hhighest⟩ := hlast
          have heq : top = last := by
            have hle : top ≤ last := highest top (mem_executing.mp htop).2.1
            have hge : last ≤ top := hhighest last hmem
            omega
          cases heq
          obtain ⟨hstatics, hregs⟩ := stateAfter_lanes statics htop
          refine ⟨fun lane hlane => ?_, fun thread symbol hother => ?_, hstatics⟩
          · rw [hregs, if_pos ⟨List.mem_map_of_mem hlane, rfl⟩]
            exact isResult_voteData hmode
          · rw [hregs, if_neg]
            rintro ⟨hthread, hsymbol⟩
            obtain ⟨lane, hlane, hsame⟩ := List.mem_map.mp hthread
            exact hother lane hlane hsame.symm hsymbol

end VoteIssue

/-! ## Sequences of votes -/

/-- Votes of any warps, one after the other and with anything in between, all give every
executing lane its result and leave nothing to the next vote if and only if each of them
is executed by its highest active lane and does not ask for the agreement, or is executed
by no lane at all. -/
theorem votesExact_iff {cfg : CoreConfig} (statics : VoteStatics) (votes : List (VoteIssue cfg))
    (hfree : statics.firstInWarp = true) :
    VotesExact statics votes ↔ ∀ v ∈ votes, v.Counted := by
  induction votes generalizing statics with
  | nil => simp [VotesExact]
  | cons v rest ih =>
      rw [List.forall_mem_cons, ← VoteIssue.exact_iff hfree]
      constructor
      · rintro ⟨last, hexec, hexact, hrest⟩
        exact ⟨⟨last, hexec, hexact⟩, (ih last.statics hexact.free).mp hrest⟩
      · rintro ⟨⟨last, hexec, hexact⟩, hrest⟩
        exact ⟨last, hexec, hexact, (ih last.statics hexact.free).mpr hrest⟩

/-- Two votes of a warp of two lanes in which both lanes are true: all lanes vote, and a
guard that is true for both lanes. -/
theorem votesExact_twoLanes :
    VotesExact VoteStatics.initial
      [twoLaneVote ⟨.all, 1, 2, false, none⟩ 0,
        twoLaneVote ⟨.ballot, 1, 2, false, some ⟨0, false, none⟩⟩ 0] :=
  (votesExact_iff VoteStatics.initial _ rfl).mpr (by decide)

/-- The votes of a warp of two lanes are not exact when the guard takes the upper lane
out, and when the lanes are asked whether they agree. -/
theorem not_votesExact_twoLanes :
    ¬ VotesExact VoteStatics.initial
        [twoLaneVote ⟨.any, 1, 2, false, some ⟨0, false, none⟩⟩ 1] ∧
      ¬ VotesExact VoteStatics.initial [twoLaneVote ⟨.uni, 1, 2, false, none⟩ 0] := by
  constructor
  · rintro ⟨last, hexec, hexact, _⟩
    have hcounted := (VoteIssue.exact_iff rfl).mp ⟨last, hexec, hexact⟩
    revert hcounted
    decide
  · rintro ⟨last, hexec, hexact, _⟩
    have hcounted := (VoteIssue.exact_iff rfl).mp ⟨last, hexec, hexact⟩
    revert hcounted
    decide

end GpuCalorie.Instructions
