/-
# Warp votes

`vote_impl` runs once for every lane that executes the vote. The lanes of one warp share
static variables: the first lane resets them and looks up the highest lane of the mask,
every lane adds its predicate, and the lane found by the first one writes the result to
all lanes that came by and marks the variables as free. The variables are shared by all
warps of all cores, so a vote that does not end leaves its tally to the next one.

A vote ends if its highest active lane executes it, and then the result is right for
three of the four modes: the agreement of all lanes is computed as their disagreement.
-/

import GpuCalorie.Instructions.WarpLoop

namespace GpuCalorie.Instructions

/-- `vote_mode_t`. -/
inductive VoteMode
  | any
  | all
  | uni
  | ballot
  deriving DecidableEq, Repr

/-- A decoded vote. Its operand is a predicate register, possibly negated. -/
structure VoteInst where
  mode : VoteMode
  dst : ℕ
  src1 : ℕ
  negPred : Bool := false
  guard : Option Guard := none
  deriving DecidableEq, Repr

/-- A `ptx_thread_info`: the core it is on and its `hw_tid` there. -/
structure HwThread where
  sid : ℕ
  hwTid : ℕ
  deriving DecidableEq, Repr

/-- The static variables of `vote_impl`. -/
structure VoteStatics where
  firstInWarp : Bool
  andAll : Bool
  orAll : Bool
  ballotResult : BitVec 32
  threadsInWarp : List HwThread
  lastTid : ℕ
  deriving DecidableEq, Repr

/-- The static variables before the first vote. -/
def VoteStatics.initial : VoteStatics where
  firstInWarp := true
  andAll := false
  orAll := false
  ballotResult := 0
  threadsInWarp := []
  lastTid := 0

/-- What a vote works on: the registers of all threads, and the static variables. -/
structure VoteState where
  regs : HwThread → RegisterFile
  statics : VoteStatics

/-- The loop that looks for the highest lane of a mask below a bound. -/
def lastActive (mask : Finset ℕ) : ℕ → Option ℕ
  | 0 => none
  | offset + 1 => if offset ∈ mask then some offset else lastActive mask offset

/-- The value a predicate register gets for a truth value: the zero flag means false. -/
def predicateData (value : Bool) : PtxReg :=
  .ofBits (if value then 0 else 1 : BitVec 4)

/-- The first lane of a vote resets the static variables. -/
def beginVote (cfg : CoreConfig) (mask : Finset ℕ) (thread : HwThread) (statics : VoteStatics) :
    Except ExecFailure VoteStatics :=
  if statics.firstInWarp then
    match lastActive mask maxWarpSize with
    | none => .error .noActiveLane
    | some offset =>
        .ok {
          firstInWarp := false
          andAll := true
          orAll := false
          ballotResult := 0
          threadsInWarp := []
          lastTid := thread.hwTid - thread.hwTid % cfg.warpSize + offset }
  else .ok statics

/-- The truth value of the operand: the register holds the zero flag. -/
def VoteInst.holds (pI : VoteInst) (regs : RegisterFile) : Bool :=
  pI.negPred ^^ !(regs pI.src1).pred.getLsbD 0

/-- Every lane adds itself and its predicate to the static variables. -/
def addVote (cfg : CoreConfig) (thread : HwThread) (value : Bool) (statics : VoteStatics) :
    VoteStatics :=
  { statics with
    threadsInWarp := statics.threadsInWarp ++ [thread]
    andAll := statics.andAll && value
    orAll := statics.orAll || value
    ballotResult :=
      if value then statics.ballotResult ||| 1#32 <<< (thread.hwTid % cfg.warpSize)
      else statics.ballotResult }

/-- What the last lane writes. -/
def voteData (mode : VoteMode) (statics : VoteStatics) : PtxReg :=
  match mode with
  | .ballot => .ofBits statics.ballotResult
  | .any => predicateData statics.orAll
  | .all => predicateData statics.andAll
  | .uni => predicateData (statics.orAll ^^ statics.andAll)

/-- The loop that writes the result to the threads of a list. -/
def writeThreads (dst : ℕ) (data : PtxReg) (threads : List HwThread)
    (regs : HwThread → RegisterFile) : HwThread → RegisterFile :=
  threads.foldl
    (fun regs thread =>
    Function.update regs thread (setOperandValue (regs thread) ⟨dst, .whole⟩ data))
    regs

/-- `vote_impl`, for a thread and the mask of its instruction. -/
def voteImpl (cfg : CoreConfig) (pI : VoteInst) (mask : Finset ℕ) (thread : HwThread)
    (s : VoteState) : Except ExecFailure VoteState := do
  let statics ← beginVote cfg mask thread s.statics
  let statics := addVote cfg thread (pI.holds (s.regs thread)) statics
  if thread.hwTid = statics.lastTid then
    pure {
      regs := writeThreads pI.dst (voteData pI.mode statics) statics.threadsInWarp s.regs
      statics := { statics with firstInWarp := true } }
  else pure { s with statics := statics }

/-! ## Votes of warps -/

/-- A vote that a core executes for a warp: the mask of the warp, and the registers at
that time. -/
structure VoteIssue (cfg : CoreConfig) where
  sid : ℕ
  warpId : ℕ
  pI : VoteInst
  mask : Finset ℕ
  regs : HwThread → RegisterFile
  mask_lt : ∀ lane ∈ mask, lane < cfg.warpSize

namespace VoteIssue

variable {cfg : CoreConfig}

/-- The thread of a lane. -/
def thread (v : VoteIssue cfg) (lane : ℕ) : HwThread :=
  ⟨v.sid, cfg.warpSize * v.warpId + lane⟩

/-- Whether the guard takes a lane out. -/
def skipped (v : VoteIssue cfg) (lane : ℕ) : Bool :=
  Guard.skips (v.regs (v.thread lane)) v.pI.guard

/-- The predicate of a lane. -/
def holds (v : VoteIssue cfg) (lane : ℕ) : Bool :=
  v.pI.holds (v.regs (v.thread lane))

/-- The lanes that execute the vote. -/
def lanes (v : VoteIssue cfg) : List ℕ :=
  executing v.mask v.skipped cfg.warpSize

/-- `execute_warp_inst_t` for a vote. -/
def execute (v : VoteIssue cfg) (statics : VoteStatics) : Except ExecFailure VoteState := do
  let last ← executeWarpInst
    (fun s lane => Guard.skips (s.regs (v.thread lane)) v.pI.guard)
    (fun mask lane => voteImpl cfg v.pI mask (v.thread lane))
    cfg.warpSize ⟨v.mask, ⟨v.regs, statics⟩⟩
  pure last.core

/-- What a mode promises of the value written to the lanes of a vote. -/
def IsResult (v : VoteIssue cfg) (value : PtxReg) : Prop :=
  match v.pI.mode with
  | .all => value = predicateData (decide (∀ lane ∈ v.lanes, v.holds lane))
  | .any => value = predicateData (decide (∃ lane ∈ v.lanes, v.holds lane))
  | .uni =>
      value = predicateData
        (decide (∀ lane ∈ v.lanes, ∀ other ∈ v.lanes, v.holds lane = v.holds other))
  | .ballot => ∀ bit, value.u64.getLsbD bit = decide (bit ∈ v.lanes ∧ v.holds bit)

/-- A vote is exact: every lane that executes it gets the result, no other register
changes, and the static variables are free again. -/
structure Exact (v : VoteIssue cfg) (last : VoteState) : Prop where
  result : ∀ lane ∈ v.lanes, v.IsResult (last.regs (v.thread lane) v.pI.dst)
  other : ∀ thread symbol, (∀ lane ∈ v.lanes, thread = v.thread lane → symbol ≠ v.pI.dst) →
    last.regs thread symbol = v.regs thread symbol
  free : last.statics.firstInWarp = true

/-- The votes that come out right: the highest active lane executes the vote, and the
agreement of the lanes is not asked for. -/
def Counted (v : VoteIssue cfg) : Prop :=
  v.lanes = [] ∨
    v.pI.mode ≠ .uni ∧ ∃ last ∈ v.lanes, ∀ lane ∈ v.mask, lane ≤ last

end VoteIssue

instance {cfg : CoreConfig} (v : VoteIssue cfg) : Decidable v.Counted :=
  inferInstanceAs (Decidable (_ ∨ _))

/-- Votes executed one after the other, whatever the warps do in between, are all exact. -/
def VotesExact {cfg : CoreConfig} : VoteStatics → List (VoteIssue cfg) → Prop
  | _, [] => True
  | statics, v :: rest =>
      ∃ last, v.execute statics = .ok last ∧ v.Exact last ∧ VotesExact last.statics rest

/-- A vote of a warp of two lanes whose registers are zero, so that every predicate is
true; register 0 of the upper lane, the guard of the examples below, is given. -/
def twoLaneVote (pI : VoteInst) (upperGuard : BitVec 4) : VoteIssue ⟨2, by decide⟩ where
  sid := 0
  warpId := 0
  pI := pI
  mask := {0, 1}
  regs thread symbol := if thread.hwTid = 1 ∧ symbol = 0 then .ofBits upperGuard else ⟨0⟩
  mask_lt := by decide

end GpuCalorie.Instructions
