/-
# The file of a SIMT stack

`print_checkpoint` writes a line for each entry, with all fields of the entry in decimal, and
`resume` reads the lines with a buffer of 200 characters and a function for numbers of 32 bits. An
entry comes back as it was but for the cycle of its divergence, of which 32 bits are left.
-/

import GpuCalorie.Math.Outcome
import GpuCalorie.Math.Text
import GpuCalorie.Simt.Stack
import Mathlib.Data.Vector.Basic

namespace GpuCalorie.Simt.StackFile

open GpuCalorie.Math

/-! ## Stacks -/

/-- A stack without its entries. -/
structure StackInfo where
  warpId : UInt32
  warpSize : ℕ
  /-- The configuration is asserted to have no more than `MAX_WARP_SIZE`. -/
  warpSize_le : warpSize ≤ 32

/-- `simt_stack_entry`, with the bits of the mask that are of the warp. -/
structure Entry (warpSize : ℕ) where
  pc : UInt32
  calldepth : UInt32
  activeMask : List.Vector Bool warpSize
  recvgPc : UInt32
  branchDivCycle : UInt64
  type : StackEntryType
  deriving DecidableEq

/-! ## What is written -/

/-- A number of 32 bits as `%d` takes it. -/
def signed32 (x : UInt32) : ℤ := x.toBitVec.toInt

/-- A number of 64 bits as `%lld` takes it. -/
def signed64 (x : UInt64) : ℤ := x.toBitVec.toInt

def typeNumber : StackEntryType → ℤ
  | .normal => 0
  | .call => 1

def printLanes (lanes : List Bool) : List Char := lanes.flatMap fun lane =>
    [if lane then '1' else '0', ' ']

/-- The line of an entry, without its end. -/
def printEntry (info : StackInfo) (entry : Entry info.warpSize) : List Char :=
  printLanes entry.activeMask.toList ++
    (printInt (signed32 entry.pc) ++ ' ' :: (printInt (signed32 entry.calldepth) ++ ' ' ::
      (printInt (signed32 entry.recvgPc) ++ ' ' ::
        (printInt (signed64 entry.branchDivCycle) ++ ' ' ::
        (printInt (typeNumber entry.type) ++ ' ' ::
          (printInt (signed32 info.warpId) ++ ' ' :: printInt info.warpSize))))))

/-- `print_checkpoint`. -/
def printCheckpoint (info : StackInfo) (stack : List (Entry info.warpSize)) : List Char :=
  stack.flatMap fun entry => printEntry info entry ++ ['\n']

/-! ## What is read -/

/-- `strtok` has returned `NULL`. -/
inductive StackFailure
  | word
  deriving DecidableEq, Repr

def nextWord (text : List Char) : Except StackFailure (List Char × List Char) :=
  match strtok text with
  | none => .error .word
  | some word => .ok word

/-- `atoi`: `strtol`, which keeps to a `long`, and 32 bits of it. -/
def atoi (pch : List Char) : BitVec 32 :=
  BitVec.ofInt 32 (max (-2 ^ 63) (min (2 ^ 63 - 1) (readInt pch)))

/-- The mask. -/
def readLanes : (n : ℕ) → List Char → Except StackFailure (List.Vector Bool n × List Char)
  | 0, text => .ok (.nil, text)
  | n + 1, text => do
    let (pch, rest) ← nextWord text
    let (lanes, rest) ← readLanes n rest
    return ((pch.head? == some '1') ::ᵥ lanes, rest)

/-- A line. -/
def readEntry (warpSize : ℕ) (line : List Char) : Except StackFailure (Entry warpSize) := do
  let (activeMask, rest) ← readLanes warpSize line
  let (pc, rest) ← nextWord rest
  let (calldepth, rest) ← nextWord rest
  let (recvgPc, rest) ← nextWord rest
  let (branchDivCycle, rest) ← nextWord rest
  let (type, _) ← nextWord rest
  return {
    pc := .ofBitVec (atoi pc)
    calldepth := .ofBitVec (atoi calldepth)
    activeMask
    recvgPc := .ofBitVec (atoi recvgPc)
    -- an `int` becomes an `unsigned long long`
    branchDivCycle := .ofBitVec ((atoi branchDivCycle).signExtend 64)
    type := if type.head? = some '0' then .normal else .call }

/-- `resume`. -/
def resume (warpSize : ℕ) (file : List Char) : Except StackFailure (List (Entry warpSize)) :=
  (lines 200 file).mapM (readEntry warpSize)

/-! ## Each line fits the buffer -/

theorem signed32_bounds (x : UInt32) : -2 ^ 31 ≤ signed32 x ∧ signed32 x < 2 ^ 31 :=
  ⟨BitVec.le_toInt x.toBitVec, BitVec.toInt_lt⟩

theorem signed64_bounds (x : UInt64) : -2 ^ 63 ≤ signed64 x ∧ signed64 x < 2 ^ 63 :=
  ⟨BitVec.le_toInt x.toBitVec, BitVec.toInt_lt⟩

theorem length_printLanes (lanes : List Bool) : (printLanes lanes).length = 2 * lanes.length := by
  induction lanes with
  | nil => rfl
  | cons lane lanes ih =>
      rw [printLanes, List.flatMap_cons, List.length_append, ← printLanes, ih, List.length_cons,
        List.length_cons,
        List.length_cons, List.length_nil]
      omega

theorem length_signed32 (x : UInt32) : (printInt (signed32 x)).length ≤ 11 := by
  obtain ⟨hle, hlt⟩ := signed32_bounds x
  exact length_printInt (by decide) (by omega)

theorem length_printEntry (info : StackInfo) (entry : Entry info.warpSize) :
    (printEntry info entry).length + 1 < 200 := by
  have hsize := info.warpSize_le
  have hpc := length_signed32 entry.pc
  have hcalldepth := length_signed32 entry.calldepth
  have hrecvgPc := length_signed32 entry.recvgPc
  have hwarpId := length_signed32 info.warpId
  obtain ⟨hle, hlt⟩ := signed64_bounds entry.branchDivCycle
  have hcycle : (printInt (signed64 entry.branchDivCycle)).length ≤ 20 :=
    length_printInt (by decide) (by omega)
  have htype : (printInt (typeNumber entry.type)).length ≤ 2 := by
    refine length_printInt (by decide) ?_
    cases entry.type <;> decide
  have hwarpSize : (printInt info.warpSize).length ≤ 3 := length_printInt (by decide) (by omega)
  simp only [printEntry, List.length_append, List.length_cons, length_printLanes,
    List.Vector.toList_length]
  omega

theorem notMem_printEntry (info : StackInfo) (entry : Entry info.warpSize) :
    '\n' ∉ printEntry info entry := by
  have hint (n : ℤ) : '\n' ∉ printInt n := notMem_printInt (by decide) (by decide) n
  have hlanes (lanes : List Bool) : '\n' ∉ printLanes lanes := by
    intro hmem
    obtain ⟨lane, -, hlane⟩ := List.mem_flatMap.1 hmem
    cases lane <;> exact absurd hlane (by decide)
  simp only [printEntry, List.mem_append, List.mem_cons, hint, hlanes, or_false,
    show ('\n' = ' ') = False from eq_false (by decide)]
  exact not_false

/-! ## Each field is read as it was written -/

theorem nextWord_printInt (n : ℤ) (rest : List Char) :
    nextWord (printInt n ++ ' ' :: rest) = .ok (printInt n, rest) := by
  rw [nextWord, strtok_printInt]

theorem atoi_printInt {n : ℤ} (hle : -2 ^ 63 ≤ n) (hlt : n < 2 ^ 63) :
    atoi (printInt n) = BitVec.ofInt 32 n := by
  rw [atoi, readInt_printInt]
  congr 1
  omega

theorem atoi_signed32 (x : UInt32) : UInt32.ofBitVec (atoi (printInt (signed32 x))) = x := by
  obtain ⟨hle, hlt⟩ := signed32_bounds x
  rw [atoi_printInt (by omega) (by omega), signed32, BitVec.ofInt_toInt]

theorem readLanes_printLanes {n : ℕ} (lanes : List.Vector Bool n) (rest : List Char) :
    readLanes n (printLanes lanes.toList ++ rest) = .ok (lanes, rest) := by
  induction n with
  | zero => rw [lanes.eq_nil]; rfl
  | succ n ih =>
      obtain ⟨lane, lanes, rfl⟩ := lanes.exists_eq_cons
      have hword : strtok ([if lane then '1' else '0'] ++ ' ' :: (printLanes lanes.toList ++ rest))
          = some ([if lane then '1' else '0'], printLanes lanes.toList ++ rest) :=
        strtok_word (by cases lane <;> exact fun h => absurd h (by decide)) _
      have hlanes : printLanes (lane ::ᵥ lanes).toList ++ rest
          = [if lane then '1' else '0'] ++ ' ' :: (printLanes lanes.toList ++ rest) := by
        simp [printLanes]
      rw [hlanes, readLanes, nextWord, hword]
      dsimp only [bind, Except.bind]
      rw [ih]
      cases lane <;> rfl

/-- What comes back of an entry. -/
def Entry.resumed {warpSize : ℕ} (entry : Entry warpSize) : Entry warpSize :=
  { entry with
    branchDivCycle := .ofBitVec ((BitVec.ofInt 32 (signed64 entry.branchDivCycle)).signExtend 64) }

theorem readEntry_printEntry (info : StackInfo) (entry : Entry info.warpSize) :
    readEntry info.warpSize (printEntry info entry ++ ['\n']) = .ok entry.resumed := by
  obtain ⟨hle, hlt⟩ := signed64_bounds entry.branchDivCycle
  have htype : (if (printInt (typeNumber entry.type)).head? =
    some '0' then StackEntryType.normal else .call)
      = entry.type := by
    cases entry.type <;> decide
  rw [readEntry, printEntry]
  simp only [List.append_assoc, List.cons_append]
  rw [readLanes_printLanes]
  dsimp only [bind, Except.bind]
  simp only [nextWord_printInt, atoi_signed32, atoi_printInt hle hlt, htype]
  rfl

/-! ## When a stack comes back -/

theorem resume_printCheckpoint (info : StackInfo) (stack : List (Entry info.warpSize)) :
    resume info.warpSize (printCheckpoint info stack) = .ok (stack.map Entry.resumed) := by
  rw [resume, printCheckpoint, lines_flatMap (printEntry info) stack fun entry _ =>
    ⟨notMem_printEntry info entry, length_printEntry info entry⟩]
  induction stack with
  | nil => rfl
  | cons entry stack ih =>
      rw [List.map_cons, List.mapM_cons, readEntry_printEntry, ih]
      rfl

theorem resumed_eq_iff {warpSize : ℕ} (entry : Entry warpSize) : entry.resumed = entry ↔
    -2 ^ 31 ≤ signed64 entry.branchDivCycle ∧ signed64 entry.branchDivCycle < 2 ^ 31 := by
  have hcycle : entry.resumed = entry ↔
      ((BitVec.ofInt 32 (signed64 entry.branchDivCycle)).signExtend 64).toInt
        = signed64 entry.branchDivCycle := by
    constructor
    · intro h
      have hfield := congrArg (fun e => signed64 e.branchDivCycle) h
      exact hfield
    · intro h
      have hbits := BitVec.toInt_inj.1 h
      cases entry
      rw [Entry.resumed, hbits]
  rw [hcycle, BitVec.toInt_signExtend_of_le (by decide), BitVec.toInt_ofInt]
  obtain ⟨hle, hlt⟩ := signed64_bounds entry.branchDivCycle
  rw [Int.bmod_def]
  constructor
  · intro h
    split_ifs at h <;> omega
  · rintro ⟨hmin, hmax⟩
    split_ifs <;> omega

/-- A stack comes back from its file as it was if and only if the cycle of each entry, as a number
with a sign, is one of 32 bits. -/
theorem resume_eq_iff (info : StackInfo) (stack : List (Entry info.warpSize)) :
    resume info.warpSize (printCheckpoint info stack) = .ok stack ↔ ∀ entry ∈ stack,
      -2 ^ 31 ≤ signed64 entry.branchDivCycle ∧ signed64 entry.branchDivCycle < 2 ^ 31 := by
  have hself : stack.map Entry.resumed = stack ↔ ∀ entry ∈ stack, entry.resumed = entry := by
    have hmap := @List.map_inj_left _ _ stack Entry.resumed id
    rw [List.map_id] at hmap
    exact hmap
  rw [resume_printCheckpoint, Except.ok.injEq, hself]
  exact forall₂_congr fun entry _ => resumed_eq_iff entry

/-- An entry of a warp that diverged in cycle 2147483648. -/
def lateDivergence : Entry 32 where
  pc := 0x118
  calldepth := 1
  activeMask := List.Vector.replicate 32 true
  recvgPc := -1
  branchDivCycle := 0x80000000
  type := .normal

/-- A stack may not come back as it was. -/
theorem not_resume_eq :
    resume 32 (printCheckpoint ⟨0, 32, le_rfl⟩ [lateDivergence]) ≠ .ok [lateDivergence] := by
  rw [resume_printCheckpoint ⟨0, 32, le_rfl⟩]
  intro h
  have hentry : lateDivergence.resumed = lateDivergence := (List.cons.inj (Except.ok.inj h)).1
  exact absurd ((resumed_eq_iff lateDivergence).1 hentry).2 (by decide)

end GpuCalorie.Simt.StackFile
