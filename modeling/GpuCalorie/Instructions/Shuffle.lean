/-
# Warp shuffles

`shfl_impl` runs once for every lane that executes the shuffle, on the whole core: it
takes the number of the lane from a counter of the lanes of the warp that are done,
computes the lane to read from, and copies that lane's source operand to its own
destination. Lanes are done one after the other, so a lane reads what lower lanes have
already written, and the counter is the number of the lane only while the active lanes
are the first ones of the warp.

A lane whose source lane is not active reads zero, with a warning.
-/

import GpuCalorie.Instructions.WarpLoop
import Mathlib.Data.Nat.Bitwise

namespace GpuCalorie.Instructions

/-- `m_shfl_op`. -/
inductive ShflOp
  | up
  | down
  | bfly
  | idx
  deriving DecidableEq, Repr

/-- A decoded shuffle. It moves data, not predicates. -/
structure ShflInst where
  op : ShflOp
  type : ScalarType
  dst : ℕ
  src1 : Operand
  src2 : Operand
  src3 : Operand
  guard : Option Guard := none
  type_ne_pred : type ≠ .pred

/-- What a shuffle works on: the registers of the core's threads, the warp record every
thread points to, and the counters in these records. -/
structure ShflCore where
  regs : ℕ → RegisterFile
  warpInfo : ℕ → ℕ
  doneThreads : ℕ → ℕ

/-- The lane to read from, in the `int` arithmetic of `shfl_impl`. -/
def shflSource (op : ShflOp) (lane bval cval : BitVec 32) : BitVec 32 :=
  let mask := cval.sshiftRight 8
  let bval := bval &&& 0x1F
  let cval := cval &&& 0x1F
  let maxLane := (lane &&& mask) ||| (cval &&& ~~~mask)
  let minLane := lane &&& mask
  let srcIdx := match op with
    | .up => lane - bval
    | .down => lane + bval
    | .bfly => lane ^^^ bval
    | .idx => minLane ||| (bval &&& ~~~mask)
  let p := match op with
    | .up => maxLane.sle srcIdx
    | .down | .bfly | .idx => srcIdx.sle maxLane
  if p then srcIdx else lane

/-- The copy from the source lane: a lane outside the mask of the instruction is read as
zero, and a number outside any mask fails its test. -/
def shflData (pI : ShflInst) (mask : Finset ℕ) (regs : ℕ → RegisterFile) (tid srcIdx : ℕ) :
    Except ExecFailure PtxReg :=
  if maxWarpSize ≤ srcIdx then .error .laneOutOfRange
  else if srcIdx ∈ mask then getOperandValue (regs (tid + srcIdx)) pI.src1 pI.type
  else .ok ⟨0⟩

/-- `shfl_impl`, for the warp of the instruction and the mask it has when a lane is
reached. -/
def shflImpl (cfg : CoreConfig) (pI : ShflInst) (warpId : ℕ) (mask : Finset ℕ) (s : ShflCore) :
    Except ExecFailure ShflCore := do
  let tid := warpId * cfg.warpSize
  let info := s.warpInfo tid
  let lane := s.doneThreads info
  let bval ← getOperandValue (s.regs (tid + lane)) pI.src2 pI.type
  let cval ← getOperandValue (s.regs (tid + lane)) pI.src3 pI.type
  let srcIdx := shflSource pI.op (.ofNat 32 lane) bval.u32 cval.u32
  let data ← shflData pI mask s.regs tid srcIdx.toNat
  let done := if lane + 1 = mask.card then 0 else lane + 1
  pure { s with
    regs := Function.update s.regs (tid + lane)
      (setOperandValue (s.regs (tid + lane)) ⟨pI.dst, .whole⟩ data)
    doneThreads := Function.update s.doneThreads info done }

/-- A shuffle that a core executes for a warp. The instruction carries a warp id of its
own, besides the one the loop is called with. -/
structure ShflIssue (cfg : CoreConfig) where
  warpId : ℕ
  instWarpId : ℕ
  pI : ShflInst
  mask : Finset ℕ
  core : ShflCore
  mask_lt : ∀ lane ∈ mask, lane < cfg.warpSize

namespace ShflIssue

variable {cfg : CoreConfig}

/-- The hardware thread of a lane. -/
def thread (v : ShflIssue cfg) (lane : ℕ) : ℕ :=
  v.warpId * cfg.warpSize + lane

/-- The counter of the warp. -/
def info (v : ShflIssue cfg) : ℕ :=
  v.core.warpInfo (v.warpId * cfg.warpSize)

/-- Whether the guard takes a lane out. -/
def skipped (v : ShflIssue cfg) (lane : ℕ) : Bool :=
  Guard.skips (v.core.regs (v.thread lane)) v.pI.guard

/-- `execute_warp_inst_t` for a shuffle. -/
def execute (v : ShflIssue cfg) : Except ExecFailure ShflCore := do
  let last ← executeWarpInst
    (fun s lane => Guard.skips (s.regs (v.thread lane)) v.pI.guard)
    (fun mask _ => shflImpl cfg v.pI v.instWarpId mask)
    cfg.warpSize ⟨v.mask, v.core⟩
  pure last.core

end ShflIssue

/-! ## The source lane -/

/-- The lane that the definition of the instruction set reads from: the clamp and the
segment mask are fields of the last operand, and a lane outside its segment reads its own
value. -/
def ShflOp.sourceLane (op : ShflOp) (lane : ℕ) (bval cval : BitVec 32) : ℕ :=
  let b := bval.toNat % 32
  let clamp := cval.toNat % 32
  let segmask := cval.toNat / 256 % 32
  let maxLane := (lane &&& segmask) ||| (clamp &&& (31 ^^^ segmask))
  let minLane := lane &&& segmask
  match op with
  | .up => if b ≤ lane ∧ maxLane ≤ lane - b then lane - b else lane
  | .down => if lane + b ≤ maxLane then lane + b else lane
  | .bfly => if lane ^^^ b ≤ maxLane then lane ^^^ b else lane
  | .idx =>
      let j := minLane ||| (b &&& (31 ^^^ segmask))
      if j ≤ maxLane then j else lane

section SourceLane

variable {lane : ℕ} {bval cval : BitVec 32} {x y : BitVec 32} {m n : ℕ}

theorem toNat_and_low (x : BitVec 32) : (x &&& 0x1F).toNat = x.toNat % 32 := by
  rw [BitVec.toNat_and]
  exact Nat.and_two_pow_sub_one_eq_mod x.toNat 5

theorem testBit_mod_32 (n i : ℕ) : (n % 32).testBit i = (decide (i < 5) && n.testBit i) :=
  Nat.testBit_mod_two_pow n 5 i

theorem testBit_31 (i : ℕ) : Nat.testBit 31 i = decide (i < 5) :=
  Nat.testBit_two_pow_sub_one 5 i

theorem testBit_of_lt_32 {n i : ℕ} (h : n < 32) (hi : 5 ≤ i) : n.testBit i = false :=
  Nat.testBit_lt_two_pow <| calc
    n < 2 ^ 5 := h
    _ ≤ 2 ^ i := Nat.pow_le_pow_right (by decide) hi

theorem getLsbD_sshiftRight_segmask {i : ℕ} (hi : i < 5) :
    (cval.sshiftRight 8).getLsbD i = (cval.toNat / 256 % 32).testBit i := by
  have hshift : cval.toNat / 256 = cval.toNat >>> 8 := (Nat.shiftRight_eq_div_pow _ 8).symm
  have hlow : 8 + i < 32 := by omega
  have hword : i < 32 := by omega
  rw [testBit_mod_32, hshift, Nat.testBit_shiftRight, BitVec.getLsbD_sshiftRight]
  simp [hi, hlow, hword, BitVec.testBit_toNat]

theorem toNat_and_mask {x : BitVec 32} (hx : x.toNat < 32) :
    (x &&& cval.sshiftRight 8).toNat = x.toNat &&& (cval.toNat / 256 % 32) := by
  apply Nat.eq_of_testBit_eq
  intro i
  rw [BitVec.testBit_toNat, BitVec.getLsbD_and, Nat.testBit_and, ← BitVec.testBit_toNat]
  by_cases hi : i < 5
  · rw [getLsbD_sshiftRight_segmask hi]
  · rw [testBit_of_lt_32 hx (Nat.le_of_not_lt hi), Bool.false_and, Bool.false_and]

theorem toNat_and_not_mask {x : BitVec 32} (hx : x.toNat < 32) :
    (x &&& ~~~cval.sshiftRight 8).toNat = x.toNat &&& (31 ^^^ (cval.toNat / 256 % 32)) := by
  apply Nat.eq_of_testBit_eq
  intro i
  rw [BitVec.testBit_toNat, BitVec.getLsbD_and, Nat.testBit_and, Nat.testBit_xor, testBit_31,
    ← BitVec.testBit_toNat]
  by_cases hi : i < 5
  · have hword : i < 32 := by omega
    rw [BitVec.getLsbD_not, getLsbD_sshiftRight_segmask hi]
    simp [hi, hword]
  · rw [testBit_of_lt_32 hx (Nat.le_of_not_lt hi), Bool.false_and, Bool.false_and]

theorem or_lt_32 (hm : m < 32) (hn : n < 32) : m ||| n < 32 :=
  Nat.or_lt_two_pow (n := 5) hm hn

theorem and_lt_32 (hm : m < 32) : m &&& n < 32 :=
  Nat.lt_of_le_of_lt Nat.and_le_left hm

theorem sle_of_lt (hx : x.toNat < 64) (hy : y.toNat < 64) :
    x.sle y = decide (x.toNat ≤ y.toNat) := by
  have hxInt : x.toInt = x.toNat := BitVec.toInt_eq_toNat_of_lt (by omega)
  have hyInt : y.toInt = y.toNat := BitVec.toInt_eq_toNat_of_lt (by omega)
  rw [BitVec.sle, hxInt, hyInt]
  simp

theorem sle_of_neg (hx : x.toNat < 64) (hy : 2 ^ 31 ≤ y.toNat) : x.sle y = false := by
  have hxInt : x.toInt = x.toNat := BitVec.toInt_eq_toNat_of_lt (by omega)
  have hyInt : y.toInt = (y.toNat : ℤ) - 2 ^ 32 := by
    rw [BitVec.toInt_eq_toNat_cond, if_neg (by omega)]
    rfl
  have hyLt : y.toNat < 2 ^ 32 := y.isLt
  rw [BitVec.sle, hxInt, hyInt, decide_eq_false_iff_not]
  omega

theorem toNat_ite {p : Bool} {P : Prop} [Decidable P]
    (hp : p = decide P) (hx : P → x.toNat = m) (hy : y.toNat = n) :
    (if p then x else y).toNat = if P then m else n := by
  subst hp
  by_cases hP : P
  · rw [if_pos (decide_eq_true hP), if_pos hP]
    exact hx hP
  · rw [if_neg (by simpa using hP), if_neg hP]
    exact hy

theorem toNat_shflSource (op : ShflOp) (hlane : lane < 32) :
    (shflSource op (.ofNat 32 lane) bval cval).toNat = op.sourceLane lane bval cval := by
  have hlaneNat : (BitVec.ofNat 32 lane).toNat = lane := by
    rw [BitVec.toNat_ofNat]
    exact Nat.mod_eq_of_lt (by omega)
  have hb : (bval &&& 0x1F).toNat = bval.toNat % 32 := toNat_and_low bval
  have hc : (cval &&& 0x1F).toNat = cval.toNat % 32 := toNat_and_low cval
  have hmin : (BitVec.ofNat 32 lane &&& cval.sshiftRight 8).toNat =
      lane &&& (cval.toNat / 256 % 32) := by
    rw [toNat_and_mask (by omega), hlaneNat]
  have hclamp : ((cval &&& 0x1F) &&& ~~~cval.sshiftRight 8).toNat =
      cval.toNat % 32 &&& (31 ^^^ (cval.toNat / 256 % 32)) := by
    rw [toNat_and_not_mask (by omega), hc]
  have hindex : ((bval &&& 0x1F) &&& ~~~cval.sshiftRight 8).toNat =
      bval.toNat % 32 &&& (31 ^^^ (cval.toNat / 256 % 32)) := by
    rw [toNat_and_not_mask (by omega), hb]
  have hbLt : bval.toNat % 32 < 32 := Nat.mod_lt _ (by decide)
  have hminLt : lane &&& (cval.toNat / 256 % 32) < 32 := and_lt_32 hlane
  have hmaxLt : (lane &&& (cval.toNat / 256 % 32)) |||
      (cval.toNat % 32 &&& (31 ^^^ (cval.toNat / 256 % 32))) < 32 :=
    or_lt_32 hminLt (and_lt_32 (Nat.mod_lt _ (by decide)))
  have hidxLt : (lane &&& (cval.toNat / 256 % 32)) |||
      (bval.toNat % 32 &&& (31 ^^^ (cval.toNat / 256 % 32))) < 32 :=
    or_lt_32 hminLt (and_lt_32 hbLt)
  have hmax : ((BitVec.ofNat 32 lane &&& cval.sshiftRight 8) |||
      ((cval &&& 0x1F) &&& ~~~cval.sshiftRight 8)).toNat =
        (lane &&& (cval.toNat / 256 % 32)) |||
          (cval.toNat % 32 &&& (31 ^^^ (cval.toNat / 256 % 32))) := by
    rw [BitVec.toNat_or, hmin, hclamp]
  set maxLane := (BitVec.ofNat 32 lane &&& cval.sshiftRight 8) |||
    ((cval &&& 0x1F) &&& ~~~cval.sshiftRight 8) with hmaxLane
  have hmaxSmall : maxLane.toNat < 64 := by omega
  cases op with
  | up =>
      by_cases hle : bval.toNat % 32 ≤ lane
      · have hsub : (BitVec.ofNat 32 lane - (bval &&& 0x1F)).toNat = lane - bval.toNat % 32 := by
          rw [BitVec.toNat_sub_of_le (by rw [BitVec.le_def]; omega), hlaneNat, hb]
        have hcmp := sle_of_lt hmaxSmall (y := BitVec.ofNat 32 lane - (bval &&& 0x1F)) (by omega)
        rw [hmax, hsub] at hcmp
        exact toNat_ite (hcmp.trans (by simp [hle])) (fun _ => hsub) hlaneNat
      · have hsub : 2 ^ 31 ≤ (BitVec.ofNat 32 lane - (bval &&& 0x1F)).toNat := by
          rw [BitVec.toNat_sub, hlaneNat, hb]
          omega
        have hcmp := sle_of_neg hmaxSmall hsub
        exact toNat_ite (hcmp.trans (by simp [hle])) (fun h => absurd h.1 hle) hlaneNat
  | down =>
      have hadd : (BitVec.ofNat 32 lane + (bval &&& 0x1F)).toNat = lane + bval.toNat % 32 := by
        rw [BitVec.toNat_add, hlaneNat, hb]
        omega
      have hcmp := sle_of_lt (x := BitVec.ofNat 32 lane + (bval &&& 0x1F)) (by omega) hmaxSmall
      rw [hmax, hadd] at hcmp
      exact toNat_ite hcmp (fun _ => hadd) hlaneNat
  | bfly =>
      have hxor : (BitVec.ofNat 32 lane ^^^ (bval &&& 0x1F)).toNat =
          lane ^^^ (bval.toNat % 32) := by
        rw [BitVec.toNat_xor, hlaneNat, hb]
      have hxorLt : lane ^^^ (bval.toNat % 32) < 32 := Nat.xor_lt_two_pow (n := 5) hlane hbLt
      have hcmp := sle_of_lt (x := BitVec.ofNat 32 lane ^^^ (bval &&& 0x1F)) (by omega) hmaxSmall
      rw [hmax, hxor] at hcmp
      exact toNat_ite hcmp (fun _ => hxor) hlaneNat
  | idx =>
      have hor : ((BitVec.ofNat 32 lane &&& cval.sshiftRight 8) |||
          ((bval &&& 0x1F) &&& ~~~cval.sshiftRight 8)).toNat =
            (lane &&& (cval.toNat / 256 % 32)) |||
              (bval.toNat % 32 &&& (31 ^^^ (cval.toNat / 256 % 32))) := by
        rw [BitVec.toNat_or, hmin, hindex]
      have hcmp := sle_of_lt (x := (BitVec.ofNat 32 lane &&& cval.sshiftRight 8) |||
        ((bval &&& 0x1F) &&& ~~~cval.sshiftRight 8)) (by omega) hmaxSmall
      rw [hmax, hor] at hcmp
      exact toNat_ite hcmp (fun _ => hor) hlaneNat

theorem sourceLane_lt (op : ShflOp) (hlane : lane < 32) : op.sourceLane lane bval cval < 32 := by
  have hminLt : lane &&& (cval.toNat / 256 % 32) < 32 := and_lt_32 hlane
  have hmaxLt : (lane &&& (cval.toNat / 256 % 32)) |||
      (cval.toNat % 32 &&& (31 ^^^ (cval.toNat / 256 % 32))) < 32 :=
    or_lt_32 hminLt (and_lt_32 (Nat.mod_lt _ (by decide)))
  cases op <;> simp only [ShflOp.sourceLane] <;> split_ifs <;> omega

end SourceLane

/-! ## What a shuffle is meant to do -/

namespace ShflIssue

variable {cfg : CoreConfig}

/-- A lane reads from another one, by its operands before the instruction. -/
def ReadsFrom (v : ShflIssue cfg) (lane source : ℕ) : Prop :=
  ∃ bval cval,
    getOperandValue (v.core.regs (v.thread lane)) v.pI.src2 v.pI.type = .ok bval ∧
      getOperandValue (v.core.regs (v.thread lane)) v.pI.src3 v.pI.type = .ok cval ∧
        source = v.pI.op.sourceLane lane bval.u32 cval.u32

/-- The value a lane had in the source operand before the instruction. -/
def Held (v : ShflIssue cfg) (source : ℕ) (value : PtxReg) : Prop :=
  getOperandValue (v.core.regs (v.thread source)) v.pI.src1 v.pI.type = .ok value

/-- A lane gets the value its source lane had. -/
def Moved (v : ShflIssue cfg) (lane : ℕ) (value : PtxReg) : Prop :=
  ∃ source, v.ReadsFrom lane source ∧ v.Held source value

/-- A lane gets the value its source lane had if that lane is active, and zero if not. -/
def MovedOrZero (v : ShflIssue cfg) (lane : ℕ) (value : PtxReg) : Prop :=
  ∃ source, v.ReadsFrom lane source ∧
    if source ∈ v.mask then v.Held source value else value = ⟨0⟩

/-- After the shuffle every active lane has a result, no other register has changed, and
the counter of the warp is zero. -/
structure Exact (v : ShflIssue cfg) (Result : ℕ → PtxReg → Prop) (last : ShflCore) : Prop where
  result : ∀ lane ∈ v.mask, Result lane (last.regs (v.thread lane) v.pI.dst)
  other : ∀ thread symbol, (∀ lane ∈ v.mask, thread = v.thread lane → symbol ≠ v.pI.dst) →
    last.regs thread symbol = v.core.regs thread symbol
  done : last.doneThreads v.info = 0

/-- The shuffles the sequential implementation gets right: the active lanes are the first
ones of the warp and all execute, and no lane reads a register that a lower lane has
already written. -/
structure InOrder (v : ShflIssue cfg) : Prop where
  sameWarp : v.instWarpId = v.warpId
  lowest : v.mask = Finset.range v.mask.card
  unguarded : ∀ lane ∈ v.mask, v.skipped lane = false
  fresh : v.core.doneThreads v.info = 0
  apart : ¬ v.pI.src1.reads v.pI.dst ∨
    ∀ lane ∈ v.mask, ∀ source, v.ReadsFrom lane source → lane ≤ source

end ShflIssue

end GpuCalorie.Instructions
