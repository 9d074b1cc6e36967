/-
# Do narrow instructions read only their width?

A register may hold anything above the member an instruction wrote. An instruction of a
type of `w` bits is isolated from that if its result only depends on the low `w` bits of
its sources, a shift only on the low 32 bits of its amount. This is a property of two
runs: from two register files that agree on these bits it computes the same result.

Comparisons, `shl` and `shr` are decided here. Those that read more are the comparisons
of 16-bit and 32-bit bit types, which fall through to the 64-bit case, the signed 64-bit
right shift, which tests all bits of its amount, and the other 64-bit shifts as far as
the compiled program's shift by 64 or more depends on the upper bits of the amount.
-/

import GpuCalorie.Instructions.Compare
import GpuCalorie.Math.Outcome

namespace GpuCalorie.Instructions

open GpuCalorie.Math

/-- The bit and integer types of 16, 32 and 64 bits. -/
def ScalarType.isWord : ScalarType → Bool
  | .s16 | .s32 | .s64 | .u16 | .u32 | .u64 | .b16 | .b32 | .b64 => true
  | _ => false

/-- The instructions in question. -/
inductive WidthOp
  | setp (cmpop : CmpOption)
  | set (cmpop : CmpOption) (abs : Bool) (dstType : ScalarType)
  | shl
  | shr
  deriving DecidableEq, Repr

namespace WidthOp

/-- The implementation of an instruction. -/
def impl (wide : WideShift) : WidthOp → BinaryInst → RegisterFile → Except ExecFailure RegisterFile
  | setp cmpop => setpImpl cmpop
  | set cmpop abs dstType => setImpl cmpop abs dstType
  | shl => shlImpl wide
  | shr => shrImpl wide

/-- The bits of the second source that may matter. -/
def src2Bits (type : ScalarType) : WidthOp → ℕ
  | setp _ | set .. => type.size
  | shl | shr => 32

/-- The bits of the result: a predicate, the whole word that `set` writes, or the member
of the type. -/
def resultBits (type : ScalarType) : WidthOp → ℕ
  | setp _ => 4
  | set .. => 64
  | shl | shr => type.size

end WidthOp

/-- Two register files agree on the low bits of an operand. -/
def AgreeOn (bits : ℕ) (op : Operand) (regs regs' : RegisterFile) : Prop :=
  (op.fetch regs).low bits = (op.fetch regs').low bits

/-- The part of an outcome that a width covers: a failure, or the low bits of the
destination. -/
def resultOf (bits dst : ℕ) (outcome : Except ExecFailure RegisterFile) :
    Except ExecFailure (BitVec bits) :=
  outcome.map fun regs => (regs dst).low bits

/-- From register files that agree on the low bits of its sources an instruction computes
the same result. -/
def NonInterfering (wide : WideShift) (op : WidthOp) (type : ScalarType) : Prop :=
  ∀ dst src1 src2 regs regs',
    AgreeOn type.size src1 regs regs' → AgreeOn (op.src2Bits type) src2 regs regs' →
      resultOf (op.resultBits type) dst (op.impl wide ⟨type, dst, src1, src2⟩ regs) =
        resultOf (op.resultBits type) dst (op.impl wide ⟨type, dst, src1, src2⟩ regs')

/-- A 64-bit shift that takes an amount of at least 64 by its lower word, when that is
below 64. -/
def TakesLowWord (shift : BitVec 64 → BitVec 64 → BitVec 64)
    (exact : BitVec 64 → ℕ → BitVec 64) : Prop :=
  ∀ value amount, 64 ≤ amount.toNat → (amount.setWidth 32).toNat < 64 →
    shift value amount = exact value (amount.setWidth 32).toNat

/-- The instructions that only read their width. -/
def Isolated (wide : WideShift) (op : WidthOp) (type : ScalarType) : Prop :=
  match op with
  | .setp cmpop => ¬ ((type = .b16 ∨ type = .b32) ∧ (cmpop = .eq ∨ cmpop = .ne))
  | .set cmpop abs _ =>
      ¬ ((type = .b16 ∨ type = .b32) ∧ (cmpop = .eq ∨ cmpop = .ne) ∧ abs = false)
  | .shl => type = .b64 ∨ type = .u64 → TakesLowWord wide.shl (· <<< ·)
  | .shr => type ≠ .s64 ∧ (type = .b64 ∨ type = .u64 → TakesLowWord wide.shr (· >>> ·))

/-! ## Operands -/

namespace PtxReg

variable {m n : ℕ} {r r' : PtxReg}

theorem low_eq_of_le (hle : m ≤ n) (h : r.low n = r'.low n) : r.low m = r'.low m := by
  have hdown : ∀ x : PtxReg, x.low m = (x.low n).setWidth m := fun x => by
    rw [low, low, BitVec.setWidth_setWidth_of_le _ hle]
  rw [hdown r, hdown r', h]

theorem low_setLow_of_le (hmn : m ≤ n) (hn : n ≤ 64) (r : PtxReg) (x : BitVec n) :
    (r.setLow x).low m = x.setWidth m := by
  have hdown : (r.setLow x).low m = ((r.setLow x).low n).setWidth m := by
    rw [low, low, BitVec.setWidth_setWidth_of_le _ hmn]
  rw [hdown, low_setLow hn]

theorem low_setLow_congr (x : BitVec n) (h : r.low m = r'.low m) :
    (r.setLow x).low m = (r'.setLow x).low m := by
  apply BitVec.eq_of_getLsbD_eq
  intro i hi
  have hbit : (r.low m).getLsbD i = (r'.low m).getLsbD i := by rw [h]
  by_cases hlow : i < n
  · simp [setLow, low, hi, hlow]
  · have hword : n + (i - n) = i := by omega
    simp only [low, BitVec.getLsbD_setWidth, hi, decide_true, Bool.true_and] at hbit
    simp [setLow, low, hi, hlow, hword, hbit]

theorem low_setLow_neg (hn : n ≤ 64) (h : r.low m = r'.low m) :
    (r.setLow (-r.low n)).low m = (r'.setLow (-r'.low n)).low m := by
  by_cases hmn : m ≤ n
  · have hneg : ∀ x : PtxReg, (-x.low n).setWidth m = -x.low m := fun x => by
      rw [BitVec.setWidth_neg_of_le hmn, low, low, BitVec.setWidth_setWidth_of_le _ hmn]
    rw [low_setLow_of_le hmn hn, low_setLow_of_le hmn hn, hneg, hneg, h]
  · have hn' : r.low n = r'.low n := low_eq_of_le (Nat.le_of_not_le hmn) h
    rw [hn']
    exact low_setLow_congr _ h

end PtxReg

variable {regs regs' : RegisterFile} {type : ScalarType}

theorem getOperandValue_agree (hword : type.isWord = true) {bits : ℕ}
    {op : Operand} (h : AgreeOn bits op regs regs') :
    (getOperandValue regs op type).map (PtxReg.low bits) =
      (getOperandValue regs' op type).map (PtxReg.low bits) := by
  by_cases hneg : op.neg
  · simp only [getOperandValue, if_pos hneg]
    cases type with
    | s16 | u16 | b16 =>
        exact congrArg Except.ok (PtxReg.low_setLow_neg (n := 16) (by decide) h)
    | s32 | u32 | b32 =>
        exact congrArg Except.ok (PtxReg.low_setLow_neg (n := 32) (by decide) h)
    | s64 | u64 | b64 =>
        exact congrArg Except.ok (PtxReg.low_setLow_neg (n := 64) (by decide) h)
    | _ => exact absurd hword (by decide)
  · simp only [getOperandValue, if_neg hneg]
    exact congrArg Except.ok h

theorem resultOf_write (bits dst : ℕ) (regs : RegisterFile) (data : PtxReg) :
    resultOf bits dst (pure (setOperandValue regs ⟨dst, .whole⟩ data)) = .ok (data.low bits) := by
  show Except.ok ((setOperandValue regs ⟨dst, .whole⟩ data dst).low bits) = _
  rw [setOperandValue, Function.update_self]

/-! ## Comparisons -/

section Compare

variable {type : ScalarType} {cmpop : CmpOption} {a a' b b' : PtxReg}

theorem cmpOp_congr (hword : type.isWord = true)
    (hwidth : ¬ ((type = .b16 ∨ type = .b32) ∧ (cmpop = .eq ∨ cmpop = .ne)))
    (ha : a.low type.size = a'.low type.size) (hb : b.low type.size = b'.low type.size) :
    cmpOp type a b cmpop = cmpOp type a' b' cmpop := by
  have hwhole : ∀ {r r' : PtxReg}, r.low 64 = r'.low 64 → r.u64 = r'.u64 := fun h => by
    simpa [PtxReg.low] using h
  cases type with
  | b16 | b32 =>
      cases cmpop with
      | eq | ne => exact absurd ⟨by decide, by decide⟩ hwidth
      | _ => rfl
  | s16 | u16 => simp only [cmpOp, show a.u16 = a'.u16 from ha, show b.u16 = b'.u16 from hb]
  | s32 | u32 => simp only [cmpOp, show a.u32 = a'.u32 from ha, show b.u32 = b'.u32 from hb]
  | s64 | u64 | b64 => simp only [cmpOp, hwhole ha, hwhole hb]
  | _ => exact absurd hword (by decide)

theorem setAbs_agree (hword : type.isWord = true) (ha : a.low type.size = a'.low type.size) :
    (setAbs type a).map (PtxReg.low type.size) = (setAbs type a').map (PtxReg.low type.size) := by
  have hset : ∀ {n : ℕ}, n ≤ 64 → a.low n = a'.low n →
      (a.setLow (myAbs (a.low n))).low n = (a'.setLow (myAbs (a'.low n))).low n :=
    fun hn h => by rw [PtxReg.low_setLow hn, PtxReg.low_setLow hn, h]
  cases type with
  | s16 => exact congrArg Except.ok (hset (n := 16) (by decide) ha)
  | s32 => exact congrArg Except.ok (hset (n := 32) (by decide) ha)
  | s64 =>
      have h := hset (n := 64) (by decide) ha
      have hlow : ∀ r : PtxReg, r.low 64 = r.u64 := fun r => by simp [PtxReg.low]
      rw [hlow a, hlow a'] at h
      exact congrArg Except.ok h
  | u16 | u32 | u64 => exact congrArg Except.ok ha
  | b16 | b32 | b64 => rfl
  | _ => exact absurd hword (by decide)

theorem setAbs_bits (htype : type = .b16 ∨ type = .b32) :
    setAbs type a = .error .typeMismatch := by
  cases htype with
  | inl h => rw [h]; rfl
  | inr h => rw [h]; rfl

end Compare

/-! ## Shifts -/

theorem TakesLowWord.eq_low {shift : BitVec 64 → BitVec 64 → BitVec 64}
    {exact : BitVec 64 → ℕ → BitVec 64} (h : TakesLowWord shift exact) (value amount : BitVec 64)
    (hlow : (amount.setWidth 32).toNat < 64) :
    (if amount.toNat < 64 then exact value amount.toNat else shift value amount) =
      exact value (amount.setWidth 32).toNat := by
  by_cases hsmall : amount.toNat < 64
  · have hword : (amount.setWidth 32).toNat = amount.toNat := by
      rw [BitVec.toNat_setWidth]
      exact Nat.mod_eq_of_lt (by omega)
    rw [if_pos hsmall, hword]
  · rw [if_neg hsmall]
    exact h value amount (Nat.le_of_not_lt hsmall) hlow

section Shift

variable {wide : WideShift} {type : ScalarType} {a a' b b' : PtxReg}

theorem shlData_agree (hword : type.isWord = true)
    (hwide : type = .b64 ∨ type = .u64 → TakesLowWord wide.shl (· <<< ·))
    (ha : a.low type.size = a'.low type.size) (hb : b.low 32 = b'.low 32) :
    (shlData wide type a b).map (PtxReg.low type.size) =
      (shlData wide type a' b').map (PtxReg.low type.size) := by
  have hb16 : b.u16 = b'.u16 := PtxReg.low_eq_of_le (by decide) hb
  cases type with
  | b16 | u16 => simp only [shlData, show a.u16 = a'.u16 from ha, hb16]
  | b32 | u32 => simp only [shlData, show a.u32 = a'.u32 from ha, show b.u32 = b'.u32 from hb]
  | b64 | u64 =>
      have hwhole : a.u64 = a'.u64 := by simpa [PtxReg.low, ScalarType.size] using ha
      have hlow : ∀ x y : PtxReg,
          (if 64 ≤ y.u32.toNat then 0
            else if y.u64.toNat < 64 then x.u64 <<< y.u64.toNat else wide.shl x.u64 y.u64) =
          if 64 ≤ y.u32.toNat then 0 else x.u64 <<< y.u32.toNat := fun x y => by
        by_cases hlarge : 64 ≤ y.u32.toNat
        · rw [if_pos hlarge, if_pos hlarge]
        · rw [if_neg hlarge, if_neg hlarge]
          exact (hwide (by decide)).eq_low x.u64 y.u64 (Nat.lt_of_not_le hlarge)
      simp only [shlData, hlow]
      rw [hwhole, show b.u32 = b'.u32 from hb]
  | s16 | s32 | s64 => rfl
  | _ => exact absurd hword (by decide)

theorem shrData_agree (hword : type.isWord = true) (hsigned : type ≠ .s64)
    (hwide : type = .b64 ∨ type = .u64 → TakesLowWord wide.shr (· >>> ·))
    (ha : a.low type.size = a'.low type.size) (hb : b.low 32 = b'.low 32) :
    (shrData wide type a b).map (PtxReg.low type.size) =
      (shrData wide type a' b').map (PtxReg.low type.size) := by
  have hb16 : b.u16 = b'.u16 := PtxReg.low_eq_of_le (by decide) hb
  cases type with
  | b16 | u16 | s16 => simp only [shrData, show a.u16 = a'.u16 from ha, hb16]
  | b32 | u32 | s32 =>
      simp only [shrData, show a.u32 = a'.u32 from ha, show b.u32 = b'.u32 from hb]
  | b64 | u64 =>
      have hwhole : a.u64 = a'.u64 := by simpa [PtxReg.low, ScalarType.size] using ha
      have hlow : ∀ x y : PtxReg,
          (if y.u32.toNat < 64 then
            if y.u64.toNat < 64 then x.u64 >>> y.u64.toNat else wide.shr x.u64 y.u64
          else 0) =
          if y.u32.toNat < 64 then x.u64 >>> y.u32.toNat else 0 := fun x y => by
        by_cases hsmall : y.u32.toNat < 64
        · rw [if_pos hsmall, if_pos hsmall]
          exact (hwide (by decide)).eq_low x.u64 y.u64 hsmall
        · rw [if_neg hsmall, if_neg hsmall]
      simp only [shrData, hlow]
      rw [hwhole, show b.u32 = b'.u32 from hb]
  | s64 => exact absurd rfl hsigned
  | _ => exact absurd hword (by decide)

end Shift

/-! ## The instructions -/

theorem resultOf_congr (hword : type.isWord = true) {bits2 bits dst : ℕ}
    {src1 src2 : Operand} {body : RegisterFile → PtxReg → PtxReg → Except ExecFailure RegisterFile}
    (h1 : AgreeOn type.size src1 regs regs') (h2 : AgreeOn bits2 src2 regs regs')
    (hbody : ∀ a a' b b', a.low type.size = a'.low type.size → b.low bits2 = b'.low bits2 →
      resultOf bits dst (body regs a b) = resultOf bits dst (body regs' a' b')) :
    resultOf bits dst (do
        let a ← getOperandValue regs src1 type
        let b ← getOperandValue regs src2 type
        body regs a b) =
      resultOf bits dst (do
        let a ← getOperandValue regs' src1 type
        let b ← getOperandValue regs' src2 type
        body regs' a b) := by
  apply map_bind_congr (getOperandValue_agree hword h1)
  intro a a' ha
  apply map_bind_congr (getOperandValue_agree hword h2)
  intro b b' hb
  exact hbody a a' b b' ha hb

theorem resultOf_data {bits dst : ℕ} {x y : Except ExecFailure PtxReg}
    (h : x.map (PtxReg.low bits) = y.map (PtxReg.low bits)) :
    resultOf bits dst (do pure (setOperandValue regs ⟨dst, .whole⟩ (← x))) =
      resultOf bits dst (do pure (setOperandValue regs' ⟨dst, .whole⟩ (← y))) := by
  apply map_bind_congr h
  intro data data' hdata
  show resultOf bits dst (pure _) = resultOf bits dst (pure _)
  rw [resultOf_write, resultOf_write, hdata]

theorem resultOf_compare {bits dst : ℕ} {x y : Except ExecFailure Bool}
    (data : Bool → PtxReg) (h : x = y) :
    resultOf bits dst (do pure (setOperandValue regs ⟨dst, .whole⟩ (data (← x)))) =
      resultOf bits dst (do pure (setOperandValue regs' ⟨dst, .whole⟩ (data (← y)))) := by
  rw [h]
  apply map_bind_congr (p := id) rfl
  intro t t' ht
  show resultOf bits dst (pure _) = resultOf bits dst (pure _)
  rw [resultOf_write, resultOf_write, show t = t' from ht]

theorem Isolated.nonInterfering {wide : WideShift} {op : WidthOp}
    (hword : type.isWord = true) (h : Isolated wide op type) : NonInterfering wide op type := by
  intro dst src1 src2 regs regs' h1 h2
  cases op with
  | setp cmpop =>
      apply resultOf_congr hword h1 h2
      intro a a' b b' ha hb
      exact resultOf_compare (fun t => .ofBits (if t then 0 else 1 : BitVec 4))
        (cmpOp_congr hword h ha hb)
  | set cmpop abs dstType =>
      apply resultOf_congr hword h1 h2
      intro a a' b b' ha hb
      cases abs with
      | false =>
          have hwidth : ¬ ((type = .b16 ∨ type = .b32) ∧ (cmpop = .eq ∨ cmpop = .ne)) :=
            fun hcase => h ⟨hcase.1, hcase.2, rfl⟩
          exact resultOf_compare _ (cmpOp_congr hword hwidth ha hb)
      | true =>
          by_cases htype : type = .b16 ∨ type = .b32
          · simp only [if_true, setAbs_bits htype]
            rfl
          · apply map_bind_congr (setAbs_agree hword ha)
            intro c c' hc
            exact resultOf_compare _ (cmpOp_congr hword (fun hcase => htype hcase.1) hc hb)
  | shl =>
      apply resultOf_congr hword h1 h2
      intro a a' b b' ha hb
      exact resultOf_data (shlData_agree hword h ha hb)
  | shr =>
      apply resultOf_congr hword h1 h2
      intro a a' b b' ha hb
      exact resultOf_data (shrData_agree hword h.1 h.2 ha hb)

/-! ## The instructions that read more -/

/-- Two registers of a thread, the others are zero. -/
def twoRegisters (first second : BitVec 64) : RegisterFile :=
  fun symbol => if symbol = 1 then ⟨first⟩ else if symbol = 2 then ⟨second⟩ else ⟨0⟩

/-- The operand that names a register. -/
def register (symbol : ℕ) : Operand :=
  ⟨.reg symbol, .whole, false⟩

theorem setWidth_lowWord (amount : BitVec 64) :
    ((amount.setWidth 32).setWidth 64).setWidth 32 = amount.setWidth 32 := by
  rw [BitVec.setWidth_setWidth_of_le _ (by decide), BitVec.setWidth_eq]

theorem agreeOn_lowWord (value amount : BitVec 64) :
    AgreeOn 32 (register 2) (twoRegisters value amount)
      (twoRegisters value ((amount.setWidth 32).setWidth 64)) :=
  (setWidth_lowWord amount).symm

theorem resultOf_twoRegisters (bits : ℕ) (value amount : BitVec 64)
    (data : PtxReg → PtxReg → Except ExecFailure PtxReg) :
    resultOf bits 0 (do
        let a ← getOperandValue (twoRegisters value amount) (register 1) type
        let b ← getOperandValue (twoRegisters value amount) (register 2) type
        pure (setOperandValue (twoRegisters value amount) ⟨0, .whole⟩ (← data a b))) =
      (data ⟨value⟩ ⟨amount⟩).map (PtxReg.low bits) := by
  show resultOf bits 0 (do
    pure (setOperandValue (twoRegisters value amount) ⟨0, .whole⟩ (← data ⟨value⟩ ⟨amount⟩))) = _
  cases data ⟨value⟩ ⟨amount⟩ with
  | ok data => exact resultOf_write ..
  | error e => rfl

theorem NonInterfering.isolated {wide : WideShift} {op : WidthOp}
    (h : NonInterfering wide op type) : Isolated wide op type := by
  cases op with
  | setp cmpop =>
      rintro ⟨htype, hcmp⟩
      have hdirty := h 0 (register 1) (register 2) (twoRegisters 0x100000000 0) (twoRegisters 0 0)
      rcases htype with rfl | rfl <;> rcases hcmp with rfl | rfl <;>
        exact absurd (hdirty rfl rfl) (by simp only [WidthOp.impl]; decide)
  | set cmpop abs dstType =>
      rintro ⟨htype, hcmp, rfl⟩
      have hdirty := h 0 (register 1) (register 2) (twoRegisters 0x100000000 0) (twoRegisters 0 0)
      simp only [WidthOp.impl, setImpl] at hdirty
      generalize isFloat dstType = float at hdirty
      rcases htype with rfl | rfl <;> rcases hcmp with rfl | rfl <;> cases float <;>
        exact absurd (hdirty rfl rfl) (by simp only [WidthOp.resultBits]; decide)
  | shl =>
      intro htype value amount hlarge hlow
      have hsame := h 0 (register 1) (register 2) (twoRegisters value amount)
        (twoRegisters value ((amount.setWidth 32).setWidth 64)) rfl (agreeOn_lowWord value amount)
      have hdata : (shlData wide type ⟨value⟩ ⟨amount⟩).map (PtxReg.low type.size) =
          (shlData wide type ⟨value⟩ ⟨(amount.setWidth 32).setWidth 64⟩).map
            (PtxReg.low type.size) :=
        (resultOf_twoRegisters ..).symm.trans (hsame.trans (resultOf_twoRegisters ..))
      have hsmall : amount.toNat % 4294967296 < 64 := by simpa using hlow
      have hword : amount.toNat % 4294967296 % 18446744073709551616 = amount.toNat % 4294967296 :=
        Nat.mod_eq_of_lt (by omega)
      rcases htype with rfl | rfl <;>
        simpa [shlData, PtxReg.low, ScalarType.size, Except.map, setWidth_lowWord, hword,
          Nat.not_lt_of_le hlarge, Nat.not_le_of_lt hsmall, hsmall] using hdata
  | shr =>
      constructor
      · rintro rfl
        have hsame := h 0 (register 1) (register 2) (twoRegisters 8 0x100000001) (twoRegisters 8 1)
          rfl rfl
        have hdata : (shrData wide .s64 ⟨8⟩ ⟨0x100000001⟩).map (PtxReg.low 64) =
            (shrData wide .s64 ⟨8⟩ ⟨1⟩).map (PtxReg.low 64) :=
          (resultOf_twoRegisters ..).symm.trans (hsame.trans (resultOf_twoRegisters ..))
        exact absurd hdata (by simp only [shrData]; decide)
      · intro htype value amount hlarge hlow
        have hsame := h 0 (register 1) (register 2) (twoRegisters value amount)
          (twoRegisters value ((amount.setWidth 32).setWidth 64)) rfl (agreeOn_lowWord value amount)
        have hdata : (shrData wide type ⟨value⟩ ⟨amount⟩).map (PtxReg.low type.size) =
            (shrData wide type ⟨value⟩ ⟨(amount.setWidth 32).setWidth 64⟩).map
              (PtxReg.low type.size) :=
          (resultOf_twoRegisters ..).symm.trans (hsame.trans (resultOf_twoRegisters ..))
        have hsmall : amount.toNat % 4294967296 < 64 := by simpa using hlow
        have hword : amount.toNat % 4294967296 % 18446744073709551616 = amount.toNat % 4294967296 :=
          Nat.mod_eq_of_lt (by omega)
        rcases htype with rfl | rfl <;>
          simpa [shrData, PtxReg.low, ScalarType.size, Except.map, setWidth_lowWord, hword,
            Nat.not_lt_of_le hlarge, hsmall] using hdata

/-- For every bit or integer type of 16, 32 or 64 bits, a comparison or a shift computes the
same result from all register files that agree on the bits it may read if and only if it is
isolated: no equality comparison of a 16-bit or 32-bit bit type, no signed 64-bit right
shift, and for the other 64-bit shifts a compiled shift that takes large amounts by their
lower word. -/
theorem nonInterfering_iff (wide : WideShift) (op : WidthOp) (type : ScalarType)
    (hword : type.isWord = true) : NonInterfering wide op type ↔ Isolated wide op type :=
  ⟨NonInterfering.isolated, Isolated.nonInterfering hword⟩

/-- A processor that takes the amount of a 64-bit shift modulo 64. -/
def WideShift.modulo : WideShift where
  shl value amount := value <<< (amount.toNat % 64)
  shr value amount := value >>> (amount.toNat % 64)

/-- On such a processor the left shift of a 64-bit type only reads the lower word of its
amount. -/
theorem nonInterfering_shl_modulo : NonInterfering .modulo .shl .b64 := by
  apply (nonInterfering_iff .modulo .shl .b64 (by decide)).mpr
  intro _ value amount _ hlow
  have hsmall : amount.toNat % 4294967296 < 64 := by simpa using hlow
  have hmod : amount.toNat % 64 = amount.toNat % 4294967296 := by omega
  show value <<< (amount.toNat % 64) = value <<< (amount.setWidth 32).toNat
  rw [hmod, BitVec.toNat_setWidth]

/-- After an addition of 32 bits that carries, the destination agrees with zero on its 32
bits and still does not compare equal to it; and an amount of one with a dirty upper word
shifts a signed 64-bit value to zero. -/
theorem not_nonInterfering_dirty :
    (∃ dirty, addImpl ⟨.u32, 1, ⟨.literal ⟨0xFFFFFFFF⟩, .whole, false⟩,
          ⟨.literal ⟨1⟩, .whole, false⟩⟩ (twoRegisters 0 0) = .ok dirty ∧
        AgreeOn 32 (register 1) dirty (twoRegisters 0 0) ∧
        resultOf 4 0 (setpImpl .eq ⟨.b32, 0, register 1, register 2⟩ dirty) ≠
          resultOf 4 0 (setpImpl .eq ⟨.b32, 0, register 1, register 2⟩ (twoRegisters 0 0))) ∧
      AgreeOn 32 (register 2) (twoRegisters 8 0x100000001) (twoRegisters 8 1) ∧
        resultOf 64 0 (shrImpl .modulo ⟨.s64, 0, register 1, register 2⟩
            (twoRegisters 8 0x100000001)) ≠
          resultOf 64 0 (shrImpl .modulo ⟨.s64, 0, register 1, register 2⟩ (twoRegisters 8 1)) := by
  refine ⟨⟨_, rfl, ?_, ?_⟩, ?_, ?_⟩
  · rfl
  · decide
  · rfl
  · decide

end GpuCalorie.Instructions
