/-
# Multiplying and adding

`mad_def` multiplies two numbers, adds a third to the lower half, the upper half or the whole of
the product, and may add a carry from a predicate. For 16-bit types the product is formed in 32
bits and nothing of it is lost. For 32-bit types it is formed in 32 bits, too, and only then
extended to 64. The upper half of an unsigned product is taken after the addition and not before
it.

The carry is bit 32 of a sum of 32-bit numbers, which is a signed sum for the signed type; the
cases of 32 and 64 bits set no carry.
-/

import GpuCalorie.Instructions.Carry
import GpuCalorie.Instructions.Convert

namespace GpuCalorie.Instructions

/-- `is_lo`, `is_hi` and `is_wide`. -/
inductive ProductMode
  | lo
  | hi
  | wide
  deriving DecidableEq, Repr

section Cases

variable (mode : ProductMode) (a b c : PtxReg) (carryBit : BitVec 32)

/-- `S16_TYPE` -/
def madS16 : AddResult :=
  let t : BitVec 32 := a.u16.signExtend 32 * b.u16.signExtend 32
  let d : PtxReg := match mode with
    | .wide => .ofBits (t + c.u32 + carryBit)
    | .hi => .ofBits ((t.sshiftRight 16 + c.u16.signExtend 32 + carryBit).setWidth 16)
    | .lo =>
      .ofBits (((t.setWidth 16).signExtend 32 + c.u16.signExtend 32 + carryBit).setWidth 16)
  let carry : BitVec 64 := ((t + c.u32 + carryBit).signExtend 64 &&& 0x100000000) >>> 32
  ⟨d, 0, carry.setWidth 32⟩

/-- `S32_TYPE` -/
def madS32 : AddResult :=
  let t : BitVec 64 := (a.u32 * b.u32).signExtend 64
  let d : PtxReg := match mode with
    | .wide => .ofBits (t + c.u64 + carryBit.setWidth 64)
    | .hi =>
      .ofBits ((t.sshiftRight 32 + c.u32.signExtend 64 + carryBit.setWidth 64).setWidth 32)
    | .lo => .ofBits (t.setWidth 32 + c.u32 + carryBit)
  ⟨d, 0, 0⟩

/-- `U16_TYPE` -/
def madU16 : AddResult :=
  let t : BitVec 32 := a.u16.setWidth 32 * b.u16.setWidth 32
  let d : PtxReg := match mode with
    | .wide => .ofBits (t + c.u32 + carryBit)
    | .hi => .ofBits (((t + c.u16.setWidth 32 + carryBit) >>> 16).setWidth 16)
    | .lo => .ofBits (((t.setWidth 16).setWidth 32 + c.u16.setWidth 32 + carryBit).setWidth 16)
  let carry : BitVec 64 :=
    ((t.setWidth 64 + c.u32.setWidth 64 + carryBit.setWidth 64) &&& 0x100000000) >>> 32
  ⟨d, 0, carry.setWidth 32⟩

/-- `U32_TYPE` -/
def madU32 : AddResult :=
  let t : BitVec 64 := (a.u32 * b.u32).setWidth 64
  let d : PtxReg := match mode with
    | .wide => .ofBits (t + c.u64 + carryBit.setWidth 64)
    | .hi => .ofBits (((t + c.u32.setWidth 64 + carryBit.setWidth 64) >>> 32).setWidth 32)
    | .lo => .ofBits (t.setWidth 32 + c.u32 + carryBit)
  ⟨d, 0, 0⟩

/-- `S64_TYPE` and `U64_TYPE`, with their assertions. -/
def mad64 (useCarry : Bool) : Except ExecFailure AddResult :=
  if mode = .lo ∧ useCarry = false then
    .ok ⟨.ofBits (a.u64 * b.u64 + c.u64 + carryBit.setWidth 64), 0, 0⟩
  else .error .typeMismatch

/-- The switch of `mad_def` for the integer types. -/
def madSwitch (type : ScalarType) (useCarry : Bool) : Except ExecFailure AddResult :=
  match type with
  | .s16 => .ok (madS16 mode a b c carryBit)
  | .s32 => .ok (madS32 mode a b c carryBit)
  | .u16 => .ok (madU16 mode a b c carryBit)
  | .u32 => .ok (madU32 mode a b c carryBit)
  | .s64 | .u64 => mad64 mode a b c carryBit useCarry
  | _ => .error .typeMismatch

end Cases

/-- A `mad`, or a `madp` or `madc` with a predicate as the fourth operand. -/
structure MadInst where
  type : ScalarType
  mode : ProductMode
  dst : AddDestination
  src1 : Operand
  src2 : Operand
  src3 : Operand
  carry : Option Operand := none

/-- `carry_bit.pred` -/
def MadInst.carryBit (pI : MadInst) (regs : RegisterFile) : Except ExecFailure (BitVec 32) :=
  match pI.carry with
  | none => .ok 0
  | some carry => do
    let bit ← getOperandValue regs carry .pred
    return ((bit.pred &&& 0x4) >>> 2).setWidth 32

/-- `mad_def` -/
def madDef (wide : BitVec 32) (pI : MadInst) (regs : RegisterFile) :
    Except ExecFailure RegisterFile := do
  let a ← getOperandValue regs pI.src1 pI.type
  let b ← getOperandValue regs pI.src2 pI.type
  let c ← getOperandValue regs pI.src3 pI.type
  let carryBit ← pI.carryBit regs
  let result ← madSwitch pI.mode a b c carryBit pI.type pI.carry.isSome
  setFlaggedOperandValue wide regs pI.type result pI.dst

/-! ## What is computed -/

/-- The product at twice the width of its factors. -/
def fullProduct (type : ScalarType) (a b : PtxReg) : ℕ :=
  (resize type.isSigned (2 * type.size) (a.low type.size) *
    resize type.isSigned (2 * type.size) (b.low type.size)).toNat

/-- The half of the product that a mode takes, or all of it. -/
def productPart (type : ScalarType) (mode : ProductMode) (a b : PtxReg) : ℕ :=
  match mode with
  | .lo => fullProduct type a b % 2 ^ type.size
  | .hi => fullProduct type a b / 2 ^ type.size
  | .wide => fullProduct type a b

/-- The width of the final addition. -/
def sumWidth (type : ScalarType) : ProductMode → ℕ
  | .lo | .hi => type.size
  | .wide => 2 * type.size

/-- The final sum, before it is cut off at its width. -/
def finalSum (type : ScalarType) (mode : ProductMode) (a b c : PtxReg) (carryBit : BitVec 32) :
    ℕ :=
  productPart type mode a b + (c.low (sumWidth type mode)).toNat + carryBit.toNat

/-- The sums that come out right: all of lower halves; all others of 16-bit types, but of unsigned
upper halves only those to which nothing is added, or one when the lower half is all ones; of
32-bit types those of a product that has 32 bits, and of an unsigned upper half those where the
carry out of the lower half happens to be the sum. -/
def DataRight (type : ScalarType) (mode : ProductMode) (a b c : PtxReg) (carryBit : BitVec 32) :
    Prop :=
  let p := fullProduct type a b
  match type, mode with
  | _, .lo | .s16, _ | .u16, .wide => True
  | .u16, .hi => c.u16.toNat + carryBit.toNat = 0 ∨
      c.u16.toNat + carryBit.toNat = 1 ∧ p % 2 ^ 16 = 2 ^ 16 - 1
  | .u32, .wide => p < 2 ^ 32
  | .u32, .hi => (p / 2 ^ 32 + c.u32.toNat + carryBit.toNat) % 2 ^ 32 =
      (p % 2 ^ 32 + c.u32.toNat + carryBit.toNat) / 2 ^ 32
  | _, _ => -2 ^ 31 ≤ a.u32.toInt * b.u32.toInt ∧ a.u32.toInt * b.u32.toInt < 2 ^ 31

/-- The carries that are reported: for `u16` those that are also the carry of the sum of 32 bits,
for `s16` those that are also its sign, for the 32-bit types none. -/
def CarryRight (type : ScalarType) (mode : ProductMode) (a b c : PtxReg) (carryBit : BitVec 32) :
    Prop :=
  let total := fullProduct type a b + c.u32.toNat + carryBit.toNat
  let carries := 2 ^ sumWidth type mode ≤ finalSum type mode a b c carryBit
  match type with
  | .s16 => carries ↔ 2 ^ 31 ≤ total % 2 ^ 32
  | .u16 => carries ↔ 2 ^ 32 ≤ total
  | _ => ¬ carries

/-- The types with all modes. -/
def ScalarType.isMultiplied : ScalarType → Bool
  | .s16 | .u16 | .s32 | .u32 => true
  | _ => false

/-- The sum and its carry. -/
structure AddResult.IsSum (type : ScalarType) (mode : ProductMode) (a b c : PtxReg)
    (carryBit : BitVec 32) (result : AddResult) : Prop where
  data : (result.data.low (sumWidth type mode)).toNat =
    finalSum type mode a b c carryBit % 2 ^ sumWidth type mode ↔
      DataRight type mode a b c carryBit
  carry : (result.carry.getLsbD 0 = true ↔
    2 ^ sumWidth type mode ≤ finalSum type mode a b c carryBit) ↔
      CarryRight type mode a b c carryBit

/-! ## Sums -/

section Sums

variable {v : ℕ} {x y z : BitVec v}

theorem toNat_sum : (x + y + z).toNat = (x.toNat + y.toNat + z.toNat) % 2 ^ v := by
  rw [BitVec.toNat_add, BitVec.toNat_add, Nat.mod_add_mod]

theorem sum_mod_iff {m p q r s : ℕ} (hp : p < m) (hq : q < m) :
    (p + r + s) % m = (q + r + s) % m ↔ p = q := by
  constructor
  · intro h
    rw [Nat.add_assoc, Nat.add_assoc q] at h
    have hmod : p ≡ q [MOD m] := Nat.ModEq.add_right_cancel' (r + s) h
    exact hmod.eq_of_lt_of_lt hp hq
  · rintro rfl
    rfl

variable {carryBit : BitVec 32}

theorem toNat_setWidth_carryBit (hcarry : carryBit.toNat ≤ 1) (hv : 0 < v) :
    (carryBit.setWidth v).toNat = carryBit.toNat := by
  have hpow : 1 < 2 ^ v := Nat.one_lt_two_pow hv.ne'
  rw [BitVec.toNat_setWidth, Nat.mod_eq_of_lt (by omega)]

theorem setWidth_signExtend_self {w : ℕ} (hvw : v ≤ w) : (x.signExtend w).setWidth v = x := by
  apply BitVec.eq_of_getLsbD_eq
  intro i hi
  have hiw : i < w := Nat.lt_of_lt_of_le hi hvw
  rw [BitVec.getLsbD_setWidth, BitVec.getLsbD_signExtend, if_pos hi, decide_eq_true hi,
    decide_eq_true hiw, Bool.true_and, Bool.true_and]

theorem setWidth_setWidth_self {w : ℕ} (hvw : v ≤ w) : (x.setWidth w).setWidth v = x := by
  rw [BitVec.setWidth_setWidth_of_le _ hvw, BitVec.setWidth_eq]

theorem toNat_sshiftRight_half {w : ℕ} (hw : w = v + v) (y : BitVec w) :
    ((y.sshiftRight v).setWidth v).toNat = y.toNat / 2 ^ v := by
  have hsame : (y.sshiftRight v).setWidth v = (y >>> v).setWidth v := by
    apply BitVec.eq_of_getLsbD_eq
    intro i hi
    have hiw : i < w := by omega
    have hviw : v + i < w := by omega
    simp [BitVec.getLsbD_sshiftRight, hi, hviw, Nat.not_le.mpr hiw]
  have hlt : y.toNat / 2 ^ v < 2 ^ v := by
    apply Nat.div_lt_of_lt_mul
    rw [← Nat.pow_add, ← hw]
    exact y.isLt
  rw [hsame, BitVec.toNat_setWidth, BitVec.toNat_ushiftRight, Nat.shiftRight_eq_div_pow,
    Nat.mod_eq_of_lt hlt]

theorem toNat_sum_iff (hcarry : carryBit.toNat ≤ 1) (hv : 0 < v) {part : ℕ} (hpart : part < 2 ^ v) :
    (x + y + carryBit.setWidth v).toNat = (part + y.toNat + carryBit.toNat) % 2 ^ v ↔
      x.toNat = part := by
  rw [toNat_sum, toNat_setWidth_carryBit hcarry hv]
  exact sum_mod_iff x.isLt hpart

end Sums

/-! ## 16 bits -/

section Narrow

variable {mode : ProductMode} {a b c : PtxReg} {carryBit : BitVec 32}

theorem low_ofBits {w v : ℕ} (hvw : v ≤ w) (hw : w ≤ 64) (x : BitVec w) :
    (PtxReg.ofBits x).low v = x.setWidth v := by
  rw [PtxReg.low_ofBits, BitVec.setWidth_setWidth_of_le _ (Nat.le_trans hvw hw)]

theorem setWidth_sum {w v : ℕ} (hvw : v ≤ w) (x y z : BitVec w) :
    (x + y + z).setWidth v = x.setWidth v + y.setWidth v + z.setWidth v := by
  rw [BitVec.setWidth_add _ _ hvw, BitVec.setWidth_add _ _ hvw]

theorem upperSum_iff {t s : ℕ} (hs : s ≤ 2 ^ 16) :
    (t + s) % 2 ^ 32 / 2 ^ 16 = (t / 2 ^ 16 + s) % 2 ^ 16 ↔
      s = 0 ∨ s = 1 ∧ t % 2 ^ 16 = 2 ^ 16 - 1 := by
  have hupper : (t + s) % 2 ^ 32 / 2 ^ 16 = (t / 2 ^ 16 + (t % 2 ^ 16 + s) / 2 ^ 16) % 2 ^ 16 := by
    omega
  have hcancel : (t / 2 ^ 16 + (t % 2 ^ 16 + s) / 2 ^ 16) % 2 ^ 16 = (t / 2 ^ 16 + s) % 2 ^ 16 ↔
      (t % 2 ^ 16 + s) / 2 ^ 16 % 2 ^ 16 = s % 2 ^ 16 :=
    ⟨fun h => Nat.ModEq.add_left_cancel' (t / 2 ^ 16) h,
      fun h => Nat.ModEq.add_left (t / 2 ^ 16) h⟩
  rw [hupper, hcancel]
  clear hupper hcancel
  have hlow : t % 2 ^ 16 < 2 ^ 16 := Nat.mod_lt _ (by decide)
  generalize t % 2 ^ 16 = l at hlow
  obtain hq | hq : (l + s) / 2 ^ 16 = 0 ∨ (l + s) / 2 ^ 16 = 1 := by omega
  · rw [hq]
    omega
  · rw [hq]
    omega

theorem bit32_shiftRight (x : BitVec 64) :
    (((x &&& 0x100000000) >>> 32).setWidth 32).getLsbD 0 = x.getLsbD 32 := by
  simp

theorem madS16_isSum (hcarry : carryBit.toNat ≤ 1) :
    (madS16 mode a b c carryBit).IsSum .s16 mode a b c carryBit := by
  let t : BitVec 32 := a.u16.signExtend 32 * b.u16.signExtend 32
  have hp : fullProduct .s16 a b = t.toNat := rfl
  have ht := t.isLt
  constructor
  · refine iff_of_true ?_ (by cases mode <;> trivial)
    cases mode with
    | lo =>
        have hdata : (madS16 .lo a b c carryBit).data.low 16 =
            t.setWidth 16 + c.u16 + carryBit.setWidth 16 := by
          show (PtxReg.ofBits _).low 16 = _
          rw [low_ofBits le_rfl (by decide), BitVec.setWidth_eq, setWidth_sum (by decide),
            setWidth_signExtend_self (by decide), setWidth_signExtend_self (by decide)]
        show ((madS16 .lo a b c carryBit).data.low 16).toNat =
          (t.toNat % 2 ^ 16 + c.u16.toNat + carryBit.toNat) % 2 ^ 16
        rw [hdata, toNat_sum_iff hcarry (by decide) (Nat.mod_lt _ (by decide)),
          BitVec.toNat_setWidth]
    | hi =>
        have hdata : (madS16 .hi a b c carryBit).data.low 16 =
            (t.sshiftRight 16).setWidth 16 + c.u16 + carryBit.setWidth 16 := by
          show (PtxReg.ofBits _).low 16 = _
          rw [low_ofBits le_rfl (by decide), BitVec.setWidth_eq, setWidth_sum (by decide),
            setWidth_signExtend_self (by decide)]
        show ((madS16 .hi a b c carryBit).data.low 16).toNat =
          (t.toNat / 2 ^ 16 + c.u16.toNat + carryBit.toNat) % 2 ^ 16
        rw [hdata, toNat_sum_iff hcarry (by decide) (by omega), toNat_sshiftRight_half rfl]
    | wide =>
        have hdata : (madS16 .wide a b c carryBit).data.low 32 = t + c.u32 + carryBit := by
          show (PtxReg.ofBits _).low 32 = _
          rw [low_ofBits le_rfl (by decide), BitVec.setWidth_eq]
        show ((madS16 .wide a b c carryBit).data.low 32).toNat =
          (t.toNat + c.u32.toNat + carryBit.toNat) % 2 ^ 32
        rw [hdata, toNat_sum]
  · have hsign : (madS16 mode a b c carryBit).carry.getLsbD 0 = true ↔
        2 ^ 31 ≤ (fullProduct .s16 a b + c.u32.toNat + carryBit.toNat) % 2 ^ 32 := by
      show (BitVec.setWidth 32
        (((t + c.u32 + carryBit).signExtend 64 &&& 0x100000000) >>> 32)).getLsbD 0 = true ↔ _
      rw [hp, ← toNat_sum, bit32_shiftRight, BitVec.getLsbD_signExtend]
      have hmsb := BitVec.msb_eq_true_iff_two_mul_ge (x := t + c.u32 + carryBit)
      exact hmsb.trans (by omega)
    rw [hsign]
    exact iff_comm

theorem madU16_isSum (hcarry : carryBit.toNat ≤ 1) :
    (madU16 mode a b c carryBit).IsSum .u16 mode a b c carryBit := by
  let t : BitVec 32 := a.u16.setWidth 32 * b.u16.setWidth 32
  have hp : fullProduct .u16 a b = t.toNat := rfl
  have ht := t.isLt
  constructor
  · cases mode with
    | lo =>
        have hdata : (madU16 .lo a b c carryBit).data.low 16 =
            t.setWidth 16 + c.u16 + carryBit.setWidth 16 := by
          show (PtxReg.ofBits _).low 16 = _
          rw [low_ofBits le_rfl (by decide), BitVec.setWidth_eq, setWidth_sum (by decide),
            setWidth_setWidth_self (by decide), setWidth_setWidth_self (by decide)]
        refine iff_of_true ?_ trivial
        show ((madU16 .lo a b c carryBit).data.low 16).toNat =
          (t.toNat % 2 ^ 16 + c.u16.toNat + carryBit.toNat) % 2 ^ 16
        rw [hdata, toNat_sum_iff hcarry (by decide) (Nat.mod_lt _ (by decide)),
          BitVec.toNat_setWidth]
    | hi =>
        have hc : (c.u16.setWidth 32).toNat = c.u16.toNat := by
          have hlt := c.u16.isLt
          rw [BitVec.toNat_setWidth, Nat.mod_eq_of_lt (by omega)]
        have hdata : ((madU16 .hi a b c carryBit).data.low 16).toNat =
            (t.toNat + c.u16.toNat + carryBit.toNat) % 2 ^ 32 / 2 ^ 16 := by
          show ((PtxReg.ofBits
            (((t + c.u16.setWidth 32 + carryBit) >>> 16).setWidth 16)).low 16).toNat = _
          rw [low_ofBits le_rfl (by decide), BitVec.setWidth_eq, BitVec.toNat_setWidth,
            BitVec.toNat_ushiftRight, toNat_sum, hc, Nat.shiftRight_eq_div_pow]
          omega
        have hlt := c.u16.isLt
        show ((madU16 .hi a b c carryBit).data.low 16).toNat =
            (t.toNat / 2 ^ 16 + c.u16.toNat + carryBit.toNat) % 2 ^ 16 ↔
          c.u16.toNat + carryBit.toNat = 0 ∨
            c.u16.toNat + carryBit.toNat = 1 ∧ t.toNat % 2 ^ 16 = 2 ^ 16 - 1
        rw [hdata, Nat.add_assoc, Nat.add_assoc]
        exact upperSum_iff (by omega)
    | wide =>
        have hdata : (madU16 .wide a b c carryBit).data.low 32 = t + c.u32 + carryBit := by
          show (PtxReg.ofBits _).low 32 = _
          rw [low_ofBits le_rfl (by decide), BitVec.setWidth_eq]
        refine iff_of_true ?_ trivial
        show ((madU16 .wide a b c carryBit).data.low 32).toNat =
          (t.toNat + c.u32.toNat + carryBit.toNat) % 2 ^ 32
        rw [hdata, toNat_sum]
  · have hbit : (madU16 mode a b c carryBit).carry.getLsbD 0 = true ↔
        2 ^ 32 ≤ fullProduct .u16 a b + c.u32.toNat + carryBit.toNat := by
      have hext : ∀ x : BitVec 32, (x.setWidth 64).toNat = x.toNat := by
        intro x
        have hx := x.isLt
        rw [BitVec.toNat_setWidth, Nat.mod_eq_of_lt (by omega)]
      have hc := c.u32.isLt
      show (BitVec.setWidth 32 (((t.setWidth 64 + c.u32.setWidth 64 + carryBit.setWidth 64) &&&
        0x100000000) >>> 32)).getLsbD 0 = true ↔ _
      rw [hp, bit32_shiftRight, BitVec.getLsbD, toNat_sum, hext, hext, hext,
        Nat.testBit_eq_decide_div_mod_eq, decide_eq_true_eq]
      omega
    rw [hbit]
    exact iff_comm

end Narrow

/-! ## 32 bits -/

section Words

variable {mode : ProductMode} {a b c : PtxReg} {carryBit : BitVec 32}

theorem noCarry_iff {carries : Prop} :
    ((0 : BitVec 32).getLsbD 0 = true ↔ carries) ↔ ¬ carries := by
  simp

theorem signExtend_mul_iff (x y : BitVec 32) :
    (x * y).signExtend 64 = x.signExtend 64 * y.signExtend 64 ↔
      -2 ^ 31 ≤ x.toInt * y.toInt ∧ x.toInt * y.toInt < 2 ^ 31 := by
  have hle : x.toInt * y.toInt ≤ 2 ^ (32 * 2 - 2) := BitVec.toInt_mul_toInt_le
  have hge : -(2 ^ (32 * 2 - 2)) ≤ x.toInt * y.toInt := BitVec.le_toInt_mul_toInt
  have hfull : (x.signExtend 64 * y.signExtend 64).toInt = x.toInt * y.toInt := by
    rw [BitVec.toInt_mul, BitVec.toInt_signExtend_of_le (by decide),
      BitVec.toInt_signExtend_of_le (by decide)]
    exact Int.bmod_eq_of_le (by omega) (by omega)
  rw [← BitVec.toInt_inj, hfull, BitVec.toInt_signExtend_of_le (by decide), BitVec.toInt_mul,
    Int.bmod_eq_iff (by decide)]
  omega

theorem setWidth_signExtend_mul (x y : BitVec 32) :
    (x.signExtend 64 * y.signExtend 64).setWidth 32 = x * y := by
  rw [BitVec.setWidth_mul _ _ (by decide), setWidth_signExtend_self (by decide),
    setWidth_signExtend_self (by decide)]

theorem madS32_isSum (hcarry : carryBit.toNat ≤ 1) :
    (madS32 mode a b c carryBit).IsSum .s32 mode a b c carryBit := by
  refine ⟨?_, noCarry_iff⟩
  let t : BitVec 64 := (a.u32 * b.u32).signExtend 64
  let full : BitVec 64 := a.u32.signExtend 64 * b.u32.signExtend 64
  have hlow : full.toNat % 2 ^ 32 = (a.u32 * b.u32).toNat := by
    rw [← BitVec.toNat_setWidth, setWidth_signExtend_mul]
  have ht : t.toNat % 2 ^ 32 = (a.u32 * b.u32).toNat := by
    rw [← BitVec.toNat_setWidth, setWidth_signExtend_self (by decide)]
  have hfull := full.isLt
  have hfits : t.toNat = full.toNat ↔
      -2 ^ 31 ≤ a.u32.toInt * b.u32.toInt ∧ a.u32.toInt * b.u32.toInt < 2 ^ 31 := by
    rw [BitVec.toNat_inj]
    exact signExtend_mul_iff a.u32 b.u32
  cases mode with
  | lo =>
      have hdata : (madS32 .lo a b c carryBit).data.low 32 =
          t.setWidth 32 + c.u32 + carryBit.setWidth 32 := by
        show (PtxReg.ofBits _).low 32 = _
        rw [low_ofBits le_rfl (by decide), BitVec.setWidth_eq, BitVec.setWidth_eq]
      refine iff_of_true ?_ trivial
      show ((madS32 .lo a b c carryBit).data.low 32).toNat =
        (full.toNat % 2 ^ 32 + c.u32.toNat + carryBit.toNat) % 2 ^ 32
      rw [hdata, toNat_sum_iff hcarry (by decide) (Nat.mod_lt _ (by decide)), BitVec.toNat_setWidth,
        ht, hlow]
  | hi =>
      have hdata : (madS32 .hi a b c carryBit).data.low 32 =
          (t.sshiftRight 32).setWidth 32 + c.u32 + carryBit.setWidth 32 := by
        show (PtxReg.ofBits _).low 32 = _
        rw [low_ofBits le_rfl (by decide), BitVec.setWidth_eq, setWidth_sum (by decide),
          setWidth_signExtend_self (by decide), BitVec.setWidth_setWidth_of_le _ (by decide)]
      show ((madS32 .hi a b c carryBit).data.low 32).toNat =
        (full.toNat / 2 ^ 32 + c.u32.toNat + carryBit.toNat) % 2 ^ 32 ↔ _
      rw [hdata, toNat_sum_iff hcarry (by decide) (by omega), toNat_sshiftRight_half rfl]
      refine Iff.trans ?_ hfits
      omega
  | wide =>
      have hc : c.low 64 = c.u64 := BitVec.setWidth_eq ..
      have hdata : (madS32 .wide a b c carryBit).data.low 64 =
          t + c.u64 + carryBit.setWidth 64 := by
        show (PtxReg.ofBits _).low 64 = _
        rw [low_ofBits le_rfl (by decide), BitVec.setWidth_eq]
      show ((madS32 .wide a b c carryBit).data.low 64).toNat =
        (full.toNat + (c.low 64).toNat + carryBit.toNat) % 2 ^ 64 ↔ _
      rw [hdata, hc, toNat_sum_iff hcarry (by decide) hfull]
      exact hfits

theorem madU32_isSum (hcarry : carryBit.toNat ≤ 1) :
    (madU32 mode a b c carryBit).IsSum .u32 mode a b c carryBit := by
  refine ⟨?_, noCarry_iff⟩
  let t : BitVec 64 := (a.u32 * b.u32).setWidth 64
  let full : BitVec 64 := a.u32.setWidth 64 * b.u32.setWidth 64
  have hlow : full.toNat % 2 ^ 32 = (a.u32 * b.u32).toNat := by
    rw [← BitVec.toNat_setWidth, BitVec.setWidth_mul _ _ (by decide),
      setWidth_setWidth_self (by decide), setWidth_setWidth_self (by decide)]
  have ht : t.toNat = full.toNat % 2 ^ 32 := by
    have hproduct := (a.u32 * b.u32).isLt
    rw [hlow, BitVec.toNat_setWidth, Nat.mod_eq_of_lt (by omega)]
  have hfull := full.isLt
  cases mode with
  | lo =>
      have hdata : (madU32 .lo a b c carryBit).data.low 32 =
          t.setWidth 32 + c.u32 + carryBit.setWidth 32 := by
        show (PtxReg.ofBits _).low 32 = _
        rw [low_ofBits le_rfl (by decide), BitVec.setWidth_eq, BitVec.setWidth_eq]
      refine iff_of_true ?_ trivial
      show ((madU32 .lo a b c carryBit).data.low 32).toNat =
        (full.toNat % 2 ^ 32 + c.u32.toNat + carryBit.toNat) % 2 ^ 32
      rw [hdata, toNat_sum_iff hcarry (by decide) (Nat.mod_lt _ (by decide)), BitVec.toNat_setWidth,
        ht, Nat.mod_mod]
  | hi =>
      have hc : (c.u32.setWidth 64).toNat = c.u32.toNat := by
        have hlt := c.u32.isLt
        rw [BitVec.toNat_setWidth, Nat.mod_eq_of_lt (by omega)]
      have hdata : ((madU32 .hi a b c carryBit).data.low 32).toNat =
          (full.toNat % 2 ^ 32 + c.u32.toNat + carryBit.toNat) / 2 ^ 32 := by
        have hlt := c.u32.isLt
        show ((PtxReg.ofBits
          (((t + c.u32.setWidth 64 + carryBit.setWidth 64) >>> 32).setWidth 32)).low 32).toNat = _
        rw [low_ofBits le_rfl (by decide), BitVec.setWidth_eq, BitVec.toNat_setWidth,
          BitVec.toNat_ushiftRight, toNat_sum, hc, toNat_setWidth_carryBit hcarry (by decide), ht,
          Nat.shiftRight_eq_div_pow]
        omega
      show ((madU32 .hi a b c carryBit).data.low 32).toNat =
          (full.toNat / 2 ^ 32 + c.u32.toNat + carryBit.toNat) % 2 ^ 32 ↔
        (full.toNat / 2 ^ 32 + c.u32.toNat + carryBit.toNat) % 2 ^ 32 =
          (full.toNat % 2 ^ 32 + c.u32.toNat + carryBit.toNat) / 2 ^ 32
      rw [hdata]
      exact eq_comm
  | wide =>
      have hc : c.low 64 = c.u64 := BitVec.setWidth_eq ..
      have hdata : (madU32 .wide a b c carryBit).data.low 64 =
          t + c.u64 + carryBit.setWidth 64 := by
        show (PtxReg.ofBits _).low 64 = _
        rw [low_ofBits le_rfl (by decide), BitVec.setWidth_eq]
      show ((madU32 .wide a b c carryBit).data.low 64).toNat =
        (full.toNat + (c.low 64).toNat + carryBit.toNat) % 2 ^ 64 ↔ full.toNat < 2 ^ 32
      rw [hdata, hc, toNat_sum_iff hcarry (by decide) hfull, ht]
      omega

end Words

/-! ## The instruction -/

variable {type : ScalarType} {mode : ProductMode} {a b c : PtxReg} {carryBit : BitVec 32}

theorem madSwitch_isSum (htype : type.isMultiplied = true) (hcarry : carryBit.toNat ≤ 1)
    (useCarry : Bool) :
    ∃ result, madSwitch mode a b c carryBit type useCarry = .ok result ∧
      result.IsSum type mode a b c carryBit := by
  cases type with
  | s16 => exact ⟨_, rfl, madS16_isSum hcarry⟩
  | u16 => exact ⟨_, rfl, madU16_isSum hcarry⟩
  | s32 => exact ⟨_, rfl, madS32_isSum hcarry⟩
  | u32 => exact ⟨_, rfl, madU32_isSum hcarry⟩
  | _ => cases htype

/-- The data register of a destination. -/
def AddDestination.dataName : AddDestination → ℕ
  | .single dst => dst.symbol
  | .double dst => dst.regName

/-- A destination that is written as a whole. -/
def AddDestination.Whole : AddDestination → Prop
  | .single dst => dst.lohi = .whole
  | .double dst => dst.lohi = .whole

/-- The carry in the predicate of a destination that has one. -/
def AddDestination.Carry (regs : RegisterFile) (carries : Prop) : AddDestination → Prop
  | .single _ => True
  | .double dst => (regs dst.predName).u64.getLsbD 2 = true ↔ carries

theorem setFlaggedOperandValue_written (wide : BitVec 32) (regs : RegisterFile)
    (htype : type.isInteger = true) (result : AddResult) {dst : AddDestination}
    (hwhole : dst.Whole) :
    ∃ regs', setFlaggedOperandValue wide regs type result dst = .ok regs' ∧
      regs' dst.dataName = result.data ∧
      ∀ carries, dst.Carry regs' carries ↔
        ∀ d, dst = .double d → (result.carry.getLsbD 0 = true ↔ carries) := by
  cases dst with
  | single dst =>
      refine ⟨_, rfl, ?_, fun _ => iff_of_true trivial fun d h => by cases h⟩
      have hlohi : dst.lohi = .whole := hwhole
      rw [AddDestination.dataName, setOperandValue, Function.update_self, hlohi]
  | double dst =>
      have hlohi : dst.lohi = .whole := hwhole
      obtain ⟨zero, hzero, -⟩ := zeroFlag_eq htype result.data
      obtain ⟨regs', hrun, hcarry, -⟩ :=
        @setFlaggedOperandValue_double wide _ regs dst htype result
      refine ⟨regs', hrun, ?_, fun carries => ?_⟩
      · rw [setFlaggedOperandValue, setDoubleOperandValue, hzero] at hrun
        cases hrun
        rw [AddDestination.dataName, Function.update_of_ne dst.distinct.symm, Function.update_self,
          setOperandValue, Function.update_self, hlohi]
      · rw [AddDestination.Carry, hcarry]
        exact ⟨fun h d _ => h, fun h => h dst rfl⟩

variable {wide : BitVec 32} {pI : MadInst} {regs : RegisterFile}

/-- The data and the carry of the final sum. -/
structure Multiplies (pI : MadInst) (a b c : PtxReg) (carryBit : BitVec 32)
    (regs' : RegisterFile) : Prop where
  data : ((regs' pI.dst.dataName).low (sumWidth pI.type pI.mode)).toNat =
    finalSum pI.type pI.mode a b c carryBit % 2 ^ sumWidth pI.type pI.mode
  carry : pI.dst.Carry regs'
    (2 ^ sumWidth pI.type pI.mode ≤ finalSum pI.type pI.mode a b c carryBit)

theorem MadInst.carryBit_le (h : pI.carryBit regs = .ok carryBit) : carryBit.toNat ≤ 1 := by
  have hbit : ∀ x : BitVec 4, (((x &&& 0x4) >>> 2).setWidth 32).toNat ≤ 1 := by
    decide
  rw [MadInst.carryBit] at h
  cases hcarry : pI.carry with
  | none =>
      rw [hcarry] at h
      cases h
      decide
  | some op =>
      rw [hcarry] at h
      cases hbits : getOperandValue regs op .pred with
      | error e =>
          simp only [hbits] at h
          cases h
      | ok r =>
          simp only [hbits] at h
          cases h
          exact hbit r.pred

/-- For every type of 16 or 32 bits, mode, operands and carry, `mad` leaves the final sum in its
destination, and its carry in the predicate if there is one, if and only if the data and the carry
are among those that come out right. -/
theorem madDef_iff (wide : BitVec 32) (htype : pI.type.isMultiplied = true)
    (hwhole : pI.dst.Whole) (ha : getOperandValue regs pI.src1 pI.type = .ok a)
    (hb : getOperandValue regs pI.src2 pI.type = .ok b)
    (hc : getOperandValue regs pI.src3 pI.type = .ok c) (hcarry : pI.carryBit regs = .ok carryBit) :
    (∃ regs', madDef wide pI regs = .ok regs' ∧ Multiplies pI a b c carryBit regs') ↔
      DataRight pI.type pI.mode a b c carryBit ∧
        ∀ d, pI.dst = .double d → CarryRight pI.type pI.mode a b c carryBit := by
  have hinteger : pI.type.isInteger = true := by
    cases hpI : pI.type <;> first | rfl | (rw [hpI] at htype; cases htype)
  obtain ⟨result, hswitch, hsum⟩ := @madSwitch_isSum _ pI.mode a b c _
    htype (MadInst.carryBit_le hcarry) pI.carry.isSome
  obtain ⟨regs', hset, hdata, hflag⟩ :=
    setFlaggedOperandValue_written wide regs hinteger result hwhole
  have hrun : madDef wide pI regs = .ok regs' := by
    rw [madDef, ha, hb, hc, hcarry]
    show (madSwitch pI.mode a b c carryBit pI.type pI.carry.isSome >>= _) = _
    rw [hswitch]
    exact hset
  have hcarryIff : pI.dst.Carry regs'
      (2 ^ sumWidth pI.type pI.mode ≤ finalSum pI.type pI.mode a b c carryBit) ↔
        ∀ d, pI.dst = .double d → CarryRight pI.type pI.mode a b c carryBit :=
    (hflag _).trans (forall_congr' fun d => imp_congr_right fun _ => hsum.carry)
  rw [exists_ok_and hrun]
  constructor
  · intro h
    have hright := h.data
    rw [hdata] at hright
    exact ⟨hsum.data.mp hright, hcarryIff.mp h.carry⟩
  · rintro ⟨hdataRight, hcarryRight⟩
    refine ⟨?_, hcarryIff.mpr hcarryRight⟩
    rw [hdata]
    exact hsum.data.mpr hdataRight

/-- A `mad` of literals. -/
def madLiterals (type : ScalarType) (mode : ProductMode) (dst : AddDestination)
    (a b c : BitVec 64) (carry : Option Operand) : MadInst where
  type := type
  mode := mode
  dst := dst
  src1 := ⟨.literal ⟨a⟩, .whole, false⟩
  src2 := ⟨.literal ⟨b⟩, .whole, false⟩
  src3 := ⟨.literal ⟨c⟩, .whole, false⟩
  carry := carry

/-- The largest sum of 16-bit factors, with a carry that comes in and one that goes out. -/
theorem madDef_largest :
    ∃ regs', madDef 0 (madLiterals .u16 .wide (.double ⟨0, 1, .whole, by decide⟩) 0xFFFF 0xFFFF
        0xFFFFFFFF (some ⟨.reg 2, .whole, false⟩)) (fun _ => ⟨4⟩) = .ok regs' ∧
      Multiplies (madLiterals .u16 .wide (.double ⟨0, 1, .whole, by decide⟩) 0xFFFF 0xFFFF
        0xFFFFFFFF (some ⟨.reg 2, .whole, false⟩)) ⟨0xFFFF⟩ ⟨0xFFFF⟩ ⟨0xFFFFFFFF⟩ 1 regs' :=
  (@madDef_iff _ _ _ _ (madLiterals .u16 .wide (.double ⟨0, 1, .whole, by decide⟩) 0xFFFF 0xFFFF
    0xFFFFFFFF (some ⟨.reg 2, .whole, false⟩)) _ 0 rfl rfl rfl rfl rfl rfl).mpr
    ⟨trivial, fun _ _ => Iff.rfl⟩

/-- The upper half of 2^32 is one, and five more are six. -/
theorem not_madDef_upperHalf :
    ¬ ∀ (wide : BitVec 32) (pI : MadInst) (regs : RegisterFile) (a b c : PtxReg)
      (carryBit : BitVec 32), pI.type.isMultiplied = true → pI.dst.Whole →
      getOperandValue regs pI.src1 pI.type = .ok a →
      getOperandValue regs pI.src2 pI.type = .ok b →
      getOperandValue regs pI.src3 pI.type = .ok c → pI.carryBit regs = .ok carryBit →
        ∃ regs', madDef wide pI regs = .ok regs' ∧ Multiplies pI a b c carryBit regs' := by
  intro hall
  obtain ⟨regs', hrun, hmultiplies⟩ := hall 0
    (madLiterals .u32 .hi (.single ⟨0, .whole⟩) 0x10000 0x10000 5 none) (fun _ => ⟨0⟩)
    ⟨0x10000⟩ ⟨0x10000⟩ ⟨5⟩ 0 rfl rfl rfl rfl rfl rfl
  cases hrun
  exact absurd hmultiplies.data (by decide)

end GpuCalorie.Instructions
