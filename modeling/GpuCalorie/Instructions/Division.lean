/-
# Division

`div_impl` and `rem_impl` divide with the operators of the language, which cut the quotient off at
zero. The language gives no value to a division by zero, nor to one whose quotient does not fit its
type, and processors fault on both. Members of 8 and 16 bits are divided as `int`, where all
quotients fit.
-/

import GpuCalorie.Instructions.ConditionCode
import GpuCalorie.Math.Outcome

namespace GpuCalorie.Instructions

open GpuCalorie.Math

/-- How a division fails. -/
inductive DivisionFailure
  | operand (e : ExecFailure)
  | divisionByZero
  /-- The quotient does not fit. -/
  | overflow
  deriving DecidableEq, Repr

/-! ## The operators of the language -/

section Operators

variable {w : ℕ} (a b : BitVec w)

/-- What both operators need. -/
def checkDivision (signed : Bool) : Except DivisionFailure Unit :=
  if b = 0 then .error .divisionByZero
  else if signed ∧ a.sdivOverflow b then .error .overflow
  else .ok ()

def quotient (signed : Bool) : BitVec w := if signed then a.sdiv b else a.udiv b

def remainder (signed : Bool) : BitVec w := if signed then a.srem b else a.umod b

/-- `a / b` -/
def divide (signed : Bool) : Except DivisionFailure (BitVec w) := do
  checkDivision a b signed
  return quotient a b signed

/-- `a % b` -/
def modulo (signed : Bool) : Except DivisionFailure (BitVec w) := do
  checkDivision a b signed
  return remainder a b signed

/-- `a / b`, of operands that become `int`. -/
def promotedDivide (signed : Bool) : Except DivisionFailure (BitVec w) := do
  let x : BitVec 32 := if signed then a.signExtend 32 else a.setWidth 32
  let y : BitVec 32 := if signed then b.signExtend 32 else b.setWidth 32
  return (← divide x y true).setWidth w

end Operators

/-! ## The instructions -/

/-- A `div` or a `rem`. -/
structure DivisionInst where
  type : ScalarType
  dst : Destination
  src1 : Operand
  src2 : Operand

/-- The switch of `div_impl`. The division of floating-point numbers is that of the machine. -/
def divSwitch (float : ScalarType → PtxReg → PtxReg → PtxReg) (type : ScalarType) (a b : PtxReg) :
    Except DivisionFailure PtxReg :=
  match type with
  | .s8 => .ofBits <$> promotedDivide (a.low 8) (b.low 8) true
  | .s16 => .ofBits <$> promotedDivide (a.low 16) (b.low 16) true
  | .s32 => .ofBits <$> divide (a.low 32) (b.low 32) true
  | .s64 => .ofBits <$> divide (a.low 64) (b.low 64) true
  | .u8 | .b8 => .ofBits <$> promotedDivide (a.low 8) (b.low 8) false
  | .u16 | .b16 => .ofBits <$> promotedDivide (a.low 16) (b.low 16) false
  | .u32 | .b32 => .ofBits <$> divide (a.low 32) (b.low 32) false
  | .u64 | .b64 => .ofBits <$> divide (a.low 64) (b.low 64) false
  | .f16 | .f32 | .f64 => .ok (float type a b)
  | .pred => .error (.operand .typeMismatch)

/-- The switch of `rem_impl`. -/
def remSwitch (type : ScalarType) (a b : PtxReg) : Except DivisionFailure PtxReg :=
  match type with
  | .s32 => .ofBits <$> modulo (a.low 32) (b.low 32) true
  | .s64 => .ofBits <$> modulo (a.low 64) (b.low 64) true
  | .u32 => .ofBits <$> modulo (a.low 32) (b.low 32) false
  | .u64 => .ofBits <$> modulo (a.low 64) (b.low 64) false
  | _ => .error (.operand .typeMismatch)

/-- `div_impl` -/
def divImpl (float : ScalarType → PtxReg → PtxReg → PtxReg) (pI : DivisionInst)
    (regs : RegisterFile) : Except DivisionFailure RegisterFile := do
  let a ← (getOperandValue regs pI.src1 pI.type).mapError .operand
  let b ← (getOperandValue regs pI.src2 pI.type).mapError .operand
  let data ← divSwitch float pI.type a b
  return setOperandValue regs pI.dst data

/-- `rem_impl` -/
def remImpl (pI : DivisionInst) (regs : RegisterFile) : Except DivisionFailure RegisterFile := do
  let a ← (getOperandValue regs pI.src1 pI.type).mapError .operand
  let b ← (getOperandValue regs pI.src2 pI.type).mapError .operand
  let data ← remSwitch pI.type a b
  return setOperandValue regs pI.dst data

/-! ## Quotients and remainders -/

/-- The number that a member holds. -/
def memberValue (signed : Bool) {w : ℕ} (x : BitVec w) : ℤ := if signed then x.toInt else x.toNat

/-- A quotient and a remainder. -/
structure IsDivision (signed : Bool) {w : ℕ} (a b q r : BitVec w) : Prop where
  identity : q * b + r = a
  small : |memberValue signed r| < |memberValue signed b|
  sign : r = 0 ∨ (memberValue signed r).sign = (memberValue signed a).sign

/-- The operands that can be divided. -/
structure Divisible (signed : Bool) {w : ℕ} (a b : BitVec w) : Prop where
  ne_zero : b ≠ 0
  fits : ¬ (signed ∧ a = BitVec.intMin w ∧ b = BitVec.allOnes w)

section Operators

variable {w : ℕ} {a b : BitVec w} {signed : Bool}

theorem checkDivision_eq_ok_iff (hw : 0 < w) :
    checkDivision a b signed = .ok () ↔ Divisible signed a b := by
  rw [checkDivision, BitVec.sdivOverflow_eq]
  by_cases hzero : b = 0
  · rw [if_pos hzero]
    exact iff_of_false nofun fun h => h.ne_zero hzero
  · rw [if_neg hzero]
    by_cases hfits : signed ∧ a = BitVec.intMin w ∧ b = BitVec.allOnes w
    · rw [if_pos (by simpa [hw, and_assoc] using hfits)]
      exact iff_of_false nofun fun h => h.fits hfits
    · rw [if_neg (by simpa [hw, and_assoc] using hfits)]
      exact iff_of_true rfl ⟨hzero, hfits⟩

theorem divide_eq_ok_iff (hw : 0 < w) {q : BitVec w} :
    divide a b signed = .ok q ↔ Divisible signed a b ∧ quotient a b signed = q := by
  rw [divide, bind_eq_ok, ← checkDivision_eq_ok_iff hw]
  constructor
  · rintro ⟨⟨⟩, hcheck, hq⟩
    exact ⟨hcheck, Except.ok.inj hq⟩
  · rintro ⟨hcheck, rfl⟩
    exact ⟨(), hcheck, rfl⟩

theorem modulo_eq_ok_iff (hw : 0 < w) {r : BitVec w} :
    modulo a b signed = .ok r ↔ Divisible signed a b ∧ remainder a b signed = r := by
  rw [modulo, bind_eq_ok, ← checkDivision_eq_ok_iff hw]
  constructor
  · rintro ⟨⟨⟩, hcheck, hr⟩
    exact ⟨hcheck, Except.ok.inj hr⟩
  · rintro ⟨hcheck, rfl⟩
    exact ⟨(), hcheck, rfl⟩

theorem isDivision_unsigned (h : b ≠ 0) : IsDivision false a b (a.udiv b) (a.umod b) where
  identity := by
    refine BitVec.eq_of_toNat_eq ?_
    have hsum : (a.udiv b * b + a.umod b).toNat =
        (a.toNat / b.toNat * b.toNat + a.toNat % b.toNat) % 2 ^ w := by
      rw [BitVec.toNat_add, BitVec.toNat_mul, Nat.mod_add_mod]
      rfl
    rw [hsum, Nat.div_add_mod', Nat.mod_eq_of_lt a.isLt]
  small := by
    have hpos : 0 < b.toNat := Nat.pos_of_ne_zero fun hzero => h (BitVec.eq_of_toNat_eq hzero)
    have hlt : (a.umod b).toNat < b.toNat := Nat.mod_lt _ hpos
    change |((a.umod b).toNat : ℤ)| < |(b.toNat : ℤ)|
    rw [abs_of_nonneg (Int.natCast_nonneg _), abs_of_nonneg (Int.natCast_nonneg _)]
    exact_mod_cast hlt
  sign := by
    by_cases hzero : a.umod b = 0
    · exact .inl hzero
    · right
      have hpos : 0 < (a.umod b).toNat :=
        Nat.pos_of_ne_zero fun hnat => hzero (BitVec.eq_of_toNat_eq hnat)
      have hle : (a.umod b).toNat ≤ a.toNat := Nat.mod_le _ _
      have hr : (0 : ℤ) < memberValue false (a.umod b) := Int.natCast_pos.2 hpos
      have ha : (0 : ℤ) < memberValue false a := Int.natCast_pos.2 (lt_of_lt_of_le hpos hle)
      rw [Int.sign_eq_one_of_pos hr, Int.sign_eq_one_of_pos ha]

theorem isDivision_signed (h : b ≠ 0) : IsDivision true a b (a.sdiv b) (a.srem b) where
  identity := by
    refine BitVec.eq_of_toInt_eq ?_
    rw [BitVec.toInt_add, BitVec.toInt_mul, BitVec.toInt_sdiv, BitVec.toInt_srem,
      Int.bmod_mul_bmod, Int.bmod_add_bmod, Int.tdiv_mul_add_tmod,
      BitVec.toInt_eq_toNat_bmod, Int.bmod_bmod]
  small := by
    have hne : b.toInt ≠ 0 := fun hzero =>
      h (BitVec.eq_of_toInt_eq (hzero.trans BitVec.toInt_zero.symm))
    change |(a.srem b).toInt| < |b.toInt|
    rw [BitVec.toInt_srem, Int.abs_eq_natAbs, Int.abs_eq_natAbs, Int.natAbs_tmod]
    exact_mod_cast Nat.mod_lt _ (Int.natAbs_pos.2 hne)
  sign := by
    by_cases hzero : a.srem b = 0
    · exact .inl hzero
    · right
      change (a.srem b).toInt.sign = a.toInt.sign
      rw [BitVec.toInt_srem, Int.sign_tmod, if_neg]
      intro hdvd
      refine hzero (BitVec.eq_of_toInt_eq ?_)
      rw [BitVec.toInt_srem, Int.tmod_eq_zero_of_dvd hdvd]
      exact BitVec.toInt_zero.symm

theorem isDivision (h : b ≠ 0) :
    IsDivision signed a b (quotient a b signed) (remainder a b signed) := by
  cases signed with
  | false => exact isDivision_unsigned h
  | true => exact isDivision_signed h

theorem divisible_of_map (hw : 0 < w) {data : PtxReg}
    (h : PtxReg.ofBits <$> divide a b signed = .ok data) : Divisible signed a b := by
  obtain ⟨q, hdivide, -⟩ := map_eq_ok.1 h
  exact ((divide_eq_ok_iff hw).1 hdivide).1

theorem Divisible.exists_division (hw : 0 < w) (h : Divisible signed a b) :
    ∃ q r, PtxReg.ofBits <$> divide a b signed = .ok (.ofBits q) ∧
      PtxReg.ofBits <$> modulo a b signed = .ok (.ofBits r) ∧ IsDivision signed a b q r := by
  refine ⟨quotient a b signed, remainder a b signed, ?_, ?_, isDivision h.ne_zero⟩
  · rw [(divide_eq_ok_iff hw).2 ⟨h, rfl⟩]
    rfl
  · rw [(modulo_eq_ok_iff hw).2 ⟨h, rfl⟩]
    rfl

end Operators

/-- The types of both instructions. -/
def ScalarType.isDivided : ScalarType → Bool
  | .s32 | .s64 | .u32 | .u64 => true
  | _ => false

section Switches

variable {float : ScalarType → PtxReg → PtxReg → PtxReg} {type : ScalarType} {a b : PtxReg}

theorem divisible_of_divSwitch (htype : type.isDivided) {data : PtxReg}
    (h : divSwitch float type a b = .ok data) :
    Divisible type.isSigned (a.low type.size) (b.low type.size) := by
  cases type with
  | s32 => exact divisible_of_map (by decide) h
  | s64 => exact divisible_of_map (by decide) h
  | u32 => exact divisible_of_map (by decide) h
  | u64 => exact divisible_of_map (by decide) h
  | _ => cases htype

theorem exists_of_divisible (htype : type.isDivided)
    (h : Divisible type.isSigned (a.low type.size) (b.low type.size)) :
    ∃ q r : BitVec type.size, divSwitch float type a b = .ok (.ofBits q) ∧
      remSwitch type a b = .ok (.ofBits r) ∧
      IsDivision type.isSigned (a.low type.size) (b.low type.size) q r := by
  cases type with
  | s32 => exact h.exists_division (by decide)
  | s64 => exact h.exists_division (by decide)
  | u32 => exact h.exists_division (by decide)
  | u64 => exact h.exists_division (by decide)
  | _ => cases htype

end Switches

/-- A quotient and a remainder that belong together are stored if and only if the divisor is not
zero and the quotient fits. -/
theorem division_iff (float : ScalarType → PtxReg → PtxReg → PtxReg) {pI : DivisionInst}
    (htype : pI.type.isDivided) (dst : Destination) {regs : RegisterFile} {a b : PtxReg}
    (ha : getOperandValue regs pI.src1 pI.type = .ok a)
    (hb : getOperandValue regs pI.src2 pI.type = .ok b) :
    (∃ q r : BitVec pI.type.size,
      divImpl float pI regs = .ok (setOperandValue regs pI.dst (.ofBits q)) ∧
      remImpl { pI with dst } regs = .ok (setOperandValue regs dst (.ofBits r)) ∧
      IsDivision pI.type.isSigned (a.low pI.type.size) (b.low pI.type.size) q r) ↔
      Divisible pI.type.isSigned (a.low pI.type.size) (b.low pI.type.size) := by
  constructor
  · rintro ⟨q, r, hq, -, -⟩
    rw [divImpl, ha, hb] at hq
    dsimp only [Except.mapError] at hq
    obtain ⟨_, ⟨⟩, hq⟩ := bind_eq_ok.1 hq
    obtain ⟨_, ⟨⟩, hq⟩ := bind_eq_ok.1 hq
    obtain ⟨data, hdata, -⟩ := bind_eq_ok.1 hq
    exact divisible_of_divSwitch htype hdata
  · intro h
    obtain ⟨q, r, hq, hr, hdivision⟩ := @exists_of_divisible float pI.type a b htype h
    refine ⟨q, r, ?_, ?_, hdivision⟩
    · rw [divImpl, ha, hb]
      dsimp only [Except.mapError, bind, Except.bind]
      rw [hq]
      rfl
    · rw [remImpl, ha, hb]
      dsimp only [Except.mapError, bind, Except.bind]
      rw [hr]
      rfl

/-- A `div` of two literals. -/
def literalDivision (type : ScalarType) (a b : BitVec 64) : DivisionInst :=
  ⟨type, ⟨0, .whole⟩, { source := .literal ⟨a⟩ }, { source := .literal ⟨b⟩ }⟩

/-- `-7 / 2`. -/
theorem division_example :
    ∃ q r : BitVec 32,
      divImpl (fun _ a _ => a) (literalDivision .s32 (-7) 2) (fun _ => ⟨0⟩) =
        .ok (setOperandValue (fun _ => ⟨0⟩) ⟨0, .whole⟩ (.ofBits q)) ∧
      remImpl { literalDivision .s32 (-7) 2 with dst := ⟨1, .whole⟩ } (fun _ => ⟨0⟩) =
        .ok (setOperandValue (fun _ => ⟨0⟩) ⟨1, .whole⟩ (.ofBits r)) ∧
      IsDivision true (-7 : BitVec 32) 2 q r :=
  (division_iff (fun _ a _ => a) (show (literalDivision .s32 (-7) 2).type.isDivided from rfl)
    ⟨1, .whole⟩ rfl rfl).2 ⟨by decide, by decide⟩

/-- A thread divides by zero, and another divides the least number by minus one. -/
theorem not_divided :
    divImpl (fun _ a _ => a) (literalDivision .u32 1 0) (fun _ => ⟨0⟩) = .error .divisionByZero ∧
      remImpl (literalDivision .u32 1 0) (fun _ => ⟨0⟩) = .error .divisionByZero ∧
      divImpl (fun _ a _ => a) (literalDivision .s32 (2 ^ 31) (-1)) (fun _ => ⟨0⟩) =
        .error .overflow ∧
      remImpl (literalDivision .s32 (2 ^ 31) (-1)) (fun _ => ⟨0⟩) = .error .overflow := by
  refine ⟨rfl, rfl, ?_, ?_⟩
  · rfl
  · rfl

end GpuCalorie.Instructions
