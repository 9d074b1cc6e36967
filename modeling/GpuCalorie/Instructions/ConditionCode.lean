/-
# Condition codes

An instruction with the destination `$p|$r` writes its data to a register and its condition
code to a predicate: bit 0 says that the data are zero, bit 1 that they are negative. The zero
test of a signed type masks the sign bit away. The sign test of all integer types looks at the
lower word, through a mask that is an `int` shifted by the width of the type less one. For 64
bits the language leaves that shift undefined; what the compiled program has for it is a
parameter.
-/

import GpuCalorie.Instructions.Compare

namespace GpuCalorie.Instructions

/-- `operand_info`, for a destination `$p|$r` or `$p/$r`: a predicate and a data register. -/
structure DoubleDestination where
  /-- `vec_symbol(0)` -/
  predName : ℕ
  /-- `vec_symbol(1)` -/
  regName : ℕ
  lohi : OperandHalf := .whole
  distinct : predName ≠ regName

/-- The integer types, signed, unsigned and bits. -/
def ScalarType.isInteger : ScalarType → Bool
  | .s8 | .s16 | .s32 | .s64 | .u8 | .u16 | .u32 | .u64 | .b8 | .b16 | .b32 | .b64 => true
  | .f16 | .f32 | .f64 | .pred => false

/-- The signed types. -/
def ScalarType.isSigned : ScalarType → Bool
  | .s8 | .s16 | .s32 | .s64 => true
  | _ => false

/-- The test for the zero bit. -/
def zeroFlag (type : ScalarType) (value : PtxReg) : Except ExecFailure Bool :=
  match type with
  | .s8 => .ok (value.low 8 &&& 0x7F == 0)
  | .s16 => .ok (value.low 16 &&& 0x7FFF == 0)
  | .s32 => .ok (value.low 32 &&& 0x7FFFFFFF == 0)
  | .s64 => .ok (value.low 64 &&& 0x7FFFFFFFFFFFFFFF == 0)
  | .u8 | .b8 => .ok (value.low 8 == 0)
  | .u16 | .b16 => .ok (value.low 16 == 0)
  | .u32 | .b32 => .ok (value.low 32 == 0)
  | .u64 | .b64 => .ok (value.low 64 == 0)
  | .f16 => .ok (floatKey (value.low 16) == 0)
  | .f32 => .ok (floatKey (value.low 32) == 0)
  | .f64 => .ok (floatKey (value.low 64) == 0)
  | .pred => .error .typeMismatch

/-- `1 << (size - 1)`, where `wide` is `1 << 63`. -/
def signMask (wide : BitVec 32) (size : ℕ) : BitVec 32 :=
  if size - 1 < 32 then (1 : BitVec 32) <<< (size - 1) else wide

/-- The test for the sign bit. -/
def signFlag (wide : BitVec 32) (type : ScalarType) (value : PtxReg) : Bool :=
  if type.isInteger then value.u32 &&& signMask wide type.size != 0
  else type == .f32 && decide (floatKey value.u32 < 0) && !isNaN 23 value.u32

/-- `set_operand_value`, for a doubled destination of a predicate and a data register. -/
def setDoubleOperandValue (wide : BitVec 32) (regs : RegisterFile) (dst : DoubleDestination)
    (data : PtxReg) (type : ScalarType) : Except ExecFailure RegisterFile := do
  let zero ← zeroFlag type data
  let predValue : BitVec 64 :=
    (if zero then (1 : BitVec 64) else 0) |||
    (if signFlag wide type data then (1 : BitVec 64) <<< 1 else 0)
  let setValue := setOperandValue regs ⟨dst.regName, dst.lohi⟩ data dst.regName
  return Function.update (Function.update regs dst.predName ⟨predValue⟩) dst.regName setValue

/-! ## What the destination should get -/

/-- The bits of a register that a half selection writes. -/
def OperandHalf.Selects : OperandHalf → ℕ → Prop
  | .whole, _ => True
  | .lo, i => i < 16
  | .hi, i => 16 ≤ i ∧ i < 32

instance (lohi : OperandHalf) (i : ℕ) : Decidable (lohi.Selects i) :=
  match lohi with
  | .whole => inferInstanceAs (Decidable True)
  | .lo => inferInstanceAs (Decidable (i < 16))
  | .hi => inferInstanceAs (Decidable (_ ∧ _))

/-- Where the data go. -/
def OperandHalf.offset : OperandHalf → ℕ
  | .whole | .lo => 0
  | .hi => 16

/-- The zero bit and the sign bit are those of the data of the type, and the selected bits of
the register are those of the data, the others what they were. -/
structure ConditionCodeExact (regs regs' : RegisterFile) (dst : DoubleDestination)
    (data : PtxReg) (type : ScalarType) : Prop where
  zero : (regs' dst.predName).u64.getLsbD 0 = true ↔ data.low type.size = 0
  sign : (regs' dst.predName).u64.getLsbD 1 = true ↔ (data.low type.size).msb = true
  written : ∀ i < 64, (regs' dst.regName).u64.getLsbD i =
    if dst.lohi.Selects i then data.u64.getLsbD (i - dst.lohi.offset)
    else (regs dst.regName).u64.getLsbD i

/-- The data and the destination for which all tests are right: not the least number of a
signed type, a 64-bit number whose sign is in the lower word where the test looks for it, and
no upper half of a register with something above it. -/
structure Coded (wide : BitVec 32) (regs : RegisterFile) (dst : DoubleDestination)
    (data : PtxReg) (type : ScalarType) : Prop where
  notLeast : type.isSigned = true → data.low type.size ≠ BitVec.intMin type.size
  wideSign : type.size = 64 → (data.u32 &&& wide ≠ 0 ↔ data.u64.msb = true)
  upperWord : dst.lohi = .hi → (regs dst.regName).u64 >>> 32 = 0

/-! ## The tests -/

section Tests

variable {w : ℕ} {wide : BitVec 32} {type : ScalarType} {data : PtxReg}

theorem and_intMax_eq_zero (hw : 0 < w) (x : BitVec w) :
    x &&& BitVec.intMax w = 0 ↔ x = 0 ∨ x = BitVec.intMin w := by
  have hpow : 2 ^ w = 2 * 2 ^ (w - 1) := by
    rw [← Nat.pow_succ', Nat.succ_eq_add_one, Nat.sub_add_cancel hw]
  have hpos : 0 < 2 ^ (w - 1) := Nat.two_pow_pos _
  have hx : x.toNat < 2 * 2 ^ (w - 1) := hpow ▸ x.isLt
  have hmin : (BitVec.intMin w).toNat = 2 ^ (w - 1) := by
    rw [BitVec.toNat_intMin, Nat.mod_eq_of_lt (by omega)]
  have hmax : (BitVec.intMax w).toNat = 2 ^ (w - 1) - 1 := BitVec.toNat_intMax
  have hzero : (0 : BitVec w).toNat = 0 := rfl
  rw [← BitVec.toNat_inj, ← BitVec.toNat_inj, ← BitVec.toNat_inj, BitVec.toNat_and, hmax, hmin,
    hzero, Nat.and_two_pow_sub_one_eq_mod]
  generalize 2 ^ (w - 1) = m at hx hpos
  constructor
  · intro hmod
    rcases Nat.lt_or_ge x.toNat m with hlt | hge
    · exact .inl ((Nat.mod_eq_of_lt hlt).symm.trans hmod)
    · rw [Nat.mod_eq_sub_mod hge, Nat.mod_eq_of_lt (by omega)] at hmod
      exact .inr (by omega)
  · rintro (h | h) <;> rw [h]
    · exact Nat.zero_mod m
    · exact Nat.mod_self m

theorem signedZero_iff (hw : 0 < w) (x : BitVec w) :
    (((x &&& BitVec.intMax w) == 0) = true ↔ x = 0) ↔ x ≠ BitVec.intMin w := by
  have hne : BitVec.intMin w ≠ 0 := by
    intro heq
    have hnot := BitVec.getLsbD_intMin w (i := w - 1)
    rw [heq] at hnot
    simp at hnot
    omega
  rw [beq_iff_eq, and_intMax_eq_zero hw]
  constructor
  · rintro h rfl
    exact hne (h.mp (.inr rfl))
  · intro h
    exact or_iff_left h

theorem zeroFlag_eq (htype : type.isInteger = true) (data : PtxReg) :
    ∃ zero, zeroFlag type data = .ok zero ∧
      ((zero = true ↔ data.low type.size = 0) ↔
        (type.isSigned = true → data.low type.size ≠ BitVec.intMin type.size)) := by
  have hsigned : ∀ {w : ℕ} {mask : BitVec w} {p : Prop}, 0 < w → p → mask = BitVec.intMax w →
      (((data.low w &&& mask == 0) = true ↔ data.low w = 0) ↔
        (p → data.low w ≠ BitVec.intMin w)) := by
    rintro w _ p hw hp rfl
    rw [signedZero_iff hw]
    exact (imp_iff_right hp).symm
  cases type with
  | s8 => exact ⟨_, rfl, hsigned (w := 8) (by decide) rfl rfl⟩
  | s16 => exact ⟨_, rfl, hsigned (w := 16) (by decide) rfl rfl⟩
  | s32 => exact ⟨_, rfl, hsigned (w := 32) (by decide) rfl rfl⟩
  | s64 => exact ⟨_, rfl, hsigned (w := 64) (by decide) rfl rfl⟩
  | f16 | f32 | f64 | pred => cases htype
  | _ => exact ⟨_, rfl, by simp [ScalarType.isSigned, ScalarType.size]⟩

theorem signFlag_iff (htype : type.isInteger = true) (wide : BitVec 32) (data : PtxReg) :
    (signFlag wide type data = true ↔ (data.low type.size).msb = true) ↔
      (type.size = 64 → (data.u32 &&& wide ≠ 0 ↔ data.u64.msb = true)) := by
  have hflag : signFlag wide type data = (data.u32 &&& signMask wide type.size != 0) :=
    if_pos htype
  rw [hflag, bne_iff_ne]
  have hnarrow : ∀ w, 0 < w → w ≤ 32 →
      (data.u32 &&& signMask wide w ≠ 0 ↔ (data.low w).msb = true) := by
    intro w hpos hw
    have hlt : w - 1 < 32 := by omega
    have hlt' : w - 1 < w := by omega
    have hone : (1 : BitVec 32) <<< (w - 1) = BitVec.twoPow 32 (w - 1) :=
      (BitVec.twoPow_eq 32 (w - 1)).symm
    have hne : BitVec.twoPow 32 (w - 1) ≠ 0#32 := by
      intro heq
      have hbit := BitVec.getLsbD_twoPow (w := 32) (w - 1) (w - 1)
      rw [heq] at hbit
      simp [hlt] at hbit
    rw [signMask, if_pos hlt, hone, BitVec.and_twoPow, BitVec.msb_eq_getLsbD_last]
    simp [PtxReg.low, hlt, hlt', hne]
  rcases Nat.lt_or_ge 32 type.size with hwide | hsmall
  · have hsize : type.size = 64 := by
      cases type <;> first | rfl | exact absurd hwide (by decide)
    have hmask : signMask wide type.size = wide := by
      rw [hsize]
      rfl
    have hlow : (data.low type.size).msb = data.u64.msb := by
      rw [hsize, PtxReg.low, BitVec.setWidth_eq]
    rw [hmask, hlow]
    exact (imp_iff_right hsize).symm
  · have hpos : 0 < type.size := by cases type <;> decide
    have hsize : type.size ≠ 64 := by omega
    exact iff_of_true (hnarrow _ hpos hsmall) fun h => absurd h hsize

end Tests

/-! ## The data register -/

theorem getLsbD_lowHalf (old data : BitVec 64) {i : ℕ} (hi : i < 64) :
    ((old &&& 0xFFFFFFFFFFFF0000) + (data &&& 0xFFFF)).getLsbD i =
      if i < 16 then data.getLsbD i else old.getLsbD i := by
  have hlow : ∀ j < 64, (0xFFFF : BitVec 64).getLsbD j = decide (j < 16) := by decide
  have hhigh : ∀ j < 64, (0xFFFFFFFFFFFF0000 : BitVec 64).getLsbD j = !decide (j < 16) := by
    decide
  have hand : (old &&& 0xFFFFFFFFFFFF0000) &&& (data &&& 0xFFFF) = 0#64 := by
    apply BitVec.eq_of_getLsbD_eq
    intro j hj
    simp only [BitVec.getLsbD_and, hlow j hj, hhigh j hj, BitVec.getLsbD_zero]
    cases decide (j < 16) <;> simp
  rw [BitVec.add_eq_or_of_and_eq_zero _ _ hand, BitVec.getLsbD_or, BitVec.getLsbD_and,
    BitVec.getLsbD_and, hlow i hi, hhigh i hi]
  by_cases hsel : i < 16 <;> simp [hsel]

theorem getLsbD_highHalf (old data : BitVec 64) {i : ℕ} (hi : i < 64) :
    ((old &&& (0xFFFF : BitVec 64)) + ((data <<< 16) &&& (0xFFFF0000 : BitVec 64))).getLsbD i =
      if i < 16 then old.getLsbD i else decide (i < 32) && data.getLsbD (i - 16) := by
  have hlow : ∀ j < 64, (0xFFFF : BitVec 64).getLsbD j = decide (j < 16) := by decide
  have hhigh : ∀ j < 64, (0xFFFF0000 : BitVec 64).getLsbD j =
      (!decide (j < 16) && decide (j < 32)) := by
    decide
  have hand : (old &&& (0xFFFF : BitVec 64)) &&& ((data <<< 16) &&& (0xFFFF0000 : BitVec 64)) =
      0#64 := by
    apply BitVec.eq_of_getLsbD_eq
    intro j hj
    simp only [BitVec.getLsbD_and, hlow j hj, hhigh j hj, BitVec.getLsbD_zero]
    cases decide (j < 16) <;> simp
  rw [BitVec.add_eq_or_of_and_eq_zero _ _ hand, BitVec.getLsbD_or, BitVec.getLsbD_and,
    BitVec.getLsbD_and, hlow i hi, hhigh i hi, BitVec.getLsbD_shiftLeft]
  by_cases hsel : i < 16 <;> simp [hsel, hi, Bool.and_comm]

theorem written_iff (regs : RegisterFile) (dst : DoubleDestination) (data : PtxReg) :
    (∀ i < 64, (setOperandValue regs ⟨dst.regName, dst.lohi⟩ data dst.regName).u64.getLsbD i =
        if dst.lohi.Selects i then data.u64.getLsbD (i - dst.lohi.offset)
        else (regs dst.regName).u64.getLsbD i) ↔
      (dst.lohi = .hi → (regs dst.regName).u64 >>> 32 = 0) := by
  rw [setOperandValue, Function.update_self]
  cases dst.lohi with
  | whole => simp [OperandHalf.Selects, OperandHalf.offset]
  | lo =>
      refine iff_of_true (fun i hi => ?_) fun h => by cases h
      exact getLsbD_lowHalf (regs dst.regName).u64 data.u64 hi
  | hi =>
      rw [imp_iff_right rfl]
      have hword := fun i hi => @getLsbD_highHalf (regs dst.regName).u64 data.u64 i hi
      constructor
      · intro h
        apply BitVec.eq_of_getLsbD_eq
        intro i _
        have hnone : (0 : BitVec 64).getLsbD i = false := BitVec.getLsbD_zero
        rw [BitVec.getLsbD_ushiftRight, hnone]
        rcases Nat.lt_or_ge (32 + i) 64 with hlt | hge
        · have hbit := (hword (32 + i) hlt).symm.trans (h (32 + i) hlt)
          have hout : ¬ OperandHalf.hi.Selects (32 + i) := fun hsel => by
            have := hsel.2
            omega
          rw [if_neg hout, if_neg (by omega), decide_eq_false (by omega), Bool.false_and] at hbit
          exact hbit.symm
        · exact BitVec.getLsbD_of_ge _ _ hge
      · intro h i hi
        refine (hword i hi).trans ?_
        have habove : ∀ j, 32 ≤ j → (regs dst.regName).u64.getLsbD j = false := by
          intro j hj
          have hbit := congrArg (fun x => BitVec.getLsbD x (j - 32)) h
          simpa [Nat.add_sub_cancel' hj] using hbit
        rcases Nat.lt_or_ge i 16 with hlow | hlow
        · have hout : ¬ OperandHalf.hi.Selects i :=
            fun hsel => absurd hsel.1 (Nat.not_le_of_lt hlow)
          rw [if_pos hlow, if_neg hout]
        · rw [if_neg (Nat.not_lt_of_le hlow)]
          rcases Nat.lt_or_ge i 32 with hin | hin
          · have hsel : OperandHalf.hi.Selects i := ⟨hlow, hin⟩
            rw [if_pos hsel, decide_eq_true hin, Bool.true_and]
            rfl
          · have hout : ¬ OperandHalf.hi.Selects i :=
              fun hsel => absurd hsel.2 (Nat.not_lt_of_le hin)
            rw [if_neg hout, decide_eq_false (Nat.not_lt_of_le hin), Bool.false_and,
              habove i hin]

theorem setDoubleOperandValue_ok (wide : BitVec 32) (regs : RegisterFile)
    (dst : DoubleDestination) (data : PtxReg) {type : ScalarType} (htype : type.isInteger = true) :
    ∃ regs', setDoubleOperandValue wide regs dst data type = .ok regs' := by
  obtain ⟨zero, hzero, -⟩ := zeroFlag_eq htype data
  rw [setDoubleOperandValue, hzero]
  exact ⟨_, rfl⟩

/-! ## The condition code -/

/-- For every integer type, all data and every half selection: the zero bit and the sign bit are
those of the data and exactly the selected bits are written if and only if the data are not
the least number of a signed type, the sign of 64 bits is where the test looks for it, and an
upper half that is written has nothing above it. -/
theorem conditionCodeExact_iff (wide : BitVec 32) (regs : RegisterFile) (dst : DoubleDestination)
    (data : PtxReg) (type : ScalarType) (htype : type.isInteger = true) :
    (∃ regs', setDoubleOperandValue wide regs dst data type = .ok regs' ∧
        ConditionCodeExact regs regs' dst data type) ↔
      Coded wide regs dst data type := by
  obtain ⟨zero, hzero, hzeroIff⟩ := zeroFlag_eq htype data
  have hsignIff := signFlag_iff htype wide data
  have hwrittenIff := written_iff regs dst data
  let predValue : BitVec 64 :=
    (if zero then (1 : BitVec 64) else 0) |||
    (if signFlag wide type data then (1 : BitVec 64) <<< 1 else 0)
  let setValue := setOperandValue regs ⟨dst.regName, dst.lohi⟩ data dst.regName
  let regs' := Function.update (Function.update regs dst.predName ⟨predValue⟩) dst.regName setValue
  have hrun : setDoubleOperandValue wide regs dst data type = .ok regs' := by
    rw [setDoubleOperandValue, hzero]
    rfl
  have hpredReg : regs' dst.predName = ⟨predValue⟩ := by
    simp only [regs', Function.update_of_ne dst.distinct, Function.update_self]
  have hpred : (regs' dst.predName).u64 = predValue := congrArg PtxReg.u64 hpredReg
  have hreg : regs' dst.regName = setValue := Function.update_self ..
  have hbits : predValue.getLsbD 0 = zero ∧ predValue.getLsbD 1 = signFlag wide type data := by
    show BitVec.getLsbD (_ ||| _) 0 = _ ∧ BitVec.getLsbD (_ ||| _) 1 = _
    cases zero <;> cases signFlag wide type data <;> decide
  constructor
  · rintro ⟨result, hresult, hexact⟩
    rw [hrun] at hresult
    cases hresult
    constructor
    · refine hzeroIff.mp ?_
      rw [← hexact.zero, hpred, hbits.1]
    · refine hsignIff.mp ?_
      rw [← hexact.sign, hpred, hbits.2]
    · refine hwrittenIff.mp fun i hi => ?_
      have hbit := hexact.written i hi
      rw [hreg] at hbit
      exact hbit
  · intro hcoded
    refine ⟨regs', hrun, ?_, ?_, ?_⟩
    · rw [hpred, hbits.1]
      exact hzeroIff.mpr hcoded.notLeast
    · rw [hpred, hbits.2]
      exact hsignIff.mpr hcoded.wideSign
    · intro i hi
      rw [hreg]
      exact hwrittenIff.mpr hcoded.upperWord i hi

/-- A positive number of 32 bits goes to the upper half of a register that holds a word. -/
theorem conditionCodeExact_upperHalf :
    ∃ regs', setDoubleOperandValue 0 (fun _ => ⟨0x12345678⟩) ⟨1, 2, .hi, by decide⟩ ⟨0xABCD⟩ .s32 =
        .ok regs' ∧
      ConditionCodeExact (fun _ => ⟨0x12345678⟩) regs' ⟨1, 2, .hi, by decide⟩ ⟨0xABCD⟩ .s32 := by
  apply (conditionCodeExact_iff _ _ _ _ .s32 rfl).mpr
  exact ⟨fun _ => by decide, fun h => absurd h (by decide), fun _ => by decide⟩

/-- The least signed byte gets the zero bit; on a processor that shifts by 63 as by 31, a
64-bit number with its highest bit set gets no sign bit; and when the upper half of a register
is written, the word above it is lost. -/
theorem not_conditionCodeExact_extreme :
    (∃ regs', setDoubleOperandValue 0x80000000 (fun _ => ⟨0⟩) ⟨1, 2, .whole, by decide⟩ ⟨0x80⟩
        .s8 = .ok regs' ∧ (regs' 1).u64.getLsbD 0 = true ∧
          ¬ ConditionCodeExact (fun _ => ⟨0⟩) regs' ⟨1, 2, .whole, by decide⟩ ⟨0x80⟩ .s8) ∧
      (∃ regs', setDoubleOperandValue 0x80000000 (fun _ => ⟨0⟩) ⟨1, 2, .whole, by decide⟩
          ⟨0x8000000000000000⟩ .u64 = .ok regs' ∧ (regs' 1).u64.getLsbD 1 = false ∧
            ¬ ConditionCodeExact (fun _ => ⟨0⟩) regs' ⟨1, 2, .whole, by decide⟩
              ⟨0x8000000000000000⟩ .u64) ∧
      ∃ regs', setDoubleOperandValue 0x80000000 (fun _ => ⟨0x100000000⟩) ⟨1, 2, .hi, by decide⟩
          ⟨1⟩ .u32 = .ok regs' ∧ (regs' 2).u64 = 0x10000 ∧
            ¬ ConditionCodeExact (fun _ => ⟨0x100000000⟩) regs' ⟨1, 2, .hi, by decide⟩ ⟨1⟩
              .u32 := by
  refine ⟨⟨_, rfl, by decide, fun h => ?_⟩, ⟨_, rfl, by decide, fun h => ?_⟩,
    ⟨_, rfl, by decide, fun h => ?_⟩⟩
  · exact absurd h.zero (by decide)
  · exact absurd h.sign (by decide)
  · exact absurd (h.written 32 (by decide)) (by decide)

end GpuCalorie.Instructions
