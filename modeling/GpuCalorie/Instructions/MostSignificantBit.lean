/-
# Where does bfind find a bit?

The loop of `bfind_impl` counts down from the most significant bit and ends at the first bit that
is set, so that it finds the right one if there is one. If there is none, its unsigned counter
passes zero, the loop goes on, and the next mask is made by a shift by the largest number. The
masks are `int`s; the first one for a 64-bit operand would be `1 << 63`.
-/

import GpuCalorie.Instructions.BitFieldInsert

namespace GpuCalorie.Instructions

/-- The number whose bits are looked for: the complement of a negative signed one. -/
def findOperand {w : ℕ} (signed : Bool) (x : BitVec w) : BitVec w :=
  if signed = true ∧ x.msb = true then ~~~x else x

/-- The index of the most significant bit that is set, if there is one. -/
def IsMostSignificant {w : ℕ} (x : BitVec w) (d : BitVec 32) : Prop :=
  if x = 0 then d = 0xFFFFFFFF
  else x.getLsbD d.toNat = true ∧ ∀ i, d.toNat < i → x.getLsbD i = false

/-! ## The bits of an extended operand -/

section Test

variable {a : BitVec 64} {i : ℕ}

theorem testBit_of_lt (hi : i < 31) : testBit a i = .ok (a.getLsbD i) := by
  have hmask : ((1 : BitVec 32) <<< i).signExtend 64 = (1 : BitVec 64) <<< i := by
    apply BitVec.eq_of_getLsbD_eq
    intro j hj
    rw [BitVec.getLsbD_signExtend, getLsbD_one_shiftLeft (by omega), BitVec.msb_eq_getLsbD_last,
      getLsbD_one_shiftLeft (by omega), getLsbD_one_shiftLeft (by omega)]
    by_cases hlow : j < 32
    · simp [hj, hlow]
    · have hne : ¬ i = j := by omega
      have hlast : ¬ i = 32 - 1 := by omega
      simp [hlow, hne, hlast]
  have hbit := and_one_shiftLeft (x := a) (show i < 64 by omega)
  rw [testBit, shiftLeft_ok (by omega), ok_bind, hmask]
  by_cases h : a.getLsbD i = true
  · rw [h]
    exact congrArg Except.ok (decide_eq_true (hbit.mpr h))
  · rw [Bool.eq_false_of_not_eq_true h]
    exact congrArg Except.ok (decide_eq_false fun hne => h (hbit.mp hne))

theorem testBit_sign :
    ∃ b, testBit a 31 = .ok b ∧ (b = true ↔ ∃ j < 64, 31 ≤ j ∧ a.getLsbD j = true) := by
  have hmask : ∀ j < 64, (((1 : BitVec 32) <<< 31).signExtend 64).getLsbD j = decide (31 ≤ j) := by
    decide
  rw [testBit, shiftLeft_ok (by decide), ok_bind]
  refine ⟨_, rfl, decide_eq_true_iff.trans ⟨fun hne => ?_, ?_⟩⟩
  · by_contra hnone
    apply hne
    apply BitVec.eq_of_getLsbD_eq
    intro j hj
    rw [BitVec.getLsbD_and, hmask j hj, BitVec.ofNat_eq_ofNat, BitVec.getLsbD_zero]
    by_cases hhigh : 31 ≤ j
    · have hbit : a.getLsbD j = false :=
        Bool.eq_false_of_not_eq_true fun h => hnone ⟨j, hj, hhigh, h⟩
      rw [hbit, Bool.false_and]
    · rw [decide_eq_false hhigh, Bool.and_false]
  · rintro ⟨j, hj, hhigh, hbit⟩ hzero
    have h := congrArg (fun y => y.getLsbD j) hzero
    simp only [BitVec.getLsbD_and, hmask j hj, hbit, hhigh] at h
    simp at h

theorem testBit_setWidth {x : BitVec 32} (hi : i < 32) :
    testBit (x.setWidth 64) i = .ok (x.getLsbD i) := by
  by_cases hlast : i = 31
  · subst hlast
    obtain ⟨b, htest, hb⟩ := testBit_sign (a := x.setWidth 64)
    have hiff : (∃ j < 64, 31 ≤ j ∧ (x.setWidth 64).getLsbD j = true) ↔ x.getLsbD 31 = true := by
      constructor
      · rintro ⟨j, hj, hhigh, hbit⟩
        rw [BitVec.getLsbD_setWidth, decide_eq_true hj, Bool.true_and] at hbit
        have hlt : j < 32 := BitVec.lt_of_getLsbD hbit
        have heq : j = 31 := by omega
        rw [← heq, hbit]
      · intro hbit
        exact ⟨31, by decide, le_rfl, by rw [BitVec.getLsbD_setWidth, hbit]; rfl⟩
    rw [htest, Bool.eq_iff_iff.mpr (hb.trans hiff)]
  · have hi' : i < 64 := by omega
    rw [testBit_of_lt (by omega), BitVec.getLsbD_setWidth, decide_eq_true hi', Bool.true_and]

end Test

/-! ## The loop -/

variable {x : BitVec 32} {i fuel : ℕ}

theorem ofNat_succ_sub_one : BitVec.ofNat 32 (i + 1) - 1 = BitVec.ofNat 32 i := by
  apply BitVec.eq_of_toNat_eq
  rw [BitVec.toNat_sub, BitVec.toNat_ofNat, BitVec.toNat_ofNat]
  have hone : (1 : BitVec 32).toNat = 1 := rfl
  rw [hone]
  omega

theorem bfindFrom_ok (hi : i < 32) (hset : ∃ j ≤ i, x.getLsbD j = true) :
    ∃ d ≤ i, bfindFrom (x.setWidth 64) (i + 1) (BitVec.ofNat 32 i) = .ok (BitVec.ofNat 32 d) ∧
      x.getLsbD d = true ∧ ∀ j, d < j → j ≤ i → x.getLsbD j = false := by
  induction i with
  | zero =>
      obtain ⟨j, hj, hbit⟩ := hset
      have hzero : j = 0 := by omega
      subst hzero
      refine ⟨0, le_rfl, ?_, hbit, fun j hj hle => by omega⟩
      have htest : testBit (x.setWidth 64) (BitVec.ofNat 32 0).toNat = .ok (x.getLsbD 0) :=
        testBit_setWidth (by decide)
      rw [bfindFrom, htest, ok_bind, hbit]
      rfl
  | succ i ih =>
      have hnat : (BitVec.ofNat 32 (i + 1)).toNat = i + 1 := by
        rw [BitVec.toNat_ofNat]
        omega
      by_cases hbit : x.getLsbD (i + 1) = true
      · refine ⟨i + 1, le_rfl, ?_, hbit, fun j hj hle => by omega⟩
        rw [bfindFrom, hnat, testBit_setWidth hi, ok_bind, hbit]
        rfl
      · obtain ⟨j, hj, hjbit⟩ := hset
        have hlt : j ≤ i := by
          have hne : j ≠ i + 1 := fun h => hbit (h ▸ hjbit)
          omega
        obtain ⟨d, hd, hrun, hdbit, habove⟩ := ih (by omega) ⟨j, hlt, hjbit⟩
        refine ⟨d, by omega, ?_, hdbit, fun k hk hle => ?_⟩
        · rw [bfindFrom, hnat, testBit_setWidth hi, ok_bind, Bool.eq_false_of_not_eq_true hbit,
            ofNat_succ_sub_one, hrun]
          rfl
        · by_cases hlast : k = i + 1
          · rw [hlast]
            exact Bool.eq_false_of_not_eq_true hbit
          · exact habove k hk (by omega)

theorem bfindFrom_zero (hi : i < 32) (fuel : ℕ) :
    ∃ e, bfindFrom ((0#32).setWidth 64) fuel (BitVec.ofNat 32 i) = .error e := by
  induction i generalizing fuel with
  | zero =>
      match fuel with
      | 0 => exact ⟨_, rfl⟩
      | 1 => exact ⟨_, rfl⟩
      | n + 2 => exact ⟨.shiftAmount, rfl⟩
  | succ i ih =>
      cases fuel with
      | zero => exact ⟨_, rfl⟩
      | succ fuel =>
          obtain ⟨e, he⟩ := ih (by omega) fuel
          have hnat : (BitVec.ofNat 32 (i + 1)).toNat = i + 1 := by
            rw [BitVec.toNat_ofNat]
            omega
          refine ⟨e, ?_⟩
          rw [bfindFrom, hnat, testBit_setWidth hi, ok_bind, BitVec.getLsbD_zero,
            ofNat_succ_sub_one, he]
          rfl

theorem bfindFrom_iff :
    (∃ fuel d, bfindFrom (x.setWidth 64) fuel 31#32 = .ok d ∧ IsMostSignificant x d) ↔ x ≠ 0 := by
  constructor
  · rintro ⟨fuel, d, hrun, -⟩ (hzero : x = 0#32)
    obtain ⟨e, he⟩ := bfindFrom_zero (show 31 < 32 by decide) fuel
    rw [hzero, he] at hrun
    cases hrun
  · intro hne
    have hset : ∃ j ≤ 31, x.getLsbD j = true := by
      by_contra hnone
      apply hne
      apply BitVec.eq_of_getLsbD_eq
      intro j hj
      rw [BitVec.ofNat_eq_ofNat, BitVec.getLsbD_zero]
      exact Bool.eq_false_of_not_eq_true fun h => hnone ⟨j, by omega, h⟩
    obtain ⟨d, hd, hrun, hbit, habove⟩ := bfindFrom_ok (show 31 < 32 by decide) hset
    have hnat : (BitVec.ofNat 32 d).toNat = d := by
      rw [BitVec.toNat_ofNat]
      omega
    refine ⟨32, _, hrun, ?_⟩
    rw [IsMostSignificant, if_neg hne, hnat]
    refine ⟨hbit, fun i hi => ?_⟩
    by_cases hlt : i < 32
    · exact habove i hi (by omega)
    · exact BitVec.getLsbD_of_ge x i (Nat.not_lt.mp hlt)

/-! ## The operand -/

theorem findOperand_s32 :
    ∃ negative, testBit (x.signExtend 64) 31 = .ok negative ∧
      (if negative then ~~~(x.signExtend 64) else x.signExtend 64) =
        (findOperand true x).setWidth 64 := by
  have hsign : (∃ j < 64, 31 ≤ j ∧ (x.signExtend 64).getLsbD j = true) ↔ x.msb = true := by
    constructor
    · rintro ⟨j, hj, hhigh, hbit⟩
      rw [BitVec.getLsbD_signExtend, decide_eq_true hj, Bool.true_and] at hbit
      by_cases hlast : j < 32
      · have heq : j = 32 - 1 := by omega
        rw [if_pos hlast, heq, ← BitVec.msb_eq_getLsbD_last] at hbit
        exact hbit
      · rw [if_neg hlast] at hbit
        exact hbit
    · intro hmsb
      refine ⟨63, by decide, by decide, ?_⟩
      rw [BitVec.getLsbD_signExtend, hmsb]
      rfl
  obtain ⟨negative, htest, hnegative⟩ := testBit_sign (a := x.signExtend 64)
  refine ⟨negative, htest, ?_⟩
  rw [findOperand]
  by_cases hmsb : x.msb = true
  · rw [if_pos ((hnegative.trans hsign).mpr hmsb), if_pos ⟨rfl, hmsb⟩]
    apply BitVec.eq_of_getLsbD_eq
    intro j hj
    rw [BitVec.getLsbD_not, BitVec.getLsbD_signExtend, BitVec.getLsbD_setWidth, BitVec.getLsbD_not,
      hmsb]
    by_cases hlt : j < 32
    · simp [hj, hlt]
    · simp [hlt]
  · rw [if_neg fun h => hmsb ((hnegative.trans hsign).mp h), if_neg fun h => hmsb h.2]
    apply BitVec.eq_of_getLsbD_eq
    intro j hj
    rw [BitVec.getLsbD_signExtend, BitVec.getLsbD_setWidth, Bool.eq_false_of_not_eq_true hmsb]
    by_cases hlt : j < 32
    · simp [hlt]
    · simp [hlt, BitVec.getLsbD_of_ge x j (Nat.not_lt.mp hlt)]

/-! ## The instruction -/

variable {type : ScalarType} {a : PtxReg} {pI : UnaryInst} {regs : RegisterFile}

/-- `bfind_impl` ends with the right index. -/
def Finds (type : ScalarType) (a : PtxReg) (data : PtxReg) : Prop :=
  IsMostSignificant (findOperand type.isSigned (a.low type.size)) data.u32

theorem bfindData_iff (htype : type.isExtracted = true) :
    (∃ fuel data, bfindData type a fuel = .ok data ∧ Finds type a data) ↔
      type.size = 32 ∧ findOperand type.isSigned (a.low type.size) ≠ 0 := by
  have hstore : ∀ (y : BitVec 64) (z : BitVec 32),
      (∃ fuel data, (do return PtxReg.ofBits (← bfindFrom y fuel 31#32)) =
        (Except.ok data : Except BitFailure PtxReg) ∧ IsMostSignificant z data.u32) ↔
        ∃ fuel d, bfindFrom y fuel 31#32 = .ok d ∧ IsMostSignificant z d := fun y z =>
    exists_congr fun fuel => exists_map_ofBits (by decide) (IsMostSignificant z)
  cases type with
  | u32 =>
      have hrun : ∀ fuel, bfindData .u32 a fuel =
          (do return PtxReg.ofBits (← bfindFrom (a.u32.setWidth 64) fuel 31#32)) := fun fuel => rfl
      simp only [hrun]
      exact ((hstore _ _).trans bfindFrom_iff).trans ⟨fun h => ⟨rfl, h⟩, fun h => h.2⟩
  | s32 =>
      obtain ⟨negative, htest, hoperand⟩ := findOperand_s32 (x := a.u32)
      have hrun : ∀ fuel, bfindData .s32 a fuel =
          (do return .ofBits (← bfindFrom ((findOperand true a.u32).setWidth 64) fuel 31#32)) := by
        intro fuel
        have hmsb : (if ScalarType.s32 = .u32 ∨ ScalarType.s32 = .s32 then 31 else 63) = 31 := rfl
        rw [← hoperand, bfindData, bfindValue, ok_bind, if_pos (Or.inl rfl), hmsb, htest, ok_bind]
      simp only [hrun]
      exact ((hstore _ _).trans bfindFrom_iff).trans ⟨fun h => ⟨rfl, h⟩, fun h => h.2⟩
  | u64 =>
      refine iff_of_false ?_ fun h => absurd h.1 (by decide)
      rintro ⟨fuel, data, hrun, -⟩
      cases fuel with
      | zero => cases hrun
      | succ fuel => cases hrun
  | s64 =>
      refine iff_of_false ?_ fun h => absurd h.1 (by decide)
      rintro ⟨fuel, data, hrun, -⟩
      cases hrun
  | _ => cases htype

/-- For every type and operand, `bfind` ends with the index of the most significant bit, or with
`0xffffffff` if there is none, if and only if the type has 32 bits and there is one. -/
theorem bfindImpl_iff (htype : pI.type.isExtracted = true)
    (ha : getOperandValue regs pI.src1 pI.type = .ok a) :
    (∃ fuel regs', bfindImpl fuel pI regs = .ok regs' ∧ Finds pI.type a (regs' pI.dst)) ↔
      pI.type.size = 32 ∧ findOperand pI.type.isSigned (a.low pI.type.size) ≠ 0 := by
  rw [← bfindData_iff htype]
  refine exists_congr fun fuel => ?_
  rw [bfindImpl, bitOperand_ok ha, ok_bind]
  exact exists_write (Finds pI.type a)

/-- The most significant bit of the complement of -6 is bit 2. -/
theorem bfindImpl_negative :
    ∃ fuel regs', bfindImpl fuel ⟨.s32, 0, ⟨.literal ⟨0xFFFFFFFA⟩, .whole, false⟩⟩
        (fun _ => ⟨0⟩) = .ok regs' ∧ Finds .s32 ⟨0xFFFFFFFA⟩ (regs' 0) :=
  (@bfindImpl_iff _ ⟨.s32, 0, ⟨.literal ⟨0xFFFFFFFA⟩, .whole, false⟩⟩ _ rfl rfl).mpr
    ⟨rfl, by decide⟩

/-- Zero has no bit that is set, and the loop does not end with `0xffffffff`. -/
theorem not_bfindImpl_zero :
    ¬ ∀ (pI : UnaryInst) (regs : RegisterFile) (a : PtxReg), pI.type.isExtracted = true →
      getOperandValue regs pI.src1 pI.type = .ok a →
        ∃ fuel regs', bfindImpl fuel pI regs = .ok regs' ∧ Finds pI.type a (regs' pI.dst) := by
  intro hall
  obtain ⟨fuel, regs', hrun, hfinds⟩ :=
    hall ⟨.u32, 0, ⟨.literal ⟨0⟩, .whole, false⟩⟩ (fun _ => ⟨0⟩) ⟨0⟩ rfl rfl
  obtain ⟨e, he⟩ := bfindFrom_zero (show 31 < 32 by decide) fuel
  have herror : bfindImpl fuel ⟨.u32, 0, ⟨.literal ⟨0⟩, .whole, false⟩⟩ (fun _ => ⟨0⟩) =
      .error e := by
    show (bfindFrom ((0#32).setWidth 64) fuel 31#32 >>= _) >>= _ = _
    rw [he]
    rfl
  rw [herror] at hrun
  cases hrun

end GpuCalorie.Instructions
