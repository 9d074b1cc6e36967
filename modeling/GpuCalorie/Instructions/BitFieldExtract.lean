/-
# Which fields does bfe extract?

The masks of `bfe_impl` are made by shifts whose amounts are the length of the field or what it
lacks to the width, so that no mask is made for the empty field, for a field longer than a word,
and for a full signed one that is negative. Where all shifts have results the field is the right
one, also if it reaches beyond the most significant bit.
-/

import GpuCalorie.Instructions.BitField
import GpuCalorie.Instructions.ConditionCode

namespace GpuCalorie.Instructions

/-- A bit of a number that goes on beyond its width, with its sign if it has one. -/
def readBit {w : ℕ} (signed : Bool) (x : BitVec w) (i : ℕ) : Bool :=
  if i < w then x.getLsbD i else signed && x.msb

/-- The field of `len` bits from `pos` on, which goes on in the same way. -/
def IsField {w : ℕ} (signed : Bool) (x : BitVec w) (pos len : ℕ) (y : BitVec w) : Prop :=
  ∀ i < w, y.getLsbD i =
    if len = 0 then false
    else if i < len then readBit signed x (pos + i)
    else signed && readBit signed x (pos + len - 1)

/-- The fields that are extracted. -/
structure Extractable {w : ℕ} (signed : Bool) (x : BitVec w) (pos len : ℕ) : Prop where
  pos_lt : pos < w
  len_pos : 0 < len
  len_le : len ≤ w
  negative : signed = true → readBit signed x (pos + len - 1) = true → len < w

variable {w pos len : ℕ} {x y : BitVec w}

theorem lowByte_lt (r : PtxReg) : lowByte r < 256 := by
  rw [lowByte, BitVec.toNat_and]
  exact Nat.lt_of_le_of_lt Nat.and_le_right (by decide)

theorem ok_bind {ε α β : Type} (x : α) (f : α → Except ε β) : (Except.ok x >>= f) = f x :=
  rfl

/-! ## The amounts -/

theorem unsignedSub_of_le {a b : ℕ} (ha : a < 2 ^ 32) (hb : b ≤ a) : unsignedSub a b = a - b := by
  rw [unsignedSub]
  omega

theorem unsignedSub_lt (hw : w < 2 ^ 31) (hlen : len < 256) :
    unsignedSub w len < w ↔ 0 < len ∧ len ≤ w := by
  rw [unsignedSub]
  omega

/-! ## The masks -/

theorem getLsbD_allOnes_ushiftRight (hlen : len ≤ w) (i : ℕ) :
    (BitVec.allOnes w >>> (w - len)).getLsbD i = decide (i < len) := by
  rw [BitVec.getLsbD_ushiftRight, BitVec.getLsbD_allOnes, decide_eq_decide]
  omega

theorem getLsbD_allOnes_shiftLeft {i : ℕ} (hi : i < w) :
    (BitVec.allOnes w <<< len).getLsbD i = decide (len ≤ i) := by
  rw [BitVec.getLsbD_shiftLeft, BitVec.getLsbD_allOnes]
  by_cases h : i < len
  · simp [h]
  · have hlt : i - len < w := by omega
    simp [h, hi, hlt, Nat.not_lt.mp h]

/-! ## Unsigned fields -/

theorem bfeUnsigned_ok (hw : w < 2 ^ 31) (hpos : pos < w) (hlen : 0 < len) (hle : len ≤ w) :
    bfeUnsigned x pos len = .ok (x >>> pos &&& BitVec.allOnes w >>> (w - len)) := by
  have hsub : unsignedSub w len = w - len := unsignedSub_of_le (by omega) hle
  rw [bfeUnsigned, shiftRight_ok hpos, hsub, shiftRight_ok (by omega)]
  rfl

theorem isField_unsigned (hlen : 0 < len) (hle : len ≤ w) :
    IsField false x pos len (x >>> pos &&& BitVec.allOnes w >>> (w - len)) := by
  intro i _
  rw [BitVec.getLsbD_and, getLsbD_allOnes_ushiftRight hle, BitVec.getLsbD_ushiftRight,
    if_neg hlen.ne']
  by_cases hi : i < len
  · by_cases hbit : pos + i < w
    · simp [hi, readBit, hbit]
    · simp [hi, readBit, hbit, BitVec.getLsbD_of_ge x _ (Nat.not_lt.mp hbit)]
  · simp [hi]

theorem bfeUnsigned_iff (hw : w < 2 ^ 31) (hlen : len < 256) :
    (∃ y, bfeUnsigned x pos len = .ok y ∧ IsField false x pos len y) ↔
      Extractable false x pos len := by
  constructor
  · rintro ⟨y, hrun, -⟩
    by_cases hpos : pos < w
    · by_cases hmask : unsignedSub w len < w
      · obtain ⟨hzero, hle⟩ := (unsignedSub_lt hw hlen).mp hmask
        exact ⟨hpos, hzero, hle, fun h => absurd h Bool.false_ne_true⟩
      · rw [bfeUnsigned, shiftRight_ok hpos, shiftRight_error (Nat.not_lt.mp hmask)] at hrun
        cases hrun
    · rw [bfeUnsigned, shiftRight_error (Nat.not_lt.mp hpos)] at hrun
      cases hrun
  · intro h
    exact ⟨_, bfeUnsigned_ok hw h.pos_lt h.len_pos h.len_le,
      isField_unsigned h.len_pos h.len_le⟩

/-! ## Signed fields -/

theorem getLsbD_min (hw : 0 < w) (i : ℕ) : x.getLsbD (min i (w - 1)) = readBit true x i := by
  rw [readBit]
  split_ifs with hi
  · rw [Nat.min_eq_left (by omega)]
  · rw [Nat.min_eq_right (by omega), BitVec.msb_eq_getLsbD_last, Bool.true_and]

theorem getLsbD_sshiftRight_readBit {i : ℕ} (hi : i < w) :
    (x.sshiftRight pos).getLsbD i = readBit true x (pos + i) := by
  rw [BitVec.getLsbD_sshiftRight, readBit, Bool.true_and]
  simp [Nat.not_le.mpr hi]

theorem toNat_sshiftRight_and_one (hpos : pos < w) :
    0 < (x.sshiftRight pos &&& 1#w).toNat ↔ x.getLsbD pos = true := by
  have hbit : (x.sshiftRight pos).getLsbD 0 = x.getLsbD pos := by
    rw [BitVec.getLsbD_sshiftRight]
    have hne : w ≠ 0 := Nat.ne_zero_of_lt hpos
    simp [hpos, hne]
  have hone : (1#w).toNat = 1 := by
    rw [BitVec.toNat_ofNat]
    exact Nat.mod_eq_of_lt (Nat.one_lt_two_pow (Nat.ne_zero_of_lt hpos))
  rw [← hbit, BitVec.getLsbD, Nat.testBit_zero, BitVec.toNat_and, hone, Nat.and_one_is_mod,
    decide_eq_true_eq]
  omega

theorem fieldSign_ok (hw : w < 2 ^ 31) (hpos : pos < w) (hlen : 0 < len) (hlt : len < 256) :
    fieldSign x pos len = .ok (x.sshiftRight (min (pos + len - 1) (w - 1)) &&& 1) := by
  have hsub : unsignedSub (pos + len) 1 = pos + len - 1 := unsignedSub_of_le (by omega) (by omega)
  rw [fieldSign, if_neg hlen.ne', hsub, shiftRightSigned_ok (by omega)]
  rfl

theorem fieldSign_bit (hpos : pos < w) :
    0 < (x.sshiftRight (min (pos + len - 1) (w - 1)) &&& 1#w).toNat ↔
      readBit true x (pos + len - 1) = true := by
  rw [toNat_sshiftRight_and_one (by omega), getLsbD_min (by omega)]

theorem bfeSigned_of_negative (hw : w < 2 ^ 31) (hpos : pos < w) (hlen : 0 < len) (hlt : len < 256)
    (hsign : readBit true x (pos + len - 1) = true) :
    bfeSigned x pos len = do
      return x.sshiftRight pos ||| (← shiftLeft (BitVec.allOnes w) len) := by
  rw [bfeSigned, fieldSign_ok hw hpos hlen hlt, shiftRightSigned_ok hpos]
  exact if_pos ((fieldSign_bit hpos).mpr hsign)

theorem bfeSigned_of_not_negative (hw : w < 2 ^ 31) (hpos : pos < w) (hlen : 0 < len)
    (hlt : len < 256) (hsign : ¬ readBit true x (pos + len - 1) = true) :
    bfeSigned x pos len = do
      return x.sshiftRight pos &&& (← shiftRight (BitVec.allOnes w) (unsignedSub w len)) := by
  rw [bfeSigned, fieldSign_ok hw hpos hlen hlt, shiftRightSigned_ok hpos]
  exact if_neg fun h => hsign ((fieldSign_bit hpos).mp h)

theorem bfeSigned_zero (hw : w < 2 ^ 31) (hpos : pos < w) :
    bfeSigned x pos 0 = .error .shiftAmount := by
  have hsub : unsignedSub w 0 = w := unsignedSub_of_le (by omega) (Nat.zero_le w)
  have hzero : ¬ 0 < (0 : BitVec w).toNat := by simp
  have hmask : extendField 0 (x.sshiftRight pos) 0 = .error .shiftAmount := by
    rw [extendField, if_neg hzero, hsub, shiftRight_error le_rfl]
    rfl
  rw [bfeSigned, fieldSign, if_pos rfl, shiftRightSigned_ok hpos, ok_bind, ok_bind, hmask]

theorem isField_negative (hlen : 0 < len) (hsign : readBit true x (pos + len - 1) = true) :
    IsField true x pos len (x.sshiftRight pos ||| BitVec.allOnes w <<< len) := by
  intro i hi
  rw [BitVec.getLsbD_or, getLsbD_allOnes_shiftLeft hi, getLsbD_sshiftRight_readBit hi,
    if_neg hlen.ne', hsign]
  by_cases h : i < len
  · simp [h]
  · simp [h, Nat.not_lt.mp h]

theorem isField_not_negative (hlen : 0 < len) (hle : len ≤ w)
    (hsign : readBit true x (pos + len - 1) = false) :
    IsField true x pos len (x.sshiftRight pos &&& BitVec.allOnes w >>> (w - len)) := by
  intro i hi
  rw [BitVec.getLsbD_and, getLsbD_allOnes_ushiftRight hle, getLsbD_sshiftRight_readBit hi,
    if_neg hlen.ne', hsign]
  by_cases h : i < len <;> simp [h]

theorem bfeSigned_iff (hw : w < 2 ^ 31) (hlt : len < 256) :
    (∃ y, bfeSigned x pos len = .ok y ∧ IsField true x pos len y) ↔
      Extractable true x pos len := by
  by_cases hpos : pos < w
  case neg =>
    refine iff_of_false ?_ fun h => hpos h.pos_lt
    rintro ⟨y, hrun, -⟩
    rw [bfeSigned, shiftRightSigned_error (Nat.not_lt.mp hpos)] at hrun
    cases hsign : fieldSign x pos len with
    | error e => rw [hsign] at hrun; cases hrun
    | ok sbit => rw [hsign] at hrun; cases hrun
  rcases Nat.eq_zero_or_pos len with rfl | hlen
  · refine iff_of_false ?_ fun h => absurd h.len_pos (Nat.lt_irrefl 0)
    rintro ⟨y, hrun, -⟩
    rw [bfeSigned_zero hw hpos] at hrun
    cases hrun
  by_cases hsign : readBit true x (pos + len - 1) = true
  · rw [bfeSigned_of_negative hw hpos hlen hlt hsign]
    by_cases hmask : len < w
    · rw [shiftLeft_ok hmask]
      exact iff_of_true ⟨_, rfl, isField_negative hlen hsign⟩
        ⟨hpos, hlen, hmask.le, fun _ _ => hmask⟩
    · rw [shiftLeft_error (Nat.not_lt.mp hmask)]
      refine iff_of_false ?_ fun h => hmask (h.negative rfl hsign)
      rintro ⟨y, hrun, -⟩
      cases hrun
  · rw [bfeSigned_of_not_negative hw hpos hlen hlt hsign]
    by_cases hle : len ≤ w
    · have hsub : unsignedSub w len = w - len := unsignedSub_of_le (by omega) hle
      rw [hsub, shiftRight_ok (by omega)]
      exact iff_of_true
        ⟨_, rfl, isField_not_negative hlen hle (Bool.eq_false_of_not_eq_true hsign)⟩
        ⟨hpos, hlen, hle, fun _ h => absurd h hsign⟩
    · have hlarge : w ≤ unsignedSub w len :=
        Nat.not_lt.mp fun h => hle ((unsignedSub_lt hw hlt).mp h).2
      rw [shiftRight_error hlarge]
      refine iff_of_false ?_ fun h => hle h.len_le
      rintro ⟨y, hrun, -⟩
      cases hrun

/-! ## The instruction -/

/-- The types of `bfe`. -/
def ScalarType.isExtracted : ScalarType → Bool
  | .u32 | .u64 | .s32 | .s64 => true
  | _ => false

variable {type : ScalarType} {a b c : PtxReg} {pI : TernaryInst} {regs : RegisterFile}

theorem exists_map_ofBits {m : Except BitFailure (BitVec w)} (hw : w ≤ 64) (P : BitVec w → Prop) :
    (∃ data, (do return PtxReg.ofBits (← m)) = Except.ok data ∧ P (data.low w)) ↔
      ∃ y, m = .ok y ∧ P y := by
  have hlow : ∀ y : BitVec w, (PtxReg.ofBits y).low w = y := by
    intro y
    rw [PtxReg.low_ofBits, BitVec.setWidth_setWidth_of_le _ hw, BitVec.setWidth_eq]
  cases m with
  | error e =>
      refine iff_of_false ?_ ?_
      · rintro ⟨data, h, -⟩
        cases h
      · rintro ⟨y, h, -⟩
        cases h
  | ok y =>
      constructor
      · rintro ⟨data, h, hP⟩
        cases h
        exact ⟨y, rfl, hlow y ▸ hP⟩
      · rintro ⟨y', h, hP⟩
        cases h
        exact ⟨.ofBits y, rfl, (hlow y).symm ▸ hP⟩

theorem bfeData_iff (htype : type.isExtracted = true) :
    (∃ data, bfeData type a b c = .ok data ∧
        IsField type.isSigned (a.low type.size) (lowByte b) (lowByte c) (data.low type.size)) ↔
      Extractable type.isSigned (a.low type.size) (lowByte b) (lowByte c) := by
  have hlen := lowByte_lt c
  have hwhole : a.low 64 = a.u64 := BitVec.setWidth_eq ..
  cases type with
  | u32 =>
      exact (exists_map_ofBits (by decide) _).trans (bfeUnsigned_iff (by decide) hlen)
  | u64 =>
      show (∃ data, _ ∧ IsField false (a.low 64) _ _ _) ↔ Extractable false (a.low 64) _ _
      rw [hwhole]
      exact (exists_map_ofBits (by decide) _).trans (bfeUnsigned_iff (by decide) hlen)
  | s32 => exact (exists_map_ofBits (by decide) _).trans (bfeSigned_iff (by decide) hlen)
  | s64 =>
      show (∃ data, _ ∧ IsField true (a.low 64) _ _ _) ↔ Extractable true (a.low 64) _ _
      rw [hwhole]
      exact (exists_map_ofBits (by decide) _).trans (bfeSigned_iff (by decide) hlen)
  | _ => cases htype

theorem bitOperand_ok {op : Operand} (h : getOperandValue regs op type = .ok a) :
    bitOperand regs op type = .ok a := by
  rw [bitOperand, h]
  rfl

theorem exists_write {m : Except BitFailure PtxReg} {dst : ℕ} (P : PtxReg → Prop) :
    (∃ regs', (do return setOperandValue regs ⟨dst, .whole⟩ (← m)) = Except.ok regs' ∧
        P (regs' dst)) ↔ ∃ data, m = .ok data ∧ P data := by
  have hwrite : ∀ data, setOperandValue regs ⟨dst, .whole⟩ data dst = data := fun data =>
    Function.update_self ..
  cases m with
  | error e =>
      refine iff_of_false ?_ ?_
      · rintro ⟨regs', h, -⟩
        cases h
      · rintro ⟨data, h, -⟩
        cases h
  | ok data =>
      constructor
      · rintro ⟨regs', h, hP⟩
        cases h
        exact ⟨data, rfl, hwrite data ▸ hP⟩
      · rintro ⟨data', h, hP⟩
        cases h
        exact ⟨_, rfl, (hwrite data).symm ▸ hP⟩

/-- For every type, value, position and length, `bfe` makes no shift without a result and extracts
the field if and only if the position is below the width, the length is between one and the width,
and below it for a field of a signed type that is negative. -/
theorem bfeImpl_iff (htype : pI.type.isExtracted = true)
    (ha : getOperandValue regs pI.src1 pI.type = .ok a)
    (hb : getOperandValue regs pI.src2 pI.type = .ok b)
    (hc : getOperandValue regs pI.src3 pI.type = .ok c) :
    (∃ regs', bfeImpl pI regs = .ok regs' ∧
        IsField pI.type.isSigned (a.low pI.type.size) (lowByte b) (lowByte c)
          ((regs' pI.dst).low pI.type.size)) ↔
      Extractable pI.type.isSigned (a.low pI.type.size) (lowByte b) (lowByte c) := by
  rw [bfeImpl, bitOperand_ok ha, bitOperand_ok hb, bitOperand_ok hc, ok_bind, ok_bind, ok_bind,
    ← bfeData_iff htype]
  exact exists_write fun data =>
    IsField pI.type.isSigned (a.low pI.type.size) (lowByte b) (lowByte c) (data.low pI.type.size)

/-- A `bfe` of literals. -/
def bfeLiterals (type : ScalarType) (src pos len : BitVec 64) : TernaryInst where
  type := type
  dst := 0
  src1 := ⟨.literal ⟨src⟩, .whole, false⟩
  src2 := ⟨.literal ⟨pos⟩, .whole, false⟩
  src3 := ⟨.literal ⟨len⟩, .whole, false⟩

/-- The five bits from bit 60 of a negative number on, of which the last is its sign. -/
theorem bfeImpl_literals :
    ∃ regs', bfeImpl (bfeLiterals .s64 0xA000000000000000 60 5) (fun _ => ⟨0⟩) = .ok regs' ∧
      IsField true ((⟨0xA000000000000000⟩ : PtxReg).low 64) 60 5 ((regs' 0).low 64) :=
  (@bfeImpl_iff _ _ _ (bfeLiterals .s64 0xA000000000000000 60 5) _ rfl rfl rfl rfl).mpr
    ⟨by decide, by decide, by decide, fun _ _ => by decide⟩

/-- The empty field is zero, but the mask for it would be made by a shift by 32. -/
theorem not_bfeImpl_empty :
    ¬ ∀ (pI : TernaryInst) (regs : RegisterFile) (a b c : PtxReg), pI.type.isExtracted = true →
      getOperandValue regs pI.src1 pI.type = .ok a →
      getOperandValue regs pI.src2 pI.type = .ok b →
      getOperandValue regs pI.src3 pI.type = .ok c →
        ∃ regs', bfeImpl pI regs = .ok regs' ∧
          IsField pI.type.isSigned (a.low pI.type.size) (lowByte b) (lowByte c)
            ((regs' pI.dst).low pI.type.size) := by
  intro hall
  obtain ⟨regs', hrun, -⟩ :=
    hall (bfeLiterals .u32 0xFF 0 0) (fun _ => ⟨0⟩) ⟨0xFF⟩ ⟨0⟩ ⟨0⟩ rfl rfl rfl rfl
  have herror : bfeImpl (bfeLiterals .u32 0xFF 0 0) (fun _ => ⟨0⟩) = .error .shiftAmount := by
    rfl
  rw [herror] at hrun
  cases hrun

end GpuCalorie.Instructions
