/-
# Inserting and reversing bits

`bfi_impl` and `brev_impl` go over their bits one at a time, with masks `1 << i` that are 32 bits
wide. Words of 32 bits come out right. A word of 64 bits comes out right as long as the field that
is inserted ends in the lower half; no word of 64 bits can be reversed.
-/

import GpuCalorie.Instructions.BitFieldExtract

namespace GpuCalorie.Instructions

/-- The type with which the inserted field is read back. -/
def ScalarType.fieldType : ScalarType → ScalarType
  | .b32 => .u32
  | .b64 => .u64
  | type => type

/-- The laws of insertion: reading the field back gives the low bits of `a`, and the other bits
are those of `b`. The position and the length are in the registers `c` and `d`. -/
structure Inserts (type : ScalarType) (a b c d r : PtxReg) : Prop where
  field : ∃ y, bfeData type.fieldType r c d = .ok y ∧
    ∀ i < type.size, y.u64.getLsbD i = (decide (i < lowByte d) && a.u64.getLsbD i)
  rest : ∀ i < type.size, ¬ (lowByte c ≤ i ∧ i < lowByte c + lowByte d) →
    r.u64.getLsbD i = b.u64.getLsbD i

/-- The laws of reversal: the bits go to the mirrored places, and the second reversal brings them
back. -/
structure Reverses (type : ScalarType) (a r : PtxReg) : Prop where
  bits : ∀ i < type.size, r.u64.getLsbD (type.size - 1 - i) = a.u64.getLsbD i
  again : ∃ y, brevData type r = .ok y ∧ y.low type.size = a.low type.size

/-! ## The mask of one bit -/

section Mask

variable {w i j : ℕ} {x : BitVec w}

theorem getLsbD_one_shiftLeft (hi : i < w) :
    ((1 : BitVec w) <<< i).getLsbD j = decide (i = j) := by
  have h := BitVec.getLsbD_twoPow (w := w) i j
  rw [decide_eq_true hi, Bool.true_and] at h
  exact h

theorem and_one_shiftLeft (hi : i < w) : x &&& (1 : BitVec w) <<< i ≠ 0 ↔ x.getLsbD i = true := by
  constructor
  · intro hne
    by_contra hbit
    apply hne
    apply BitVec.eq_of_getLsbD_eq
    intro j _
    rw [BitVec.getLsbD_and, getLsbD_one_shiftLeft hi]
    by_cases hj : i = j
    · subst hj
      simp [Bool.eq_false_of_not_eq_true hbit]
    · simp [hj]
  · intro hbit hzero
    have h := congrArg (fun y => y.getLsbD i) hzero
    simp only [BitVec.getLsbD_and, getLsbD_one_shiftLeft hi, hbit] at h
    simp at h

theorem getLsbD_setLow (r : PtxReg) (hj : j < 64) :
    (r.setLow x).u64.getLsbD j = if j < w then x.getLsbD j else r.u64.getLsbD j := by
  rw [PtxReg.setLow, BitVec.getLsbD_or, BitVec.getLsbD_shiftLeft, BitVec.getLsbD_ushiftRight,
    BitVec.getLsbD_setWidth]
  split_ifs with h
  · simp [h, hj]
  · have hback : w + (j - w) = j := by omega
    simp [h, hj, hback, BitVec.getLsbD_of_ge x j (Nat.not_lt.mp h)]

end Mask

/-! ## Insertion -/

variable {a b c d data : PtxReg} {pos i j left max : ℕ}

theorem bfiBit_ok (h : pos + i < 32) :
    ∃ data', bfiBit a pos i data = .ok data' ∧ ∀ j < 64,
      data'.u64.getLsbD j = if j = pos + i then a.u64.getLsbD i else data.u64.getLsbD j := by
  rw [bfiBit, shiftLeft_ok h, ok_bind, shiftLeft_ok (by omega), ok_bind, shiftLeft_ok (by omega),
    ok_bind]
  refine ⟨_, rfl, fun j hj => ?_⟩
  have hmask : ∀ k : ℕ, ((1 : BitVec 32) <<< (pos + i)).getLsbD k = decide (pos + i = k) :=
    fun k => getLsbD_one_shiftLeft h
  have hbit : ∀ k : ℕ, ((1 : BitVec 32) <<< i).getLsbD k = decide (i = k) :=
    fun k => getLsbD_one_shiftLeft (by omega)
  rw [getLsbD_setLow _ hj, PtxReg.u32, PtxReg.low_setLow (by decide)]
  by_cases hlow : j < 32
  · rw [if_pos hlow, BitVec.getLsbD_or, BitVec.getLsbD_and, BitVec.getLsbD_not, hmask,
      BitVec.getLsbD_shiftLeft, BitVec.getLsbD_and, hbit, PtxReg.u32, PtxReg.u32, PtxReg.low,
      PtxReg.low, BitVec.getLsbD_setWidth, BitVec.getLsbD_setWidth]
    by_cases hat : j = pos + i
    · subst hat
      have hi : i < 32 := by omega
      simp [h, hi]
    · have hne : ¬ pos + i = j := fun heq => hat heq.symm
      have hother : ¬ (pos ≤ j ∧ i = j - pos) := by omega
      by_cases hpos : j < pos
      · simp [hlow, hat, hne, hpos]
      · have hi : ¬ i = j - pos := by omega
        simp [hlow, hat, hne, hi]
  · have hne : ¬ j = pos + i := by omega
    rw [if_neg hlow, if_neg hne, getLsbD_setLow _ hj, if_neg hlow]

theorem bfiBit_error (h : 32 ≤ pos + i) : bfiBit a pos i data = .error .shiftAmount := by
  rw [bfiBit, shiftLeft_error h]
  rfl

theorem bfiFrom_ok (hend : pos + i + left ≤ 32) (hmax : 32 ≤ max) :
    ∃ r, bfiFrom a pos max left i data = .ok r ∧ ∀ j < 64,
      r.u64.getLsbD j = if pos + i ≤ j ∧ j < pos + i + left then a.u64.getLsbD (j - pos)
        else data.u64.getLsbD j := by
  induction left generalizing i data with
  | zero =>
      refine ⟨data, rfl, fun j _ => ?_⟩
      rw [if_neg (by omega)]
  | succ left ih =>
      obtain ⟨data', hbit, hdata⟩ := @bfiBit_ok a data pos i (by omega)
      obtain ⟨r, hrun, hr⟩ := @ih data' (i + 1) (by omega)
      refine ⟨r, ?_, fun j hj => ?_⟩
      · rw [bfiFrom, if_pos (show pos + i < max by omega), hbit, ok_bind, hrun]
      rw [hr j hj, hdata j hj]
      by_cases hat : j = pos + i
      · have hback : j - pos = i := by omega
        rw [if_neg (by omega), if_pos hat, if_pos (by omega), hback]
      · rw [if_neg hat]
        exact if_congr (by omega) rfl rfl

theorem bfiFrom_error (hmax : pos + i + left ≤ max) (hend : 32 < pos + i + left) :
    bfiFrom a pos max left i data = .error .shiftAmount ∨ left = 0 := by
  induction left generalizing i data with
  | zero => exact .inr rfl
  | succ left ih =>
      left
      rw [bfiFrom, if_pos (show pos + i < max by omega)]
      by_cases hlow : pos + i < 32
      · obtain ⟨data', hbit, -⟩ := @bfiBit_ok a data pos i hlow
        have hrest := (@ih data' (i + 1) (by omega) (by omega)).resolve_right (by omega)
        rw [hbit, ok_bind, hrest]
      · rw [bfiBit_error (Nat.not_lt.mp hlow)]
        rfl

variable {type : ScalarType}

/-- The types of `bfi` and `brev`. -/
def ScalarType.isBits : ScalarType → Bool
  | .b32 | .b64 => true
  | _ => false

section

variable (htype : type.isBits = true)
include htype

theorem bfeData_fieldType (hlen : 0 < lowByte d)
    (hfit : lowByte c + lowByte d ≤ type.size) (r : PtxReg) :
    ∃ y, bfeData type.fieldType r c d = .ok y ∧ ∀ i < type.size,
      y.u64.getLsbD i = (decide (i < lowByte d) && r.u64.getLsbD (lowByte c + i)) := by
  have hextract : Extractable false (r.low type.size) (lowByte c) (lowByte d) :=
    ⟨by omega, hlen, by omega, fun h => absurd h Bool.false_ne_true⟩
  have hbits : ∀ y : PtxReg, IsField false (r.low type.size) (lowByte c) (lowByte d)
      (y.low type.size) → ∀ i < type.size,
        y.u64.getLsbD i = (decide (i < lowByte d) && r.u64.getLsbD (lowByte c + i)) := by
    intro y hfield i hi
    have h := hfield i hi
    rw [PtxReg.low, BitVec.getLsbD_setWidth, decide_eq_true hi, Bool.true_and,
      if_neg hlen.ne'] at h
    rw [h]
    split_ifs with hin
    · have hlt : lowByte c + i < type.size := by omega
      simp [readBit, hin, hlt, PtxReg.low]
    · simp [hin]
  cases type with
  | b32 =>
      obtain ⟨y, hrun, hfield⟩ := (@bfeData_iff .u32 _ _ _ rfl).mpr hextract
      exact ⟨y, hrun, hbits y hfield⟩
  | b64 =>
      obtain ⟨y, hrun, hfield⟩ := (@bfeData_iff .u64 _ _ _ rfl).mpr hextract
      exact ⟨y, hrun, hbits y hfield⟩
  | _ => cases htype

theorem bfiData_eq : bfiData type a b c d = bfiFrom a (lowByte c) type.size (lowByte d) 0 b := by
  cases type with
  | b32 => rfl
  | b64 => rfl
  | _ => cases htype

theorem size_of_isBits : 32 ≤ type.size ∧ type.size ≤ 64 := by
  cases type with
  | b32 => decide
  | b64 => decide
  | _ => cases htype

theorem bfiData_iff (hlen : 0 < lowByte d) (hfit : lowByte c + lowByte d ≤ type.size) :
    (∃ r, bfiData type a b c d = .ok r ∧ Inserts type a b c d r) ↔
      lowByte c + lowByte d ≤ 32 := by
  obtain ⟨hsize, hwide⟩ := size_of_isBits htype
  rw [bfiData_eq htype]
  constructor
  · rintro ⟨r, hrun, -⟩
    by_contra hend
    obtain herror | hzero := @bfiFrom_error a b (lowByte c) 0 (lowByte d) type.size
      (by omega) (by omega)
    · rw [herror] at hrun
      cases hrun
    · exact hlen.ne' hzero
  · intro hend
    obtain ⟨r, hrun, hr⟩ := @bfiFrom_ok a b (lowByte c) 0 (lowByte d) type.size
      (by omega) hsize
    obtain ⟨y, hfield, hy⟩ := bfeData_fieldType htype hlen hfit r
    refine ⟨r, hrun, ⟨y, hfield, fun i hi => ?_⟩, fun i hi hout => ?_⟩
    · rw [hy i hi]
      by_cases hin : i < lowByte d
      · rw [hr _ (by omega), if_pos (by omega), Nat.add_sub_cancel_left]
      · simp [hin]
    · rw [hr i (by omega), if_neg (by omega)]

end

/-! ## Reversal -/

theorem brevBelow_ok {n : ℕ} {x : BitVec 32} (hn : n ≤ 32) :
    ∃ r, brevBelow x 31 n = .ok r ∧ ∀ j < 32,
      r.getLsbD j = (decide (31 - j < n) && x.getLsbD (31 - j)) := by
  induction n with
  | zero => exact ⟨0, rfl, fun j _ => by simp⟩
  | succ n ih =>
      obtain ⟨r, hrun, hr⟩ := ih (by omega)
      have hext : ∀ y : BitVec 32, y.signExtend 32 = y := fun y => BitVec.signExtend_eq y
      have hstep : brevBelow x 31 (n + 1) =
          .ok (if x.getLsbD n then r ||| (1 : BitVec 32) <<< (31 - n) else r) := by
        rw [brevBelow, hrun, ok_bind, brevBit, shiftLeft_ok (by omega), ok_bind, hext,
          shiftLeft_ok (by omega)]
        by_cases hbit : x.getLsbD n = true
        · rw [if_pos ((and_one_shiftLeft (by omega)).mpr hbit), if_pos hbit, ok_bind, hext]
          rfl
        · rw [if_neg fun h => hbit ((and_one_shiftLeft (by omega)).mp h), if_neg hbit]
          rfl
      refine ⟨_, hstep, fun j hj => ?_⟩
      have hmask : ((1 : BitVec 32) <<< (31 - n)).getLsbD j = decide (31 - n = j) :=
        getLsbD_one_shiftLeft (by omega)
      by_cases hat : 31 - j = n
      · have hmirror : 31 - n = j := by omega
        rw [hat]
        by_cases hbit : x.getLsbD n = true
        · rw [if_pos hbit, BitVec.getLsbD_or, hmask]
          simp [hmirror, hbit]
        · rw [if_neg hbit, hr j hj, hat]
          simp [hbit]
      · have hmirror : ¬ 31 - n = j := by omega
        have hlt : 31 - j < n + 1 ↔ 31 - j < n := by omega
        have hsame : (if x.getLsbD n then r ||| (1 : BitVec 32) <<< (31 - n) else r).getLsbD j =
            r.getLsbD j := by
          split_ifs
          · rw [BitVec.getLsbD_or, hmask, decide_eq_false hmirror, Bool.or_false]
          · rfl
        rw [hsame, hr j hj, decide_eq_decide.mpr hlt]

theorem brevBelow_error {x : BitVec 64} {n : ℕ} :
    ∃ e, brevBelow x 63 (n + 33) = .error e := by
  induction n with
  | zero =>
      rw [brevBelow]
      cases brevBelow x 63 32 with
      | error e => exact ⟨e, rfl⟩
      | ok r => exact ⟨.shiftAmount, rfl⟩
  | succ n ih =>
      obtain ⟨e, he⟩ := ih
      refine ⟨e, ?_⟩
      rw [show n + 1 + 33 = (n + 33) + 1 by omega, brevBelow, he]
      rfl

theorem brevData_b32 (a : PtxReg) :
    ∃ r, brevData .b32 a = .ok r ∧ ∀ j < 32, r.u64.getLsbD j = a.u64.getLsbD (31 - j) := by
  obtain ⟨r, hrun, hr⟩ := brevBelow_ok (x := a.u32) le_rfl
  refine ⟨.ofBits r, ?_, fun j hj => ?_⟩
  · rw [brevData, hrun]
    rfl
  · have hlt : 31 - j < 32 := by omega
    have hwide : j < 64 := by omega
    have h := hr j hj
    simp only [hlt, decide_true, Bool.true_and] at h
    simpa [PtxReg.ofBits, PtxReg.low, hwide, hlt] using h

theorem brevData_iff (htype : type.isBits = true) :
    (∃ r, brevData type a = .ok r ∧ Reverses type a r) ↔ type = .b32 := by
  cases type with
  | b32 =>
      refine iff_of_true ?_ rfl
      obtain ⟨r, hrun, hr⟩ := brevData_b32 a
      obtain ⟨y, hagain, hy⟩ := brevData_b32 r
      refine ⟨r, hrun, ⟨fun i hi => ?_, y, hagain, ?_⟩⟩
      · have hi' : i < 32 := hi
        have hback : 31 - (32 - 1 - i) = i := by omega
        exact (hr (32 - 1 - i) (by omega)).trans (congrArg a.u64.getLsbD hback)
      · apply BitVec.eq_of_getLsbD_eq
        intro i hi
        have hi' : i < 32 := hi
        have hback : 31 - (31 - i) = i := by omega
        rw [PtxReg.low, PtxReg.low, BitVec.getLsbD_setWidth, BitVec.getLsbD_setWidth, hy i hi',
          hr (31 - i) (by omega), hback]
  | b64 =>
      refine iff_of_false ?_ (by decide)
      rintro ⟨r, hrun, -⟩
      obtain ⟨e, he⟩ := brevBelow_error (x := a.u64) (n := 31)
      rw [brevData, he] at hrun
      cases hrun
  | _ => cases htype

/-! ## The instructions -/

variable {pI : QuaternaryInst} {rev : UnaryInst} {regs : RegisterFile} {a' : PtxReg}

/-- For both types, every field within the word and all registers, the field that `bfi` has
inserted is read back and the other bits stay, if and only if the field ends in the lower 32 bits;
and `brev` mirrors the bits of a word and is its own inverse if and only if the word has 32. -/
theorem bitLaws_iff (htype : pI.type.isBits = true)
    (ha : getOperandValue regs pI.src1 pI.type = .ok a)
    (hb : getOperandValue regs pI.src2 pI.type = .ok b)
    (hc : getOperandValue regs pI.src3 pI.type = .ok c)
    (hd : getOperandValue regs pI.src4 pI.type = .ok d)
    (hlen : 0 < lowByte d) (hfit : lowByte c + lowByte d ≤ pI.type.size)
    (hrev : rev.type.isBits = true) (ha' : getOperandValue regs rev.src1 rev.type = .ok a') :
    ((∃ regs', bfiImpl pI regs = .ok regs' ∧ Inserts pI.type a b c d (regs' pI.dst)) ↔
        lowByte c + lowByte d ≤ 32) ∧
      ((∃ regs', brevImpl rev regs = .ok regs' ∧ Reverses rev.type a' (regs' rev.dst)) ↔
        rev.type = .b32) := by
  constructor
  · rw [bfiImpl, bitOperand_ok ha, bitOperand_ok hb, bitOperand_ok hc, bitOperand_ok hd, ok_bind,
      ok_bind, ok_bind, ok_bind, ← bfiData_iff (a := a) (b := b) htype hlen hfit]
    exact exists_write _
  · rw [brevImpl, bitOperand_ok ha', ok_bind, ← brevData_iff (a := a') hrev]
    exact exists_write _

/-- A `bfi` of literals. -/
def bfiLiterals (type : ScalarType) (a b pos len : BitVec 64) : QuaternaryInst where
  type := type
  dst := 0
  src1 := ⟨.literal ⟨a⟩, .whole, false⟩
  src2 := ⟨.literal ⟨b⟩, .whole, false⟩
  src3 := ⟨.literal ⟨pos⟩, .whole, false⟩
  src4 := ⟨.literal ⟨len⟩, .whole, false⟩

/-- A `brev` of a literal. -/
def brevLiteral (type : ScalarType) (a : BitVec 64) : UnaryInst where
  type := type
  dst := 0
  src1 := ⟨.literal ⟨a⟩, .whole, false⟩

/-- Five bits in the middle of a word of 64, and a word of 32 reversed. -/
theorem bitLaws_lowerHalf :
    ((∃ regs', bfiImpl (bfiLiterals .b64 0xFF 0 27 5) (fun _ => ⟨0⟩) = .ok regs' ∧
        Inserts .b64 ⟨0xFF⟩ ⟨0⟩ ⟨27⟩ ⟨5⟩ (regs' 0)) ↔ 27 + 5 ≤ 32) ∧
      ((∃ regs', brevImpl (brevLiteral .b32 1) (fun _ => ⟨0⟩) = .ok regs' ∧
        Reverses .b32 ⟨1⟩ (regs' 0)) ↔ ScalarType.b32 = .b32) :=
  @bitLaws_iff _ _ _ _ (bfiLiterals .b64 0xFF 0 27 5) (brevLiteral .b32 1) _ _ rfl rfl rfl rfl rfl
    (by decide) (by decide) rfl rfl

/-- One bit in the upper half of a word has no mask. -/
theorem not_bitLaws_upperHalf :
    ¬ ∀ (pI : QuaternaryInst) (rev : UnaryInst) (regs : RegisterFile) (a b c d a' : PtxReg),
      pI.type.isBits = true → getOperandValue regs pI.src1 pI.type = .ok a →
      getOperandValue regs pI.src2 pI.type = .ok b →
      getOperandValue regs pI.src3 pI.type = .ok c →
      getOperandValue regs pI.src4 pI.type = .ok d →
      0 < lowByte d → lowByte c + lowByte d ≤ pI.type.size →
      rev.type.isBits = true → getOperandValue regs rev.src1 rev.type = .ok a' →
        (∃ regs', bfiImpl pI regs = .ok regs' ∧ Inserts pI.type a b c d (regs' pI.dst)) ∧
          ∃ regs', brevImpl rev regs = .ok regs' ∧ Reverses rev.type a' (regs' rev.dst) := by
  intro hall
  obtain ⟨⟨regs', hrun, -⟩, -⟩ := hall (bfiLiterals .b64 1 0 32 1) (brevLiteral .b32 1)
    (fun _ => ⟨0⟩) ⟨1⟩ ⟨0⟩ ⟨32⟩ ⟨1⟩ ⟨1⟩ rfl rfl rfl rfl rfl (by decide) (by decide) rfl rfl
  have herror : bfiImpl (bfiLiterals .b64 1 0 32 1) (fun _ => ⟨0⟩) = .error .shiftAmount := by
    rfl
  rw [herror] at hrun
  cases hrun

end GpuCalorie.Instructions
