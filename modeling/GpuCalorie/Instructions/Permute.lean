/-
# Permuting bytes

`prmt_impl` picks four bytes from the eight bytes of two words. In the default mode each nibble of
the selector names a byte, and its top bit asks for the sign of that byte instead; the other modes
take the four bytes in a pattern that the selector's low two bits choose.

The pair of words is made from a signed lower word, whose sign covers the upper one. A nibble with
its top bit set always gives ones, and the patterns give the index of a byte and not the byte.
-/

import Mathlib.Tactic.IntervalCases
import GpuCalorie.Instructions.BitFieldInsert

namespace GpuCalorie.Instructions

/-- The modes of `prmt` with a pattern. -/
inductive PermuteMode
  /-- Forward four bytes -/
  | f4e
  /-- Backward four bytes -/
  | b4e
  /-- Replicate a byte -/
  | rc8
  /-- Clamp to the left edge -/
  | ecl
  /-- Clamp to the right edge -/
  | ecr
  /-- Replicate two bytes -/
  | rc16
  deriving DecidableEq, Repr

/-- The tables of `read_byte`. -/
def prmtTable : PermuteMode → List (List ℕ)
  | .f4e => [[0, 1, 2, 3], [1, 2, 3, 4], [2, 3, 4, 5], [3, 4, 5, 6]]
  | .b4e => [[0, 7, 6, 5], [1, 0, 7, 6], [2, 1, 0, 7], [3, 2, 1, 0]]
  | .rc8 => [[0, 0, 0, 0], [1, 1, 1, 1], [2, 2, 2, 2], [3, 3, 3, 3]]
  | .ecl => [[0, 1, 2, 3], [1, 1, 2, 3], [2, 2, 2, 3], [3, 3, 3, 3]]
  | .ecr => [[0, 0, 0, 0], [0, 1, 1, 1], [0, 1, 2, 2], [0, 1, 2, 3]]
  | .rc16 => [[0, 1, 0, 1], [2, 3, 2, 3], [0, 1, 0, 1], [2, 3, 2, 3]]

/-- `returnval` of `read_byte`, before it is moved to its place. There is no mode in the default
mode. -/
def returnedByte (mode : Option PermuteMode) (control dSelIndex : ℕ) (value : BitVec 64) :
    BitVec 32 :=
  match mode with
  | none =>
    if control &&& 0x8 ≠ 0 then 0xFF
    else (value.sshiftRight (8 * control) &&& 0xFF).setWidth 32
  | some mode => BitVec.ofNat 32 (((prmtTable mode).getD control []).getD dSelIndex 0)

/-- `read_byte` -/
def readByte (mode : Option PermuteMode) (control dSelIndex : ℕ) (value : BitVec 64) : BitVec 32 :=
  returnedByte mode control dSelIndex value <<< (8 * dSelIndex)

/-- `ctl[k]` -/
def permuteControl (mode : Option PermuteMode) (src3 : BitVec 32) (k : ℕ) : ℕ :=
  match mode with
  | none => (src3.sshiftRight (4 * k) &&& 0xF).toNat
  | some _ => (src3 &&& 0x3).toNat

/-- `tmpdata.s64` -/
def permuteValue (src1 src2 : PtxReg) : BitVec 64 :=
  src1.u32.signExtend 64 ||| src2.u64 <<< 32

/-- The result of `prmt_impl`. -/
def prmtData (mode : Option PermuteMode) (src1 src2 src3 : PtxReg) : PtxReg :=
  let byte := fun k => readByte mode (permuteControl mode src3.u32 k) k (permuteValue src1 src2)
  .ofBits (0 ||| byte 0 ||| byte 1 ||| byte 2 ||| byte 3)

/-- A `prmt`. -/
structure PermuteInst extends TernaryInst where
  mode : Option PermuteMode

/-- `prmt_impl` -/
def prmtImpl (pI : PermuteInst) (regs : RegisterFile) : Except ExecFailure RegisterFile := do
  let src1 ← getOperandValue regs pI.src1 pI.type
  let src2 ← getOperandValue regs pI.src2 pI.type
  let src3 ← getOperandValue regs pI.src3 pI.type
  return setOperandValue regs ⟨pI.dst, .whole⟩ (prmtData pI.mode src1 src2 src3)

/-! ## What is selected -/

/-- One of the eight bytes of `{b, a}`. -/
def sourceByte (a b : BitVec 32) (i : ℕ) : BitVec 8 :=
  (b ++ a).extractLsb' (8 * i) 8

/-- The index of the byte for place `k`. -/
def selectedIndex (mode : Option PermuteMode) (c : BitVec 32) (k : ℕ) : ℕ :=
  let pattern := c.toNat % 4
  match mode with
  | none => c.toNat / 16 ^ k % 8
  | some .f4e => pattern + k
  | some .b4e => (pattern + 8 - k) % 8
  | some .rc8 => pattern
  | some .ecl => max pattern k
  | some .ecr => min pattern k
  | some .rc16 => 2 * (pattern % 2) + k % 2

/-- Whether a nibble asks for the sign. -/
def asksForSign (mode : Option PermuteMode) (c : BitVec 32) (k : ℕ) : Prop :=
  mode = none ∧ 8 ≤ c.toNat / 16 ^ k % 16

instance (mode : Option PermuteMode) (c : BitVec 32) (k : ℕ) : Decidable (asksForSign mode c k) :=
  inferInstanceAs (Decidable (_ ∧ _))

/-- The byte at place `k`. -/
def permutedByte (mode : Option PermuteMode) (a b c : BitVec 32) (k : ℕ) : BitVec 8 :=
  let byte := sourceByte a b (selectedIndex mode c k)
  if asksForSign mode c k then if byte.msb then 0xFF else 0 else byte

/-- The bytes that are picked: with a pattern, those that equal their index; where the sign is
asked for, negative ones; and of the upper word any if the lower one is not negative, and else
those that are all ones. -/
def Picked (mode : Option PermuteMode) (a b c : BitVec 32) (k : ℕ) : Prop :=
  let i := selectedIndex mode c k
  let byte := sourceByte a b i
  if mode ≠ none then byte = BitVec.ofNat 8 i
  else if asksForSign mode c k then byte.msb = true
  else 4 ≤ i → a.msb = true → byte = 0xFF

instance (mode : Option PermuteMode) (a b c : BitVec 32) (k : ℕ) :
    Decidable (Picked mode a b c k) := by
  unfold Picked
  infer_instance

/-! ## The places of the bytes -/

theorem extractLsb'_shiftLeft {x : BitVec 32} (hx : ∀ j, 8 ≤ j → x.getLsbD j = false) {d k : ℕ}
    (hk : k < 4) :
    (x <<< (8 * d)).extractLsb' (8 * k) 8 = if d = k then x.setWidth 8 else 0 := by
  apply BitVec.eq_of_getLsbD_eq
  intro i hi
  have hlt : 8 * k + i < 32 := by omega
  rw [BitVec.getLsbD_extractLsb', BitVec.getLsbD_shiftLeft, decide_eq_true hi,
    decide_eq_true hlt, Bool.true_and, Bool.true_and]
  by_cases hd : d = k
  · subst hd
    have hback : 8 * d + i - 8 * d = i := by omega
    have hge : ¬ 8 * d + i < 8 * d := by omega
    rw [if_pos rfl, hback, decide_eq_false hge, BitVec.getLsbD_setWidth, decide_eq_true hi]
    rfl
  · rw [if_neg hd, BitVec.ofNat_eq_ofNat, BitVec.getLsbD_zero]
    by_cases hbelow : 8 * k + i < 8 * d
    · rw [decide_eq_true hbelow]
      rfl
    · rw [hx _ (by omega), Bool.and_false]

variable {mode : Option PermuteMode} {control k : ℕ} {value : BitVec 64}

theorem prmtTable_lt :
    ∀ (mode : PermuteMode) (control k : ℕ), control < 4 → k < 4 →
      ((prmtTable mode).getD control []).getD k 0 < 8 := by
  intro mode control k hcontrol hk
  interval_cases control <;> interval_cases k <;> cases mode <;> decide

theorem getLsbD_returnedByte (hcontrol : mode ≠ none → control < 4) (hk : k < 4) {j : ℕ}
    (hj : 8 ≤ j) : (returnedByte mode control k value).getLsbD j = false := by
  have hpow : 2 ^ 8 ≤ 2 ^ j := Nat.pow_le_pow_right (by decide) hj
  cases mode with
  | none =>
      rw [returnedByte]
      split_ifs
      · exact Nat.testBit_lt_two_pow (Nat.lt_of_lt_of_le (by decide) hpow)
      · have hmask : (0xFF : BitVec 64).getLsbD j = false :=
          Nat.testBit_lt_two_pow (Nat.lt_of_lt_of_le (by decide) hpow)
        rw [BitVec.getLsbD_setWidth, BitVec.getLsbD_and, hmask, Bool.and_false, Bool.and_false]
  | some mode =>
      have hlt := prmtTable_lt mode control k (hcontrol (Option.some_ne_none mode)) hk
      rw [returnedByte]
      refine Nat.testBit_lt_two_pow (Nat.lt_of_lt_of_le ?_ hpow)
      rw [BitVec.toNat_ofNat]
      exact Nat.lt_of_le_of_lt (Nat.mod_le _ _) (by omega)

theorem permuteControl_lt (c : BitVec 32) (hmode : mode ≠ none) : permuteControl mode c k < 4 := by
  cases mode with
  | none => exact absurd rfl hmode
  | some mode =>
      rw [permuteControl, BitVec.toNat_and]
      exact Nat.lt_of_le_of_lt Nat.and_le_right (by decide)

variable {a b c : PtxReg}

theorem prmtData_byte (hk : k < 4) :
    (prmtData mode a b c).u32.extractLsb' (8 * k) 8 =
      (returnedByte mode (permuteControl mode c.u32 k) k (permuteValue a b)).setWidth 8 := by
  have hbyte : ∀ d < 4,
      (readByte mode (permuteControl mode c.u32 d) d (permuteValue a b)).extractLsb' (8 * k) 8 =
        if d = k then
          (returnedByte mode (permuteControl mode c.u32 d) d (permuteValue a b)).setWidth 8
        else 0 := fun d hd =>
    extractLsb'_shiftLeft (fun _ hj => getLsbD_returnedByte (permuteControl_lt c.u32) hd hj) hk
  have hlow : ∀ x : BitVec 32, (PtxReg.ofBits x).u32 = x := fun x => by
    rw [PtxReg.u32, PtxReg.low_ofBits, BitVec.setWidth_setWidth_of_le _ (by decide),
      BitVec.setWidth_eq]
  have hzero : ∀ x : BitVec 32, 0 ||| x = x := fun x => BitVec.zero_or
  rw [prmtData, hlow, hzero, BitVec.extractLsb'_or, BitVec.extractLsb'_or, BitVec.extractLsb'_or,
    hbyte 0 (by decide), hbyte 1 (by decide), hbyte 2 (by decide), hbyte 3 (by decide)]
  interval_cases k <;> simp

/-! ## The bytes that are read -/

theorem getLsbD_permuteValue {i : ℕ} (hi : i < 64) :
    (permuteValue a b).getLsbD i =
      if i < 32 then a.u32.getLsbD i else a.u32.msb || b.u32.getLsbD (i - 32) := by
  rw [permuteValue, BitVec.getLsbD_or, BitVec.getLsbD_signExtend, BitVec.getLsbD_shiftLeft,
    decide_eq_true hi, Bool.true_and, Bool.true_and]
  split_ifs with hlow
  · simp [hlow]
  · have hsub : i - 32 < 32 := by omega
    simp [hlow, PtxReg.low, hsub]

theorem getLsbD_sourceByte {a b : BitVec 32} {i j : ℕ} (hj : j < 8) :
    (sourceByte a b i).getLsbD j =
      if 8 * i + j < 32 then a.getLsbD (8 * i + j) else b.getLsbD (8 * i + j - 32) := by
  rw [sourceByte, BitVec.getLsbD_extractLsb', BitVec.getLsbD_append, decide_eq_true hj,
    Bool.true_and]

theorem setWidth_returnedByte (hcontrol : control < 8) :
    (returnedByte none control k (permuteValue a b)).setWidth 8 =
      if 4 ≤ control ∧ a.u32.msb = true then 0xFF else sourceByte a.u32 b.u32 control := by
  have hbit : control &&& 0x8 = 0 := by
    interval_cases control <;> rfl
  rw [returnedByte, if_neg (not_not.mpr hbit)]
  apply BitVec.eq_of_getLsbD_eq
  intro j hj
  have hmask : (0xFF : BitVec 64).getLsbD j = true := by
    interval_cases j <;> rfl
  have hj32 : j < 32 := by omega
  have hat : 8 * control + j < 64 := by omega
  rw [BitVec.getLsbD_setWidth, BitVec.getLsbD_setWidth, BitVec.getLsbD_and, hmask,
    BitVec.getLsbD_sshiftRight, decide_eq_true hj, decide_eq_true hj32,
    decide_eq_false (show ¬ 64 ≤ j by omega), if_pos hat, getLsbD_permuteValue hat, Bool.and_true,
    Bool.not_false, Bool.true_and, Bool.true_and, Bool.true_and]
  by_cases hhigh : 4 ≤ control
  · have hge : ¬ 8 * control + j < 32 := by omega
    rw [if_neg hge]
    by_cases hmsb : a.u32.msb = true
    · have hones : (0xFF : BitVec 8).getLsbD j = true := by
        interval_cases j <;> rfl
      rw [if_pos ⟨hhigh, hmsb⟩, hones, hmsb, Bool.true_or]
    · rw [if_neg fun h => hmsb h.2, getLsbD_sourceByte hj, if_neg hge,
        Bool.eq_false_of_not_eq_true hmsb, Bool.false_or]
  · have hlt : 8 * control + j < 32 := by omega
    have hcover : ¬ (4 ≤ control ∧ a.u32.msb = true) := fun h => hhigh h.1
    rw [if_pos hlt, if_neg hcover, getLsbD_sourceByte hj, if_pos hlt]

theorem permuteControl_none (c : BitVec 32) (hk : k < 4) :
    permuteControl none c k = c.toNat / 16 ^ k % 16 := by
  have hnibble : c.sshiftRight (4 * k) &&& 0xF = (c >>> (4 * k)) &&& 0xF := by
    apply BitVec.eq_of_getLsbD_eq
    intro j hj
    rw [BitVec.getLsbD_and, BitVec.getLsbD_and, BitVec.getLsbD_sshiftRight,
      BitVec.getLsbD_ushiftRight]
    by_cases hlow : j < 4
    · have hlt : 4 * k + j < 32 := by omega
      simp [hlt, Nat.not_le.mpr hj]
    · have hmask : (0xF : BitVec 32).getLsbD j = false :=
        Nat.testBit_lt_two_pow (Nat.lt_of_lt_of_le (show 15 < 2 ^ 4 by decide)
          (Nat.pow_le_pow_right (by decide) (Nat.not_lt.mp hlow)))
      rw [hmask, Bool.and_false, Bool.and_false]
  have hpow : 16 ^ k = 2 ^ (4 * k) := (pow_mul 2 4 k).symm
  rw [permuteControl, hnibble, BitVec.toNat_and, BitVec.toNat_ushiftRight,
    Nat.shiftRight_eq_div_pow,
    hpow]
  exact Nat.and_two_pow_sub_one_eq_mod _ 4

theorem permuteControl_some (mode : PermuteMode) (c : BitVec 32) :
    permuteControl (some mode) c k = c.toNat % 4 := by
  rw [permuteControl, BitVec.toNat_and]
  exact Nat.and_two_pow_sub_one_eq_mod _ 2

theorem prmtTable_eq (mode : PermuteMode) (c : BitVec 32) (hk : k < 4) :
    ((prmtTable mode).getD (c.toNat % 4) []).getD k 0 = selectedIndex (some mode) c k := by
  have hpattern : c.toNat % 4 < 4 := Nat.mod_lt _ (by decide)
  cases mode <;> rw [selectedIndex] <;> generalize c.toNat % 4 = pattern at hpattern ⊢ <;>
    interval_cases pattern <;> interval_cases k <;> rfl

/-! ## The instruction -/

theorem returnedByte_iff (hk : k < 4) :
    (returnedByte mode (permuteControl mode c.u32 k) k (permuteValue a b)).setWidth 8 =
        permutedByte mode a.u32 b.u32 c.u32 k ↔ Picked mode a.u32 b.u32 c.u32 k := by
  cases mode with
  | some mode =>
      have hsign : ¬ asksForSign (some mode) c.u32 k := fun h => Option.some_ne_none mode h.1
      have hindex : (BitVec.ofNat 32 (selectedIndex (some mode) c.u32 k)).setWidth 8 =
          BitVec.ofNat 8 (selectedIndex (some mode) c.u32 k) :=
        BitVec.setWidth_ofNat_of_le (by decide) _
      rw [permuteControl_some, returnedByte, prmtTable_eq mode c.u32 hk, hindex, permutedByte,
        if_neg hsign, Picked, if_pos (Option.some_ne_none mode)]
      exact eq_comm
  | none =>
      rw [permuteControl_none _ hk, permutedByte, Picked, if_neg (not_not.mpr rfl)]
      have hlt : c.u32.toNat / 16 ^ k % 16 < 16 := Nat.mod_lt _ (by decide)
      have hindex : selectedIndex none c.u32 k = c.u32.toNat / 16 ^ k % 16 % 8 := by
        rw [selectedIndex, Nat.mod_mod_of_dvd _ (by decide)]
      by_cases hsign : asksForSign none c.u32 k
      · have hbit : c.u32.toNat / 16 ^ k % 16 &&& 0x8 ≠ 0 := by
          have hge := hsign.2
          generalize c.u32.toNat / 16 ^ k % 16 = control at hlt hge
          interval_cases control <;> decide
        rw [if_pos hsign, if_pos hsign, returnedByte, if_pos hbit]
        split_ifs with hmsb
        · exact iff_of_true rfl hmsb
        · exact iff_of_false (by decide) hmsb
      · have hcontrol : c.u32.toNat / 16 ^ k % 16 < 8 := by
          by_contra hge
          exact hsign ⟨rfl, Nat.not_lt.mp hge⟩
        rw [if_neg hsign, if_neg hsign, hindex, Nat.mod_eq_of_lt hcontrol,
          setWidth_returnedByte hcontrol]
        split_ifs with hcover
        · exact ⟨fun h _ _ => h.symm, fun h => (h hcover.1 hcover.2).symm⟩
        · exact iff_of_true rfl fun hhigh hmsb => absurd ⟨hhigh, hmsb⟩ hcover

variable {pI : PermuteInst} {regs : RegisterFile}

/-- The bytes of a register are those that the mode and the selector name. -/
def Permutes (mode : Option PermuteMode) (a b c r : PtxReg) : Prop :=
  ∀ k < 4, r.u32.extractLsb' (8 * k) 8 = permutedByte mode a.u32 b.u32 c.u32 k

/-- For every mode, pair of words and selector, `prmt` permutes the bytes if and only if every
place has one of the bytes that are picked. -/
theorem prmtImpl_iff (ha : getOperandValue regs pI.src1 pI.type = .ok a)
    (hb : getOperandValue regs pI.src2 pI.type = .ok b)
    (hc : getOperandValue regs pI.src3 pI.type = .ok c) :
    (∃ regs', prmtImpl pI regs = .ok regs' ∧ Permutes pI.mode a b c (regs' pI.dst)) ↔
      ∀ k < 4, Picked pI.mode a.u32 b.u32 c.u32 k := by
  have hrun : prmtImpl pI regs =
      .ok (setOperandValue regs ⟨pI.dst, .whole⟩ (prmtData pI.mode a b c)) := by
    rw [prmtImpl, ha, hb, hc]
    rfl
  have hdst : setOperandValue regs ⟨pI.dst, .whole⟩ (prmtData pI.mode a b c) pI.dst =
      prmtData pI.mode a b c := Function.update_self ..
  have hbytes : Permutes pI.mode a b c (prmtData pI.mode a b c) ↔
      ∀ k < 4, Picked pI.mode a.u32 b.u32 c.u32 k := by
    refine forall_congr' fun k => forall_congr' fun hk => ?_
    rw [prmtData_byte hk]
    exact returnedByte_iff hk
  rw [hrun, ← hbytes]
  constructor
  · rintro ⟨regs', heq, hpermutes⟩
    cases heq
    rw [hdst] at hpermutes
    exact hpermutes
  · intro hpermutes
    refine ⟨_, rfl, ?_⟩
    rw [hdst]
    exact hpermutes

/-- A `prmt.b32` of literals. -/
def prmtLiterals (mode : Option PermuteMode) (a b c : BitVec 64) : PermuteInst where
  type := .b32
  dst := 0
  src1 := ⟨.literal ⟨a⟩, .whole, false⟩
  src2 := ⟨.literal ⟨b⟩, .whole, false⟩
  src3 := ⟨.literal ⟨c⟩, .whole, false⟩
  mode := mode

/-- Two bytes of each word and one sign, of a lower word that is positive. -/
theorem prmtImpl_default :
    ∃ regs', prmtImpl (prmtLiterals none 0x44332211 0x88776655 0xF610) (fun _ => ⟨0⟩) = .ok regs' ∧
      Permutes none ⟨0x44332211⟩ ⟨0x88776655⟩ ⟨0xF610⟩ (regs' 0) :=
  (@prmtImpl_iff _ _ _ (prmtLiterals none 0x44332211 0x88776655 0xF610) _ rfl rfl rfl).mpr
    (by decide)

/-- The identity of the upper word, when the lower one is negative. -/
theorem not_prmtImpl_negative :
    ¬ ∀ (pI : PermuteInst) (regs : RegisterFile) (a b c : PtxReg),
      getOperandValue regs pI.src1 pI.type = .ok a →
      getOperandValue regs pI.src2 pI.type = .ok b →
      getOperandValue regs pI.src3 pI.type = .ok c →
        ∃ regs', prmtImpl pI regs = .ok regs' ∧ Permutes pI.mode a b c (regs' pI.dst) := by
  intro hall
  obtain ⟨regs', hrun, hpermutes⟩ := hall (prmtLiterals none 0x80000000 0x12345678 0x7654)
    (fun _ => ⟨0⟩) ⟨0x80000000⟩ ⟨0x12345678⟩ ⟨0x7654⟩ rfl rfl rfl
  cases hrun
  exact absurd (hpermutes 0 (by decide)) (by decide)

end GpuCalorie.Instructions
