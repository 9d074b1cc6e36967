/-
# Converting integers

`cvt_impl` takes a function from a table with a row for the source type and a column for the
destination type: `chop` cuts off a register above a width, `sext` and `zext` extend a number by
its sign or by zeros to the whole register, `sexd` does so with the sign of the narrower
destination, and types of one width have no function, so that the register is copied as it is.

A register that is wider than the destination type does not always get the extension of the
destination type.
-/

import GpuCalorie.Instructions.BitFieldInsert

namespace GpuCalorie.Instructions

/-- The integer types with a row in the table. -/
def ScalarType.isNumber : ScalarType → Bool
  | .s8 | .s16 | .s32 | .s64 | .u8 | .u16 | .u32 | .u64 => true
  | _ => false

/-- The format `type_decode` returns. -/
def ScalarType.format : ScalarType → ℕ
  | .s8 => 0
  | .s16 => 1
  | .s32 => 2
  | .s64 => 3
  | .u8 => 4
  | .u16 => 5
  | .u32 => 6
  | .u64 => 7
  | .f16 => 8
  | .f32 => 9
  | .f64 => 10
  | .pred => 11
  | .b8 => 12
  | .b16 => 13
  | .b32 => 14
  | .b64 => 15

/-! ## The functions of the table -/

/-- `mask_and` -/
def PtxReg.maskAnd (x : PtxReg) (ms ls : BitVec 32) : PtxReg :=
  ⟨x.u64 &&& (ms ++ ls)⟩

/-- `mask_or` -/
def PtxReg.maskOr (x : PtxReg) (ms ls : BitVec 32) : PtxReg :=
  ⟨x.u64 ||| (ms ++ ls)⟩

/-- `get_bit` -/
def PtxReg.getBit (x : PtxReg) (bit : ℕ) : Bool :=
  x.u64.getLsbD bit

/-- `chop` -/
def chop (x : PtxReg) (toWidth : ℕ) : Except ExecFailure PtxReg :=
  match toWidth with
  | 8 => .ok (x.maskAnd 0 0xFF)
  | 16 => .ok (x.maskAnd 0 0xFFFF)
  | 32 => .ok (x.maskAnd 0 0xFFFFFFFF)
  | 64 => .ok x
  | _ => .error .typeMismatch

/-- The switch of `sext` and `sexd`: ones above a width, if the bit below it is set. -/
def fillSign (x : PtxReg) (width : ℕ) : Except ExecFailure PtxReg :=
  match width with
  | 8 => .ok (if x.getBit 7 then x.maskOr 0xFFFFFFFF 0xFFFFFF00 else x)
  | 16 => .ok (if x.getBit 15 then x.maskOr 0xFFFFFFFF 0xFFFF0000 else x)
  | 32 => .ok (if x.getBit 31 then x.maskOr 0xFFFFFFFF 0x00000000 else x)
  | 64 => .ok x
  | _ => .error .typeMismatch

/-- `sext` -/
def sext (x : PtxReg) (fromWidth : ℕ) : Except ExecFailure PtxReg := do
  fillSign (← chop x fromWidth) fromWidth

/-- `sexd` -/
def sexd (x : PtxReg) (fromWidth toWidth : ℕ) : Except ExecFailure PtxReg := do
  fillSign (← chop x fromWidth) toWidth

/-- `zext` -/
def zext (x : PtxReg) (fromWidth : ℕ) : Except ExecFailure PtxReg :=
  chop x fromWidth

/-- The entries of the table between integer types. -/
inductive CvtFn
  | chop
  | sext
  | sexd
  | zext
  deriving DecidableEq, Repr

/-- `g_cvt_fn` -/
def gCvtFn : List (List (Option CvtFn)) :=
  [[none, some .sext, some .sext, some .sext, none, some .sext, some .sext, some .sext],
    [some .chop, none, some .sext, some .sext, some .chop, none, some .sext, some .sext],
    [some .chop, some .sexd, none, some .sext, some .chop, some .chop, none, some .sext],
    [some .chop, some .chop, some .chop, none, some .chop, some .chop, some .chop, none],
    [none, some .zext, some .zext, some .zext, none, some .zext, some .zext, some .zext],
    [some .chop, none, some .zext, some .zext, some .chop, none, some .zext, some .zext],
    [some .chop, some .chop, none, some .zext, some .chop, some .chop, none, some .zext],
    [some .chop, some .chop, some .chop, none, some .chop, some .chop, some .chop, none]]

/-- The entry for two types. -/
def cvtFn (fromType toType : ScalarType) : Option CvtFn :=
  (gCvtFn.getD fromType.format []).getD toType.format none

/-- The conversion of a register, which is copied where the table has no function. -/
def cvtData (fromType toType : ScalarType) (data : PtxReg) : Except ExecFailure PtxReg :=
  match cvtFn fromType toType with
  | none => .ok data
  | some .chop => chop data toType.size
  | some .sext => sext data fromType.size
  | some .sexd => sexd data fromType.size toType.size
  | some .zext => zext data fromType.size

/-- A `cvt` between integer types. -/
structure CvtInst where
  toType : ScalarType
  fromType : ScalarType
  dst : ℕ
  src1 : Operand
  /-- `is_neg` -/
  neg : Bool := false
  toNumber : toType.isNumber = true
  fromNumber : fromType.isNumber = true

/-- The operand, which the instruction may negate. -/
def CvtInst.operand (pI : CvtInst) (regs : RegisterFile) : Except ExecFailure PtxReg := do
  let data ← getOperandValue regs pI.src1 pI.fromType
  if pI.neg then negate pI.fromType data else return data

/-- `cvt_impl` -/
def cvtImpl (pI : CvtInst) (regs : RegisterFile) : Except ExecFailure RegisterFile := do
  let data ← pI.operand regs
  let data ← cvtData pI.fromType pI.toType data
  return setOperandValue regs ⟨pI.dst, .whole⟩ data

/-! ## What is converted -/

/-- A number at another width: reduced, or extended by its sign or by zeros. -/
def resize {w : ℕ} (signed : Bool) (v : ℕ) (x : BitVec w) : BitVec v :=
  if signed then x.signExtend v else x.setWidth v

/-- The number in a register of the source type, reduced to the destination type and extended to
a register of some width. -/
def convertedValue (fromType toType : ScalarType) (width : ℕ) (x : PtxReg) : BitVec width :=
  resize toType.isSigned width (resize fromType.isSigned toType.size (x.low fromType.size))

/-- The conversions to a register of some width that are right: all to a register of the width of
the destination type; those that cut off, to an unsigned type or of a number whose new sign is
clear; those that extend a signed number, to a signed type or of a number that is not negative;
those that extend an unsigned number; and copies of a register that already has the extension. -/
def Converts (fromType toType : ScalarType) (width : ℕ) (x : PtxReg) : Prop :=
  width = toType.size ∨
    match cvtFn fromType toType with
    | some .chop => toType.isSigned = true → x.u64.getLsbD (toType.size - 1) = false
    | some .sext => toType.isSigned = true ∨ x.u64.getLsbD (fromType.size - 1) = false
    | some .sexd => x.u64.getLsbD (toType.size - 1) = true ∨
        ∀ i, toType.size ≤ i → i < fromType.size → i < width → x.u64.getLsbD i = false
    | some .zext => True
    | none => ∀ i, toType.size ≤ i → i < width →
        x.u64.getLsbD i = (toType.isSigned && x.u64.getLsbD (toType.size - 1))

/-! ## The bits of the results -/

section Bits

variable {x : PtxReg} {w i : ℕ}

/-- The widths of integer types. -/
def IsWidth (w : ℕ) : Prop :=
  w = 8 ∨ w = 16 ∨ w = 32 ∨ w = 64

theorem isWidth_size {type : ScalarType} (h : type.isNumber = true) : IsWidth type.size := by
  cases type with
  | s8 | u8 => exact .inl rfl
  | s16 | u16 => exact .inr (.inl rfl)
  | s32 | u32 => exact .inr (.inr (.inl rfl))
  | s64 | u64 => exact .inr (.inr (.inr rfl))
  | _ => cases h

theorem chop_ok (hw : IsWidth w) (x : PtxReg) :
    ∃ r, chop x w = .ok r ∧ ∀ i < 64, r.u64.getLsbD i = (decide (i < w) && x.u64.getLsbD i) := by
  have h8 : ∀ i < 64, ((0 : BitVec 32) ++ (0xFF : BitVec 32)).getLsbD i = decide (i < 8) := by
    decide
  have h16 : ∀ i < 64, ((0 : BitVec 32) ++ (0xFFFF : BitVec 32)).getLsbD i = decide (i < 16) := by
    decide
  have h32 : ∀ i < 64,
      ((0 : BitVec 32) ++ (0xFFFFFFFF : BitVec 32)).getLsbD i = decide (i < 32) := by
    decide
  obtain rfl | rfl | rfl | rfl := hw
  · refine ⟨_, rfl, fun i hi => ?_⟩
    rw [PtxReg.maskAnd, BitVec.getLsbD_and, h8 i hi, Bool.and_comm]
  · refine ⟨_, rfl, fun i hi => ?_⟩
    rw [PtxReg.maskAnd, BitVec.getLsbD_and, h16 i hi, Bool.and_comm]
  · refine ⟨_, rfl, fun i hi => ?_⟩
    rw [PtxReg.maskAnd, BitVec.getLsbD_and, h32 i hi, Bool.and_comm]
  · refine ⟨x, rfl, fun i hi => ?_⟩
    rw [decide_eq_true hi, Bool.true_and]

theorem getLsbD_maskOr {ms ls : BitVec 32}
    (hmask : ∀ i < 64, (ms ++ ls).getLsbD i = decide (w ≤ i)) (hi : i < 64) :
    (if x.getBit (w - 1) then x.maskOr ms ls else x).u64.getLsbD i =
      (x.u64.getLsbD i || (decide (w ≤ i) && x.u64.getLsbD (w - 1))) := by
  rw [PtxReg.getBit]
  by_cases hbit : x.u64.getLsbD (w - 1) = true
  · rw [if_pos hbit, PtxReg.maskOr, BitVec.getLsbD_or, hmask i hi, hbit, Bool.and_true]
  · rw [if_neg hbit, Bool.eq_false_of_not_eq_true hbit, Bool.and_false, Bool.or_false]

theorem fillSign_ok (hw : IsWidth w) (x : PtxReg) :
    ∃ r, fillSign x w = .ok r ∧ ∀ i < 64,
      r.u64.getLsbD i = (x.u64.getLsbD i || (decide (w ≤ i) && x.u64.getLsbD (w - 1))) := by
  obtain rfl | rfl | rfl | rfl := hw
  · exact ⟨_, rfl, fun i hi => getLsbD_maskOr (w := 8) (by decide) hi⟩
  · exact ⟨_, rfl, fun i hi => getLsbD_maskOr (w := 16) (by decide) hi⟩
  · exact ⟨_, rfl, fun i hi => getLsbD_maskOr (w := 32) (by decide) hi⟩
  · refine ⟨x, rfl, fun i hi => ?_⟩
    rw [decide_eq_false (Nat.not_le.mpr hi), Bool.false_and, Bool.or_false]

theorem sexd_ok {v : ℕ} (hv : IsWidth v) (hw : IsWidth w) (hle : w ≤ v) (x : PtxReg) :
    ∃ r, sexd x v w = .ok r ∧ ∀ i < 64, r.u64.getLsbD i =
      ((decide (i < v) && x.u64.getLsbD i) || (decide (w ≤ i) && x.u64.getLsbD (w - 1))) := by
  have hpos : 0 < w ∧ w ≤ 64 := by
    rw [IsWidth] at hw
    omega
  obtain ⟨y, hchop, hy⟩ := chop_ok hv x
  obtain ⟨r, hfill, hr⟩ := fillSign_ok hw y
  refine ⟨r, ?_, fun i hi => ?_⟩
  · rw [sexd, hchop]
    exact hfill
  · rw [hr i hi, hy i hi, hy (w - 1) (by omega), decide_eq_true (show w - 1 < v by omega),
      Bool.true_and]

theorem sext_ok (hw : IsWidth w) (x : PtxReg) :
    ∃ r, sext x w = .ok r ∧ ∀ i < 64,
      r.u64.getLsbD i = x.u64.getLsbD (if i < w then i else w - 1) := by
  obtain ⟨r, hrun, hr⟩ := sexd_ok hw hw le_rfl x
  refine ⟨r, hrun, fun i hi => ?_⟩
  rw [hr i hi]
  by_cases hlt : i < w
  · simp [hlt, Nat.not_le.mpr hlt]
  · simp [hlt, Nat.not_lt.mp hlt]

theorem getLsbD_resize {v : ℕ} (signed : Bool) (y : BitVec w) (hi : i < v) :
    (resize signed v y).getLsbD i =
      if i < w then y.getLsbD i else signed && y.getLsbD (w - 1) := by
  rw [resize]
  cases signed with
  | true =>
      rw [if_pos rfl, BitVec.getLsbD_signExtend, decide_eq_true hi, Bool.true_and, Bool.true_and,
        BitVec.msb_eq_getLsbD_last]
  | false =>
      rw [if_neg Bool.false_ne_true, BitVec.getLsbD_setWidth, decide_eq_true hi, Bool.true_and,
        Bool.false_and]
      split_ifs with hlt
      · rfl
      · exact BitVec.getLsbD_of_ge y i (Nat.not_lt.mp hlt)

theorem getLsbD_low (hi : i < w) : (x.low w).getLsbD i = x.u64.getLsbD i := by
  rw [PtxReg.low, BitVec.getLsbD_setWidth, decide_eq_true hi, Bool.true_and]

variable {fromType toType : ScalarType} {width : ℕ}

/-- The bits of the number in a register. -/
def numberBit (type : ScalarType) (x : PtxReg) (i : ℕ) : Bool :=
  if i < type.size then x.u64.getLsbD i else type.isSigned && x.u64.getLsbD (type.size - 1)

theorem getLsbD_convertedValue (hfrom : fromType.isNumber = true) (hto : toType.isNumber = true)
    (hi : i < width) :
    (convertedValue fromType toType width x).getLsbD i =
      if i < toType.size then numberBit fromType x i
      else toType.isSigned && numberBit fromType x (toType.size - 1) := by
  have hf : 0 < fromType.size := by
    have h := isWidth_size hfrom
    rw [IsWidth] at h
    omega
  have ht : 0 < toType.size := by
    have h := isWidth_size hto
    rw [IsWidth] at h
    omega
  have hnumber : ∀ j < toType.size,
      (resize fromType.isSigned toType.size (x.low fromType.size)).getLsbD j =
        numberBit fromType x j := by
    intro j hj
    rw [getLsbD_resize _ _ hj, numberBit, getLsbD_low (show fromType.size - 1 < _ by omega)]
    by_cases hlow : j < fromType.size
    · rw [if_pos hlow, if_pos hlow, getLsbD_low hlow]
    · rw [if_neg hlow, if_neg hlow]
  rw [convertedValue, getLsbD_resize _ _ hi, hnumber _ (show toType.size - 1 < _ by omega)]
  split_ifs with hlt
  · exact hnumber i hlt
  · rfl

end Bits

/-! ## The entries of the table -/

variable {fromType toType : ScalarType} {x : PtxReg} {width : ℕ} {r : PtxReg}

theorem cvtFn_spec (hfrom : fromType.isNumber = true) (hto : toType.isNumber = true) :
    (cvtFn fromType toType = none → fromType.size = toType.size) ∧
      (cvtFn fromType toType = some .chop → toType.size < fromType.size) ∧
      (cvtFn fromType toType = some .sext →
        fromType.size < toType.size ∧ fromType.isSigned = true) ∧
      (cvtFn fromType toType = some .sexd → fromType = .s32 ∧ toType = .s16) ∧
      (cvtFn fromType toType = some .zext →
        fromType.size < toType.size ∧ fromType.isSigned = false) := by
  cases fromType <;>
    first
    | exact absurd hfrom (by decide)
    | (cases toType <;> first | exact absurd hto (by decide) | decide)

theorem low_eq_convertedValue_iff (hfrom : fromType.isNumber = true)
    (hto : toType.isNumber = true) : r.low width = convertedValue fromType toType width x ↔
      ∀ i < width, r.u64.getLsbD i =
        if i < toType.size then numberBit fromType x i
        else toType.isSigned && numberBit fromType x (toType.size - 1) := by
  constructor
  · intro heq i hi
    rw [← getLsbD_convertedValue hfrom hto hi, ← heq, getLsbD_low hi]
  · intro hbits
    apply BitVec.eq_of_getLsbD_eq
    intro i hi
    rw [getLsbD_low hi, hbits i hi, getLsbD_convertedValue hfrom hto hi]

theorem numberBit_of_lt {type : ScalarType} {i : ℕ} (hi : i < type.size) :
    numberBit type x i = x.u64.getLsbD i :=
  if_pos hi

theorem exists_ok_and {ε α : Type} {m : Except ε α} {r : α} (h : m = .ok r) (P : α → Prop) :
    (∃ r', m = .ok r' ∧ P r') ↔ P r := by
  constructor
  · rintro ⟨r', hr', hP⟩
    rw [h] at hr'
    cases hr'
    exact hP
  · exact fun hP => ⟨r, h, hP⟩

theorem converts_of_agree (hfrom : fromType.isNumber = true) (hto : toType.isNumber = true)
    (hwidth : toType.size ≤ width) {cond : Prop}
    (hlow : ∀ i < toType.size, r.u64.getLsbD i = numberBit fromType x i)
    (habove : toType.size < width →
      ((∀ i, toType.size ≤ i → i < width →
        r.u64.getLsbD i = (toType.isSigned && numberBit fromType x (toType.size - 1))) ↔ cond)) :
    r.low width = convertedValue fromType toType width x ↔ width = toType.size ∨ cond := by
  rw [low_eq_convertedValue_iff hfrom hto]
  obtain heq | hlt := hwidth.eq_or_lt
  · refine iff_of_true (fun i hi => ?_) (.inl heq.symm)
    rw [if_pos (heq.symm ▸ hi), hlow i (heq.symm ▸ hi)]
  · rw [or_iff_right hlt.ne', ← habove hlt]
    constructor
    · intro hbits i hge hi
      rw [hbits i hi, if_neg (Nat.not_lt.mpr hge)]
    · intro hbits i hi
      split_ifs with hin
      · exact hlow i hin
      · exact hbits i (Nat.not_lt.mp hin) hi

theorem cvtData_iff (hfrom : fromType.isNumber = true) (hto : toType.isNumber = true)
    (hwidth : toType.size ≤ width) (hle : width ≤ 64) :
    (∃ r, cvtData fromType toType x = .ok r ∧
        r.low width = convertedValue fromType toType width x) ↔
      Converts fromType toType width x := by
  obtain ⟨hnone, hchop, hsext, hsexd, hzext⟩ := cvtFn_spec hfrom hto
  have hpos : 0 < toType.size := by
    have h := isWidth_size hto
    rw [IsWidth] at h
    omega
  rw [Converts]
  cases hfn : cvtFn fromType toType with
  | none =>
      have hsize := hnone hfn
      have hrun : cvtData fromType toType x = .ok x := by rw [cvtData, hfn]
      rw [exists_ok_and hrun]
      refine converts_of_agree hfrom hto hwidth (fun i hi => ?_) fun _ => ?_
      · rw [numberBit_of_lt (hsize.symm ▸ hi)]
      · rw [numberBit_of_lt (show toType.size - 1 < fromType.size by omega)]
  | some fn =>
    cases fn with
    | chop =>
        have hsize := hchop hfn
        obtain ⟨r, hr, hbits⟩ := chop_ok (isWidth_size hto) x
        have hrun : cvtData fromType toType x = .ok r := by rw [cvtData, hfn]; exact hr
        rw [exists_ok_and hrun]
        refine converts_of_agree hfrom hto hwidth (fun i hi => ?_) fun hlt => ?_
        · rw [hbits i (by omega), decide_eq_true hi, Bool.true_and, numberBit_of_lt (by omega)]
        · rw [numberBit_of_lt (show toType.size - 1 < fromType.size by omega)]
          constructor
          · intro habove hsigned
            have h := habove toType.size le_rfl hlt
            rw [hbits _ (by omega), decide_eq_false (Nat.lt_irrefl _), Bool.false_and, hsigned,
              Bool.true_and] at h
            exact h.symm
          · intro hclear i hge hi
            rw [hbits i (by omega), decide_eq_false (Nat.not_lt.mpr hge), Bool.false_and]
            cases hsigned : toType.isSigned with
            | false => rfl
            | true => rw [hclear hsigned, Bool.and_false]
    | sext =>
        obtain ⟨hsize, hfsigned⟩ := hsext hfn
        obtain ⟨r, hr, hbits⟩ := sext_ok (isWidth_size hfrom) x
        have hrun : cvtData fromType toType x = .ok r := by rw [cvtData, hfn]; exact hr
        have hnumber : ∀ i < 64, r.u64.getLsbD i = numberBit fromType x i := by
          intro i hi
          rw [hbits i hi, numberBit, hfsigned, Bool.true_and]
          split_ifs <;> rfl
        have hsign : ∀ i, fromType.size ≤ i →
            numberBit fromType x i = x.u64.getLsbD (fromType.size - 1) := by
          intro i hi
          rw [numberBit, if_neg (Nat.not_lt.mpr hi), hfsigned, Bool.true_and]
        rw [exists_ok_and hrun]
        refine converts_of_agree hfrom hto hwidth (fun i hi => hnumber i (by omega)) fun hlt => ?_
        rw [hsign _ (show fromType.size ≤ toType.size - 1 by omega)]
        constructor
        · intro habove
          have h := habove toType.size le_rfl hlt
          rw [hnumber _ (by omega), hsign _ hsize.le] at h
          cases hsigned : toType.isSigned with
          | true => exact .inl rfl
          | false =>
              rw [hsigned, Bool.false_and] at h
              exact .inr h
        · rintro hcond i hge hi
          rw [hnumber i (by omega), hsign i (by omega)]
          obtain hsigned | hclear := hcond
          · rw [hsigned, Bool.true_and]
          · rw [hclear, Bool.and_false]
    | sexd =>
        obtain ⟨rfl, rfl⟩ := hsexd hfn
        obtain ⟨r, hr, hbits⟩ := sexd_ok (isWidth_size hfrom) (isWidth_size hto) (by decide) x
        have hrun : cvtData .s32 .s16 x = .ok r := hr
        rw [exists_ok_and hrun]
        refine converts_of_agree hfrom hto hwidth (fun i hi => ?_) fun hlt => ?_
        · have hlow : i < ScalarType.s32.size := Nat.lt_trans hi (by decide)
          rw [hbits i (by omega), decide_eq_true hlow, decide_eq_false (Nat.not_le.mpr hi),
            Bool.true_and, Bool.false_and, Bool.or_false, numberBit_of_lt hlow]
        · rw [numberBit_of_lt (show ScalarType.s16.size - 1 < ScalarType.s32.size by decide)]
          cases hsign : x.u64.getLsbD (ScalarType.s16.size - 1) with
          | true =>
              refine iff_of_true (fun i hge hi => ?_) (.inl rfl)
              rw [hbits i (by omega), decide_eq_true hge, hsign, Bool.true_and, Bool.or_true]
              rfl
          | false =>
              rw [or_iff_right Bool.false_ne_true, Bool.and_false]
              constructor
              · intro habove i hge hsize hi
                have h := habove i hge hi
                rw [hbits i (by omega), hsign, Bool.and_false, Bool.or_false,
                  decide_eq_true hsize, Bool.true_and] at h
                exact h
              · intro hclear i hge hi
                rw [hbits i (by omega), hsign, Bool.and_false, Bool.or_false]
                by_cases hsize : i < ScalarType.s32.size
                · rw [hclear i hge hsize hi, Bool.and_false]
                · rw [decide_eq_false hsize, Bool.false_and]
    | zext =>
        obtain ⟨hsize, hfunsigned⟩ := hzext hfn
        obtain ⟨r, hr, hbits⟩ := chop_ok (isWidth_size hfrom) x
        have hrun : cvtData fromType toType x = .ok r := by rw [cvtData, hfn]; exact hr
        have hzero : ∀ i, fromType.size ≤ i → numberBit fromType x i = false := by
          intro i hi
          rw [numberBit, if_neg (Nat.not_lt.mpr hi), hfunsigned, Bool.false_and]
        rw [exists_ok_and hrun]
        refine converts_of_agree hfrom hto hwidth (fun i hi => ?_) fun _ => ?_
        · rw [hbits i (by omega)]
          by_cases hlow : i < fromType.size
          · rw [decide_eq_true hlow, Bool.true_and, numberBit_of_lt hlow]
          · rw [decide_eq_false hlow, Bool.false_and, hzero i (Nat.not_lt.mp hlow)]
        · refine iff_of_true (fun i hge hi => ?_) trivial
          have hhigh : ¬ i < fromType.size := by omega
          rw [hbits i (by omega), decide_eq_false hhigh, Bool.false_and,
            hzero _ (show fromType.size ≤ toType.size - 1 by omega), Bool.and_false]

/-! ## There and back -/

/-- A number of a type that a narrower type has, too. -/
def Fits (wide narrow : ScalarType) (x : PtxReg) : Prop :=
  x.low wide.size = resize wide.isSigned wide.size (x.low narrow.size)

theorem cvtData_ok (hfrom : fromType.isNumber = true) (hto : toType.isNumber = true)
    (x : PtxReg) :
    ∃ r, cvtData fromType toType x = .ok r ∧
      r.low toType.size = convertedValue fromType toType toType.size x := by
  have hsize : toType.size ≤ 64 := by
    have h := isWidth_size hto
    rw [IsWidth] at h
    omega
  exact (cvtData_iff hfrom hto le_rfl hsize).mpr (.inl rfl)

theorem cvtData_back {wide narrow : ScalarType} (hwide : wide.isNumber = true)
    (hnarrow : narrow.isNumber = true) (hsize : narrow.size < wide.size)
    (hsigned : narrow.isSigned = wide.isSigned) (hfits : Fits wide narrow x) :
    ∃ y z, cvtData wide narrow x = .ok y ∧ cvtData narrow wide y = .ok z ∧
      z.low wide.size = x.low wide.size := by
  obtain ⟨y, hthere, hy⟩ := cvtData_ok hwide hnarrow x
  obtain ⟨z, hback, hz⟩ := cvtData_ok hnarrow hwide y
  refine ⟨y, z, hthere, hback, ?_⟩
  have hpos : 0 < narrow.size := by
    have h := isWidth_size hnarrow
    rw [IsWidth] at h
    omega
  have hybits : ∀ i < narrow.size, y.u64.getLsbD i = x.u64.getLsbD i := by
    intro i hi
    rw [(low_eq_convertedValue_iff hwide hnarrow).mp hy i hi, if_pos hi,
      numberBit_of_lt (Nat.lt_trans hi hsize)]
  rw [hfits]
  apply BitVec.eq_of_getLsbD_eq
  intro i hi
  have hlast : narrow.size - 1 < narrow.size := by omega
  rw [getLsbD_low hi, (low_eq_convertedValue_iff hnarrow hwide).mp hz i hi, if_pos hi,
    getLsbD_resize _ _ hi, numberBit, hybits _ hlast, getLsbD_low hlast, hsigned]
  by_cases hlow : i < narrow.size
  · rw [if_pos hlow, if_pos hlow, hybits i hlow, getLsbD_low hlow]
  · rw [if_neg hlow, if_neg hlow]

/-! ## The instruction -/

/-- A widening conversion of the register that a narrowing one has written. -/
structure CvtInst.Undoes (back pI : CvtInst) : Prop where
  fromType : back.fromType = pI.toType
  toType : back.toType = pI.fromType
  signed : pI.toType.isSigned = pI.fromType.isSigned
  narrower : pI.toType.size < pI.fromType.size
  source : back.src1 = ⟨.reg pI.dst, .whole, false⟩
  neg : back.neg = false

variable {pI : CvtInst} {regs : RegisterFile}

theorem cvtImpl_eq (hx : pI.operand regs = .ok x)
    (hdata : cvtData pI.fromType pI.toType x = .ok r) :
    cvtImpl pI regs = .ok (Function.update regs pI.dst r) := by
  rw [cvtImpl, hx]
  show (cvtData pI.fromType pI.toType x >>= _) = _
  rw [hdata]
  rfl

/-- For every pair of types and every source register, `cvt` leaves the number of the source type,
reduced to the destination type and extended to the width of the destination register, if and only
if the conversion is one of those described; and every narrowing conversion is undone by the
widening one on numbers that fit. -/
theorem cvtImpl_iff (hx : pI.operand regs = .ok x) (hwidth : pI.toType.size ≤ width)
    (hle : width ≤ 64) :
    ((∃ regs', cvtImpl pI regs = .ok regs' ∧
        (regs' pI.dst).low width = convertedValue pI.fromType pI.toType width x) ↔
      Converts pI.fromType pI.toType width x) ∧
      ∀ back : CvtInst, back.Undoes pI → Fits pI.fromType pI.toType x →
        ∃ regs' regs'', cvtImpl pI regs = .ok regs' ∧ cvtImpl back regs' = .ok regs'' ∧
          (regs'' back.dst).low pI.fromType.size = x.low pI.fromType.size := by
  constructor
  · obtain ⟨r, hr, -⟩ := cvtData_ok pI.fromNumber pI.toNumber x
    rw [← cvtData_iff pI.fromNumber pI.toNumber hwidth hle, exists_ok_and (cvtImpl_eq hx hr),
      exists_ok_and hr, Function.update_self]
  · intro back hundoes hfits
    obtain ⟨y, z, hthere, hback, hz⟩ :=
      cvtData_back pI.fromNumber pI.toNumber hundoes.narrower hundoes.signed hfits
    refine ⟨_, Function.update (Function.update regs pI.dst y) back.dst z, cvtImpl_eq hx hthere,
      cvtImpl_eq (x := y) ?_ ?_, ?_⟩
    · rw [CvtInst.operand, hundoes.source, hundoes.neg]
      exact congrArg Except.ok (Function.update_self ..)
    · rw [hundoes.fromType, hundoes.toType]
      exact hback
    · rw [Function.update_self, hz]

/-- A `cvt` of a literal. -/
def cvtLiteral (toType fromType : ScalarType) (a : BitVec 64) (toNumber : toType.isNumber = true)
    (fromNumber : fromType.isNumber = true) : CvtInst where
  toType := toType
  fromType := fromType
  dst := 0
  src1 := ⟨.literal ⟨a⟩, .whole, false⟩
  toNumber := toNumber
  fromNumber := fromNumber

/-- A negative number of 32 bits, with other bits above it, in a register of 64. -/
theorem cvtImpl_extends :
    ((∃ regs', cvtImpl (cvtLiteral .s64 .s32 0x1280000000 rfl rfl) (fun _ => ⟨0⟩) = .ok regs' ∧
        (regs' 0).low 64 = convertedValue .s32 .s64 64 ⟨0x1280000000⟩) ↔
      Converts .s32 .s64 64 ⟨0x1280000000⟩) ∧
      ∀ back : CvtInst, back.Undoes (cvtLiteral .s64 .s32 0x1280000000 rfl rfl) →
        Fits .s32 .s64 ⟨0x1280000000⟩ →
        ∃ regs' regs'', cvtImpl (cvtLiteral .s64 .s32 0x1280000000 rfl rfl) (fun _ => ⟨0⟩) =
            .ok regs' ∧ cvtImpl back regs' = .ok regs'' ∧
          (regs'' back.dst).low 32 = (⟨0x1280000000⟩ : PtxReg).low 32 :=
  @cvtImpl_iff _ _ (cvtLiteral .s64 .s32 0x1280000000 rfl rfl) _ rfl (by decide) (by decide)

/-- The signed byte 0x80, cut off from 0x180, is not extended to a register of 32 bits. -/
theorem not_cvtImpl_narrow :
    ¬ ∀ (pI : CvtInst) (regs : RegisterFile) (x : PtxReg) (width : ℕ),
      pI.operand regs = .ok x → pI.toType.size ≤ width → width ≤ 64 →
        ∃ regs', cvtImpl pI regs = .ok regs' ∧
          (regs' pI.dst).low width = convertedValue pI.fromType pI.toType width x := by
  intro hall
  obtain ⟨regs', hrun, hlow⟩ := hall (cvtLiteral .s8 .s32 0x180 rfl rfl) (fun _ => ⟨0⟩) ⟨0x180⟩ 32
    rfl (by decide) (by decide)
  cases hrun
  exact absurd hlow (by decide)

end GpuCalorie.Instructions
