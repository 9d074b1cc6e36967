/-
# Addition with carry

An addition whose destination is `$p|$r` leaves its carry in bit 2 of the predicate and its
overflow in bit 3, and `addp` adds that bit to a sum of its own, so that numbers of several
words can be added word by word. Both instructions have a case for each type. Up to 32 bits the
sum is taken in 64 bits and the carry is read off above the type; the cases of 64 bits set no
flags, and those of unsigned types no overflow. The carry is added as it is in the predicate,
as the value 4.
-/

import GpuCalorie.Instructions.Compare
import GpuCalorie.Instructions.ConditionCode
import Mathlib.Data.Nat.ModEq
import Mathlib.Tactic.Ring

namespace GpuCalorie.Instructions

/-- The integer types `add_impl` and `addp_impl` have cases for. -/
def ScalarType.isAdded : ScalarType → Bool
  | .s8 | .s16 | .s32 | .s64 | .u8 | .u16 | .u32 | .u64 => true
  | _ => false

/-- `data`, `overflow` and `carry`. -/
structure AddResult where
  data : PtxReg
  overflow : BitVec 32
  carry : BitVec 32
  deriving DecidableEq, Repr

/-- A case of a type of less than 64 bits: the sum of the masked sources, and the bit above the
type. -/
def addMasked (w : ℕ) (a b carryIn : BitVec 64) : BitVec 64 :=
  (a &&& BitVec.ofNat 64 (2 ^ w - 1)) + (b &&& BitVec.ofNat 64 (2 ^ w - 1)) + carryIn

def carryOf (w : ℕ) (data : BitVec 64) : BitVec 32 :=
  ((data &&& BitVec.twoPow 64 w) >>> w).setWidth 32

/-- The overflow of a signed type: sources of one sign, and a sum of the other one. -/
def overflowOf (w : ℕ) (a b data : BitVec 64) : BitVec 32 :=
  let sign := BitVec.twoPow 64 (w - 1)
  if (a &&& sign) - (b &&& sign) = 0 then if (a &&& sign) - (data &&& sign) = 0 then 0 else 1
  else 0

def addSigned (w : ℕ) (a b carryIn : BitVec 64) : AddResult :=
  let data := addMasked w a b carryIn
  ⟨⟨data⟩, overflowOf w a b data, carryOf w data⟩

def addUnsigned (w : ℕ) (a b carryIn : BitVec 64) : AddResult :=
  let data := addMasked w a b carryIn
  ⟨⟨data⟩, 0, carryOf w data⟩

/-- The switch of `add_impl` and `addp_impl` for the integer types. The first one adds nothing
to the sum of its sources. -/
def addSwitch (type : ScalarType) (a b : PtxReg) (carryIn : BitVec 64) :
    Except ExecFailure AddResult :=
  match type with
  | .s8 => .ok (addSigned 8 a.u64 b.u64 carryIn)
  | .s16 => .ok (addSigned 16 a.u64 b.u64 carryIn)
  | .s32 => .ok (addSigned 32 a.u64 b.u64 carryIn)
  | .u8 => .ok (addUnsigned 8 a.u64 b.u64 carryIn)
  | .u16 => .ok (addUnsigned 16 a.u64 b.u64 carryIn)
  | .u32 => .ok (addUnsigned 32 a.u64 b.u64 carryIn)
  | .s64 | .u64 => .ok ⟨⟨a.u64 + b.u64 + carryIn⟩, 0, 0⟩
  | _ => .error .typeMismatch

/-- A destination with or without a predicate. -/
inductive AddDestination
  | single (dst : Destination)
  | double (dst : DoubleDestination)

/-- `set_operand_value` with `overflow` and `carry`. -/
def setFlaggedOperandValue (wide : BitVec 32) (regs : RegisterFile) (type : ScalarType)
    (result : AddResult) : AddDestination → Except ExecFailure RegisterFile
  | .single dst => .ok (setOperandValue regs dst result.data)
  | .double dst => do
      let regs ← setDoubleOperandValue wide regs dst result.data type
      let predValue := (regs dst.predName).u64 &&& ~~~0x0C#64
      let predValue := predValue ||| ((result.overflow &&& 0x01).setWidth 64 <<< 3)
      let predValue := predValue ||| ((result.carry &&& 0x01).setWidth 64 <<< 2)
      return Function.update regs dst.predName ⟨predValue⟩

/-- An `add` or the first operands of an `addp`. -/
structure AddInst where
  type : ScalarType
  dst : AddDestination
  src1 : Operand
  src2 : Operand

/-- What `add_impl` computes. -/
def addValue (pI : AddInst) (regs : RegisterFile) : Except ExecFailure AddResult := do
  let a ← getOperandValue regs pI.src1 pI.type
  let b ← getOperandValue regs pI.src2 pI.type
  addSwitch pI.type a b 0

/-- `add_impl`, with any destination. -/
def addFlaggedImpl (wide : BitVec 32) (pI : AddInst) (regs : RegisterFile) :
    Except ExecFailure RegisterFile := do
  let result ← addValue pI regs
  setFlaggedOperandValue wide regs pI.type result pI.dst

/-- What `addp_impl` computes. -/
def addpValue (pI : AddInst) (src3 : Operand) (regs : RegisterFile) :
    Except ExecFailure AddResult := do
  let a ← getOperandValue regs pI.src1 pI.type
  let b ← getOperandValue regs pI.src2 pI.type
  let c ← getOperandValue regs src3 pI.type
  addSwitch pI.type a b (c.pred.setWidth 64 &&& 0x4)

/-- `addp_impl` -/
def addpImpl (wide : BitVec 32) (pI : AddInst) (src3 : Operand) (regs : RegisterFile) :
    Except ExecFailure RegisterFile := do
  let result ← addpValue pI src3 regs
  setFlaggedOperandValue wide regs pI.type result pI.dst

/-! ## Sums -/

section Sums

variable {w : ℕ} {a b carryIn : BitVec 64}

theorem toNat_addMasked (hw : w ≤ 32) (hcarry : carryIn.toNat ≤ 4) :
    (addMasked w a b carryIn).toNat =
      (a.setWidth w).toNat + (b.setWidth w).toNat + carryIn.toNat := by
  have hpow : 2 ^ w ≤ 2 ^ 32 := Nat.pow_le_pow_right (by decide) hw
  have hmask : ∀ x : BitVec 64,
      (x &&& BitVec.ofNat 64 (2 ^ w - 1)).toNat = (x.setWidth w).toNat := by
    intro x
    rw [BitVec.toNat_and, BitVec.toNat_ofNat, Nat.mod_eq_of_lt (by omega),
      Nat.and_two_pow_sub_one_eq_mod, BitVec.toNat_setWidth]
  have ha := (a.setWidth w).isLt
  have hb := (b.setWidth w).isLt
  rw [addMasked, BitVec.toNat_add, BitVec.toNat_add, hmask, hmask, Nat.mod_eq_of_lt,
    Nat.mod_eq_of_lt] <;> omega

theorem setWidth_addMasked (hw : w ≤ 32) (hcarry : carryIn.toNat ≤ 4) :
    (addMasked w a b carryIn).setWidth w =
      a.setWidth w + b.setWidth w + carryIn.setWidth w := by
  apply BitVec.eq_of_toNat_eq
  rw [BitVec.toNat_setWidth, toNat_addMasked hw hcarry]
  simp only [BitVec.toNat_add, BitVec.toNat_setWidth]
  simp only [Nat.add_mod, Nat.mod_mod]

theorem carryOf_addMasked (hw : w ≤ 32) (a b : BitVec 64) :
    (carryOf w (addMasked w a b 0)).getLsbD 0 = true ↔
      2 ^ w ≤ (a.setWidth w).toNat + (b.setWidth w).toNat := by
  have hbit : (carryOf w (addMasked w a b 0)).getLsbD 0 = (addMasked w a b 0).getLsbD w := by
    have hlt : w < 64 := Nat.lt_of_le_of_lt hw (by decide)
    rw [carryOf]
    simp [hlt]
  have ha := (a.setWidth w).isLt
  have hb := (b.setWidth w).isLt
  have hsum : (addMasked w a b 0).toNat =
      (a.setWidth w).toNat + (b.setWidth w).toNat + (0 : BitVec 64).toNat :=
    toNat_addMasked hw (by decide)
  rw [hbit, BitVec.getLsbD, hsum, Nat.testBit_eq_decide_div_mod_eq, decide_eq_true_eq]
  show ((a.setWidth w).toNat + (b.setWidth w).toNat + 0) / 2 ^ w % 2 = 1 ↔ _
  have hlt : (a.setWidth w).toNat + (b.setWidth w).toNat < 2 ^ w * 2 := by omega
  have hdiv := Nat.div_lt_of_lt_mul hlt
  have hpos : 0 < ((a.setWidth w).toNat + (b.setWidth w).toNat) / 2 ^ w ↔
      2 ^ w ≤ (a.setWidth w).toNat + (b.setWidth w).toNat :=
    Nat.div_pos_iff.trans (and_iff_right (Nat.two_pow_pos w))
  rw [Nat.add_zero, Nat.mod_eq_of_lt hdiv, ← hpos]
  omega

theorem overflowOf_addMasked (hpos : 0 < w) (hw : w ≤ 32) (a b : BitVec 64) :
    (overflowOf w a b (addMasked w a b 0)).getLsbD 0 =
      (a.setWidth w).saddOverflow (b.setWidth w) := by
  have hlt : w - 1 < 64 := by omega
  have hsame : ∀ x y : BitVec 64,
      (x &&& BitVec.twoPow 64 (w - 1)) - (y &&& BitVec.twoPow 64 (w - 1)) = 0 ↔
        (x.setWidth w).msb = (y.setWidth w).msb := by
    intro x y
    have hne : BitVec.twoPow 64 (w - 1) ≠ 0#64 := by
      intro heq
      have hbit := BitVec.getLsbD_twoPow (w := 64) (w - 1) (w - 1)
      rw [heq] at hbit
      simp [hlt] at hbit
    have hmsb : ∀ z : BitVec 64, (z.setWidth w).msb = z.getLsbD (w - 1) := by
      intro z
      rw [BitVec.msb_eq_getLsbD_last, BitVec.getLsbD_setWidth, decide_eq_true (by omega),
        Bool.true_and]
    rw [sub_eq_zero, BitVec.and_twoPow, BitVec.and_twoPow, hmsb, hmsb]
    cases x.getLsbD (w - 1) <;> cases y.getLsbD (w - 1) <;> simp [hne, hne.symm]
  have hsum : (addMasked w a b 0).setWidth w = a.setWidth w + b.setWidth w := by
    rw [setWidth_addMasked hw (by decide)]
    simp
  rw [overflowOf, BitVec.saddOverflow_eq, ← hsum]
  simp only [hsame]
  cases (a.setWidth w).msb <;> cases (b.setWidth w).msb <;>
    cases ((addMasked w a b 0).setWidth w).msb <;> rfl

end Sums

/-- The carry of a sum of a type. -/
def Carries (w : ℕ) (a b : PtxReg) : Prop :=
  2 ^ w ≤ (a.low w).toNat + (b.low w).toNat

/-- What a case of the switch computes. -/
structure AddResult.Is (type : ScalarType) (a b : PtxReg) (carryIn : BitVec 64)
    (result : AddResult) : Prop where
  data : result.data.low type.size =
    a.low type.size + b.low type.size + carryIn.setWidth type.size
  carry : carryIn = 0 →
    (result.carry.getLsbD 0 = true ↔ type.size ≠ 64 ∧ Carries type.size a b)
  overflow : carryIn = 0 →
    (result.overflow.getLsbD 0 = true ↔ type.isSigned = true ∧ type.size ≠ 64 ∧
      (a.low type.size).saddOverflow (b.low type.size) = true)

section Switch

variable {type : ScalarType} {a b : PtxReg} {carryIn : BitVec 64}

theorem addSigned_is {w : ℕ} (hsize : type.size = w) (hsigned : type.isSigned = true)
    (hpos : 0 < w) (hw : w ≤ 32) (hcarry : carryIn.toNat ≤ 4) :
    (addSigned w a.u64 b.u64 carryIn).Is type a b carryIn := by
  subst hsize
  have hne : type.size ≠ 64 := by omega
  constructor
  · exact setWidth_addMasked hw hcarry
  · rintro rfl
    exact (carryOf_addMasked hw a.u64 b.u64).trans (and_iff_right hne).symm
  · rintro rfl
    rw [and_iff_right hsigned, and_iff_right hne]
    exact Bool.coe_iff_coe.mpr (overflowOf_addMasked hpos hw a.u64 b.u64)

theorem addUnsigned_is {w : ℕ} (hsize : type.size = w) (hunsigned : type.isSigned = false)
    (hw : w ≤ 32) (hcarry : carryIn.toNat ≤ 4) :
    (addUnsigned w a.u64 b.u64 carryIn).Is type a b carryIn := by
  subst hsize
  have hne : type.size ≠ 64 := by omega
  constructor
  · exact setWidth_addMasked hw hcarry
  · rintro rfl
    exact (carryOf_addMasked hw a.u64 b.u64).trans (and_iff_right hne).symm
  · rintro rfl
    refine iff_of_false (by simp [addUnsigned]) fun h => ?_
    rw [hunsigned] at h
    exact absurd h.1 Bool.false_ne_true

theorem addWide_is (hsize : type.size = 64) :
    AddResult.Is type a b carryIn ⟨⟨a.u64 + b.u64 + carryIn⟩, 0, 0⟩ := by
  constructor
  · rw [hsize]
    simp [PtxReg.low]
  · intro _
    exact iff_of_false (by simp) fun h => h.1 hsize
  · intro _
    exact iff_of_false (by simp) fun h => h.2.1 hsize

theorem addSwitch_is (htype : type.isAdded = true) (hcarry : carryIn.toNat ≤ 4) :
    ∃ result, addSwitch type a b carryIn = .ok result ∧ result.Is type a b carryIn := by
  cases type with
  | s8 => exact ⟨_, rfl, addSigned_is rfl rfl (by decide) (by decide) hcarry⟩
  | s16 => exact ⟨_, rfl, addSigned_is rfl rfl (by decide) (by decide) hcarry⟩
  | s32 => exact ⟨_, rfl, addSigned_is rfl rfl (by decide) (by decide) hcarry⟩
  | u8 => exact ⟨_, rfl, addUnsigned_is rfl rfl (by decide) hcarry⟩
  | u16 => exact ⟨_, rfl, addUnsigned_is rfl rfl (by decide) hcarry⟩
  | u32 => exact ⟨_, rfl, addUnsigned_is rfl rfl (by decide) hcarry⟩
  | s64 | u64 => exact ⟨_, rfl, addWide_is rfl⟩
  | b8 | b16 | b32 | b64 | f16 | f32 | f64 | pred => cases htype

end Switch

/-! ## Flags -/

/-- The carry bit and the overflow bit are those of the sum of the sources. -/
structure FlagsExact (type : ScalarType) (a b pred : PtxReg) : Prop where
  carry : pred.u64.getLsbD 2 = true ↔ Carries type.size a b
  overflow : pred.u64.getLsbD 3 = true ↔
    (a.low type.size).saddOverflow (b.low type.size) = true

/-- The sums whose flags are set: those of 64 bits do not carry, and only those of signed types
of less than 64 bits overflow. -/
structure FlagsCovered (type : ScalarType) (a b : PtxReg) : Prop where
  carry : type.size = 64 → ¬ Carries type.size a b
  overflow : ¬ (type.isSigned = true ∧ type.size ≠ 64) →
    (a.low type.size).saddOverflow (b.low type.size) = false

section Flags

variable {wide : BitVec 32} {type : ScalarType} {regs : RegisterFile} {dst : DoubleDestination}

theorem setFlaggedOperandValue_double (htype : type.isInteger = true) (result : AddResult) :
    ∃ regs', setFlaggedOperandValue wide regs type result (.double dst) = .ok regs' ∧
      (regs' dst.predName).u64.getLsbD 2 = result.carry.getLsbD 0 ∧
      (regs' dst.predName).u64.getLsbD 3 = result.overflow.getLsbD 0 := by
  obtain ⟨regs₁, hregs⟩ := setDoubleOperandValue_ok wide regs dst result.data htype
  let predValue := (regs₁ dst.predName).u64 &&& ~~~0x0C#64 |||
    (result.overflow &&& 0x01).setWidth 64 <<< 3 ||| (result.carry &&& 0x01).setWidth 64 <<< 2
  have hrun : setFlaggedOperandValue wide regs type result (.double dst) =
      .ok (Function.update regs₁ dst.predName ⟨predValue⟩) := by
    rw [setFlaggedOperandValue, hregs]
    rfl
  refine ⟨_, hrun, ?_⟩
  rw [Function.update_self]
  constructor <;> simp [predValue]

theorem isInteger_of_isAdded (htype : type.isAdded = true) : type.isInteger = true := by
  cases type <;> first | rfl | cases htype

theorem addFlaggedImpl_ok (wide : BitVec 32) (dst : DoubleDestination) (htype : type.isAdded = true)
    {src1 src2 : Operand} {a b : PtxReg} (ha : getOperandValue regs src1 type = .ok a)
    (hb : getOperandValue regs src2 type = .ok b) :
    ∃ result regs', addValue ⟨type, .double dst, src1, src2⟩ regs = .ok result ∧
      result.Is type a b 0 ∧
      addFlaggedImpl wide ⟨type, .double dst, src1, src2⟩ regs = .ok regs' ∧
      (regs' dst.predName).u64.getLsbD 2 = result.carry.getLsbD 0 ∧
      (regs' dst.predName).u64.getLsbD 3 = result.overflow.getLsbD 0 := by
  obtain ⟨result, hswitch, his⟩ : ∃ result, addSwitch type a b 0 = .ok result ∧
      result.Is type a b 0 :=
    addSwitch_is htype (by decide)
  obtain ⟨regs', hset, hcarry, hoverflow⟩ :=
    @setFlaggedOperandValue_double wide type regs dst (isInteger_of_isAdded htype) result
  have hvalue : addValue ⟨type, .double dst, src1, src2⟩ regs = .ok result := by
    rw [addValue, ha, hb]
    exact hswitch
  refine ⟨result, regs', hvalue, his, ?_, hcarry, hoverflow⟩
  rw [addFlaggedImpl, hvalue]
  exact hset

theorem flagsExact_iff (wide : BitVec 32) (dst : DoubleDestination) (htype : type.isAdded = true)
    {src1 src2 : Operand} {a b : PtxReg} (ha : getOperandValue regs src1 type = .ok a)
    (hb : getOperandValue regs src2 type = .ok b) :
    (∃ regs', addFlaggedImpl wide ⟨type, .double dst, src1, src2⟩ regs = .ok regs' ∧
        FlagsExact type a b (regs' dst.predName)) ↔ FlagsCovered type a b := by
  obtain ⟨result, regs', -, his, hrun, hcarry, hoverflow⟩ :=
    addFlaggedImpl_ok wide dst htype ha hb
  have hcarryIff := his.carry rfl
  have hoverflowIff := his.overflow rfl
  rw [← hcarry] at hcarryIff
  rw [← hoverflow] at hoverflowIff
  constructor
  · rintro ⟨final, hfinal, hexact⟩
    rw [hrun] at hfinal
    cases hfinal
    constructor
    · intro hsize hcarries
      exact (hcarryIff.mp (hexact.carry.mpr hcarries)).1 hsize
    · intro hnot
      rw [← Bool.not_eq_true]
      intro hoverflows
      obtain ⟨hsigned, hsize, -⟩ := hoverflowIff.mp (hexact.overflow.mpr hoverflows)
      exact hnot ⟨hsigned, hsize⟩
  · intro hcovered
    refine ⟨regs', hrun, ?_, ?_⟩
    · rw [hcarryIff]
      exact and_iff_right_of_imp fun hcarries hsize => hcovered.carry hsize hcarries
    · rw [hoverflowIff, ← and_assoc]
      refine and_iff_right_of_imp fun hoverflows => ?_
      by_contra hnot
      rw [hcovered.overflow hnot] at hoverflows
      exact Bool.false_ne_true hoverflows

end Flags

/-! ## The carry -/

section CarryIn

variable {wide : BitVec 32} {type : ScalarType} {regs : RegisterFile}
  {src1 src2 src3 : Operand} {a b c : PtxReg}

/-- The carry that is in a predicate. -/
def carryBit (c : PtxReg) : ℕ :=
  if c.u64.getLsbD 2 then 1 else 0

theorem addpValue_ok (dst : AddDestination) (htype : type.isAdded = true)
    (ha : getOperandValue regs src1 type = .ok a) (hb : getOperandValue regs src2 type = .ok b)
    (hc : getOperandValue regs src3 type = .ok c) :
    ∃ result, addpValue ⟨type, dst, src1, src2⟩ src3 regs = .ok result ∧
      result.data.low type.size =
        a.low type.size + b.low type.size + BitVec.ofNat type.size (4 * carryBit c) := by
  have hcarryIn : c.pred.setWidth 64 &&& 0x4 = BitVec.ofNat 64 (4 * carryBit c) := by
    have htwoPow : (0x4 : BitVec 64) = BitVec.twoPow 64 2 := rfl
    rw [htwoPow, BitVec.and_twoPow, carryBit]
    have hbit : (c.pred.setWidth 64).getLsbD 2 = c.u64.getLsbD 2 := by simp [PtxReg.low]
    rw [hbit]
    cases c.u64.getLsbD 2 <;> rfl
  have hle : (BitVec.ofNat 64 (4 * carryBit c)).toNat ≤ 4 := by
    rw [carryBit]
    split_ifs <;> decide
  obtain ⟨result, hswitch, his⟩ := addSwitch_is (a := a) (b := b) htype hle
  refine ⟨result, ?_, ?_⟩
  · rw [addpValue, ha, hb, hc]
    show addSwitch type a b (c.pred.setWidth 64 &&& 0x4) = _
    rw [hcarryIn]
    exact hswitch
  · rw [his.data, BitVec.setWidth_ofNat_of_le]
    cases type <;> decide

/-- What `addp` should compute. -/
def AddpExact (type : ScalarType) (a b c : PtxReg) (result : AddResult) : Prop :=
  result.data.low type.size =
    a.low type.size + b.low type.size + BitVec.ofNat type.size (carryBit c)

theorem addpExact_iff (dst : AddDestination) (htype : type.isAdded = true)
    (ha : getOperandValue regs src1 type = .ok a) (hb : getOperandValue regs src2 type = .ok b)
    (hc : getOperandValue regs src3 type = .ok c) :
    (∃ result, addpValue ⟨type, dst, src1, src2⟩ src3 regs = .ok result ∧
        AddpExact type a b c result) ↔ c.u64.getLsbD 2 = false := by
  obtain ⟨result, hrun, hdata⟩ := addpValue_ok dst htype ha hb hc
  have hexact : AddpExact type a b c result ↔ c.u64.getLsbD 2 = false := by
    rw [AddpExact, hdata, BitVec.add_right_inj, carryBit]
    cases c.u64.getLsbD 2 with
    | false => simp
    | true => cases type <;> simp [ScalarType.size]
  constructor
  · rintro ⟨final, hfinal, h⟩
    rw [hrun] at hfinal
    cases hfinal
    exact hexact.mp h
  · exact fun h => ⟨result, hrun, hexact.mpr h⟩

end CarryIn

/-! ## Two words -/

theorem twoWords_iff {m a b c d high : ℕ} (hm : 0 < m) :
    high * m + (a + b) % m = (c * m + a + (d * m + b)) % (m * m) ↔
      high = (c + d + (a + b) / m) % m := by
  have hsum : c * m + a + (d * m + b) = a + b + m * (c + d) := by ring
  rw [hsum, Nat.mod_mul, Nat.add_mul_mod_self_left, Nat.add_mul_div_left _ _ hm,
    Nat.add_comm (high * m), Nat.add_left_cancel_iff, Nat.mul_comm high,
    Nat.mul_left_cancel_iff hm, Nat.add_comm ((a + b) / m)]

/-- The sums of the words are the sum of the numbers. -/
def SumExact (w : ℕ) (a b c d low high : PtxReg) : Prop :=
  (high.low w).toNat * 2 ^ w + (low.low w).toNat =
    ((c.low w).toNat * 2 ^ w + (a.low w).toNat + ((d.low w).toNat * 2 ^ w + (b.low w).toNat)) %
      (2 ^ w * 2 ^ w)

section Chain

variable {wide : BitVec 32} {type : ScalarType} {regs regs' : RegisterFile}
  {dst : DoubleDestination} {src1 src2 src3 src4 : Operand} {a b c d : PtxReg}

/-- The third source of the `addp` after an addition. -/
def carrySource (dst : DoubleDestination) : Operand :=
  ⟨.reg dst.predName, .whole, false⟩

theorem sumExact_iff (dst' : AddDestination) (htype : type.isAdded = true)
    (ha : getOperandValue regs src1 type = .ok a) (hb : getOperandValue regs src2 type = .ok b)
    (hadd : addFlaggedImpl wide ⟨type, .double dst, src1, src2⟩ regs = .ok regs')
    (hc : getOperandValue regs' src3 type = .ok c) (hd : getOperandValue regs' src4 type = .ok d) :
    (∃ low high, addValue ⟨type, .double dst, src1, src2⟩ regs = .ok low ∧
        addpValue ⟨type, dst', src3, src4⟩ (carrySource dst) regs' = .ok high ∧
        SumExact type.size a b c d low.data high.data) ↔ ¬ Carries type.size a b := by
  obtain ⟨low, final, hlow, his, hrun, hcarry, -⟩ := addFlaggedImpl_ok wide dst htype ha hb
  rw [hrun] at hadd
  cases hadd
  have hsrc : getOperandValue regs' (carrySource dst) type = .ok (regs' dst.predName) := rfl
  obtain ⟨high, hhigh, hdata⟩ := addpValue_ok dst' htype hc hd hsrc
  have hlowNat : (low.data.low type.size).toNat =
      ((a.low type.size).toNat + (b.low type.size).toNat) % 2 ^ type.size := by
    have hlowData : low.data.low type.size = a.low type.size + b.low type.size := by
      rw [his.data]
      simp
    rw [hlowData, BitVec.toNat_add]
  have hhighNat : (high.data.low type.size).toNat =
      ((c.low type.size).toNat + (d.low type.size).toNat + 4 * carryBit (regs' dst.predName)) %
        2 ^ type.size := by
    rw [hdata, BitVec.toNat_add, BitVec.toNat_add, BitVec.toNat_ofNat]
    simp only [Nat.add_mod, Nat.mod_mod]
  have hbig : 4 < 2 ^ type.size := by cases type <;> first | decide | cases htype
  have ha' := (a.low type.size).isLt
  have hb' := (b.low type.size).isLt
  have hsum : SumExact type.size a b c d low.data high.data ↔ ¬ Carries type.size a b := by
    have hflag := his.carry rfl
    rw [← hcarry] at hflag
    rw [SumExact, hlowNat, hhighNat, twoWords_iff (by omega)]
    by_cases hcarries : Carries type.size a b
    · have hle : 2 ^ type.size ≤ (a.low type.size).toNat + (b.low type.size).toNat := hcarries
      have hdiv : ((a.low type.size).toNat + (b.low type.size).toNat) / 2 ^ type.size = 1 :=
        Nat.div_eq_of_lt_le (by omega) (by omega)
      have hbit : carryBit (regs' dst.predName) ≤ 1 := by
        rw [carryBit]
        split_ifs <;> decide
      rw [hdiv]
      refine iff_of_false (fun heq => ?_) (not_not_intro hcarries)
      have hmod := Nat.ModEq.add_left_cancel' _ heq
      rw [Nat.ModEq, Nat.mod_eq_of_lt (by omega), Nat.mod_eq_of_lt (by omega)] at hmod
      omega
    · have hdiv : ((a.low type.size).toNat + (b.low type.size).toNat) / 2 ^ type.size = 0 :=
        Nat.div_eq_of_lt (Nat.lt_of_not_le hcarries)
      have hbit : carryBit (regs' dst.predName) = 0 := if_neg fun h => hcarries (hflag.mp h).2
      rw [hdiv, hbit]
      exact iff_of_true rfl hcarries
  constructor
  · rintro ⟨low', high', hlow', hhigh', h⟩
    rw [hlow] at hlow'
    rw [hhigh] at hhigh'
    cases hlow'
    cases hhigh'
    exact hsum.mp h
  · exact fun h => ⟨low, high, hlow, hhigh, hsum.mpr h⟩

end Chain

/-- For every type `add` and `addp` have a case for: the flags of an addition are the carry and
the overflow of its sources if and only if it neither carries out of 64 bits nor overflows as
an unsigned or 64-bit number; `addp` adds a carry of 0 or 1 if and only if it is 0; and the two
add numbers of two words if and only if the lower words do not carry. -/
theorem carryChain_iff (wide : BitVec 32) (type : ScalarType) (htype : type.isAdded = true)
    (dst : DoubleDestination) (dst' : AddDestination) (src1 src2 src3 src4 src5 : Operand)
    (regs : RegisterFile) (a b : PtxReg) (ha : getOperandValue regs src1 type = .ok a)
    (hb : getOperandValue regs src2 type = .ok b) :
    ((∃ regs', addFlaggedImpl wide ⟨type, .double dst, src1, src2⟩ regs = .ok regs' ∧
        FlagsExact type a b (regs' dst.predName)) ↔ FlagsCovered type a b) ∧
      (∀ c, getOperandValue regs src5 type = .ok c →
        ((∃ result, addpValue ⟨type, dst', src1, src2⟩ src5 regs = .ok result ∧
          AddpExact type a b c result) ↔ c.u64.getLsbD 2 = false)) ∧
      ∀ regs' c d, addFlaggedImpl wide ⟨type, .double dst, src1, src2⟩ regs = .ok regs' →
        getOperandValue regs' src3 type = .ok c → getOperandValue regs' src4 type = .ok d →
        ((∃ low high, addValue ⟨type, .double dst, src1, src2⟩ regs = .ok low ∧
          addpValue ⟨type, dst', src3, src4⟩ (carrySource dst) regs' = .ok high ∧
          SumExact type.size a b c d low.data high.data) ↔ ¬ Carries type.size a b) := by
  refine ⟨flagsExact_iff wide dst htype ha hb, ?_, ?_⟩
  · exact fun c hc => addpExact_iff dst' htype ha hb hc
  · exact fun regs' c d hadd hc hd => sumExact_iff dst' htype ha hb hadd hc hd

/-- A literal operand. -/
def literal (value : BitVec 64) : Operand :=
  ⟨.literal ⟨value⟩, .whole, false⟩

/-- Numbers of two words of 16 bits whose lower words do not carry. -/
theorem carryChain_noCarry :
    (∃ regs', addFlaggedImpl 0 ⟨.u16, .double ⟨1, 2, .whole, by decide⟩, literal 0x1234,
          literal 0x1111⟩ (fun _ => ⟨0⟩) = .ok regs' ∧
        FlagsExact .u16 ⟨0x1234⟩ ⟨0x1111⟩ (regs' 1)) ∧
      (∃ result, addpValue ⟨.u16, .single ⟨3, .whole⟩, literal 0x1234, literal 0x1111⟩
          (literal 3) (fun _ => ⟨0⟩) = .ok result ∧
        AddpExact .u16 ⟨0x1234⟩ ⟨0x1111⟩ ⟨3⟩ result) ∧
      ∃ regs' low high, addFlaggedImpl 0 ⟨.u16, .double ⟨1, 2, .whole, by decide⟩,
          literal 0x1234, literal 0x1111⟩ (fun _ => ⟨0⟩) = .ok regs' ∧
        addValue ⟨.u16, .double ⟨1, 2, .whole, by decide⟩, literal 0x1234, literal 0x1111⟩
          (fun _ => ⟨0⟩) = .ok low ∧
        addpValue ⟨.u16, .single ⟨3, .whole⟩, literal 7, literal 8⟩
          (carrySource ⟨1, 2, .whole, by decide⟩) regs' = .ok high ∧
        SumExact 16 ⟨0x1234⟩ ⟨0x1111⟩ ⟨7⟩ ⟨8⟩ low.data high.data := by
  have hlaws := carryChain_iff 0 .u16 rfl ⟨1, 2, .whole, by decide⟩ (.single ⟨3, .whole⟩)
    (literal 0x1234) (literal 0x1111) (literal 7) (literal 8) (literal 3) (fun _ => ⟨0⟩)
    ⟨0x1234⟩ ⟨0x1111⟩ rfl rfl
  have hno : ¬ Carries 16 ⟨0x1234⟩ ⟨0x1111⟩ := by
    rw [Carries]
    decide
  have hcovered : FlagsCovered .u16 ⟨0x1234⟩ ⟨0x1111⟩ :=
    ⟨fun h => absurd h (by decide), fun _ => by decide⟩
  refine ⟨hlaws.1.mpr hcovered, (hlaws.2.1 ⟨3⟩ rfl).mpr (by decide), ?_⟩
  obtain ⟨low, high, hlow, hhigh, hsum⟩ := (hlaws.2.2 _ ⟨7⟩ ⟨8⟩ rfl rfl rfl).mpr hno
  exact ⟨_, low, high, rfl, hlow, hhigh, hsum⟩

/-- When the lower words carry, the upper word gets 4 instead of 1; a sum of 64 bits that
carries has no carry bit, and an unsigned sum that overflows no overflow bit. -/
theorem not_carryChain_carry :
    (∃ regs' low high, addFlaggedImpl 0 ⟨.u32, .double ⟨1, 2, .whole, by decide⟩,
          literal 0xFFFFFFFF, literal 1⟩ (fun _ => ⟨0⟩) = .ok regs' ∧
        addValue ⟨.u32, .double ⟨1, 2, .whole, by decide⟩, literal 0xFFFFFFFF, literal 1⟩
          (fun _ => ⟨0⟩) = .ok low ∧
        addpValue ⟨.u32, .single ⟨3, .whole⟩, literal 0, literal 0⟩
          (carrySource ⟨1, 2, .whole, by decide⟩) regs' = .ok high ∧
        high.data.u64 = 4 ∧ ¬ AddpExact .u32 ⟨0⟩ ⟨0⟩ (regs' 1) high ∧
        ¬ SumExact 32 ⟨0xFFFFFFFF⟩ ⟨1⟩ ⟨0⟩ ⟨0⟩ low.data high.data) ∧
      (∃ regs', addFlaggedImpl 0 ⟨.u64, .double ⟨1, 2, .whole, by decide⟩,
          literal 0xFFFFFFFFFFFFFFFF, literal 1⟩ (fun _ => ⟨0⟩) = .ok regs' ∧
        ¬ FlagsExact .u64 ⟨0xFFFFFFFFFFFFFFFF⟩ ⟨1⟩ (regs' 1)) ∧
      ∃ regs', addFlaggedImpl 0 ⟨.u8, .double ⟨1, 2, .whole, by decide⟩, literal 0x7F,
          literal 1⟩ (fun _ => ⟨0⟩) = .ok regs' ∧
        ¬ FlagsExact .u8 ⟨0x7F⟩ ⟨1⟩ (regs' 1) := by
  refine ⟨⟨_, _, _, rfl, rfl, rfl, rfl, ?_, ?_⟩, ⟨_, rfl, ?_⟩, _, rfl, ?_⟩
  · rw [AddpExact]
    decide
  · rw [SumExact]
    decide
  · rintro ⟨hcarry, -⟩
    rw [Carries] at hcarry
    exact absurd hcarry (by decide)
  · rintro ⟨-, hoverflow⟩
    exact absurd hoverflow (by decide)

end GpuCalorie.Instructions
