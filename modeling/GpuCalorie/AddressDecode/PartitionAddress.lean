/-
# Addresses within a slice

The sub-partition of an address and its partition address share the bits of the address: the
partition address leaves out the channel and the sub-partition bits of the bank, which make up the
number of the sub-partition. So the two identify the address as long as the number keeps what it is
made of. It has 32 bits, and init accepts maps whose channels and sub-partitions need more; and a
channel that is a remainder is taken off with a mask `(1 << s) - 1` of the type `int`.
-/

import GpuCalorie.AddressDecode.Masks
import GpuCalorie.Math.Bytes

namespace GpuCalorie.AddressDecode

open GpuCalorie.Math

variable {p : Platform} {t : Translation}

namespace Translation

/-! ## The property -/

/-- The slice of the L2 cache an address is sent to, and the address there. -/
def slice (p : Platform) (t : Translation) (addr : BitVec 64) (s : Interleaving) :
    Except AddressFailure (BitVec 32 × BitVec 64) := do
  let (tlx, _) ← t.addrdecTlx p addr s
  let partAddr ← t.partitionAddress p addr
  .ok (tlx.subPartition, partAddr)

/-- Every address has a slice and an address there, and these two determine it. -/
structure Identifies (p : Platform) (t : Translation) : Prop where
  defined : ∀ addr s, ∃ result, t.slice p addr s = .ok result
  injective : ∀ {addr addr' s s' result}, t.slice p addr s = .ok result →
    t.slice p addr' s' = .ok result → addr = addr'

/-- How many channels the mapping tells apart. -/
def chipCount (t : Translation) : ℕ :=
  if t.gap = 0 then 2 ^ (setBits (t.mask .chip)).length else t.nChannel.toNat

/-- The numbers of the sub-partitions fit in 32 bits, and a channel that is a remainder is taken
off at a place below the sign of an `int`. -/
structure Fits (t : Translation) : Prop where
  remainder : t.gap ≠ 0 → t.nChannel ≠ 0 ∧ 0 ≤ t.addrChipS ∧ t.addrChipS < 31
  total : t.chipCount * t.nSubPartitionInChannel.toNat ≤ 2 ^ 32
  nonempty : t.nSubPartitionInChannel = 0 → t.chipCount ≤ 1

/-! ## The number of the sub-partition -/

/-- The bits of the bank that are in the number. -/
def keptBankBits (t : Translation) : ℕ :=
  if t.nSubPartitionInChannel = 0 then 32 else (logb2_32 t.nSubPartitionInChannel).toNat

/-- The bits of the channel for which there is place above them. -/
def keptChipBits (t : Translation) : ℕ :=
  if t.nSubPartitionInChannel = 0 then 0 else 32 - t.keptBankBits

section

variable (hacc : t.Accepted)
include hacc

theorem kept_cases : t.nSubPartitionInChannel = 0 ∧ t.keptBankBits = 32 ∧ t.keptChipBits = 0 ∨
      ∃ m < 32, t.nSubPartitionInChannel = BitVec.twoPow 32 m ∧ t.keptBankBits = m ∧
        t.keptChipBits = 32 - m := by
  rcases eq_zero_or_twoPow hacc.powerOfTwo with hsub | ⟨m, hm, hsub⟩
  · exact Or.inl ⟨hsub, if_pos hsub, if_pos hsub⟩
  · right
    have hne : t.nSubPartitionInChannel ≠ 0 := by
      rw [hsub]
      exact twoPow_ne_zero hm
    have hbank : t.keptBankBits = m := by
      rw [keptBankBits, if_neg hne, hsub, logb2_32_twoPow hm]
    refine ⟨m, hm, hsub, hbank, ?_⟩
    rw [keptChipBits, if_neg hne, hbank]

theorem keptBankBits_le : t.keptBankBits ≤ 32 := by
  rcases kept_cases hacc with ⟨_, hbank, _⟩ | ⟨m, hm, _, hbank, _⟩
  · exact hbank.le
  · exact hbank.le.trans hm.le

theorem keptChipBits_le : t.keptChipBits ≤ 32 := by
  rcases kept_cases hacc with ⟨_, _, hchip⟩ | ⟨m, _, _, _, hchip⟩
  · omega
  · omega

omit hacc in
theorem toNat_subPartitionId {m : ℕ} (hm : m < 32)
    (hsub : t.nSubPartitionInChannel = BitVec.twoPow 32 m) (chip bk : BitVec 32) :
    (t.subPartitionId chip bk).toNat =
      chip.toNat % 2 ^ (32 - m) * 2 ^ m + bk.toNat % 2 ^ m := by
  have hlow : (bk &&& (BitVec.twoPow 32 m - 1)).toNat = bk.toNat % 2 ^ m := by
    rw [BitVec.twoPow_eq]
    exact toNat_and_bit_sub_one hm
  have hpow : 2 ^ 32 = 2 ^ (32 - m) * 2 ^ m := by
    rw [← pow_add, Nat.sub_add_cancel hm.le]
  have hhigh : (chip * BitVec.twoPow 32 m).toNat = chip.toNat % 2 ^ (32 - m) * 2 ^ m := by
    rw [BitVec.toNat_mul, BitVec.toNat_twoPow_of_lt hm, hpow, Nat.mul_mod_mul_right]
  have hchip : chip.toNat % 2 ^ (32 - m) + 1 ≤ 2 ^ (32 - m) := Nat.mod_lt _ (Nat.two_pow_pos _)
  have hbk : bk.toNat % 2 ^ m < 2 ^ m := Nat.mod_lt _ (Nat.two_pow_pos _)
  have hbound : chip.toNat % 2 ^ (32 - m) * 2 ^ m + bk.toNat % 2 ^ m < 2 ^ 32 :=
    calc chip.toNat % 2 ^ (32 - m) * 2 ^ m + bk.toNat % 2 ^ m
        < chip.toNat % 2 ^ (32 - m) * 2 ^ m + 2 ^ m := Nat.add_lt_add_left hbk _
      _ = (chip.toNat % 2 ^ (32 - m) + 1) * 2 ^ m := (Nat.succ_mul _ _).symm
      _ ≤ 2 ^ (32 - m) * 2 ^ m := Nat.mul_le_mul_right _ hchip
      _ = 2 ^ 32 := hpow.symm
  rw [subPartitionId, hsub, BitVec.toNat_add, hhigh, hlow, Nat.mod_eq_of_lt hbound]

theorem subPartitionId_eq_iff {chip chip' bk bk' : BitVec 32} :
    t.subPartitionId chip bk = t.subPartitionId chip' bk' ↔
      bk.setWidth t.keptBankBits = bk'.setWidth t.keptBankBits ∧
        chip.setWidth t.keptChipBits = chip'.setWidth t.keptChipBits := by
  rcases kept_cases hacc with ⟨hsub, hbank, hchip⟩ | ⟨m, hm, hsub, hbank, hchip⟩
  · have hbk : ∀ x y : BitVec 32, x * 0 + (y &&& (0 - 1)) = y := by
      intro x y
      have hall : y &&& (0 - 1) = y := BitVec.and_allOnes
      rw [hall, BitVec.ofNat_eq_ofNat, BitVec.mul_zero, BitVec.zero_add]
    rw [hbank, hchip, BitVec.setWidth_eq, BitVec.setWidth_eq, subPartitionId, subPartitionId, hsub,
      hbk, hbk]
    exact (and_iff_left (Subsingleton.elim _ _)).symm
  · rw [hbank, hchip, ← BitVec.toNat_inj, ← BitVec.toNat_inj (x := bk.setWidth m),
      ← BitVec.toNat_inj (x := chip.setWidth (32 - m)), toNat_subPartitionId hm hsub,
      toNat_subPartitionId hm hsub]
    simp only [BitVec.toNat_setWidth]
    constructor
    · intro h
      have hdigits := digits_unique (Nat.mod_lt _ (Nat.two_pow_pos _))
        (Nat.mod_lt _ (Nat.two_pow_pos _)) h
      exact ⟨hdigits.2, hdigits.1⟩
    · rintro ⟨hlow, hhigh⟩
      rw [hlow, hhigh]

theorem packField_eq_gather (field : Field) (val : BitVec 64) :
    t.packField field val = gather 32 (setBits (t.mask field)) val := by
  rw [packField, addrdecPackbits_eq_gather (hacc.high_le field) (hacc.limits field),
    setWidth_gather (by omega)]

theorem mem_take_of_subPartitionIdMask {i : ℕ} (h : t.subPartitionIdMask.getLsbD i = true) :
    i ∈ (setBits (t.mask .bk)).take t.keptBankBits := by
  obtain ⟨hmany, hmem⟩ := (hacc.subPartition i).mp h
  have hne : t.nSubPartitionInChannel ≠ 0 := by
    intro hzero
    rw [hzero] at hmany
    exact absurd hmany (by decide)
  rw [keptBankBits, if_neg hne]
  exact hmem

theorem subPartitionId_gather_iff {chip chip' : BitVec 32} {x y : BitVec 64} :
    t.subPartitionId chip (gather 32 (setBits (t.mask .bk)) x) =
        t.subPartitionId chip' (gather 32 (setBits (t.mask .bk)) y) ↔
      AgreeOn ((setBits (t.mask .bk)).take t.keptBankBits) x y ∧
        chip.setWidth t.keptChipBits = chip'.setWidth t.keptChipBits := by
  rw [subPartitionId_eq_iff hacc, setWidth_gather (keptBankBits_le hacc),
    setWidth_gather (keptBankBits_le hacc), gather_eq_iff]

end

theorem gather_setBits_eq_iff {mask x y : BitVec 64} :
    gather 64 (setBits mask) x = gather 64 (setBits mask) y ↔ AgreeOn (setBits mask) x y := by
  rw [gather_eq_iff, List.take_of_length_le (length_setBits_le mask)]

/-! ## A power of two of channels -/

section Gapless
variable {addr addr' : BitVec 64}


variable (hacc : t.Accepted) (hindex : t.memoryPartitionIndexing = .consecutive) (hgap : t.gap = 0)
include hacc hindex hgap

theorem slice_of_gapless (p : Platform) (addr : BitVec 64) (s : Interleaving) :
    t.slice p addr s = .ok
      (t.subPartitionId (gather 32 (setBits (t.mask .chip)) addr)
        (gather 32 (setBits (t.mask .bk)) addr),
      gather 64 (setBits (~~~(t.mask .chip ||| t.subPartitionIdMask))) addr) := by
  rw [slice, addrdecTlx, if_pos hgap, partitionIndex, hindex, partitionAddress, if_pos hgap,
    addrdecPackbits_whole, ← packField_eq_gather hacc .chip, ← packField_eq_gather hacc .bk]
  rfl

/-- The bits of the address that are in its slice or in the partition address. -/
def keptBits (t : Translation) : List ℕ :=
  setBits (~~~(t.mask .chip ||| t.subPartitionIdMask)) ++
    (setBits (t.mask .bk)).take t.keptBankBits ++ (setBits (t.mask .chip)).take t.keptChipBits

theorem slice_eq_iff_of_gapless {s s' : Interleaving} :
    t.slice p addr s = t.slice p addr' s' ↔ AgreeOn t.keptBits addr addr' := by
  rw [slice_of_gapless hacc hindex hgap, slice_of_gapless hacc hindex hgap, Except.ok.injEq,
    Prod.mk.injEq, subPartitionId_gather_iff hacc, gather_setBits_eq_iff,
    setWidth_gather (keptChipBits_le hacc),
    setWidth_gather (keptChipBits_le hacc), gather_eq_iff, keptBits,
    AgreeOn.append, AgreeOn.append]
  tauto

omit hindex hgap in
theorem mem_keptBits_iff : (∀ i < 64, i ∈ t.keptBits) ↔
    (setBits (t.mask .chip)).length ≤ t.keptChipBits := by
  constructor
  · intro hall
    by_contra hlt
    have hindex : t.keptChipBits < (setBits (t.mask .chip)).length := not_le.mp hlt
    -- The lowest channel bit there is no place for is not kept elsewhere.
    have hmem : (setBits (t.mask .chip))[t.keptChipBits] ∈ setBits (t.mask .chip) :=
      List.getElem_mem hindex
    have hchip := mem_setBits.mp hmem
    have hkept := hall _ (BitVec.lt_of_getLsbD hchip)
    rw [keptBits, List.mem_append, List.mem_append] at hkept
    rcases hkept with (hrest | hbank) | hplace
    · rw [mem_setBits, BitVec.getLsbD_not, BitVec.getLsbD_or, hchip] at hrest
      simp at hrest
    · have hbk := mem_setBits.mp (List.mem_of_mem_take hbank)
      rw [hacc.separate _ hchip] at hbk
      exact Bool.false_ne_true hbk
    · obtain ⟨j, hj, heq⟩ := List.getElem_of_mem hplace
      rw [List.length_take] at hj
      rw [List.getElem_take, (setBits_nodup _).getElem_inj_iff] at heq
      omega
  · intro hle i hi
    rw [keptBits, List.mem_append, List.mem_append, List.take_of_length_le hle]
    by_cases hchip : (t.mask .chip).getLsbD i = true
    · exact Or.inr (mem_setBits.mpr hchip)
    · by_cases hsub : t.subPartitionIdMask.getLsbD i = true
      · exact Or.inl (Or.inr (mem_take_of_subPartitionIdMask hacc hsub))
      · left
        left
        rw [mem_setBits, BitVec.getLsbD_not, BitVec.getLsbD_or, Bool.eq_false_iff.mpr hchip,
          Bool.eq_false_iff.mpr hsub]
        simp [hi]

theorem identifies_iff_of_gapless : t.Identifies p ↔
    (setBits (t.mask .chip)).length ≤ t.keptChipBits := by
  rw [← mem_keptBits_iff hacc, ← agreeOn_injective_iff]
  have hdefined : ∀ addr s, ∃ result, t.slice p addr s = .ok result := fun addr s =>
    ⟨_, slice_of_gapless hacc hindex hgap p addr s⟩
  constructor
  · intro h x y hagree
    let s : Interleaving := ⟨fun _ => none, 0⟩
    obtain ⟨result, hx⟩ := h.defined x s
    have heq : t.slice p x s = t.slice p y s :=
      (slice_eq_iff_of_gapless hacc hindex hgap).mpr hagree
    exact h.injective hx (heq ▸ hx)
  · intro h
    refine ⟨hdefined, ?_⟩
    intro addr addr' s s' result hx hy
    exact h _ _ ((slice_eq_iff_of_gapless hacc hindex hgap).mp (hx.trans hy.symm))

end Gapless

/-! ## The count of the channels -/

theorem chipCount_le_iff (hacc : t.Accepted) : t.chipCount ≤ 2 ^ t.keptChipBits ↔
    t.chipCount * t.nSubPartitionInChannel.toNat ≤ 2 ^ 32 ∧
      (t.nSubPartitionInChannel = 0 → t.chipCount ≤ 1) := by
  rcases kept_cases hacc with ⟨hsub, _, hchip⟩ | ⟨m, hm, hsub, _, hchip⟩
  · rw [hchip, hsub, pow_zero]
    simp
  · have hpow : 2 ^ 32 = 2 ^ (32 - m) * 2 ^ m := by
      rw [← pow_add, Nat.sub_add_cancel hm.le]
    rw [hchip, hsub, BitVec.toNat_twoPow_of_lt hm, hpow,
      Nat.mul_le_mul_right_iff (Nat.two_pow_pos m)]
    exact (and_iff_left fun hzero => absurd hzero (twoPow_ne_zero hm)).symm

/-! ## Another number of channels -/

section Gap

/-- The channel that is a remainder. -/
def remainder (p : Platform) (t : Translation) (addr : BitVec 64) : BitVec 32 :=
  (p.shr addr t.addrChipS % t.nChannel.setWidth 64).setWidth 32

theorem slice_of_gap (hacc : t.Accepted) (hindex : t.memoryPartitionIndexing = .consecutive)
    (hgap : t.gap ≠ 0) (hchannel : t.nChannel ≠ 0) (p : Platform) (addr : BitVec 64)
    (s : Interleaving) :
    t.slice p addr s = .ok
      (t.subPartitionId (t.remainder p addr)
        (gather 32 (setBits (t.mask .bk)) (t.restOfAddr p addr)),
      gather 64 (setBits (~~~t.subPartitionIdMask)) (t.restOfAddr p addr)) := by
  rw [slice, addrdecTlx, if_neg hgap, if_neg hchannel, partitionIndex, hindex, partitionAddress,
    if_neg hgap, if_neg hchannel, addrdecPackbits_whole, ← packField_eq_gather hacc .bk]
  rfl

theorem slice_eq_iff_of_gap (hacc : t.Accepted) (hindex : t.memoryPartitionIndexing = .consecutive)
    (hgap : t.gap ≠ 0) (hchannel : t.nChannel ≠ 0) {s s' : Interleaving} :
    t.slice p addr s = t.slice p addr' s' ↔ t.restOfAddr p addr = t.restOfAddr p addr' ∧
      (t.remainder p addr).setWidth t.keptChipBits =
        (t.remainder p addr').setWidth t.keptChipBits := by
  rw [slice_of_gap hacc hindex hgap hchannel, slice_of_gap hacc hindex hgap hchannel,
    Except.ok.injEq, Prod.mk.injEq, subPartitionId_gather_iff hacc, gather_setBits_eq_iff]
  constructor
  · rintro ⟨⟨hbank, hchip⟩, hrest⟩
    refine ⟨BitVec.eq_of_getLsbD_eq ?_, hchip⟩
    intro i hi
    by_cases hsub : t.subPartitionIdMask.getLsbD i = true
    · exact hbank i (mem_take_of_subPartitionIdMask hacc hsub)
    · apply hrest
      rw [mem_setBits, BitVec.getLsbD_not, Bool.eq_false_iff.mpr hsub]
      simp [hi]
  · rintro ⟨hrest, hchip⟩
    rw [hrest]
    exact ⟨⟨fun _ _ => rfl, hchip⟩, fun _ _ => rfl⟩

/-! ### Quotient and remainder -/

variable {s : ℕ}

theorem toNat_shr (hs : t.addrChipS = s) (hlt : s < 31) (addr : BitVec 64) :
    (p.shr addr t.addrChipS).toNat = addr.toNat / 2 ^ s := by
  have hrange : (0 : ℤ) ≤ s ∧ (s : ℤ) < 64 := by omega
  rw [Platform.shr, hs, if_pos hrange, Int.toNat_natCast, BitVec.toNat_ushiftRight,
    Nat.shiftRight_eq_div_pow]

theorem toNat_nChannel (t : Translation) : (t.nChannel.setWidth 64).toNat = t.nChannel.toNat := by
  have hlt := t.nChannel.isLt
  rw [BitVec.toNat_setWidth]
  exact Nat.mod_eq_of_lt (by omega)

theorem toNat_remainder (hs : t.addrChipS = s) (hlt : s < 31) (hchannel : 0 < t.nChannel.toNat)
    (addr : BitVec 64) :
    (t.remainder p addr).toNat = addr.toNat / 2 ^ s % t.nChannel.toNat := by
  have hmod := Nat.mod_lt (addr.toNat / 2 ^ s) hchannel
  rw [remainder, BitVec.toNat_setWidth, BitVec.toNat_umod, toNat_shr hs hlt, toNat_nChannel]
  exact Nat.mod_eq_of_lt (hmod.trans t.nChannel.isLt)

theorem lowMask_eq (hlt : s < 31) : p.lowMask s = 1#64 <<< s - 1#64 := by
  have hrange : (0 : ℤ) ≤ s ∧ (s : ℤ) < 31 := by omega
  rw [Platform.lowMask, if_pos hrange, Int.toNat_natCast]
  revert s
  decide

theorem toNat_restOfAddr (hs : t.addrChipS = s) (hlt : s < 31) (addr : BitVec 64) :
    (t.restOfAddr p addr).toNat =
      addr.toNat / 2 ^ s / t.nChannel.toNat * 2 ^ s + addr.toNat % 2 ^ s := by
  have hrange : (0 : ℤ) ≤ s ∧ (s : ℤ) < 64 := by omega
  have hquotient : (t.quotient p addr).toNat = addr.toNat / 2 ^ s / t.nChannel.toNat := by
    rw [quotient, BitVec.toNat_udiv, toNat_shr hs hlt, toNat_nChannel]
  have hle : addr.toNat / 2 ^ s / t.nChannel.toNat * 2 ^ s ≤ addr.toNat :=
    (Nat.mul_le_mul_right _ (Nat.div_le_self _ _)).trans (Nat.div_mul_le_self _ _)
  have hshl : (p.shl (t.quotient p addr) t.addrChipS).toNat =
      addr.toNat / 2 ^ s / t.nChannel.toNat * 2 ^ s := by
    rw [Platform.shl, hs, if_pos hrange, Int.toNat_natCast, BitVec.toNat_shiftLeft, hquotient,
      Nat.shiftLeft_eq, Nat.mod_eq_of_lt (hle.trans_lt addr.isLt)]
  rw [restOfAddr, BitVec.toNat_or, hshl, hs, lowMask_eq hlt, toNat_and_bit_sub_one (by omega),
    mul_comm, ← Nat.two_pow_add_eq_or_of_lt (Nat.mod_lt _ (Nat.two_pow_pos s))]

theorem eq_of_rest_of_remainder (hs : t.addrChipS = s) (hlt : s < 31)
    (hchannel : 0 < t.nChannel.toNat) (hrest : t.restOfAddr p addr = t.restOfAddr p addr')
    (hchip : t.remainder p addr = t.remainder p addr') : addr = addr' := by
  have hrest := congrArg BitVec.toNat hrest
  have hchip := congrArg BitVec.toNat hchip
  rw [toNat_restOfAddr hs hlt, toNat_restOfAddr hs hlt] at hrest
  rw [toNat_remainder hs hlt hchannel, toNat_remainder hs hlt hchannel] at hchip
  obtain ⟨hquotient, hlow⟩ := digits_unique (Nat.mod_lt _ (Nat.two_pow_pos s))
    (Nat.mod_lt _ (Nat.two_pow_pos s)) hrest
  have hhigh : addr.toNat / 2 ^ s = addr'.toNat / 2 ^ s := by
    rw [← Nat.div_add_mod (addr.toNat / 2 ^ s) t.nChannel.toNat, hquotient, hchip, Nat.div_add_mod]
  apply BitVec.eq_of_toNat_eq
  rw [← Nat.div_add_mod addr.toNat (2 ^ s), hhigh, hlow, Nat.div_add_mod]

theorem identifies_of_gap (hacc : t.Accepted) (hindex : t.memoryPartitionIndexing = .consecutive)
    (hgap : t.gap ≠ 0) (hchannel : t.nChannel ≠ 0) (hs : t.addrChipS = s) (hlt : s < 31)
    (hcount : t.nChannel.toNat ≤ 2 ^ t.keptChipBits) : t.Identifies p := by
  have hpos : 0 < t.nChannel.toNat := by
    rw [Nat.pos_iff_ne_zero]
    intro hzero
    exact hchannel (BitVec.eq_of_toNat_eq hzero)
  constructor
  · intro addr s
    exact ⟨_, slice_of_gap hacc hindex hgap hchannel p addr s⟩
  · intro addr addr' s s' result h h'
    obtain ⟨hrest, hkept⟩ := (slice_eq_iff_of_gap hacc hindex hgap hchannel).mp (h.trans h'.symm)
    refine eq_of_rest_of_remainder hs hlt hpos hrest (BitVec.eq_of_toNat_eq ?_)
    -- A remainder has no bits above the kept ones.
    have hfits : ∀ addr, (t.remainder p addr).toNat < 2 ^ t.keptChipBits := by
      intro addr
      rw [toNat_remainder hs hlt hpos]
      exact (Nat.mod_lt _ hpos).trans_le hcount
    have hnat := congrArg BitVec.toNat hkept
    rwa [BitVec.toNat_setWidth, BitVec.toNat_setWidth, Nat.mod_eq_of_lt (hfits _),
      Nat.mod_eq_of_lt (hfits _)] at hnat

theorem not_identifies_of_gap (hacc : t.Accepted)
    (hindex : t.memoryPartitionIndexing = .consecutive) (hgap : t.gap ≠ 0)
    (hs : t.addrChipS = s) (hlt : s < 31)
    (hcount : 2 ^ t.keptChipBits < t.nChannel.toNat) : ¬ t.Identifies p := by
  have hpos : 0 < t.nChannel.toNat := (Nat.two_pow_pos _).trans hcount
  have hchannel : t.nChannel ≠ 0 := by
    rintro h
    rw [h] at hpos
    exact absurd hpos (by decide)
  have hkept := keptChipBits_le hacc
  intro h
  let start : Interleaving := ⟨fun _ => none, 0⟩
  let addr : BitVec 64 := BitVec.twoPow 64 (t.keptChipBits + s)
  have hzero : (0 : BitVec 64).toNat = 0 := rfl
  have haddr : addr.toNat = 2 ^ t.keptChipBits * 2 ^ s := by
    rw [BitVec.toNat_twoPow_of_lt (by omega), pow_add]
  have hhigh : addr.toNat / 2 ^ s = 2 ^ t.keptChipBits := by
    rw [haddr, Nat.mul_div_cancel _ (Nat.two_pow_pos s)]
  have hsame : t.slice p 0 start = t.slice p addr start := by
    rw [slice_eq_iff_of_gap hacc hindex hgap hchannel]
    constructor
    · apply BitVec.eq_of_toNat_eq
      rw [toNat_restOfAddr hs hlt, toNat_restOfAddr hs hlt, hhigh, hzero, haddr,
        Nat.mul_mod_left, Nat.div_eq_of_lt hcount]
      simp
    · apply BitVec.eq_of_toNat_eq
      rw [BitVec.toNat_setWidth, BitVec.toNat_setWidth, toNat_remainder hs hlt hpos,
        toNat_remainder hs hlt hpos, hhigh, hzero, Nat.mod_eq_of_lt hcount]
      simp
  obtain ⟨result, hresult⟩ := h.defined 0 start
  have heq := h.injective hresult (hsame ▸ hresult)
  have hne := congrArg BitVec.toNat heq
  rw [haddr, hzero] at hne
  have := Nat.mul_pos (Nat.two_pow_pos t.keptChipBits) (Nat.two_pow_pos s)
  omega

/-- A program whose undefined operations give zero. -/
def zeroPlatform : Platform := ⟨fun _ _ => 0, fun _ _ => 0, fun _ => 0, fun _ => 0⟩

theorem not_identifies_of_place (hacc : t.Accepted)
    (hindex : t.memoryPartitionIndexing = .consecutive) (hgap : t.gap ≠ 0)
    (hchannel : t.nChannel ≠ 0) (hplace : ¬ (0 ≤ t.addrChipS ∧ t.addrChipS < 31)) :
    ¬ t.Identifies zeroPlatform := by
  have hshr : ∀ addr : BitVec 64, addr.toNat < 2 → zeroPlatform.shr addr t.addrChipS = 0 := by
    intro addr haddr
    rw [Platform.shr]
    split_ifs with hrange
    · have hpow : 2 ^ 1 ≤ 2 ^ t.addrChipS.toNat := Nat.pow_le_pow_right (by omega) (by omega)
      apply BitVec.eq_of_toNat_eq
      rw [BitVec.toNat_ushiftRight, Nat.shiftRight_eq_div_pow, Nat.div_eq_of_lt (by omega)]
      rfl
    · rfl
  have hrest : ∀ addr : BitVec 64, addr.toNat < 2 → t.restOfAddr zeroPlatform addr = 0 := by
    intro addr haddr
    rw [restOfAddr, quotient, hshr addr haddr, BitVec.ofNat_eq_ofNat, BitVec.zero_udiv,
      Platform.shl, Platform.lowMask, if_neg hplace]
    split_ifs
    · simp [zeroPlatform]
    · simp [zeroPlatform]
  have hsame : t.slice zeroPlatform 0 ⟨fun _ => none, 0⟩ =
      t.slice zeroPlatform 1 ⟨fun _ => none, 0⟩ := by
    rw [slice_eq_iff_of_gap hacc hindex hgap hchannel, hrest 0 (by decide), hrest 1 (by decide),
      remainder, remainder, hshr 0 (by decide), hshr 1 (by decide)]
    exact ⟨rfl, rfl⟩
  intro h
  obtain ⟨result, hresult⟩ := h.defined 0 ⟨fun _ => none, 0⟩
  exact absurd (h.injective hresult (hsame ▸ hresult)) (by decide)

theorem nChannel_ne_zero_of_identifies (hgap : t.gap ≠ 0) (h : t.Identifies p) :
    t.nChannel ≠ 0 := by
  intro hzero
  obtain ⟨result, hresult⟩ := h.defined 0 ⟨fun _ => none, 0⟩
  rw [slice, addrdecTlx, if_neg hgap, if_pos hzero] at hresult
  exact nomatch hresult

end Gap

theorem identifies_iff (hacc : t.Accepted) (hindex : t.memoryPartitionIndexing = .consecutive) :
    (∀ p, t.Identifies p) ↔ t.Fits := by
  by_cases hgap : t.gap = 0
  · have hcount : t.chipCount = 2 ^ (setBits (t.mask .chip)).length := if_pos hgap
    have hfits : (setBits (t.mask .chip)).length ≤ t.keptChipBits ↔ t.Fits := by
      rw [← Nat.pow_le_pow_iff_right (a := 2) (by omega), ← hcount, chipCount_le_iff hacc]
      constructor
      · intro h
        exact ⟨fun hne => absurd hgap hne, h.1, h.2⟩
      · intro h
        exact ⟨h.total, h.nonempty⟩
    rw [← hfits]
    constructor
    · intro h
      exact (identifies_iff_of_gapless hacc hindex hgap).mp (h zeroPlatform)
    · intro h p
      exact (identifies_iff_of_gapless hacc hindex hgap).mpr h
  · have hcount : t.chipCount = t.nChannel.toNat := if_neg hgap
    constructor
    · intro h
      have hchannel := nChannel_ne_zero_of_identifies hgap (h zeroPlatform)
      have hplace : 0 ≤ t.addrChipS ∧ t.addrChipS < 31 := by
        by_contra hplace
        exact not_identifies_of_place hacc hindex hgap hchannel hplace (h zeroPlatform)
      have hle : t.chipCount ≤ 2 ^ t.keptChipBits := by
        by_contra hlt
        rw [hcount] at hlt
        exact not_identifies_of_gap (s := t.addrChipS.toNat) hacc hindex hgap (by omega) (by omega)
          (not_le.mp hlt) (h zeroPlatform)
      obtain ⟨htotal, hnonempty⟩ := (chipCount_le_iff hacc).mp hle
      exact ⟨fun _ => ⟨hchannel, hplace⟩, htotal, hnonempty⟩
    · intro h p
      obtain ⟨hchannel, hplace⟩ := h.remainder hgap
      have hle := (chipCount_le_iff hacc).mpr ⟨h.total, h.nonempty⟩
      rw [hcount] at hle
      exact identifies_of_gap (s := t.addrChipS.toNat) hacc hindex hgap hchannel (by omega)
        (by omega) hle

end Translation

/-! ## Accepted mappings -/

/-- For every mapping `init` accepts, sub-partition and partition address determine the address,
whatever the undefined shifts give, exactly when the numbers of the sub-partitions fit in 32 bits
and the place of a channel that is a remainder fits `int`. -/
theorem partitionAddress_identifies_iff {options : AddressOptions} {nChannel nSub : BitVec 32}
    {s s' : Interleaving} (h : init p options nChannel nSub s = .ok (t, s'))
    (hindex : options.memoryPartitionIndexing = .consecutive) :
    (∀ platform, t.Identifies platform) ↔ t.Fits :=
  Translation.identifies_iff (init_accepted h) ((init_memoryPartitionIndexing h).trans hindex)

/-- A processor that takes the amount of a shift modulo the width of the word. -/
def maskingPlatform : Platform where
  shiftRight x s := x >>> (s % 64).toNat
  shiftLeft x s := x <<< (s % 64).toNat
  intMask s := (1#32 <<< (s % 32).toNat - 1#32).signExtend 64
  rand _ := 0

/-- A mapping with the channel from bit 8 on. -/
def channelAt8 : AddressOptions where
  addrdecOption := some
    "dramid@8;00000000.00000000.00000000.00000000.0000RRRR.RRRRRRRR.RBBBCCCC.BCCSSSSS".toList
  gpgpuMemAddressMask := 1
  memoryPartitionIndexing := .consecutive
  runTest := false

/-- Twelve channels with two sub-partitions each. -/
theorem partitionAddress_identifies_twelve : ∃ t s',
    init maskingPlatform channelAt8 12 2 ⟨fun _ => none, 0⟩ = .ok (t, s') ∧
      ∀ platform, t.Identifies platform := by
  have hfits : ∃ t s', init maskingPlatform channelAt8 12 2 ⟨fun _ => none, 0⟩ = .ok (t, s') ∧
      t.Fits := ⟨_, _, rfl, fun _ => by decide, by decide, by decide⟩
  obtain ⟨t, s', h, hfits⟩ := hfits
  exact ⟨t, s', h, (partitionAddress_identifies_iff h rfl).mpr hfits⟩

/-- The same mapping with the channel from bit 32 on. -/
def channelAt32 : AddressOptions where
  addrdecOption := some
    "dramid@32;00000000.00000000.00000000.00000000.0000RRRR.RRRRRRRR.RBBBCCCC.BCCSSSSS".toList
  gpgpuMemAddressMask := 1
  memoryPartitionIndexing := .consecutive
  runTest := false

/-- With three channels the mask below bit 32 is that below bit 0, and the addresses 0 and 1 become
one. -/
theorem not_partitionAddress_identifies : ¬ ∀ p options nChannel nSub s t s',
    init p options nChannel nSub s = .ok (t, s') →
      options.memoryPartitionIndexing = .consecutive → t.Identifies p := by
  intro h
  have hsame : ∃ t s', init maskingPlatform channelAt32 3 1 ⟨fun _ => none, 0⟩ = .ok (t, s') ∧
      t.slice maskingPlatform 0 ⟨fun _ => none, 0⟩ = .ok (0, 0) ∧
      t.slice maskingPlatform 1 ⟨fun _ => none, 0⟩ = .ok (0, 0) := ⟨_, _, rfl, rfl, rfl⟩
  obtain ⟨t, s', hinit, hzero, hone⟩ := hsame
  exact absurd ((h _ _ _ _ _ _ _ hinit rfl).injective hzero hone) (by decide)

end GpuCalorie.AddressDecode
