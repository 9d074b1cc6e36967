/-
# Addresses that are told apart

The coordinates of an address are gathered from its bits, and the channel may be hashed with the
bits above. Two addresses have the same coordinates only if they agree at every bit of a mask, as
long as a coordinate has place for all the bits of its mask, the channel as a remainder is taken off
at a place that fits `int`, and the hash of the channel can be undone: the bits it takes are none of
the channel's. Numbers drawn at random, and the polynomial hash reduced modulo a number of channels
that is no power of two, send addresses that differ in the channel only to the same place.
-/

import GpuCalorie.AddressDecode.PartitionAddress
import GpuCalorie.AddressDecode.PowerOfTwo
import GpuCalorie.Cache.IpolyHash

namespace GpuCalorie.AddressDecode

open GpuCalorie.Cache (RowFacts rowFacts)
open GpuCalorie.Math

namespace Translation

/-! ## The property -/

/-- The bits that the coordinates are gathered from. A channel that is a remainder has none. -/
def mappedBits (t : Translation) : BitVec 64 :=
  (if t.gap = 0 then t.mask .chip else 0) ||| t.mask .bk ||| t.mask .row ||| t.mask .col |||
    t.mask .burst

/-- The address has no other bits. With a channel that is a remainder, the rest has not. -/
def Within (p : Platform) (t : Translation) (addr : BitVec 64) : Prop :=
  (if t.gap = 0 then addr else t.restOfAddr p addr) &&& ~~~t.mappedBits = 0

/-- Two addresses of the mapped bits do not have the same coordinates. -/
def Unaliased (p : Platform) (t : Translation) : Prop :=
  ∀ addr addr' s s' u u' tlx, t.Within p addr → t.Within p addr' →
    t.addrdecTlx p addr s = .ok (tlx, u) → t.addrdecTlx p addr' s' = .ok (tlx, u') → addr = addr'

/-- How far the address is shifted for the hash. -/
def hashShift (t : Translation) : ℤ :=
  (t.addrChipS + (t.log2channel + t.log2subPartition).toNat) % 2 ^ 32

/-- The hash takes no bit of the channel. -/
structure HashApart (t : Translation) : Prop where
  shift_lt : t.hashShift < 64
  chip_lt : ∀ i, (t.mask .chip).getLsbD i = true → (i : ℤ) < t.hashShift

/-- The channel is found again from what the partition index function makes of it. -/
def IndexUndone (t : Translation) : Prop :=
  match t.memoryPartitionIndexing with
  | .consecutive | .custom | .pae => True
  | .bitwisePermutation => t.gap = 0 → t.HashApart
  | .ipoly => t.gap = 0 ∧ t.HashApart ∧ t.chipCount ≤ t.nChannel.toNat
  | .random => False

/-- Every coordinate has place for its bits, a remainder is taken off below the sign of an `int`,
and the partition index function is undone. -/
structure Reversible (t : Translation) : Prop where
  short : ∀ field, t.gap = 0 ∨ field ≠ .chip → (setBits (t.mask field)).length ≤ 32
  place : t.gap ≠ 0 → 0 ≤ t.addrChipS ∧ t.addrChipS < 31
  index : t.IndexUndone

/-! ## The coordinates -/

section Coordinates

variable {p : Platform} {t : Translation} {addr : BitVec 64} {tlx : AddrdecT}
  {fields : AddrFields} {hi : BitVec 64} {s u : Interleaving}

/-- The partition index function changes the channel only. -/
structure KeepsFields (fields : AddrFields) (tlx : AddrdecT) : Prop where
  bk : tlx.bk = fields.bk
  row : tlx.row = fields.row
  col : tlx.col = fields.col
  burst : tlx.burst = fields.burst

theorem partitionIndex_keepsFields (h : t.partitionIndex p addr fields hi s = .ok (tlx, u)) :
    KeepsFields fields tlx := by
  rw [partitionIndex] at h
  cases hindex : t.memoryPartitionIndexing with
  | consecutive =>
    rw [hindex] at h
    cases h
    exact ⟨rfl, rfl, rfl, rfl⟩
  | custom =>
    rw [hindex] at h
    cases h
    exact ⟨rfl, rfl, rfl, rfl⟩
  | bitwisePermutation =>
    rw [hindex] at h
    change (if _ then _ else _) = _ at h
    split_ifs at h
    cases h
    exact ⟨rfl, rfl, rfl, rfl⟩
  | ipoly =>
    rw [hindex] at h
    obtain ⟨hash, _, h⟩ := bind_eq_ok.mp h
    dsimp only at h
    split_ifs at h
    all_goals
      cases h
      exact ⟨rfl, rfl, rfl, rfl⟩
  | random =>
    rw [hindex] at h
    dsimp only at h
    split_ifs at h
    all_goals
      cases h
      exact ⟨rfl, rfl, rfl, rfl⟩
  | pae =>
    rw [hindex] at h
    cases h

/-- The coordinates before the channel is hashed. -/
def fieldsOf (p : Platform) (t : Translation) (addr : BitVec 64) : AddrFields :=
  if t.gap = 0 then
    ⟨t.packField .chip addr, t.packField .bk addr, t.packField .row addr, t.packField .col addr,
      t.packField .burst addr⟩
  else
    ⟨t.remainder p addr, t.packField .bk (t.restOfAddr p addr),
      t.packField .row (t.restOfAddr p addr), t.packField .col (t.restOfAddr p addr),
      t.packField .burst (t.restOfAddr p addr)⟩

/-- The bits that the hash takes. -/
def higherBits (p : Platform) (t : Translation) (addr : BitVec 64) : BitVec 64 :=
  if t.gap = 0 then p.shr addr t.hashShift else t.quotient p addr

theorem partitionIndex_of_addrdecTlx (h : t.addrdecTlx p addr s = .ok (tlx, u)) :
    t.partitionIndex p addr (t.fieldsOf p addr) (t.higherBits p addr) s = .ok (tlx, u) := by
  rw [addrdecTlx] at h
  rw [fieldsOf, higherBits]
  split_ifs at h ⊢ with hgap hzero
  · exact h
  · exact h

theorem nChannel_ne_zero_of_addrdecTlx (hgap : t.gap ≠ 0)
    (h : t.addrdecTlx p addr s = .ok (tlx, u)) : t.nChannel ≠ 0 := by
  intro hzero
  rw [addrdecTlx, if_neg hgap, if_pos hzero] at h
  cases h

end Coordinates

/-! ## The hashes are undone -/

section Hashes

variable {p : Platform} {t : Translation} {addr addr' : BitVec 64} {tlx : AddrdecT}
  {fields fields' : AddrFields} {hi : BitVec 64} {s s' u u' : Interleaving}

theorem chip_of_plain
    (hindex : t.memoryPartitionIndexing = .consecutive ∨ t.memoryPartitionIndexing = .custom)
    (h : t.partitionIndex p addr fields hi s = .ok (tlx, u)) : tlx.chip = fields.chip := by
  rw [partitionIndex] at h
  obtain hindex | hindex := hindex
  · rw [hindex] at h
    cases h
    rfl
  · rw [hindex] at h
    cases h
    rfl

theorem chip_of_bitwise (hindex : t.memoryPartitionIndexing = .bitwisePermutation)
    (h : t.partitionIndex p addr fields hi s = .ok (tlx, u)) :
    t.gap = 0 ∧ tlx.chip = bitwiseHashFunction hi fields.chip t.nChannel := by
  rw [partitionIndex, hindex] at h
  change (if _ then _ else _) = _ at h
  split_ifs at h with hok
  cases h
  exact ⟨hok.1, rfl⟩

theorem subPartition_of_ipoly (hindex : t.memoryPartitionIndexing = .ipoly) (hgap : t.gap = 0)
    (h : t.partitionIndex p addr fields hi s = .ok (tlx, u)) : t.nSubPartitionInChannel ≠ 0 ∧
      ipolyHashFunction hi (t.subPartitionId fields.chip fields.bk)
        (t.nextPowerOf2NChannel * t.nSubPartitionInChannel) = .ok tlx.subPartition := by
  rw [partitionIndex, hindex] at h
  obtain ⟨hash, hhash, h⟩ := bind_eq_ok.mp h
  dsimp only at h
  rw [hgap] at h
  simp only [ne_eq, not_true_eq_false, false_and, false_or, if_false] at h
  split_ifs at h with hzero hok
  cases h
  exact ⟨hzero, hhash⟩

theorem bitwiseHashFunction_inj {index index' n : BitVec 32}
    (h : bitwiseHashFunction hi index n = bitwiseHashFunction hi index' n) : index = index' :=
  (BitVec.xor_left_inj _).mp h

theorem exists_rowFacts {index n hash : BitVec 32} (h : ipolyHashFunction hi index n = .ok hash) :
    ∃ rows, RowFacts n.toNat rows := by
  refine rowFacts ?_
  by_contra hmem
  simp only [List.mem_cons, List.not_mem_nil, or_false, not_or] at hmem
  have hnone : ipolyRows n.toNat = none := by
    unfold ipolyRows
    split
    · exact absurd ‹_› hmem.1
    · exact absurd ‹_› hmem.2.1
    · exact absurd ‹_› hmem.2.2
    · rfl
  rw [ipolyHashFunction, hnone] at h
  cases h

theorem ipolyHashFunction_inj {index index' n hash : BitVec 32} (hlt : index < n)
    (hlt' : index' < n) (h : ipolyHashFunction hi index n = .ok hash)
    (h' : ipolyHashFunction hi index' n = .ok hash) : index = index' := by
  obtain ⟨rows, hfacts⟩ := exists_rowFacts h
  obtain ⟨x, _, heq⟩ := hfacts.ipolyHashFunction_eq hi
  rw [heq index hlt, Except.ok.injEq] at h
  rw [heq index' hlt', Except.ok.injEq] at h'
  exact (BitVec.xor_right_inj _).mp (h.trans h'.symm)

end Hashes

/-! ## The numbers of the sub-partitions -/

section Numbers

variable {t : Translation} {hi : BitVec 64}

theorem toNat_nextPowerOf2_of_isPowerOfTwo {n : BitVec 32} (hmany : 2 ≤ n.toNat)
    (hpow : n.toNat.isPowerOfTwo) : (nextPowerOf2 n).toNat = n.toNat := by
  obtain ⟨k, hk⟩ := hpow
  have hlt : k < 32 := by
    rw [← Nat.pow_lt_pow_iff_right (a := 2) (by omega), ← hk]
    exact n.isLt
  have hle : n.toNat ≤ 2 ^ 31 := by
    rw [hk]
    exact Nat.pow_le_pow_right (by omega) (by omega)
  rw [toNat_nextPowerOf2 hmany hle, log2_sub_one_of_isPowerOfTwo hmany ⟨k, hk⟩, hk,
    Nat.log2_two_pow]

/-- What the polynomial hash works on, when it has a value: as many numbers as channels and
sub-partitions, and one for each of both. -/
structure Numbered (t : Translation) (m : ℕ) : Prop where
  lt : m < 32
  subPartition : t.nSubPartitionInChannel = BitVec.twoPow 32 m
  total : (t.nextPowerOf2NChannel * t.nSubPartitionInChannel).toNat = t.nChannel.toNat * 2 ^ m
  total_lt : t.nChannel.toNat * 2 ^ m < 2 ^ 32

theorem exists_numbered {index hash : BitVec 32} (hacc : t.Accepted)
    (hnext : t.nextPowerOf2NChannel = nextPowerOf2 t.nChannel)
    (hpow : t.nChannel.toNat.isPowerOfTwo) (hsub : t.nSubPartitionInChannel ≠ 0)
    (hhash : ipolyHashFunction hi index (t.nextPowerOf2NChannel * t.nSubPartitionInChannel) =
      .ok hash) : ∃ m, t.Numbered m := by
  obtain hzero | ⟨m, hm, htwo⟩ := eq_zero_or_twoPow hacc.powerOfTwo
  · exact absurd hzero hsub
  obtain ⟨rows, hfacts⟩ := exists_rowFacts hhash
  have hsize := hfacts.size
  have hpos := Nat.two_pow_pos rows.length
  have hmany : 2 ≤ t.nChannel.toNat := by
    by_contra hlt
    -- For one channel the next power of two is zero.
    obtain ⟨k, hk⟩ := hpow
    have hone_le := Nat.two_pow_pos k
    have hone : t.nChannel = 1 := BitVec.eq_of_toNat_eq (show t.nChannel.toNat = 1 by omega)
    have hzero : nextPowerOf2 1 * t.nSubPartitionInChannel = 0 := BitVec.zero_mul
    rw [hnext, hone, hzero] at hsize
    exact absurd hsize.symm hpos.ne'
  have hmul : (t.nextPowerOf2NChannel * t.nSubPartitionInChannel).toNat =
      t.nChannel.toNat * 2 ^ m % 2 ^ 32 := by
    rw [BitVec.toNat_mul, hnext, toNat_nextPowerOf2_of_isPowerOfTwo hmany hpow, htwo,
      BitVec.toNat_twoPow_of_lt hm]
  have hlt : t.nChannel.toNat * 2 ^ m < 2 ^ 32 := by
    obtain ⟨k, hk⟩ := hpow
    rw [hk, ← pow_add] at hmul ⊢
    by_contra hge
    have hle : 32 ≤ k + m := (Nat.pow_le_pow_iff_right (by omega)).mp (not_lt.mp hge)
    rw [Nat.mod_eq_zero_of_dvd (Nat.pow_dvd_pow 2 hle)] at hmul
    omega
  exact ⟨m, hm, htwo, by rw [hmul, Nat.mod_eq_of_lt hlt], hlt⟩

theorem Numbered.toNat_subPartitionId {m : ℕ} (h : t.Numbered m) {chip : BitVec 32}
    (hchip : chip.toNat < t.nChannel.toNat) (bk : BitVec 32) :
    (t.subPartitionId chip bk).toNat = chip.toNat * 2 ^ m + bk.toNat % 2 ^ m := by
  have hfits : t.nChannel.toNat * 2 ^ m < 2 ^ (32 - m) * 2 ^ m := by
    rw [← pow_add, Nat.sub_add_cancel h.lt.le]
    exact h.total_lt
  have hlt : chip.toNat < 2 ^ (32 - m) := hchip.trans (Nat.lt_of_mul_lt_mul_right hfits)
  rw [Translation.toNat_subPartitionId h.lt h.subPartition, Nat.mod_eq_of_lt hlt]

theorem Numbered.subPartitionId_lt {m : ℕ} (h : t.Numbered m) {chip : BitVec 32}
    (hchip : chip.toNat < t.nChannel.toNat) (bk : BitVec 32) :
    t.subPartitionId chip bk < t.nextPowerOf2NChannel * t.nSubPartitionInChannel := by
  rw [BitVec.lt_def, h.total, h.toNat_subPartitionId hchip]
  exact digits_lt hchip (Nat.mod_lt _ (Nat.two_pow_pos m))

theorem Numbered.chip_inj {m : ℕ} (h : t.Numbered m) {chip chip' bk bk' : BitVec 32}
    (hchip : chip.toNat < t.nChannel.toNat) (hchip' : chip'.toNat < t.nChannel.toNat)
    (heq : t.subPartitionId chip bk = t.subPartitionId chip' bk') : chip = chip' := by
  have hnat := congrArg BitVec.toNat heq
  rw [h.toNat_subPartitionId hchip, h.toNat_subPartitionId hchip'] at hnat
  exact BitVec.eq_of_toNat_eq (digits_unique (Nat.mod_lt _ (Nat.two_pow_pos m))
    (Nat.mod_lt _ (Nat.two_pow_pos m)) hnat).1

end Numbers

/-! ## Injectivity -/

section Injective

variable {p : Platform} {t : Translation} {addr addr' : BitVec 64} {tlx : AddrdecT}
  {s s' u u' : Interleaving} {x y : BitVec 64}

theorem agreeOn_of_packField (hacc : t.Accepted) {field : Field}
    (hshort : (setBits (t.mask field)).length ≤ 32)
    (h : t.packField field x = t.packField field y) : AgreeOn (setBits (t.mask field)) x y := by
  rw [packField_eq_gather hacc, packField_eq_gather hacc, gather_eq_iff,
    List.take_of_length_le hshort] at h
  exact h

theorem agreeOn_of_keepsFields (hacc : t.Accepted) {chip chip' : BitVec 32}
    (hshort : ∀ field, field ≠ .chip → (setBits (t.mask field)).length ≤ 32)
    (hkeeps : KeepsFields ⟨chip, t.packField .bk x, t.packField .row x, t.packField .col x,
      t.packField .burst x⟩ tlx)
    (hkeeps' : KeepsFields ⟨chip', t.packField .bk y, t.packField .row y, t.packField .col y,
      t.packField .burst y⟩ tlx) :
    ∀ field, field ≠ .chip → AgreeOn (setBits (t.mask field)) x y := by
  intro field hne
  have hlength := hshort field hne
  cases field with
  | chip => exact absurd rfl hne
  | bk => exact agreeOn_of_packField hacc hlength (hkeeps.bk.symm.trans hkeeps'.bk)
  | row => exact agreeOn_of_packField hacc hlength (hkeeps.row.symm.trans hkeeps'.row)
  | col => exact agreeOn_of_packField hacc hlength (hkeeps.col.symm.trans hkeeps'.col)
  | burst => exact agreeOn_of_packField hacc hlength (hkeeps.burst.symm.trans hkeeps'.burst)

theorem getLsbD_of_notMapped {x : BitVec 64} {i : ℕ} (h : x &&& ~~~t.mappedBits = 0)
    (hi : t.mappedBits.getLsbD i = false) : x.getLsbD i = false := by
  by_contra hbit
  rw [Bool.not_eq_false] at hbit
  have hget := congrArg (fun y => y.getLsbD i) h
  simp only [BitVec.getLsbD_and, BitVec.getLsbD_not, hi, hbit, BitVec.lt_of_getLsbD hbit,
    decide_true, Bool.not_false, Bool.and_self] at hget
  exact absurd hget (by simp)

theorem eq_off_chip (hx : x &&& ~~~t.mappedBits = 0) (hy : y &&& ~~~t.mappedBits = 0)
    (hagree : ∀ field, field ≠ .chip → AgreeOn (setBits (t.mask field)) x y) {i : ℕ}
    (hi : t.gap = 0 → (t.mask .chip).getLsbD i = false) : x.getLsbD i = y.getLsbD i := by
  by_cases hfield : ∃ field, field ≠ .chip ∧ (t.mask field).getLsbD i = true
  · obtain ⟨field, hne, hbit⟩ := hfield
    exact hagree field hne i (mem_setBits.mpr hbit)
  · have hoff : ∀ field, field ≠ .chip → (t.mask field).getLsbD i = false := fun field hne =>
      Bool.eq_false_of_not_eq_true fun hbit => hfield ⟨field, hne, hbit⟩
    have hmapped : t.mappedBits.getLsbD i = false := by
      simp only [mappedBits, BitVec.getLsbD_or, hoff .bk nofun, hoff .row nofun, hoff .col nofun,
        hoff .burst nofun, Bool.or_false]
      split_ifs with hgap
      · exact hi hgap
      · exact BitVec.getLsbD_zero
    rw [getLsbD_of_notMapped hx hmapped, getLsbD_of_notMapped hy hmapped]

theorem higherBits_eq (hapart : t.HashApart) (hgap : t.gap = 0)
    (hoff : ∀ i, (t.mask .chip).getLsbD i = false → addr.getLsbD i = addr'.getLsbD i) :
    t.higherBits p addr = t.higherBits p addr' := by
  have hnonneg : 0 ≤ t.hashShift := Int.emod_nonneg _ (by decide)
  have hrange : 0 ≤ t.hashShift ∧ t.hashShift < 64 := ⟨hnonneg, hapart.shift_lt⟩
  rw [higherBits, higherBits, if_pos hgap, if_pos hgap, Platform.shr, Platform.shr, if_pos hrange,
    if_pos hrange]
  refine BitVec.eq_of_getLsbD_eq fun i _ => ?_
  rw [BitVec.getLsbD_ushiftRight, BitVec.getLsbD_ushiftRight]
  refine hoff _ (Bool.eq_false_of_not_eq_true fun hbit => ?_)
  have hlt := hapart.chip_lt _ hbit
  push_cast at hlt
  omega

theorem toNat_gather_lt {ps : List ℕ} {x : BitVec 64} :
    (gather 32 ps x).toNat < 2 ^ ps.length := by
  refine Nat.lt_pow_two_of_testBit _ fun i hi => ?_
  rw [BitVec.testBit_toNat, getLsbD_gather, List.getD_eq_getElem?_getD,
    List.getElem?_eq_none (by rwa [List.length_map]), Option.getD_none, Bool.and_false]

theorem chip_eq (hacc : t.Accepted) (hnext : t.nextPowerOf2NChannel = nextPowerOf2 t.nChannel)
    (hpow : t.gap = 0 → t.nChannel.toNat.isPowerOfTwo) (hundone : t.IndexUndone)
    {fields fields' : AddrFields} {hi hi' : BitVec 64}
    (hhi : t.gap = 0 → t.HashApart → hi = hi')
    (hchip : t.gap = 0 → fields.chip.toNat < t.chipCount)
    (hchip' : t.gap = 0 → fields'.chip.toNat < t.chipCount)
    (h : t.partitionIndex p addr fields hi s = .ok (tlx, u))
    (h' : t.partitionIndex p addr' fields' hi' s' = .ok (tlx, u')) :
    fields.chip = fields'.chip := by
  cases hindex : t.memoryPartitionIndexing with
  | consecutive =>
    rw [← chip_of_plain (.inl hindex) h, ← chip_of_plain (.inl hindex) h']
  | custom =>
    rw [← chip_of_plain (.inr hindex) h, ← chip_of_plain (.inr hindex) h']
  | bitwisePermutation =>
    rw [IndexUndone, hindex] at hundone
    obtain ⟨hgap, heq⟩ := chip_of_bitwise hindex h
    obtain ⟨_, heq'⟩ := chip_of_bitwise hindex h'
    rw [hhi hgap (hundone hgap)] at heq
    exact bitwiseHashFunction_inj (heq.symm.trans heq')
  | ipoly =>
    rw [IndexUndone, hindex] at hundone
    obtain ⟨hgap, hapart, hcount⟩ := hundone
    obtain ⟨hsub, hhash⟩ := subPartition_of_ipoly hindex hgap h
    obtain ⟨_, hhash'⟩ := subPartition_of_ipoly hindex hgap h'
    obtain ⟨m, hnumbered⟩ := exists_numbered hacc hnext (hpow hgap) hsub hhash
    have hlt := (hchip hgap).trans_le hcount
    have hlt' := (hchip' hgap).trans_le hcount
    rw [hhi hgap hapart] at hhash
    exact hnumbered.chip_inj hlt hlt' (ipolyHashFunction_inj (hnumbered.subPartitionId_lt hlt _)
      (hnumbered.subPartitionId_lt hlt' _) hhash hhash')
  | random =>
    rw [IndexUndone, hindex] at hundone
    exact hundone.elim
  | pae =>
    rw [partitionIndex, hindex] at h
    cases h

theorem eq_of_gapless (hacc : t.Accepted)
    (hnext : t.nextPowerOf2NChannel = nextPowerOf2 t.nChannel)
    (hpow : t.gap = 0 → t.nChannel.toNat.isPowerOfTwo) (hrev : t.Reversible) (hgap : t.gap = 0)
    (hwithin : t.Within p addr) (hwithin' : t.Within p addr')
    (h : t.addrdecTlx p addr s = .ok (tlx, u)) (h' : t.addrdecTlx p addr' s' = .ok (tlx, u')) :
    addr = addr' := by
  have hindex := partitionIndex_of_addrdecTlx h
  have hindex' := partitionIndex_of_addrdecTlx h'
  rw [fieldsOf, if_pos hgap] at hindex hindex'
  rw [Within, if_pos hgap] at hwithin hwithin'
  have hkeeps := partitionIndex_keepsFields hindex
  have hkeeps' := partitionIndex_keepsFields hindex'
  have hagree : ∀ field, field ≠ .chip → AgreeOn (setBits (t.mask field)) addr addr' :=
    agreeOn_of_keepsFields hacc (fun field _ => hrev.short field (.inl hgap)) hkeeps hkeeps'
  have hoff : ∀ i, (t.mask .chip).getLsbD i = false → addr.getLsbD i = addr'.getLsbD i :=
    fun i hi => eq_off_chip hwithin hwithin' hagree fun _ => hi
  have hcount : ∀ x, (t.packField .chip x).toNat < t.chipCount := fun x => by
    rw [packField_eq_gather hacc, chipCount, if_pos hgap]
    exact toNat_gather_lt
  have hchip := chip_eq hacc hnext hpow hrev.index
    (fun hgap hapart => higherBits_eq hapart hgap hoff) (fun _ => hcount addr)
    (fun _ => hcount addr') hindex hindex'
  have hagreeChip := agreeOn_of_packField hacc (hrev.short .chip (.inl hgap)) hchip
  refine BitVec.eq_of_getLsbD_eq fun i _ => ?_
  by_cases hbit : (t.mask .chip).getLsbD i = true
  · exact hagreeChip i (mem_setBits.mpr hbit)
  · exact hoff i (Bool.eq_false_of_not_eq_true hbit)

theorem eq_of_gap (hacc : t.Accepted) (hrev : t.Reversible) (hgap : t.gap ≠ 0)
    (hwithin : t.Within p addr) (hwithin' : t.Within p addr')
    (h : t.addrdecTlx p addr s = .ok (tlx, u)) (h' : t.addrdecTlx p addr' s' = .ok (tlx, u'))
    (hnext : t.nextPowerOf2NChannel = nextPowerOf2 t.nChannel) : addr = addr' := by
  have hindex := partitionIndex_of_addrdecTlx h
  have hindex' := partitionIndex_of_addrdecTlx h'
  rw [fieldsOf, if_neg hgap] at hindex hindex'
  rw [Within, if_neg hgap] at hwithin hwithin'
  have hkeeps := partitionIndex_keepsFields hindex
  have hkeeps' := partitionIndex_keepsFields hindex'
  have hagree : ∀ field, field ≠ .chip →
      AgreeOn (setBits (t.mask field)) (t.restOfAddr p addr) (t.restOfAddr p addr') :=
    agreeOn_of_keepsFields hacc (fun field hne => hrev.short field (.inr hne)) hkeeps hkeeps'
  have hrest : t.restOfAddr p addr = t.restOfAddr p addr' :=
    BitVec.eq_of_getLsbD_eq fun i _ =>
      eq_off_chip hwithin hwithin' hagree fun hzero => absurd hzero hgap
  have hchip : t.remainder p addr = t.remainder p addr' :=
    chip_eq hacc hnext (fun hzero => absurd hzero hgap) hrev.index
      (fun hzero => absurd hzero hgap) (fun hzero => absurd hzero hgap)
      (fun hzero => absurd hzero hgap) hindex hindex'
  obtain ⟨hnonneg, hlt⟩ := hrev.place hgap
  have hchannel : 0 < t.nChannel.toNat := Nat.pos_of_ne_zero fun hzero =>
    nChannel_ne_zero_of_addrdecTlx hgap h (BitVec.eq_of_toNat_eq hzero)
  exact eq_of_rest_of_remainder (Int.toNat_of_nonneg hnonneg).symm (by omega) hchannel hrest hchip

end Injective

end Translation

/-! ## Accepted mappings -/

theorem init_channelBits {p : Platform} {options : AddressOptions} {nChannel nSub : BitVec 32}
    {s s' : Interleaving} {t : Translation} (h : init p options nChannel nSub s = .ok (t, s')) :
    t.nChannel = nChannel ∧ t.nextPowerOf2NChannel = nextPowerOf2 nChannel ∧
      (t.gap = 0 ↔ nChannel.toNat.isPowerOfTwo) := by
  obtain ⟨table, _, h⟩ := bind_eq_ok.mp h
  obtain ⟨mask, _, h⟩ := bind_eq_ok.mp h
  split_ifs at h
  obtain ⟨s'', _, h⟩ := bind_eq_ok.mp h
  cases h
  exact ⟨rfl, rfl, gap_eq_zero_iff nChannel⟩

/-- No two addresses of the mapped bits decode to the same coordinates when these have place for
their bits, a remainder is taken off below the sign of an `int`, and the partition index function is
undone. -/
theorem unaliased_of_reversible {p : Platform} {options : AddressOptions}
    {nChannel nSub : BitVec 32} {s s' : Interleaving} {t : Translation}
    (h : init p options nChannel nSub s = .ok (t, s')) (hrev : t.Reversible) :
    ∀ platform, t.Unaliased platform := by
  intro platform addr addr' s₁ s₂ u u' tlx hwithin hwithin' hdec hdec'
  have hacc := init_accepted h
  obtain ⟨hchannel, hnext, hpow⟩ := init_channelBits h
  rw [← hchannel] at hnext hpow
  by_cases hgap : t.gap = 0
  · exact Translation.eq_of_gapless hacc hnext hpow.mp hrev hgap hwithin hwithin' hdec hdec'
  · exact Translation.eq_of_gap hacc hrev hgap hwithin hwithin' hdec hdec' hnext

/-- Eight channels with two sub-partitions each, under the polynomial hash. -/
theorem unaliased_of_reversible_eight : ∃ t s',
    init maskingPlatform { channelAt8 with memoryPartitionIndexing := .ipoly } 8 2
      ⟨fun _ => none, 0⟩ = .ok (t, s') ∧ ∀ platform, t.Unaliased platform := by
  have hrev : ∃ t s',
      init maskingPlatform { channelAt8 with memoryPartitionIndexing := .ipoly } 8 2
        ⟨fun _ => none, 0⟩ = .ok (t, s') ∧ t.Reversible := by
    refine ⟨_, _, rfl, ?_, fun hgap => absurd rfl hgap, rfl, ⟨by decide, ?_⟩, by decide⟩
    · intro field _
      cases field
      all_goals decide
    · intro i hbit
      have hall : ∀ i < 64, (0x700#64).getLsbD i = true → i < 12 := by decide
      have hlt := hall i (BitVec.lt_of_getLsbD hbit) hbit
      exact Int.ofNat_lt.mpr hlt
  obtain ⟨t, s', h, hrev⟩ := hrev
  exact ⟨t, s', h, unaliased_of_reversible h hrev⟩

/-- A map with the letter of the channel at the lowest bit. -/
def channelAtEnd : AddressOptions where
  addrdecOption := some
    "00000000.00000000.00000000.00000000.0000RRRR.RRRRRRRR.RBBBCCCC.BCCSSSSD".toList
  gpgpuMemAddressMask := 1
  memoryPartitionIndexing := .bitwisePermutation
  runTest := false

/-- A map with 33 bits of the row. -/
def longRow : AddressOptions where
  addrdecOption := some
    "RRRRRRRR.RRRRRRRR.RRRRRRRR.RRRRRRRR.R000BBBB.CCCCCCCC.CCCCCCCC.CCCSSSSS".toList
  gpgpuMemAddressMask := 1
  memoryPartitionIndexing := .consecutive
  runTest := false

/-- Two addresses of the mapped bits decode to the same coordinates. -/
def Aliased (options : AddressOptions) (nChannel nSub : BitVec 32) (addr addr' : BitVec 64) :
    Prop := ∃ t s', init maskingPlatform options nChannel nSub ⟨fun _ => none, 0⟩ = .ok (t, s') ∧
      t.Within maskingPlatform addr ∧ t.Within maskingPlatform addr' ∧
      ∃ tlx u u', t.addrdecTlx maskingPlatform addr ⟨fun _ => none, 0⟩ = .ok (tlx, u) ∧
        t.addrdecTlx maskingPlatform addr' ⟨fun _ => none, 0⟩ = .ok (tlx, u') ∧ addr ≠ addr'

theorem aliased_ipoly :
    Aliased { channelAt8 with memoryPartitionIndexing := .ipoly } 3 4 0x3100 0x3200 :=
  ⟨_, _, rfl, rfl, rfl, _, _, _, rfl, rfl, by decide⟩

theorem aliased_random :
    Aliased { channelAt8 with memoryPartitionIndexing := .random } 2 1 0 0x100 :=
  ⟨_, _, rfl, rfl, rfl, _, _, _, rfl, rfl, by decide⟩

theorem aliased_channelAtEnd : Aliased channelAtEnd 2 1 0 1 :=
  ⟨_, _, rfl, rfl, rfl, _, _, _, rfl, rfl, by decide⟩

set_option maxRecDepth 4000 in
theorem aliased_longRow : Aliased longRow 1 1 0 (1#64 <<< 63) :=
  ⟨_, _, rfl, rfl, rfl, _, _, _, rfl, rfl, by decide⟩

theorem aliased_channelAt32 : Aliased channelAt32 3 1 0 1 :=
  ⟨_, _, rfl, rfl, rfl, _, _, _, rfl, rfl, by decide⟩

/-- Addresses are aliased with three channels under the polynomial hash, with random numbers, with a
letter of the channel that the hash takes, with a row of 33 bits, and with three channels that are
taken off at bit 32. -/
theorem not_unaliased :
    Aliased { channelAt8 with memoryPartitionIndexing := .ipoly } 3 4 0x3100 0x3200 ∧
      Aliased { channelAt8 with memoryPartitionIndexing := .random } 2 1 0 0x100 ∧
      Aliased channelAtEnd 2 1 0 1 ∧ Aliased longRow 1 1 0 (1#64 <<< 63) ∧
      Aliased channelAt32 3 1 0 1 :=
  ⟨aliased_ipoly, aliased_random, aliased_channelAtEnd, aliased_longRow, aliased_channelAt32⟩

end GpuCalorie.AddressDecode
