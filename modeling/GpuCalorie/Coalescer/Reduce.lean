/-
# Shrinking transactions

The segments of a transaction in numbers, and what `memory_coalescing_arch_reduce_and_send`
makes of one: an access with its masks, aligned to its size, which lies inside the segment
and still has every chunk that is used.
-/

import GpuCalorie.Coalescer.WarpAccess

namespace GpuCalorie.Coalescer

/-! ## Addresses in numbers -/

theorem toNat_and_not_add (a mask : Addr) :
    (a &&& ~~~mask).toNat + (a &&& mask).toNat = a.toNat := by
  have hdisjoint : a &&& ~~~mask &&& (a &&& mask) = 0#64 := by
    ext i hi
    simp only [BitVec.getElem_and, BitVec.getElem_not, BitVec.getElem_zero]
    cases a[i] <;> cases mask[i] <;> rfl
  have hjoin : (a &&& ~~~mask) ||| (a &&& mask) = a := by
    ext i hi
    simp only [BitVec.getElem_or, BitVec.getElem_and, BitVec.getElem_not]
    cases a[i] <;> cases mask[i] <;> rfl
  rw [← BitVec.toNat_add_of_and_eq_zero hdisjoint, BitVec.add_eq_or_of_and_eq_zero _ _ hdisjoint,
    hjoin]

/-- The sizes of segments and accesses. -/
def IsAccessSize (size : ℕ) : Prop := size = 32 ∨ size = 64 ∨ size = 128

instance (size : ℕ) : Decidable (IsAccessSize size) := inferInstanceAs (Decidable (_ ∨ _))

/-- What the 32 bits of an `address_type` are of an address. -/
def low (addr : Addr) : ℕ := addr.toNat % 2 ^ 32

theorem toNat_addressType (addr : Addr) : (addressType addr).toNat = low addr := by
  rw [addressType, BitVec.toNat_setWidth, BitVec.toNat_setWidth, low]
  omega

theorem low_lt (addr : Addr) : low addr < 2 ^ 32 := Nat.mod_lt _ (by decide)

variable {addr : Addr} {segment : ℕ}

theorem low_eq_of_lt (h : addr.toNat < 2 ^ 32) : low addr = addr.toNat :=
  Nat.mod_eq_of_lt h

theorem toNat_tag (h : IsAccessSize segment) (addr : Addr) :
    (lineSizeBasedTagFunc addr (.ofNat 64 segment)).toNat = low addr / segment * segment := by
  have hsum := toNat_and_not_add addr (.ofNat 64 segment - 1)
  have hlow : (addr &&& (.ofNat 64 segment - 1)).toNat = addr.toNat % segment := by
    rw [BitVec.toNat_and]
    rcases h with rfl | rfl | rfl
    · exact Nat.and_two_pow_sub_one_eq_mod _ 5
    · exact Nat.and_two_pow_sub_one_eq_mod _ 6
    · exact Nat.and_two_pow_sub_one_eq_mod _ 7
  have hdiv := Nat.div_add_mod' addr.toNat segment
  have hclear : (addr &&& ~~~(.ofNat 64 segment - 1)).toNat = addr.toNat / segment * segment := by
    omega
  rw [lineSizeBasedTagFunc, toNat_addressType, low, low, hclear]
  rcases h with rfl | rfl | rfl <;> omega

theorem offset_eq (addr : Addr) : offset addr = addr.toNat % 128 := by
  rw [offset, BitVec.toNat_and]
  exact Nat.and_two_pow_sub_one_eq_mod _ 7

theorem val_chunk (addr : Addr) : (chunk addr).val = addr.toNat % 128 / 32 := by
  have hlt : addr.toNat % 128 < 128 := Nat.mod_lt _ (by decide)
  rw [chunk, offset_eq]
  exact Nat.mod_eq_of_lt (by omega)

theorem low_mod (addr : Addr) : low addr % 128 = addr.toNat % 128 := by
  rw [low]
  omega

theorem mem_byteRange {idx size : ℕ} {byte : Fin 128} :
    byte ∈ byteRange idx size ↔ idx ≤ byte.val ∧ byte.val < idx + size := by
  simp [byteRange]

/-! ## The access for a transaction -/

/-- `x` is a byte of the access. -/
def WarpAccess.Has (access : WarpAccess) (x : ℕ) : Prop :=
  access.addr.toNat ≤ x ∧ x < access.addr.toNat + access.reqSize

/-- The access has one of the sizes, and its address is a multiple of it. -/
def WarpAccess.Aligned (access : WarpAccess) : Prop :=
  IsAccessSize access.reqSize ∧ access.reqSize ∣ access.addr.toNat

/-- The 32-byte chunk of a byte of a 128-byte block. -/
def sectorOf (x : ℕ) : Fin 4 := Fin.ofNat 4 (x % 128 / 32)

/-- The place of a byte in its 128-byte block. -/
def byteOf (x : ℕ) : Fin 128 := Fin.ofNat 128 x

theorem sectorOf_eq_iff {x y : ℕ} : sectorOf x = sectorOf y ↔ x % 128 / 32 = y % 128 / 32 := by
  rw [sectorOf, sectorOf, Fin.ext_iff, Fin.val_ofNat, Fin.val_ofNat]
  omega

theorem chunk_eq_sectorOf (addr : Addr) : chunk addr = sectorOf addr.toNat := by
  rw [Fin.ext_iff, val_chunk, sectorOf, Fin.val_ofNat]
  omega

theorem sectorOf_cases (x : ℕ) :
    (x % 128 < 32 ∧ sectorOf x = 0) ∨ (32 ≤ x % 128 ∧ x % 128 < 64 ∧ sectorOf x = 1) ∨
      (64 ≤ x % 128 ∧ x % 128 < 96 ∧ sectorOf x = 2) ∨ (96 ≤ x % 128 ∧ sectorOf x = 3) := by
  simp only [sectorOf, Fin.ext_iff, Fin.val_ofNat, Fin.val_zero, Fin.val_one, Fin.val_two]
  have h3 : (3 : Fin 4).val = 3 := rfl
  rw [h3]
  omega

/-- A part of a segment that is aligned to its size and has all bytes that are used. -/
structure UsedPart (used : ℕ → Prop) (start segment : ℕ) (part : Addr × ℕ) : Prop where
  size : IsAccessSize part.2
  dvd : part.2 ∣ part.1.toNat
  le : start ≤ part.1.toNat
  add_le : part.1.toNat + part.2 ≤ start + segment
  has : ∀ x, start ≤ x → x < start + segment → used x →
    part.1.toNat ≤ x ∧ x < part.1.toNat + part.2

theorem UsedPart.widen {used used' : ℕ → Prop} {start start' segment segment' : ℕ}
    {part : Addr × ℕ} (h : UsedPart used start segment part) (hle : start' ≤ start)
    (hadd : start + segment ≤ start' + segment')
    (hused : ∀ x, start' ≤ x → x < start' + segment' → used' x →
      start ≤ x ∧ x < start + segment ∧ used x) :
    UsedPart used' start' segment' part where
  size := h.size
  dvd := h.dvd
  le := hle.trans h.le
  add_le := h.add_le.trans hadd
  has x hx hlt hx' := by
    obtain ⟨hge, hlt', hused'⟩ := hused x hx hlt hx'
    exact h.has x hge hlt' hused'

theorem toNat_add_of_dvd {n : ℕ} (hdvd : 2 * n ∣ addr.toNat) (hn : n = 32 ∨ n = 64) :
    (addr + .ofNat 64 n).toNat = addr.toNat + n := by
  have hlt := addr.isLt
  rw [BitVec.toNat_add, BitVec.toNat_ofNat]
  rcases hn with rfl | rfl <;> omega

theorem usedHalf_spec (hdvd : 64 ∣ addr.toNat) (lower upper : Bool)
    (h : lower = true ∨ upper = true) :
    ∃ part, usedHalf (addr, 64, lower, upper) = .ok part ∧
      UsedPart (fun x => (x % 64 < 32 ∧ lower = true) ∨ (32 ≤ x % 64 ∧ upper = true))
        addr.toNat 64 part := by
  have hadd : (addr + 32).toNat = addr.toNat + 32 := toNat_add_of_dvd (n := 32) hdvd (.inl rfl)
  cases lower with
  | false =>
      cases upper with
      | false => exact absurd h (by decide)
      | true =>
          refine ⟨(addr + 32, 32), rfl, .inl rfl, ?_, ?_, ?_, ?_⟩ <;> dsimp only <;> rw [hadd]
          · omega
          · omega
          · intro x hle hlt hx
            have hhigh : 32 ≤ x % 64 := by simpa using hx
            omega
  | true =>
      cases upper with
      | false =>
          refine ⟨(addr, 32), rfl, .inl rfl, ?_, le_rfl, ?_, ?_⟩ <;> dsimp only
          · omega
          · omega
          · intro x hle hlt hx
            have hlow : x % 64 < 32 := by simpa using hx
            omega
      | true =>
          exact ⟨(addr, 64), rfl, .inr (.inl rfl), hdvd, le_rfl, le_rfl,
            fun x hle hlt _ => ⟨hle, hlt⟩⟩

variable {q : Cache.SectorMask}

theorem mem_sectorOf_cases {x : ℕ} (h : sectorOf x ∈ q) :
    (x % 128 < 64 ∧ ((x % 64 < 32 ∧ 0 ∈ q) ∨ (32 ≤ x % 64 ∧ 1 ∈ q))) ∨
      (64 ≤ x % 128 ∧ ((x % 64 < 32 ∧ 2 ∈ q) ∨ (32 ≤ x % 64 ∧ 3 ∈ q))) := by
  rcases sectorOf_cases x with ⟨hx, heq⟩ | ⟨hx, hx', heq⟩ | ⟨hx, hx', heq⟩ | ⟨hx, heq⟩ <;>
    rw [heq] at h
  · exact .inl ⟨by omega, .inl ⟨by omega, h⟩⟩
  · exact .inl ⟨by omega, .inr ⟨by omega, h⟩⟩
  · exact .inr ⟨by omega, .inl ⟨by omega, h⟩⟩
  · exact .inr ⟨by omega, .inr ⟨by omega, h⟩⟩

theorem usedHalf_lower (hmod : addr.toNat % 128 = 0) (h : 0 ∈ q ∨ 1 ∈ q) :
    ∃ part, usedHalf (addr, 64, 0 ∈ q, 1 ∈ q) = .ok part ∧
      UsedPart (fun x => sectorOf x ∈ q) addr.toNat 64 part := by
  obtain ⟨part, hok, hpart⟩ := usedHalf_spec (show 64 ∣ addr.toNat by omega) (0 ∈ q) (1 ∈ q)
    (by simpa using h)
  refine ⟨part, hok, hpart.widen le_rfl le_rfl fun x hle hlt hx => ⟨hle, hlt, ?_⟩⟩
  simp only [decide_eq_true_eq]
  rcases mem_sectorOf_cases hx with ⟨-, hx⟩ | ⟨hx, -⟩
  · exact hx
  · omega

theorem usedHalf_upper (hmod : addr.toNat % 128 = 64) (h : 2 ∈ q ∨ 3 ∈ q) :
    ∃ part, usedHalf (addr, 64, 2 ∈ q, 3 ∈ q) = .ok part ∧
      UsedPart (fun x => sectorOf x ∈ q) addr.toNat 64 part := by
  obtain ⟨part, hok, hpart⟩ := usedHalf_spec (show 64 ∣ addr.toNat by omega) (2 ∈ q) (3 ∈ q)
    (by simpa using h)
  refine ⟨part, hok, hpart.widen le_rfl le_rfl fun x hle hlt hx => ⟨hle, hlt, ?_⟩⟩
  simp only [decide_eq_true_eq]
  rcases mem_sectorOf_cases hx with ⟨hx, -⟩ | ⟨-, hx⟩
  · omega
  · exact hx

theorem used_of_block (hmod : addr.toNat % 128 = 0) (h : (0 ∈ q ∨ 1 ∈ q) ∨ (2 ∈ q ∨ 3 ∈ q)) :
    ∃ part, (usedPart q addr 128 >>= usedHalf) = .ok part ∧
      UsedPart (fun x => sectorOf x ∈ q) addr.toNat 128 part := by
  have hadd : (addr + 64).toNat = addr.toNat + 64 :=
    toNat_add_of_dvd (n := 64) (by omega) (.inr rfl)
  rw [usedPart, if_pos rfl]
  by_cases hlower : 0 ∈ q ∨ 1 ∈ q
  · by_cases hupper : 2 ∈ q ∨ 3 ∈ q
    · rw [if_neg (fun hnot => hnot.2 hupper), if_neg (fun hnot => hnot.1 hlower),
        if_pos ⟨hlower, hupper⟩]
      exact ⟨(addr, 128), rfl, .inr (.inr rfl), Nat.dvd_of_mod_eq_zero hmod, le_rfl, le_rfl,
        fun x hle hlt _ => ⟨hle, hlt⟩⟩
    · rw [if_pos ⟨hlower, hupper⟩]
      obtain ⟨part, hok, hpart⟩ := usedHalf_lower hmod hlower
      refine ⟨part, hok, hpart.widen le_rfl (by omega) fun x hle hlt hx => ⟨hle, ?_, hx⟩⟩
      rcases mem_sectorOf_cases hx with ⟨hx, -⟩ | ⟨-, hx⟩
      · omega
      · exact absurd (hx.imp And.right And.right) hupper
  · have hupper : 2 ∈ q ∨ 3 ∈ q := h.resolve_left hlower
    rw [if_neg (fun hnot => hlower hnot.1), if_pos ⟨hlower, hupper⟩]
    obtain ⟨part, hok, hpart⟩ := usedHalf_upper (show (addr + 64).toNat % 128 = 64 by omega) hupper
    refine ⟨part, hok, hpart.widen (by omega) (by omega) fun x hle hlt hx => ⟨?_, by omega, hx⟩⟩
    rcases mem_sectorOf_cases hx with ⟨-, hx⟩ | ⟨hx, -⟩
    · exact absurd (hx.imp And.right And.right) hlower
    · omega

theorem used_of_half (hdvd : 64 ∣ addr.toNat)
    (h : ∃ x, addr.toNat ≤ x ∧ x < addr.toNat + 64 ∧ sectorOf x ∈ q) :
    ∃ part, (usedPart q addr 64 >>= usedHalf) = .ok part ∧
      UsedPart (fun x => sectorOf x ∈ q) addr.toNat 64 part := by
  obtain ⟨x, hle, hlt, hx⟩ := h
  rw [usedPart, if_neg (by decide), if_pos rfl]
  by_cases hmod : addr.toNat % 128 = 0
  · rw [if_pos hmod]
    refine usedHalf_lower hmod ?_
    rcases mem_sectorOf_cases hx with ⟨-, hx⟩ | ⟨hx, -⟩
    · exact hx.imp And.right And.right
    · omega
  · have hmod' : addr.toNat % 128 = 64 := by omega
    rw [if_neg hmod, if_pos hmod']
    refine usedHalf_upper hmod' ?_
    rcases mem_sectorOf_cases hx with ⟨hx, -⟩ | ⟨-, hx⟩
    · omega
    · exact hx.imp And.right And.right

theorem used_of_segment (hsize : IsAccessSize segment) (hdvd : segment ∣ addr.toNat)
    (h : ∃ x, addr.toNat ≤ x ∧ x < addr.toNat + segment ∧ sectorOf x ∈ q) :
    ∃ part, (usedPart q addr segment >>= usedHalf) = .ok part ∧
      UsedPart (fun x => sectorOf x ∈ q) addr.toNat segment part := by
  rcases hsize with rfl | rfl | rfl
  · exact ⟨(addr, 32), rfl, .inl rfl, hdvd, le_rfl, le_rfl, fun x hle hlt _ => ⟨hle, hlt⟩⟩
  · exact used_of_half hdvd h
  · obtain ⟨x, -, -, hx⟩ := h
    refine used_of_block (Nat.mod_eq_zero_of_dvd hdvd) ?_
    rcases mem_sectorOf_cases hx with ⟨-, hx⟩ | ⟨-, hx⟩
    · exact .inl (hx.imp And.right And.right)
    · exact .inr (hx.imp And.right And.right)

/-- What is sent for a transaction of a segment with a used chunk in it. -/
structure Sent (start segment : ℕ) (info : TransactionInfo) (access : WarpAccess) : Prop where
  warpMask : access.warpMask = info.active
  byteMask : access.byteMask = info.bytes
  sectorMask : access.sectorMask = info.chunks
  part : UsedPart (fun x => sectorOf x ∈ info.chunks) start segment (access.addr, access.reqSize)

theorem reduceAndSend_sent (isWrite : Bool) (accessType : Cache.MemAccessType)
    {info : TransactionInfo} (hsize : IsAccessSize segment) (hdvd : segment ∣ addr.toNat)
    (h : ∃ x, addr.toNat ≤ x ∧ x < addr.toNat + segment ∧ sectorOf x ∈ info.chunks) :
    ∃ access, memoryCoalescingArchReduceAndSend isWrite accessType segment (addr, info) =
      .ok access ∧ Sent addr.toNat segment info access := by
  obtain ⟨part, hok, hpart⟩ := used_of_segment hsize hdvd h
  have haligned : addr &&& (BitVec.ofNat 32 segment - 1).setWidth 64 = 0 := by
    rw [← BitVec.toNat_inj, BitVec.toNat_and]
    rcases hsize with rfl | rfl | rfl
    · exact (Nat.and_two_pow_sub_one_eq_mod _ 5).trans (Nat.mod_eq_zero_of_dvd hdvd)
    · exact (Nat.and_two_pow_sub_one_eq_mod _ 6).trans (Nat.mod_eq_zero_of_dvd hdvd)
    · exact (Nat.and_two_pow_sub_one_eq_mod _ 7).trans (Nat.mod_eq_zero_of_dvd hdvd)
  have hchunks : info.chunks ≠ ∅ := by
    obtain ⟨x, -, -, hx⟩ := h
    exact Finset.ne_empty_of_mem hx
  refine ⟨{ type := accessType, addr := part.1, reqSize := part.2, write := isWrite,
            warpMask := info.active, byteMask := info.bytes, sectorMask := info.chunks }, ?_,
          ⟨rfl, rfl, rfl, hpart⟩⟩
  rw [memoryCoalescingArchReduceAndSend]
  simp only [haligned, hchunks, ne_eq, not_true_eq_false, if_false]
  rw [← bind_assoc, hok]
  rfl

theorem reqSize_of_reduceAndSend_zero {isWrite : Bool} {accessType : Cache.MemAccessType}
    {transaction : Addr × TransactionInfo} {access : WarpAccess}
    (h : memoryCoalescingArchReduceAndSend isWrite accessType 0 transaction = .ok access) :
    access.reqSize = 0 := by
  obtain ⟨addr, info⟩ := transaction
  rw [memoryCoalescingArchReduceAndSend] at h
  by_cases haligned : addr &&& (BitVec.ofNat 32 0 - 1).setWidth 64 ≠ 0
  · simp only [if_pos haligned] at h
    exact nomatch h
  · by_cases hchunks : info.chunks = ∅
    · simp only [if_neg haligned, if_pos hchunks] at h
      exact nomatch h
    · simp only [if_neg haligned, if_neg hchunks] at h
      cases h
      rfl

end GpuCalorie.Coalescer
