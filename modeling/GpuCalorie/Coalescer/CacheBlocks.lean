/-
# One access a cache block

The accesses of a constant or texture instruction are one for each cache block with the first
byte of an active thread. The byte mask is gathered once for all of them, so that an access
has the bytes of its own threads only when the threads of every block touch the same places of
their block; and an access near the end of a block reaches bytes the block does not have.
-/

import GpuCalorie.Coalescer.Generate
import GpuCalorie.Coalescer.Reduce
import GpuCalorie.Math.Outcome

namespace GpuCalorie.Coalescer

open Hardware

variable {cfg : CoreConfig} {inst : WarpInst} {blockSize : Addr} {thread : Fin 32}
  {threads : List (Fin 32)}

/-! ## Blocks -/

/-- The cache block of an address. -/
def cacheBlock (blockSize addr : Addr) : Addr := addr &&& ~~~(blockSize - 1)

/-- The place of an address in its block. -/
def blockOffset (blockSize addr : Addr) : ℕ := addr.toNat - (cacheBlock blockSize addr).toNat

/-- The block of a thread's first byte. -/
def WarpInst.blockOf (inst : WarpInst) (blockSize : Addr) (thread : Fin 32) : Addr :=
  cacheBlock blockSize (inst.firstAddr thread)

/-- A thread touches a byte of its block. -/
def WarpInst.Touches (inst : WarpInst) (blockSize : Addr) (thread : Fin 32) (byte : ℕ) : Prop :=
  blockOffset blockSize (inst.firstAddr thread) ≤ byte ∧
    byte < blockOffset blockSize (inst.firstAddr thread) + inst.dataSize

/-- One access for each block that is touched, with its threads and the bytes they touch. -/
structure BlockAccesses (cfg : CoreConfig) (inst : WarpInst) (blockSize : Addr)
    (accesses : List WarpAccess) : Prop where
  once : (accesses.map fun access => access.addr).Nodup
  blocks : ∀ block, (∃ access ∈ accesses, access.addr = block) ↔
    ∃ thread, inst.IsActive cfg thread ∧ inst.blockOf blockSize thread = block
  warpMask : ∀ access ∈ accesses, ∀ thread, thread ∈ access.warpMask ↔
    inst.IsActive cfg thread ∧ inst.blockOf blockSize thread = access.addr
  byteMask : ∀ access ∈ accesses, ∀ byte, (∃ bit ∈ access.byteMask, bit.val = byte) ↔
    byte < blockSize.toNat ∧ ∃ thread ∈ access.warpMask, inst.Touches blockSize thread byte

/-- What the threads of an instruction need for that. -/
structure SameInEachBlock (cfg : CoreConfig) (inst : WarpInst) (blockSize : Addr) : Prop where
  /-- The addresses have 32 bits. -/
  inRange : ∀ thread, inst.IsActive cfg thread → (inst.firstAddr thread).toNat < 2 ^ 32
  /-- The accesses end in their block, and in a byte mask. -/
  inBlock : ∀ thread, inst.IsActive cfg thread →
    blockOffset blockSize (inst.firstAddr thread) + inst.dataSize ≤ min blockSize.toNat 128
  /-- A place that is touched in one block is touched in each. -/
  alike : ∀ thread other, inst.IsActive cfg thread → inst.IsActive cfg other →
    ∀ byte, inst.Touches blockSize thread byte →
      ∃ mate, inst.IsActive cfg mate ∧
        inst.blockOf blockSize mate = inst.blockOf blockSize other ∧
          inst.Touches blockSize mate byte

/-! ## Addresses of 32 bits -/

theorem toNat_eq_block_add (blockSize addr : Addr) :
    addr.toNat = (cacheBlock blockSize addr).toNat + blockOffset blockSize addr := by
  have hsum := toNat_and_not_add addr (blockSize - 1)
  rw [blockOffset, cacheBlock]
  omega

theorem blockOffset_le (hpos : blockSize ≠ 0) (hlt : blockSize.toNat < 2 ^ 32) (addr : Addr) :
    blockOffset blockSize addr ≤ addr.toNat % 2 ^ 32 := by
  have hsum := toNat_and_not_add addr (blockSize - 1)
  have hmask : (blockSize - 1).toNat < 2 ^ 32 := by
    have hne : blockSize.toNat ≠ 0 := fun hzero => hpos (BitVec.eq_of_toNat_eq hzero)
    rw [BitVec.toNat_sub]
    have hone : (1 : Addr).toNat = 1 := rfl
    omega
  have hand : (addr &&& (blockSize - 1)).toNat = addr.toNat % 2 ^ 32 &&& (blockSize - 1).toNat := by
    have hmod : (addr.toNat &&& (blockSize - 1).toNat) % 2 ^ 32 =
        addr.toNat % 2 ^ 32 &&& (blockSize - 1).toNat % 2 ^ 32 := Nat.and_mod_two_pow
    rw [Nat.mod_eq_of_lt hmask, Nat.mod_eq_of_lt (Nat.and_lt_two_pow _ hmask)] at hmod
    rw [BitVec.toNat_and, hmod]
  have hle : addr.toNat % 2 ^ 32 &&& (blockSize - 1).toNat ≤ addr.toNat % 2 ^ 32 :=
    Nat.and_le_left
  rw [blockOffset, cacheBlock]
  omega

theorem toNat_idx (hpos : blockSize ≠ 0) (hlt : blockSize.toNat < 2 ^ 32) (addr : Addr) :
    ((addr - lineSizeBasedTagFunc addr blockSize).setWidth 32).toNat =
      blockOffset blockSize addr := by
  have hsum := toNat_eq_block_add blockSize addr
  have hle := blockOffset_le hpos hlt addr
  have hblock : (lineSizeBasedTagFunc addr blockSize).toNat =
      (cacheBlock blockSize addr).toNat % 2 ^ 32 := toNat_addressType _
  rw [BitVec.toNat_setWidth, BitVec.toNat_sub, hblock]
  omega

theorem tag_eq_cacheBlock {addr : Addr} (h : addr.toNat < 2 ^ 32) :
    lineSizeBasedTagFunc addr blockSize = cacheBlock blockSize addr := by
  have hsum := toNat_eq_block_add blockSize addr
  refine BitVec.eq_of_toNat_eq ((toNat_addressType _).trans (low_eq_of_lt ?_))
  show (cacheBlock blockSize addr).toNat < 2 ^ 32
  omega

theorem lt_of_tag_eq (hpos : blockSize ≠ 0) (hlt : blockSize.toNat < 2 ^ 32) {addr other : Addr}
    (h : lineSizeBasedTagFunc other blockSize = cacheBlock blockSize addr) :
    addr.toNat < 2 ^ 32 := by
  have hsum := toNat_eq_block_add blockSize addr
  have hle := blockOffset_le hpos hlt addr
  have hlow : (cacheBlock blockSize addr).toNat < 2 ^ 32 := by
    rw [← h, lineSizeBasedTagFunc, toNat_addressType]
    exact low_lt _
  omega

/-! ## The loop over the threads -/

theorem foldlM_setByte (idx size : ℕ) (mask : Cache.ByteMask) :
    (List.range size).foldlM (fun mask i => setByte mask (idx + i)) mask =
      if size = 0 ∨ idx + size ≤ 128 then .ok (mask ∪ byteRange idx size)
      else .error .byteIndex := by
  induction size with
  | zero =>
      have hnone : byteRange idx 0 = ∅ := by
        ext byte
        simp [byteRange]
      rw [if_pos (.inl rfl), hnone, Finset.union_empty]
      rfl
  | succ size ih =>
      rw [List.range_succ, List.foldlM_append, ih]
      by_cases hlast : idx + size < 128
      · have hrange :
            byteRange idx (size + 1) = insert ⟨idx + size, hlast⟩ (byteRange idx size) := by
          ext byte
          simp only [Finset.mem_insert, mem_byteRange, Fin.ext_iff]
          omega
        rw [if_pos (by omega), if_pos (by omega), hrange, Finset.union_insert]
        show (setByte _ (idx + size) >>= pure) = _
        rw [setByte, dif_pos hlast]
        rfl
      · rw [if_neg (show ¬ (size + 1 = 0 ∨ idx + (size + 1) ≤ 128) by omega)]
        split
        · show (setByte _ (idx + size) >>= pure) = _
          rw [setByte, dif_neg hlast]
          rfl
        · rfl

theorem setBytes_eq {idx size : ℕ} (hpos : 0 < size) (mask : Cache.ByteMask) :
    setBytes idx size mask =
      if idx + size ≤ 128 then .ok (mask ∪ byteRange idx size) else .error .byteIndex := by
  rw [setBytes, foldlM_setByte]
  simp only [Nat.ne_of_gt hpos, false_or]

/-- The access of a thread ends in the byte mask. -/
def Fits (inst : WarpInst) (blockSize : Addr) (thread : Fin 32) : Prop :=
  blockOffset blockSize (inst.firstAddr thread) + inst.dataSize ≤ 128

/-- The places some threads touch. -/
def touchedBytes (inst : WarpInst) (blockSize : Addr) : List (Fin 32) → Cache.ByteMask
  | [] => ∅
  | thread :: threads =>
      byteRange (blockOffset blockSize (inst.firstAddr thread)) inst.dataSize ∪
        touchedBytes inst blockSize threads

theorem mem_touchedBytes {byte : Fin 128} : byte ∈ touchedBytes inst blockSize threads ↔
      ∃ thread ∈ threads, inst.Touches blockSize thread byte.val := by
  induction threads with
  | nil => simp [touchedBytes]
  | cons thread threads ih =>
      simp only [touchedBytes, Finset.mem_union, mem_byteRange, ih, List.mem_cons,
        exists_eq_or_imp, WarpInst.Touches]

/-- The accesses of some threads, by block. -/
def blockMasks (inst : WarpInst) (blockSize : Addr) (threads : List (Fin 32)) :
    Std.TreeMap Addr ActiveMask → Std.TreeMap Addr ActiveMask :=
  Math.group (fun thread => lineSizeBasedTagFunc (inst.firstAddr thread) blockSize) insert threads

section

variable (hpos : blockSize ≠ 0) (hlt : blockSize.toNat < 2 ^ 32)
include hpos hlt

theorem cacheThread_of_active (hactive : thread ∈ inst.activeMask)
    (s : Std.TreeMap Addr ActiveMask × Cache.ByteMask) :
    cacheThread inst blockSize s thread =
      if blockOffset blockSize (inst.firstAddr thread) + inst.dataSize ≤ 128 then
        .ok (Math.upsert s.1 (lineSizeBasedTagFunc (inst.firstAddr thread) blockSize)
          (insert thread),
          s.2 ∪ byteRange (blockOffset blockSize (inst.firstAddr thread)) inst.dataSize)
      else .error .byteIndex := by
  rw [cacheThread, if_neg (not_not.mpr hactive)]
  simp only [toNat_idx hpos hlt, setBytes_eq inst.dataSize_pos]
  split <;> rfl

theorem foldlM_cacheThread (h : ∀ thread ∈ inst.activeOf threads, Fits inst blockSize thread)
    (s : Std.TreeMap Addr ActiveMask × Cache.ByteMask) :
    threads.foldlM (cacheThread inst blockSize) s =
      .ok (blockMasks inst blockSize (inst.activeOf threads) s.1,
        s.2 ∪ touchedBytes inst blockSize (inst.activeOf threads)) := by
  induction threads generalizing s with
  | nil =>
      show _ = Except.ok (s.1, s.2 ∪ ∅)
      rw [Finset.union_empty]
      rfl
  | cons thread threads ih =>
      rw [List.foldlM_cons]
      by_cases hactive : thread ∈ inst.activeMask
      · rw [activeOf_cons_of_mem hactive] at h ⊢
        have hfits : _ + _ ≤ 128 := h thread List.mem_cons_self
        rw [cacheThread_of_active hpos hlt hactive, if_pos hfits]
        refine (ih (fun other hmem => h other (List.mem_cons_of_mem _ hmem)) _).trans ?_
        rw [Finset.union_assoc]
        rfl
      · rw [activeOf_cons_of_notMem hactive] at h ⊢
        rw [cacheThread, if_pos hactive]
        exact ih h s

theorem fits_of_foldlM {s s' : Std.TreeMap Addr ActiveMask × Cache.ByteMask}
    (h : threads.foldlM (cacheThread inst blockSize) s = .ok s') :
    ∀ thread ∈ inst.activeOf threads, Fits inst blockSize thread := by
  induction threads generalizing s with
  | nil => exact fun thread hmem => absurd hmem List.not_mem_nil
  | cons thread threads ih =>
      rw [List.foldlM_cons] at h
      obtain ⟨next, hthread, hrest⟩ := Math.bind_eq_ok.mp h
      intro other hmem
      obtain ⟨hmem, hactive⟩ := List.mem_filter.mp hmem
      rcases List.mem_cons.mp hmem with rfl | hmem
      · rw [cacheThread_of_active hpos hlt (by simpa using hactive)] at hthread
        by_contra hnot
        have hnot : ¬ _ + _ ≤ 128 := hnot
        rw [if_neg hnot] at hthread
        exact nomatch hthread
      · exact ih hrest other (List.mem_filter.mpr ⟨hmem, hactive⟩)

/-! ## The accesses -/

omit hlt in
omit hpos in
theorem mem_activeOf_threads : thread ∈ inst.activeOf cfg.threads ↔ inst.IsActive cfg thread := by
  simp [WarpInst.activeOf, CoreConfig.threads, WarpInst.IsActive, and_comm]

theorem cachedAccesses_spec (isWrite : Bool) (accessType : Cache.MemAccessType)
    (h : ∀ thread, inst.IsActive cfg thread → Fits inst blockSize thread) :
    ∃ accesses, cachedAccesses cfg inst isWrite accessType blockSize = .ok accesses ∧
      (accesses.map fun access => access.addr).Nodup ∧
      (∀ block, (∃ access ∈ accesses, access.addr = block) ↔ ∃ thread,
        inst.IsActive cfg thread ∧
          lineSizeBasedTagFunc (inst.firstAddr thread) blockSize = block) ∧
      ∀ access ∈ accesses,
        (∀ thread, thread ∈ access.warpMask ↔ inst.IsActive cfg thread ∧
          lineSizeBasedTagFunc (inst.firstAddr thread) blockSize = access.addr) ∧
        ∀ bit, bit ∈ access.byteMask ↔
          ∃ thread, inst.IsActive cfg thread ∧ inst.Touches blockSize thread bit.val := by
  have hloop := foldlM_cacheThread hpos hlt
    (fun thread hmem => h thread (mem_activeOf_threads.mp hmem)) (∅, ∅)
  refine ⟨_, by rw [cachedAccesses, if_neg hpos, hloop]; rfl, ?_, ?_, ?_⟩
  · rw [List.map_map]
    show (List.map Prod.fst _).Nodup
    rw [Std.TreeMap.map_fst_toList_eq_keys]
    exact Std.TreeMap.nodup_keys
  · intro block
    have hsome : (blockMasks inst blockSize (inst.activeOf cfg.threads) ∅)[block]?.isSome ↔ _ :=
      Math.isSome_group
    simp only [mem_activeOf_threads, Std.TreeMap.getElem?_emptyc, Option.isSome_none,
      Bool.false_eq_true, false_or] at hsome
    rw [← hsome, Option.isSome_iff_exists]
    simp only [List.mem_map, Prod.exists, Std.TreeMap.mem_toList_iff_getElem?_eq_some]
    constructor
    · rintro ⟨access, ⟨block, mask, hmem, rfl⟩, rfl⟩
      exact ⟨mask, hmem⟩
    · rintro ⟨mask, hmem⟩
      exact ⟨_, ⟨block, mask, hmem, rfl⟩, rfl⟩
  · simp only [List.mem_map, Prod.exists, Std.TreeMap.mem_toList_iff_getElem?_eq_some]
    rintro access ⟨block, mask, hmem, rfl⟩
    constructor
    · intro thread
      have hadd : ∀ other (mask : ActiveMask), thread ∈ insert other mask ↔
          thread ∈ mask ∨ thread = other := fun other mask => by
        rw [Finset.mem_insert, or_comm]
      have hgroup : Math.HasAt (thread ∈ ·)
          (blockMasks inst blockSize (inst.activeOf cfg.threads) ∅) block ↔ _ :=
        Math.hasAt_group hadd
      have hhas : Math.HasAt (thread ∈ ·)
          (blockMasks inst blockSize (inst.activeOf cfg.threads) ∅) block ↔ thread ∈ mask := by
        rw [Math.HasAt, hmem]
        rfl
      have hnone : ¬ Math.HasAt (fun mask : ActiveMask => thread ∈ mask) (∅ : Std.TreeMap Addr _)
          block := by
        rw [Math.HasAt, Std.TreeMap.getElem?_emptyc]
        exact Finset.notMem_empty thread
      rw [hhas, or_iff_right hnone] at hgroup
      rw [hgroup]
      constructor
      · rintro ⟨other, hother, htag, rfl⟩
        exact ⟨mem_activeOf_threads.mp hother, htag⟩
      · rintro ⟨hactive, htag⟩
        exact ⟨thread, mem_activeOf_threads.mpr hactive, htag, rfl⟩
    · intro bit
      simp only [Finset.mem_union, Finset.notMem_empty, false_or, mem_touchedBytes,
        mem_activeOf_threads]

theorem fits_of_cachedAccesses
    {isWrite : Bool} {accessType : Cache.MemAccessType} {accesses : List WarpAccess}
    (h : cachedAccesses cfg inst isWrite accessType blockSize = .ok accesses)
    (hactive : inst.IsActive cfg thread) : Fits inst blockSize thread := by
  rw [cachedAccesses, if_neg hpos] at h
  obtain ⟨s, hloop, -⟩ := Math.bind_eq_ok.mp h
  exact fits_of_foldlM hpos hlt hloop thread (mem_activeOf_threads.mpr hactive)

end

theorem cachedAccesses_zero (isWrite : Bool) (accessType : Cache.MemAccessType) :
    cachedAccesses cfg inst isWrite accessType 0 = .ok [] := by
  rw [cachedAccesses, if_pos rfl]

theorem blockAccesses_nil_iff :
    BlockAccesses cfg inst blockSize [] ↔ ∀ thread, ¬ inst.IsActive cfg thread := by
  constructor
  · intro h thread hactive
    obtain ⟨access, hmem, -⟩ := (h.blocks _).mpr ⟨thread, hactive, rfl⟩
    exact List.not_mem_nil hmem
  · intro h
    refine ⟨List.nodup_nil, fun block => ?_, fun access hmem => ?_, fun access hmem => ?_⟩
    · constructor
      · rintro ⟨access, hmem, -⟩
        exact absurd hmem List.not_mem_nil
      · rintro ⟨thread, hactive, -⟩
        exact absurd hactive (h thread)
    · exact absurd hmem List.not_mem_nil
    · exact absurd hmem List.not_mem_nil

theorem sameInEachBlock_of_inactive (h : ∀ thread, ¬ inst.IsActive cfg thread) :
    SameInEachBlock cfg inst blockSize where
  inRange thread hactive := absurd hactive (h thread)
  inBlock thread hactive := absurd hactive (h thread)
  alike thread _ hactive := absurd hactive (h thread)

theorem SameInEachBlock.inactive_of_zero (h : SameInEachBlock cfg inst 0) (thread : Fin 32) :
    ¬ inst.IsActive cfg thread := by
  intro hactive
  have hle := h.inBlock thread hactive
  have hpos := inst.dataSize_pos
  have hzero : (0 : Addr).toNat = 0 := rfl
  omega

theorem cachedAccesses_iff (hlt : blockSize.toNat < 2 ^ 32) (isWrite : Bool)
    (accessType : Cache.MemAccessType) :
    (∃ accesses, cachedAccesses cfg inst isWrite accessType blockSize = .ok accesses ∧
      BlockAccesses cfg inst blockSize accesses) ↔ SameInEachBlock cfg inst blockSize := by
  rcases eq_or_ne blockSize 0 with rfl | hpos
  · rw [cachedAccesses_zero]
    constructor
    · rintro ⟨accesses, hok, h⟩
      cases hok
      exact sameInEachBlock_of_inactive (blockAccesses_nil_iff.mp h)
    · exact fun h => ⟨[], rfl, blockAccesses_nil_iff.mpr h.inactive_of_zero⟩
  constructor
  · rintro ⟨accesses, hok, h⟩
    have hfits : ∀ thread, inst.IsActive cfg thread → Fits inst blockSize thread :=
      fun thread hactive => fits_of_cachedAccesses hpos hlt hok hactive
    obtain ⟨accesses', hok', -, hblocks, hmasks⟩ :=
      cachedAccesses_spec hpos hlt isWrite accessType hfits
    rw [hok] at hok'
    cases hok'
    -- the byte mask of each access has what any of the threads touches
    have hbytes : ∀ thread other, inst.IsActive cfg thread → inst.IsActive cfg other →
        ∀ byte, inst.Touches blockSize thread byte → byte < blockSize.toNat ∧
          ∃ mate, inst.IsActive cfg mate ∧ inst.blockOf blockSize mate =
            inst.blockOf blockSize other ∧ inst.Touches blockSize mate byte := by
      intro thread other hactive hother byte htouch
      obtain ⟨access, hmem, haddr⟩ := (h.blocks _).mpr ⟨other, hother, rfl⟩
      have hlast : byte < 128 := by
        have hle : _ + _ ≤ 128 := hfits thread hactive
        exact htouch.2.trans_le hle
      have hbit : (⟨byte, hlast⟩ : Fin 128) ∈ access.byteMask :=
        ((hmasks access hmem).2 _).mpr ⟨thread, hactive, htouch⟩
      obtain ⟨hin, mate, hmate, htouch'⟩ := (h.byteMask access hmem byte).mp ⟨_, hbit, rfl⟩
      obtain ⟨hmate, hblock⟩ := (h.warpMask access hmem mate).mp hmate
      exact ⟨hin, mate, hmate, hblock.trans haddr, htouch'⟩
    refine ⟨fun thread hactive => ?_, fun thread hactive => ?_, fun thread other hactive hother
      byte htouch => (hbytes thread other hactive hother byte htouch).2⟩
    · obtain ⟨access, hmem, haddr⟩ := (h.blocks _).mpr ⟨thread, hactive, rfl⟩
      obtain ⟨other, -, htag⟩ := (hblocks _).mp ⟨access, hmem, haddr⟩
      exact lt_of_tag_eq hpos hlt htag
    · have hle : _ + _ ≤ 128 := hfits thread hactive
      have hsize := inst.dataSize_pos
      obtain ⟨hin, -⟩ := hbytes thread thread hactive hactive
        (blockOffset blockSize (inst.firstAddr thread) + inst.dataSize - 1) ⟨by omega, by omega⟩
      omega
  · intro h
    have htag : ∀ thread, inst.IsActive cfg thread →
        lineSizeBasedTagFunc (inst.firstAddr thread) blockSize = inst.blockOf blockSize thread :=
      fun thread hactive => tag_eq_cacheBlock (h.inRange thread hactive)
    have hfits : ∀ thread, inst.IsActive cfg thread → Fits inst blockSize thread :=
      fun thread hactive => (h.inBlock thread hactive).trans (Nat.min_le_right _ _)
    obtain ⟨accesses, hok, hnodup, hblocks, hmasks⟩ :=
      cachedAccesses_spec hpos hlt isWrite accessType hfits
    have hmask : ∀ access ∈ accesses, ∀ thread, thread ∈ access.warpMask ↔
        inst.IsActive cfg thread ∧ inst.blockOf blockSize thread = access.addr := by
      intro access hmem thread
      rw [(hmasks access hmem).1]
      exact and_congr_right fun hactive => by rw [htag thread hactive]
    refine ⟨accesses, hok, hnodup, fun block => ?_, hmask, fun access hmem byte => ?_⟩
    · rw [hblocks]
      exact exists_congr fun thread => and_congr_right fun hactive => by rw [htag thread hactive]
    · constructor
      · rintro ⟨bit, hbit, rfl⟩
        obtain ⟨thread, hactive, htouch⟩ := ((hmasks access hmem).2 bit).mp hbit
        obtain ⟨other, hother, hblock⟩ := (hblocks _).mp ⟨access, hmem, rfl⟩
        obtain ⟨mate, hmate, hsame, htouch'⟩ :=
          h.alike thread other hactive hother bit.val htouch
        have hle := (h.inBlock thread hactive).trans (Nat.min_le_left _ _)
        refine ⟨htouch.2.trans_le hle, mate, (hmask access hmem mate).mpr ⟨hmate, ?_⟩, htouch'⟩
        rw [hsame, ← htag other hother, hblock]
      · rintro ⟨-, thread, hthread, htouch⟩
        obtain ⟨hactive, -⟩ := (hmask access hmem thread).mp hthread
        have hle := (h.inBlock thread hactive).trans (Nat.min_le_right _ _)
        exact ⟨⟨byte, htouch.2.trans_le hle⟩,
          ((hmasks access hmem).2 _).mpr ⟨thread, hactive, htouch⟩, rfl⟩

/-! ## Instructions -/

/-- The size of the blocks of a space that is cached for reads. -/
def MemConfig.cacheBlockSize (cfg : MemConfig) : MemorySpace → Option (BitVec 32)
  | .texSpace => some cfg.gpgpuCacheTexl1Linesize
  | .constSpace | .paramSpaceKernel => some cfg.gpgpuCacheConstl1Linesize
  | _ => none

theorem generateMemAccesses_of_cached {cfg : MemConfig} {size : BitVec 32}
    (hspace : cfg.cacheBlockSize inst.space = some size) (hactive : inst.activeMask ≠ ∅)
    (isAtomic isWrite : Bool) :
    ∃ accessType, generateMemAccesses cfg inst isAtomic isWrite =
      (cachedAccesses cfg.toCoreConfig inst isWrite accessType (size.setWidth 64)).map
        fun accessq => { accessq := accessq } := by
  rw [generateMemAccesses, if_neg hactive]
  generalize inst.space = space at hspace
  cases space <;> cases hspace
  all_goals exact ⟨_, rfl⟩

/-- Constant and texture instructions have one access for each block they touch, with its
threads and the bytes they touch, exactly when the addresses have 32 bits, the accesses end in
their block, and the same places of each block are touched. -/
theorem generateMemAccesses_cached_iff (cfg : MemConfig) (inst : WarpInst)
    (isAtomic isWrite : Bool) {size : BitVec 32}
    (hspace : cfg.cacheBlockSize inst.space = some size) :
    (∃ generated, generateMemAccesses cfg inst isAtomic isWrite = .ok generated ∧
      BlockAccesses cfg.toCoreConfig inst (size.setWidth 64) generated.accessq) ↔
      SameInEachBlock cfg.toCoreConfig inst (size.setWidth 64) := by
  by_cases hactive : inst.activeMask = ∅
  · have hnone : ∀ thread, ¬ inst.IsActive cfg.toCoreConfig thread := by
      intro thread hthread
      exact absurd hthread.1 (by rw [hactive]; exact Finset.notMem_empty thread)
    rw [generateMemAccesses, if_pos hactive]
    exact iff_of_true ⟨{}, rfl, blockAccesses_nil_iff.mpr hnone⟩ (sameInEachBlock_of_inactive hnone)
  have hlt : (size.setWidth 64).toNat < 2 ^ 32 := by
    rw [BitVec.toNat_setWidth]
    exact (Nat.mod_le _ _).trans_lt size.isLt
  obtain ⟨accessType, hgenerate⟩ := generateMemAccesses_of_cached hspace hactive isAtomic isWrite
  rw [← cachedAccesses_iff hlt isWrite accessType, hgenerate]
  constructor
  · rintro ⟨generated, hok, h⟩
    obtain ⟨accesses, hacc, rfl⟩ := Math.map_eq_ok.mp hok
    exact ⟨accesses, hacc, h⟩
  · rintro ⟨accesses, hacc, h⟩
    exact ⟨_, Math.map_eq_ok.mpr ⟨accesses, hacc, rfl⟩, h⟩

/-- A core with cache lines of 128 bytes. -/
def cachedCore : MemConfig where
  warpSize := 32
  memWarpParts := 2
  gpgpuCoalesceArch := 60
  gmemSkipL1D := false
  warpSize_le := .refl
  numShmemBank := 16
  shmemLimitedBroadcast := true
  gpgpuCacheTexl1Linesize := 128
  gpgpuCacheConstl1Linesize := 128

/-- Two threads that read a word each, the second one `second` bytes after the first. -/
def twoWords (second : Addr) : WarpInst where
  space := .constSpace
  cacheOp := .cacheAll
  dataSize := 4
  activeMask := {0, 1}
  request thread := ⟨[if thread = 0 then 128 else 128 + second], List.cons_ne_nil _ _,
    Nat.le_add_left 1 7⟩
  dataSize_pos := Nat.succ_pos 3

theorem eq_or_of_isActive_twoWords {second : Addr}
    (h : (twoWords second).IsActive cfg thread) : thread = 0 ∨ thread = 1 := by
  simpa [twoWords] using h.1

/-- The same word of two lines. -/
theorem generateMemAccesses_cached_twoLines :
    ∃ generated, generateMemAccesses cachedCore (twoWords 128) false false = .ok generated ∧
      BlockAccesses cachedCore.toCoreConfig (twoWords 128) 128 generated.accessq := by
  have hoffset : ∀ thread, (twoWords 128).IsActive cachedCore.toCoreConfig thread →
      (twoWords 128).firstAddr thread < 2 ^ 32 ∧
        blockOffset 128 ((twoWords 128).firstAddr thread) = 0 := by
    intro thread hactive
    rcases eq_or_of_isActive_twoWords hactive with rfl | rfl <;> decide
  refine (generateMemAccesses_cached_iff cachedCore (twoWords 128) false false rfl).mpr ⟨?_, ?_, ?_⟩
  · exact fun thread hactive => (hoffset thread hactive).1
  · intro thread hactive
    show blockOffset 128 _ + 4 ≤ 128
    rw [(hoffset thread hactive).2]
    decide
  · intro thread other hactive hother byte htouch
    refine ⟨other, hother, rfl, ?_⟩
    rw [WarpInst.Touches] at htouch ⊢
    show blockOffset 128 _ ≤ byte ∧ byte < blockOffset 128 _ + _
    rw [(hoffset other hother).2, ← (hoffset thread hactive).2]
    exact htouch

/-- Words at other places of two lines: both lines are asked for both places. -/
theorem not_generateMemAccesses_cached :
    ¬ ∀ (cfg : MemConfig) (inst : WarpInst) (isAtomic isWrite : Bool) (size : BitVec 32),
      cfg.cacheBlockSize inst.space = some size →
        ∃ generated, generateMemAccesses cfg inst isAtomic isWrite = .ok generated ∧
          BlockAccesses cfg.toCoreConfig inst (size.setWidth 64) generated.accessq := by
  intro hall
  obtain ⟨generated, hok, h⟩ := hall cachedCore (twoWords 132) false false 128 rfl
  have hgenerate : ∃ accessType, generateMemAccesses cachedCore (twoWords 132) false false = _ :=
    generateMemAccesses_of_cached rfl (by decide) false false
  obtain ⟨accessType, hgenerate⟩ := hgenerate
  rw [hgenerate] at hok
  obtain ⟨accesses, haccesses, rfl⟩ := Math.map_eq_ok.mp hok
  have hsame := (cachedAccesses_iff (by decide) false accessType).mp ⟨accesses, haccesses, h⟩
  obtain ⟨mate, hmate, hblock, htouch⟩ :=
    hsame.alike 0 1 ⟨by decide, by decide⟩ ⟨by decide, by decide⟩ 0 ⟨by decide, by decide⟩
  rcases eq_or_of_isActive_twoWords hmate with rfl | rfl
  · exact absurd hblock (by decide)
  · exact absurd htouch.1 (by decide)

end GpuCalorie.Coalescer
