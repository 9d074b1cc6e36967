/-
# The accesses of an atomic

Each active thread of a part of the warp goes to the first transaction of its segment whose
bytes it does not touch, so that the transactions are numbered by a first fit. The access for
a transaction has the threads and the bytes of it, but only the chunks that its threads begin
in: an access that ends in another chunk is whole when a thread of its transaction begins there.
-/

import GpuCalorie.Coalescer.Whole
import GpuCalorie.Coalescer.CacheBlocks
import GpuCalorie.Math.FirstFit

namespace GpuCalorie.Coalescer

open Hardware

variable {cfg : CoreConfig} {inst : WarpInst} {thread : Fin 32} {m : AtomicTransactions}
  {info : TransactionInfo}

/-! ## What is asked of the accesses -/

/-- The bytes a thread touches. -/
def WarpInst.Touched (inst : WarpInst) (thread : Fin 32) (x : ℕ) : Prop :=
  (inst.firstAddr thread).toNat ≤ x ∧ x < (inst.firstAddr thread).toNat + inst.dataSize

/-- No access of an active thread leaves its segment. -/
def WarpInst.InSegments (inst : WarpInst) (cfg : CoreConfig) : Prop :=
  ∀ thread, inst.IsActive cfg thread →
    (inst.firstAddr thread).toNat / inst.segmentSize cfg =
      ((inst.firstAddr thread).toNat + inst.dataSize - 1) / inst.segmentSize cfg

/-- Every active thread is in one access, in which no other thread touches its bytes, and which
has them all. -/
structure AtomicAccesses (cfg : CoreConfig) (inst : WarpInst) (accesses : List WarpAccess) :
    Prop where
  found : ∀ thread, inst.IsActive cfg thread → ∃ access ∈ accesses, thread ∈ access.warpMask
  once : accesses.Pairwise fun access other => Disjoint access.warpMask other.warpMask
  apart : ∀ access ∈ accesses, ∀ thread ∈ access.warpMask, ∀ other ∈ access.warpMask,
    thread ≠ other → ∀ x, ¬ (inst.Touched thread x ∧ inst.Touched other x)
  serves : ∀ access ∈ accesses, ∀ thread ∈ access.warpMask, ∀ x, inst.Touched thread x →
    access.Serves thread x

/-- Two threads of a part of the warp touch the same byte. -/
def WarpInst.Collides (inst : WarpInst) (cfg : CoreConfig) (thread other : Fin 32) : Prop :=
  thread.val / cfg.subwarpSize = other.val / cfg.subwarpSize ∧
    ∃ x, inst.Touched thread x ∧ inst.Touched other x

/-- The active threads of the warp. -/
def WarpInst.actives (inst : WarpInst) (cfg : CoreConfig) : Finset (Fin 32) :=
  inst.activeMask.filter fun thread => thread.val < cfg.warpSize

theorem mem_actives : thread ∈ inst.actives cfg ↔ inst.IsActive cfg thread := by
  rw [WarpInst.actives, Finset.mem_filter, WarpInst.IsActive]

/-- What an access of an atomic needs, when the threads are told apart by their rounds. -/
structure AtomicWhole (cfg : CoreConfig) (inst : WarpInst) (round : Fin 32 → ℕ)
    (thread : Fin 32) : Prop where
  /-- The parts of the warp include the thread. -/
  part : thread.val < cfg.subwarpSize * cfg.memWarpParts
  /-- There are segments for the data size. -/
  size : inst.dataSize ∈ [1, 2, 4, 8, 16]
  /-- The access ends in the addresses of 32 bits. -/
  inRange : (inst.firstAddr thread).toNat + inst.dataSize ≤ 2 ^ 32
  /-- The access of a thread of its part and round, which may be the thread, begins in the chunk
  that the access ends in. -/
  chunk : ∃ mate, inst.IsActive cfg mate ∧
    mate.val / cfg.subwarpSize = thread.val / cfg.subwarpSize ∧ round mate = round thread ∧
      (inst.firstAddr mate).toNat / 32 = ((inst.firstAddr thread).toNat + inst.dataSize - 1) / 32

/-! ## Bytes of a transaction -/

theorem testBytes_eq (bytes : Cache.ByteMask) {start count : ℕ} (h : start + count ≤ 128) :
    testBytes bytes start count = .ok (decide (¬ Disjoint bytes (byteRange start count))) := by
  induction count generalizing start with
  | zero =>
      have hnone : byteRange start 0 = ∅ := by
        ext byte
        simp [byteRange]
      rw [hnone]
      simp [testBytes]
  | succ count ih =>
      have hlt : start < 128 := by omega
      have hrange :
          byteRange start (count + 1) = insert ⟨start, hlt⟩ (byteRange (start + 1) count) := by
        ext byte
        simp only [Finset.mem_insert, mem_byteRange, Fin.ext_iff]
        omega
      rw [testBytes, dif_pos hlt, hrange]
      by_cases hmem : ⟨start, hlt⟩ ∈ bytes
      · rw [if_pos hmem]
        simp [Finset.disjoint_insert_right, hmem]
      · rw [if_neg hmem, ih (by omega)]
        simp [Finset.disjoint_insert_right, hmem]

theorem takeBytes_eq {idx size : ℕ} (h : idx + size ≤ 128) {mask : Cache.ByteMask}
    (hdisjoint : Disjoint mask (byteRange idx size)) :
    takeBytes idx size mask = .ok (mask ∪ byteRange idx size) := by
  induction size with
  | zero =>
      have hnone : byteRange idx 0 = ∅ := by
        ext byte
        simp [byteRange]
      rw [hnone, Finset.union_empty]
      rfl
  | succ size ih =>
      have hlast : idx + size < 128 := by omega
      have hrange :
          byteRange idx (size + 1) = insert ⟨idx + size, hlast⟩ (byteRange idx size) := by
        ext byte
        simp only [Finset.mem_insert, mem_byteRange, Fin.ext_iff]
        omega
      rw [hrange, Finset.disjoint_insert_right] at hdisjoint
      have hfree : (⟨idx + size, hlast⟩ : Fin 128) ∉ mask ∪ byteRange idx size := by
        rw [Finset.mem_union, mem_byteRange]
        rintro (hmem | ⟨-, hlt⟩)
        · exact hdisjoint.1 hmem
        · exact Nat.lt_irrefl _ hlt
      have hprior := ih (by omega) hdisjoint.2
      rw [takeBytes] at hprior ⊢
      rw [List.range_succ, List.foldlM_append, hprior, hrange, Finset.union_insert]
      show (takeByte _ (idx + size) >>= pure) = _
      rw [takeByte, dif_pos hlast, if_neg hfree]
      rfl

/-- A transaction has none of the bytes of an access. -/
def hasRoom (addr : Addr) (size : ℕ) (info : TransactionInfo) : Bool :=
  decide (Disjoint info.bytes (byteRange (offset addr) size))

theorem placeAtomic_eq (thread : Fin 32) {addr : Addr} {size : ℕ} (h : offset addr + size ≤ 128)
    (infos : List TransactionInfo) :
    placeAtomic thread addr size infos =
      .ok (Math.place (hasRoom addr size) (.touch thread addr size) {} infos) := by
  have htake : ∀ info : TransactionInfo, Disjoint info.bytes (byteRange (offset addr) size) →
      info.take thread addr size = .ok (.touch thread addr size info) := by
    intro info hdisjoint
    rw [TransactionInfo.take, takeBytes_eq h hdisjoint]
    rfl
  induction infos with
  | nil =>
      rw [placeAtomic, htake {} (Finset.disjoint_empty_left _)]
      rfl
  | cons info infos ih =>
      rw [placeAtomic, testBytes_eq _ h, Math.place, hasRoom]
      by_cases hroom : Disjoint info.bytes (byteRange (offset addr) size)
      · rw [if_pos (decide_eq_true hroom)]
        show (if decide (¬ _) = true then _ else _) = _
        rw [if_neg (by simpa using hroom), htake info hroom]
        rfl
      · rw [if_neg (by simpa using hroom)]
        show (if decide (¬ _) = true then _ else _) = _
        rw [if_pos (by simpa using hroom), ih]
        rfl

/-! ## Segments in 32 bits -/

/-- The segment of a thread's access, as the coalescer has it. -/
def WarpInst.segmentOf (inst : WarpInst) (cfg : CoreConfig) (thread : Fin 32) : Addr :=
  lineSizeBasedTagFunc (inst.firstAddr thread) (.ofNat 64 (inst.segmentSize cfg))

/-- A byte a thread touches, where addresses have 32 bits. -/
def WarpInst.LowTouched (inst : WarpInst) (thread : Fin 32) (x : ℕ) : Prop :=
  low (inst.firstAddr thread) ≤ x ∧ x < low (inst.firstAddr thread) + inst.dataSize

/-- Two threads of a part of the warp touch the same byte, where addresses have 32 bits. -/
def WarpInst.LowCollides (inst : WarpInst) (cfg : CoreConfig) (thread other : Fin 32) : Prop :=
  thread.val / cfg.subwarpSize = other.val / cfg.subwarpSize ∧
    ∃ x, inst.LowTouched thread x ∧ inst.LowTouched other x

section Segments

variable {thread other : Fin 32} {x : ℕ} (hsize : IsAccessSize (inst.segmentSize cfg))
  (hin : inst.InSegments cfg) (hactive : inst.IsActive cfg thread)
include hsize hin hactive

theorem offset_add_le : offset (inst.firstAddr thread) + inst.dataSize ≤ 128 := by
  have hsame := hin thread hactive
  have hpos := inst.dataSize_pos
  rw [offset_eq]
  rcases hsize with hsize | hsize | hsize <;> rw [hsize] at hsame <;> omega

theorem segmentOf_last : inst.segmentOf cfg thread =
      lineSizeBasedTagFunc (inst.firstAddr thread + .ofNat 64 inst.dataSize - 1)
        (.ofNat 64 (inst.segmentSize cfg)) := by
  have hsame := hin thread hactive
  have hpos := inst.dataSize_pos
  have hlt := (inst.firstAddr thread).isLt
  have hone : (1 : Addr).toNat = 1 := rfl
  have hlast : (inst.firstAddr thread + .ofNat 64 inst.dataSize - 1).toNat =
      (inst.firstAddr thread).toNat + inst.dataSize - 1 := by
    rw [BitVec.toNat_sub, BitVec.toNat_add, BitVec.toNat_ofNat, hone]
    rcases hsize with hsize | hsize | hsize <;> rw [hsize] at hsame <;> omega
  rw [← BitVec.toNat_inj, WarpInst.segmentOf, toNat_tag hsize, toNat_tag hsize, low, low, hlast]
  rcases hsize with hsize | hsize | hsize <;> rw [hsize] at hsame ⊢ <;> omega

omit hactive in
omit hin in
theorem segmentOf_eq_iff : inst.segmentOf cfg thread = inst.segmentOf cfg other ↔
      low (inst.firstAddr thread) / inst.segmentSize cfg =
        low (inst.firstAddr other) / inst.segmentSize cfg := by
  rw [← BitVec.toNat_inj, WarpInst.segmentOf, WarpInst.segmentOf, toNat_tag hsize,
    toNat_tag hsize, div_eq_iff_start hsize]

theorem LowTouched.segment (htouch : inst.LowTouched thread x) :
    x / inst.segmentSize cfg = low (inst.firstAddr thread) / inst.segmentSize cfg := by
  have hsame := hin thread hactive
  obtain ⟨hle, hlt⟩ := htouch
  rw [low] at hle hlt ⊢
  rcases hsize with hsize | hsize | hsize <;> rw [hsize] at hsame ⊢ <;> omega

theorem lowTouched_iff (hother : inst.IsActive cfg other)
    (hsegment : inst.segmentOf cfg thread = inst.segmentOf cfg other) :
    (∃ x, inst.LowTouched thread x ∧ inst.LowTouched other x) ↔
      ¬ Disjoint (byteRange (offset (inst.firstAddr thread)) inst.dataSize)
        (byteRange (offset (inst.firstAddr other)) inst.dataSize) := by
  have hblock : low (inst.firstAddr thread) / 128 = low (inst.firstAddr other) / 128 := by
    rw [segmentOf_eq_iff hsize] at hsegment
    rcases hsize with hsize | hsize | hsize <;> rw [hsize] at hsegment <;> omega
  have hend := offset_add_le hsize hin hactive
  have hend' := offset_add_le hsize hin hother
  rw [Finset.not_disjoint_iff]
  simp only [mem_byteRange, WarpInst.LowTouched, offset_eq, ← low_mod] at hend hend' ⊢
  constructor
  · rintro ⟨x, htouch, htouch'⟩
    exact ⟨⟨x % 128, Nat.mod_lt _ (by decide)⟩, by dsimp only; omega, by dsimp only; omega⟩
  · rintro ⟨byte, htouch, htouch'⟩
    exact ⟨low (inst.firstAddr thread) / 128 * 128 + byte.val, by omega, by omega⟩

end Segments

/-! ## The loop over the threads of a part -/

/-- What a transaction has of the threads with a property. -/
structure Gathered (inst : WarpInst) (P : Fin 32 → Prop) (info : TransactionInfo) : Prop where
  active : ∀ thread, thread ∈ info.active ↔ P thread
  chunks : ∀ c, c ∈ info.chunks ↔ ∃ thread, P thread ∧ chunk (inst.firstAddr thread) = c
  bytes : ∀ byte, byte ∈ info.bytes ↔
    ∃ thread, P thread ∧ byte ∈ byteRange (offset (inst.firstAddr thread)) inst.dataSize

theorem gathered_empty {P : Fin 32 → Prop} (h : ∀ thread, ¬ P thread) : Gathered inst P {} where
  active thread := by simp [h]
  chunks c := by simp [h]
  bytes byte := by simp [h]

theorem Gathered.touch {P Q : Fin 32 → Prop} (h : Gathered inst P info)
    (hmore : ∀ other, Q other ↔ other = thread ∨ P other) :
    Gathered inst Q (.touch thread (inst.firstAddr thread) inst.dataSize info) where
  active other := by rw [TransactionInfo.touch, Finset.mem_insert, h.active, hmore]
  chunks c := by
    rw [TransactionInfo.touch, Finset.mem_insert, h.chunks, eq_comm]
    simp only [hmore, or_and_right, exists_or, exists_eq_left]
  bytes byte := by
    rw [TransactionInfo.touch, Finset.mem_union, h.bytes, or_comm]
    simp only [hmore, or_and_right, exists_or, exists_eq_left]

/-- The transaction of a segment with a number. -/
def transactionAt (m : AtomicTransactions) (block : Addr) (k : ℕ) : Option TransactionInfo :=
  (m[block]?.getD [])[k]?

theorem transactionAt_insert (m : AtomicTransactions) (segment block : Addr)
    (infos : List TransactionInfo) (k : ℕ) :
    transactionAt (m.insert segment infos) block k =
      if block = segment then infos[k]? else transactionAt m block k := by
  rw [transactionAt, Std.TreeMap.getElem?_insert]
  by_cases hblock : block = segment
  · subst hblock
    rw [if_pos rfl, if_pos Std.ReflOrd.compare_self]
    rfl
  · rw [if_neg hblock, if_neg fun heq => hblock (Std.LawfulEqOrd.eq_of_compare heq).symm]
    rfl

/-- The threads of a list in a segment and round. -/
def InRound (cfg : CoreConfig) (inst : WarpInst) (round : Fin 32 → ℕ) (visited : List (Fin 32))
    (block : Addr) (k : ℕ) (thread : Fin 32) : Prop :=
  thread ∈ visited ∧ inst.segmentOf cfg thread = block ∧ round thread = k

/-- What the transactions have of the threads that were visited, when these have rounds. -/
structure Placed (cfg : CoreConfig) (inst : WarpInst) (round : Fin 32 → ℕ)
    (visited : List (Fin 32)) (m : AtomicTransactions) : Prop where
  isSome : ∀ block k, (transactionAt m block k).isSome ↔
    ∃ thread, InRound cfg inst round visited block k thread
  gathered : ∀ block k info, transactionAt m block k = some info →
    Gathered inst (InRound cfg inst round visited block k) info

theorem placed_nil (round : Fin 32 → ℕ) : Placed cfg inst round [] ∅ where
  isSome block k := by simp [transactionAt, InRound]
  gathered block k info hinfo := by simp [transactionAt] at hinfo

namespace Placed

variable {round : Fin 32 → ℕ} {visited : List (Fin 32)} {m m' : AtomicTransactions}
  {thread : Fin 32}

theorem step (h : Placed cfg inst round visited m)
    (hnext : ∀ block k, transactionAt m' block k =
      if block = inst.segmentOf cfg thread ∧ k = round thread then
        some (.touch thread (inst.firstAddr thread) inst.dataSize
          ((transactionAt m block k).getD {}))
      else transactionAt m block k) :
    Placed cfg inst round (visited ++ [thread]) m' where
  isSome block k := by
    rw [hnext]
    split
    case isTrue hat =>
      obtain ⟨rfl, rfl⟩ := hat
      exact iff_of_true rfl ⟨thread, List.mem_append_right _ (List.mem_singleton_self _), rfl, rfl⟩
    case isFalse hnot =>
      rw [h.isSome]
      refine exists_congr fun other => ?_
      rw [InRound, InRound, List.mem_append, List.mem_singleton, or_and_right]
      refine (or_iff_left ?_).symm
      rintro ⟨rfl, rfl, rfl⟩
      exact hnot ⟨rfl, rfl⟩
  gathered block k info hinfo := by
    rw [hnext] at hinfo
    split at hinfo
    case isTrue hat =>
      obtain ⟨rfl, rfl⟩ := hat
      cases hinfo
      have hmore : ∀ other, InRound cfg inst round (visited ++ [thread])
          (inst.segmentOf cfg thread) (round thread) other ↔ other = thread ∨
          InRound cfg inst round visited (inst.segmentOf cfg thread) (round thread) other := by
        intro other
        rw [InRound, InRound, List.mem_append, List.mem_singleton]
        constructor
        · rintro ⟨hmem | rfl, hsame⟩
          · exact .inr ⟨hmem, hsame⟩
          · exact .inl rfl
        · rintro (rfl | ⟨hmem, hsame⟩)
          · exact ⟨.inr rfl, rfl, rfl⟩
          · exact ⟨.inl hmem, hsame⟩
      cases hold : transactionAt m (inst.segmentOf cfg thread) (round thread) with
      | none =>
          refine (gathered_empty fun other hother => ?_).touch hmore
          have hsome := (h.isSome _ _).mpr ⟨other, hother⟩
          rw [hold] at hsome
          exact nomatch hsome
      | some old => exact (h.gathered _ _ old hold).touch hmore
    case isFalse hnot =>
      have hsame : InRound cfg inst round (visited ++ [thread]) block k =
          InRound cfg inst round visited block k := by
        funext other
        rw [InRound, InRound, List.mem_append, List.mem_singleton, or_and_right]
        refine propext (or_iff_left ?_)
        rintro ⟨rfl, rfl, rfl⟩
        exact hnot ⟨rfl, rfl⟩
      rw [hsame]
      exact h.gathered block k info hinfo

theorem atomicThread (h : Placed cfg inst round visited m)
    (hsize : IsAccessSize (inst.segmentSize cfg)) (hin : inst.InSegments cfg)
    (hround : Math.IsFirstFit (inst.actives cfg) (inst.LowCollides cfg) round)
    (hactive : inst.IsActive cfg thread)
    (hvisited : ∀ other, other ∈ visited ↔ inst.IsActive cfg other ∧
      other.val / cfg.subwarpSize = thread.val / cfg.subwarpSize ∧ other < thread) :
    ∃ m', Coalescer.atomicThread cfg inst m thread = .ok m' ∧
      Placed cfg inst round (visited ++ [thread]) m' := by
  have hend := offset_add_le hsize hin hactive
  -- a visited thread of the segment collides when it has one of the bits
  have hcollides : ∀ other ∈ visited, inst.segmentOf cfg other = inst.segmentOf cfg thread →
      (inst.LowCollides cfg other thread ↔
        ¬ Disjoint (byteRange (offset (inst.firstAddr other)) inst.dataSize)
          (byteRange (offset (inst.firstAddr thread)) inst.dataSize)) := by
    intro other hother hsame
    obtain ⟨hother, hpart, -⟩ := (hvisited other).mp hother
    rw [← lowTouched_iff hsize hin hother hactive hsame, WarpInst.LowCollides, and_iff_right hpart]
  -- the threads it collides with are in its segment
  have hsegment : ∀ other, inst.IsActive cfg other → inst.LowCollides cfg other thread →
      inst.segmentOf cfg other = inst.segmentOf cfg thread := by
    rintro other hother ⟨-, x, htouch, htouch'⟩
    rw [segmentOf_eq_iff hsize, ← LowTouched.segment hsize hin hother htouch,
      LowTouched.segment hsize hin hactive htouch']
  have hearlier : ∀ k < round thread, ∃ other,
      InRound cfg inst round visited (inst.segmentOf cfg thread) k other ∧
        inst.LowCollides cfg other thread := by
    intro k hk
    obtain ⟨other, hother, hlt, hcollide, heq⟩ :=
      hround.exists_conflict (mem_actives.mpr hactive) hk
    have hother := mem_actives.mp hother
    exact ⟨other, ⟨(hvisited other).mpr ⟨hother, hcollide.1, hlt⟩,
      hsegment other hother hcollide, heq⟩, hcollide⟩
  have hroom : ∀ k, ∀ info, transactionAt m (inst.segmentOf cfg thread) k = some info →
      (hasRoom (inst.firstAddr thread) inst.dataSize info = false ↔ ∃ other,
        InRound cfg inst round visited (inst.segmentOf cfg thread) k other ∧
          inst.LowCollides cfg other thread) := by
    intro k info hinfo
    have hgathered := h.gathered _ k info hinfo
    rw [hasRoom, decide_eq_false_iff_not, Finset.not_disjoint_iff]
    constructor
    · rintro ⟨byte, hbyte, hbyte'⟩
      obtain ⟨other, hother, hbyte⟩ := (hgathered.bytes byte).mp hbyte
      refine ⟨other, hother, (hcollides other hother.1 hother.2.1).mpr ?_⟩
      exact Finset.not_disjoint_iff.mpr ⟨byte, hbyte, hbyte'⟩
    · rintro ⟨other, hother, hcollide⟩
      obtain ⟨byte, hbyte, hbyte'⟩ :=
        Finset.not_disjoint_iff.mp ((hcollides other hother.1 hother.2.1).mp hcollide)
      exact ⟨byte, (hgathered.bytes byte).mpr ⟨other, hother, hbyte⟩, hbyte'⟩
  have hbefore : ∀ k < round thread, ∀ info ∈ (m[inst.segmentOf cfg thread]?.getD [])[k]?,
      hasRoom (inst.firstAddr thread) inst.dataSize info = false :=
    fun k hk info hinfo => (hroom k info hinfo).mpr (hearlier k hk)
  have hle : round thread ≤ (m[inst.segmentOf cfg thread]?.getD []).length := by
    by_contra hlt
    obtain ⟨other, hother, -⟩ := hearlier _ (Nat.lt_of_not_le hlt)
    have hsome := (h.isSome _ _).mpr ⟨other, hother⟩
    rw [transactionAt, List.getElem?_eq_none (Nat.le_refl _)] at hsome
    exact nomatch hsome
  have hat : ∀ info ∈ (m[inst.segmentOf cfg thread]?.getD [])[round thread]?,
      hasRoom (inst.firstAddr thread) inst.dataSize info = true := by
    intro info hinfo
    rw [← Bool.not_eq_false, hroom _ info hinfo]
    rintro ⟨other, ⟨hother, -, heq⟩, hcollide⟩
    obtain ⟨hother, -, hlt⟩ := (hvisited other).mp hother
    exact hround.not_conflict (mem_actives.mpr hactive) (mem_actives.mpr hother) hlt heq hcollide
  refine ⟨m.insert (inst.segmentOf cfg thread)
    (Math.place (hasRoom (inst.firstAddr thread) inst.dataSize)
      (.touch thread (inst.firstAddr thread) inst.dataSize) {}
      (m[inst.segmentOf cfg thread]?.getD [])), ?_, h.step fun block k => ?_⟩
  · have hlast : lineSizeBasedTagFunc (inst.firstAddr thread) _ = _ :=
      segmentOf_last hsize hin hactive
    rw [Coalescer.atomicThread, if_neg (not_not.mpr hactive.1)]
    dsimp only
    rw [if_neg (not_not.mpr hlast), placeAtomic_eq thread hend]
    rfl
  · rw [transactionAt_insert, Math.getElem?_place hbefore hle hat]
    by_cases hblock : block = inst.segmentOf cfg thread
    · subst hblock
      simp only [true_and, if_true]
      by_cases hk : k = round thread
      · subst hk
        rw [if_pos rfl, if_pos rfl]
        rfl
      · rw [if_neg hk, if_neg hk]
        rfl
    · rw [if_neg hblock, if_neg fun hboth => hblock hboth.1]

end Placed

theorem mem_activeOf_subwarpThreads {subwarp : ℕ} (hlt : subwarp < cfg.memWarpParts)
    : thread ∈ inst.activeOf (cfg.subwarpThreads subwarp) ↔
      inst.IsActive cfg thread ∧ 0 < cfg.subwarpSize ∧
        thread.val / cfg.subwarpSize = subwarp := by
  rw [mem_activeOf, mem_subwarpThreads_iff, WarpInst.IsActive]
  constructor
  · rintro ⟨⟨hpos, hpart⟩, hactive⟩
    exact ⟨⟨hactive, lt_warpSize_of_part hpos hpart hlt⟩, hpos, hpart⟩
  · rintro ⟨⟨hactive, -⟩, hpart⟩
    exact ⟨hpart, hactive⟩

theorem pairwise_activeOf_subwarpThreads (subwarp : ℕ) :
    (inst.activeOf (cfg.subwarpThreads subwarp)).Pairwise (· < ·) :=
  ((List.pairwise_lt_finRange 32).filter _).filter _

theorem foldlM_atomicThread (hsize : IsAccessSize (inst.segmentSize cfg))
    (hin : inst.InSegments cfg) {round : Fin 32 → ℕ}
    (hround : Math.IsFirstFit (inst.actives cfg) (inst.LowCollides cfg) round) {subwarp : ℕ}
    (hlt : subwarp < cfg.memWarpParts) (threads visited : List (Fin 32))
    (h : Placed cfg inst round visited m)
    (hall : visited ++ inst.activeOf threads = inst.activeOf (cfg.subwarpThreads subwarp)) :
    ∃ m', threads.foldlM (atomicThread cfg inst) m = .ok m' ∧
      Placed cfg inst round (inst.activeOf (cfg.subwarpThreads subwarp)) m' := by
  induction threads generalizing visited m with
  | nil =>
      refine ⟨m, rfl, ?_⟩
      rw [← hall]
      exact (List.append_nil visited).symm ▸ h
  | cons thread threads ih =>
      rw [List.foldlM_cons]
      by_cases hactive : thread ∈ inst.activeMask
      · rw [activeOf_cons_of_mem hactive] at hall
        have hsorted : (visited ++ thread :: inst.activeOf threads).Pairwise (· < ·) := by
          rw [hall]
          exact pairwise_activeOf_subwarpThreads subwarp
        obtain ⟨-, hrest, hless⟩ := List.pairwise_append.mp hsorted
        have hmem : ∀ other, other ∈ visited ++ thread :: inst.activeOf threads ↔
            inst.IsActive cfg other ∧ 0 < cfg.subwarpSize ∧
              other.val / cfg.subwarpSize = subwarp := fun other => by
          rw [hall]
          exact mem_activeOf_subwarpThreads hlt
        obtain ⟨hthread, hpos, hpart⟩ :=
          (hmem thread).mp (List.mem_append_right _ List.mem_cons_self)
        have hvisited : ∀ other, other ∈ visited ↔ inst.IsActive cfg other ∧
            other.val / cfg.subwarpSize = thread.val / cfg.subwarpSize ∧ other < thread := by
          intro other
          constructor
          · intro hother
            obtain ⟨hother', -, hpart'⟩ := (hmem other).mp (List.mem_append_left _ hother)
            exact ⟨hother', hpart'.trans hpart.symm, hless other hother thread List.mem_cons_self⟩
          · rintro ⟨hother, hpart', hlt'⟩
            rcases List.mem_append.mp ((hmem other).mpr ⟨hother, hpos, hpart'.trans hpart⟩) with
              hother | hother
            · exact hother
            · rcases List.mem_cons.mp hother with rfl | hother
              · exact absurd hlt' (lt_irrefl _)
              · exact absurd hlt' ((List.pairwise_cons.mp hrest).1 other hother).asymm
        obtain ⟨m', hok, hplaced⟩ := h.atomicThread hsize hin hround hthread hvisited
        rw [hok]
        refine ih (visited ++ [thread]) hplaced ?_
        rw [List.append_assoc]
        exact hall
      · rw [activeOf_cons_of_notMem hactive] at hall
        rw [atomicThread, if_pos hactive]
        exact ih visited h hall

/-! ## The accesses of a part -/

/-- The access that is sent for the transaction of a segment and a round. -/
structure SentAt (cfg : CoreConfig) (inst : WarpInst) (round : Fin 32 → ℕ)
    (visited : List (Fin 32)) (block : Addr) (k : ℕ) (access : WarpAccess) : Prop where
  warpMask : ∀ thread, thread ∈ access.warpMask ↔ InRound cfg inst round visited block k thread
  lt : ∀ thread ∈ access.warpMask, ∀ x, access.Serves thread x → x < 2 ^ 32
  serves_iff : ∀ thread ∈ access.warpMask, ∀ x, inst.LowTouched thread x →
    (access.Serves thread x ↔
      ∃ mate ∈ access.warpMask, low (inst.firstAddr mate) / 32 = x / 32)

section Send

variable {round : Fin 32 → ℕ} {subwarp : ℕ}

theorem sentAt_of_gathered (isWrite : Bool) (accessType : Cache.MemAccessType)
    (hsize : IsAccessSize (inst.segmentSize cfg)) (hin : inst.InSegments cfg)
    {visited : List (Fin 32)} (hvisited : ∀ thread ∈ visited, inst.IsActive cfg thread)
    {block : Addr} {k : ℕ} (hsome : ∃ thread, InRound cfg inst round visited block k thread)
    (h : Gathered inst (InRound cfg inst round visited block k) info) :
    ∃ access, memoryCoalescingArchReduceAndSend isWrite accessType (inst.segmentSize cfg)
      (block, info) = .ok access ∧ access.warpMask = info.active ∧
        SentAt cfg inst round visited block k access := by
  have hblock : ∀ thread, InRound cfg inst round visited block k thread →
      low (inst.firstAddr thread) / inst.segmentSize cfg * inst.segmentSize cfg = block.toNat := by
    rintro thread ⟨-, rfl, -⟩
    exact (toNat_tag hsize _).symm
  obtain ⟨first, hfirst⟩ := hsome
  have hdvd : inst.segmentSize cfg ∣ block.toNat :=
    ⟨_, (hblock first hfirst).symm.trans (Nat.mul_comm _ _)⟩
  obtain ⟨hle, hlt⟩ := (start_eq_iff hsize hdvd).mp (hblock first hfirst)
  have hchunks : ∀ x, x / inst.segmentSize cfg * inst.segmentSize cfg = block.toNat →
      (sectorOf x ∈ info.chunks ↔ ∃ mate, InRound cfg inst round visited block k mate ∧
        low (inst.firstAddr mate) / 32 = x / 32) := by
    intro x hx
    rw [h.chunks]
    refine exists_congr fun mate => and_congr_right fun hmate => ?_
    have hseg : low (inst.firstAddr mate) / inst.segmentSize cfg = x / inst.segmentSize cfg := by
      rw [← div_eq_iff_start hsize, hblock mate hmate, hx]
    rw [← chunk_eq_iff hsize, and_iff_right hseg]
  obtain ⟨access, hok, hsent⟩ := reduceAndSend_sent isWrite accessType hsize hdvd
    ⟨_, hle, hlt, (hchunks _ (hblock first hfirst)).mpr ⟨first, hfirst, rfl⟩⟩
  refine ⟨access, hok, hsent.warpMask, ?_⟩
  have hmask : ∀ thread, thread ∈ access.warpMask ↔
      InRound cfg inst round visited block k thread := fun thread => by
    rw [hsent.warpMask, h.active]
  refine ⟨hmask, fun thread hthread x hserves => ?_, fun thread hthread x htouch => ?_⟩
  · have hx : x / inst.segmentSize cfg * inst.segmentSize cfg = block.toNat :=
      (start_eq_iff hsize hdvd).mpr
        ⟨hsent.part.le.trans hserves.has.1, hserves.has.2.trans_le hsent.part.add_le⟩
    have hlow := low_lt (inst.firstAddr first)
    rw [← hblock first hfirst, div_eq_iff_start hsize] at hx
    rcases hsize with hsize | hsize | hsize <;> rw [hsize] at hx <;> omega
  · have hround := (hmask thread).mp hthread
    have hactive := hvisited thread hround.1
    have hseg := LowTouched.segment hsize hin hactive htouch
    have hx : x / inst.segmentSize cfg * inst.segmentSize cfg = block.toNat := by
      rw [hseg, hblock thread hround]
    have hserves : access.Serves thread x ↔ sectorOf x ∈ info.chunks := by
      constructor
      · intro hserves
        rw [← hsent.sectorMask]
        exact hserves.sector
      · intro hsector
        obtain ⟨hle, hlt⟩ := (start_eq_iff hsize hdvd).mp hx
        refine ⟨hsent.part.has x hle hlt hsector, hthread, ?_, by rwa [hsent.sectorMask]⟩
        rw [hsent.byteMask, h.bytes]
        exact ⟨thread, hround, (byteOf_mem_iff hsize hseg.symm).mpr htouch⟩
    rw [hserves, hchunks x hx]
    simp only [hmask]

/-- The transactions in the order they are sent. -/
def AtomicTransactions.entries (m : AtomicTransactions) : List (Addr × TransactionInfo) :=
  m.toList.flatMap fun (block, infos) => infos.map (block, ·)

theorem mem_entries {block : Addr} :
    (block, info) ∈ m.entries ↔ ∃ k, transactionAt m block k = some info := by
  simp only [AtomicTransactions.entries, List.mem_flatMap, Prod.exists,
    Std.TreeMap.mem_toList_iff_getElem?_eq_some, List.mem_map, Prod.mk.injEq]
  constructor
  · rintro ⟨block, infos, hget, info, hmem, rfl, rfl⟩
    obtain ⟨k, hk⟩ := List.mem_iff_getElem?.mp hmem
    exact ⟨k, by rw [transactionAt, hget]; exact hk⟩
  · rintro ⟨k, hk⟩
    rw [transactionAt] at hk
    cases hget : m[block]? with
    | none =>
        rw [hget] at hk
        exact nomatch hk
    | some infos =>
        rw [hget] at hk
        exact ⟨block, infos, hget, info, List.mem_of_getElem? hk, rfl, rfl⟩

theorem Placed.pairwise {visited : List (Fin 32)} (h : Placed cfg inst round visited m) :
    m.entries.Pairwise fun entry other => Disjoint entry.2.active other.2.active := by
  have hdisjoint : ∀ block k info block' k' info', transactionAt m block k = some info →
      transactionAt m block' k' = some info' → (block ≠ block' ∨ k ≠ k') →
        Disjoint info.active info'.active := by
    intro block k info block' k' info' hinfo hinfo' hne
    refine Finset.disjoint_left.mpr fun thread hmem hmem' => ?_
    obtain ⟨-, hblock, hk⟩ := ((h.gathered _ _ _ hinfo).active thread).mp hmem
    obtain ⟨-, hblock', hk'⟩ := ((h.gathered _ _ _ hinfo').active thread).mp hmem'
    rcases hne with hne | hne
    · exact hne (hblock.symm.trans hblock')
    · exact hne (hk.symm.trans hk')
  rw [AtomicTransactions.entries, List.pairwise_flatMap]
  constructor
  · rintro ⟨block, infos⟩ hmem
    have hget := Std.TreeMap.mem_toList_iff_getElem?_eq_some.mp hmem
    rw [List.pairwise_map, List.pairwise_iff_getElem]
    intro k k' hk hk' hlt
    refine hdisjoint block k _ block k' _ ?_ ?_ (.inr (Nat.ne_of_lt hlt))
    · rw [transactionAt, hget]
      exact List.getElem?_eq_getElem hk
    · rw [transactionAt, hget]
      exact List.getElem?_eq_getElem hk'
  · refine (List.Pairwise.and_mem.mp Std.TreeMap.distinct_keys_toList).imp ?_
    rintro ⟨block, infos⟩ ⟨block', infos'⟩ ⟨hmem, hmem', hne⟩ entry hentry entry' hentry'
    have hblock : block ≠ block' := by
      rintro rfl
      exact hne Std.ReflOrd.compare_self
    obtain ⟨info, hinfo, rfl⟩ := List.mem_map.mp hentry
    obtain ⟨info', hinfo', rfl⟩ := List.mem_map.mp hentry'
    obtain ⟨k, hk⟩ := List.mem_iff_getElem?.mp hinfo
    obtain ⟨k', hk'⟩ := List.mem_iff_getElem?.mp hinfo'
    refine hdisjoint block k info block' k' info' ?_ ?_ (.inl hblock)
    · rw [transactionAt, Std.TreeMap.mem_toList_iff_getElem?_eq_some.mp hmem]
      exact hk
    · rw [transactionAt, Std.TreeMap.mem_toList_iff_getElem?_eq_some.mp hmem']
      exact hk'

theorem atomicSubwarp_sent (isWrite : Bool) (accessType : Cache.MemAccessType)
    (hsize : IsAccessSize (inst.segmentSize cfg)) (hin : inst.InSegments cfg)
    (hround : Math.IsFirstFit (inst.actives cfg) (inst.LowCollides cfg) round)
    (hlt : subwarp < cfg.memWarpParts) :
    ∃ accesses, atomicSubwarp cfg inst isWrite accessType subwarp = .ok accesses ∧
      accesses.Pairwise (fun access other => Disjoint access.warpMask other.warpMask) ∧
      (∀ thread ∈ inst.activeOf (cfg.subwarpThreads subwarp),
        ∃ access ∈ accesses, thread ∈ access.warpMask) ∧
      ∀ access ∈ accesses, ∃ block k,
        SentAt cfg inst round (inst.activeOf (cfg.subwarpThreads subwarp)) block k access := by
  obtain ⟨m, hloop, hplaced⟩ :=
    foldlM_atomicThread hsize hin hround hlt (cfg.subwarpThreads subwarp) [] (placed_nil round) rfl
  have hsend : ∀ entry ∈ m.entries, ∃ access, memoryCoalescingArchReduceAndSend isWrite accessType
      (inst.segmentSize cfg) entry = .ok access ∧ access.warpMask = entry.2.active ∧
        ∃ block k, SentAt cfg inst round (inst.activeOf (cfg.subwarpThreads subwarp)) block k
          access := by
    rintro ⟨block, info⟩ hmem
    obtain ⟨k, hinfo⟩ := mem_entries.mp hmem
    have hsome := (hplaced.isSome block k).mp (by rw [hinfo]; rfl)
    obtain ⟨access, hok, hmask, hsent⟩ := sentAt_of_gathered isWrite accessType hsize hin
      (fun thread hthread => ((mem_activeOf_subwarpThreads hlt).mp hthread).1) hsome
      (hplaced.gathered block k info hinfo)
    exact ⟨access, hok, hmask, block, k, hsent⟩
  obtain ⟨accesses, hok, hall⟩ := Math.exists_mapM_forall₂ hsend
  refine ⟨accesses, ?_, ?_, fun thread hthread => ?_, fun access hmem => ?_⟩
  · rw [atomicSubwarp, hloop]
    exact hok
  · refine Math.pairwise_of_forall₂ hall hplaced.pairwise ?_
    rintro entry entry' access access' ⟨-, hmask, -⟩ ⟨-, hmask', -⟩ hdisjoint
    rw [hmask, hmask']
    exact hdisjoint
  · obtain ⟨info, hinfo⟩ := Option.isSome_iff_exists.mp
      ((hplaced.isSome (inst.segmentOf cfg thread) (round thread)).mpr
        ⟨thread, hthread, rfl, rfl⟩)
    obtain ⟨access, hmem, -, hmask, -⟩ :=
      Math.exists_of_forall₂_mem hall (mem_entries.mpr ⟨_, hinfo⟩)
    refine ⟨access, hmem, ?_⟩
    rw [hmask]
    exact ((hplaced.gathered _ _ info hinfo).active thread).mpr ⟨hthread, rfl, rfl⟩
  · obtain ⟨entry, -, -, -, hsent⟩ := Math.exists_of_mem_forall₂ hall hmem
    exact hsent

end Send

/-! ## The accesses of the warp -/

section Warp

variable {round : Fin 32 → ℕ}

theorem memoryCoalescingArchAtomic_sent (isWrite : Bool) (accessType : Cache.MemAccessType)
    (hspace : inst.space = .globalSpace) (hparts : cfg.memWarpParts ≠ 0)
    (hsize : IsAccessSize (inst.segmentSize cfg)) (hin : inst.InSegments cfg)
    (hround : Math.IsFirstFit (inst.actives cfg) (inst.LowCollides cfg) round) :
    ∃ accesses, memoryCoalescingArchAtomic cfg inst isWrite accessType = .ok accesses ∧
      accesses.Pairwise (fun access other => Disjoint access.warpMask other.warpMask) ∧
      (∀ thread, inst.IsActive cfg thread → thread.val < cfg.subwarpSize * cfg.memWarpParts →
        ∃ access ∈ accesses, thread ∈ access.warpMask) ∧
      ∀ access ∈ accesses, ∃ subwarp < cfg.memWarpParts, ∃ block k,
        SentAt cfg inst round (inst.activeOf (cfg.subwarpThreads subwarp)) block k access := by
  have hsubwarp : ∀ subwarp ∈ List.range cfg.memWarpParts, _ := fun subwarp hmem =>
    atomicSubwarp_sent isWrite accessType hsize hin hround (List.mem_range.mp hmem)
  obtain ⟨parts, hok, hall⟩ := Math.exists_mapM_forall₂ hsubwarp
  refine ⟨parts.flatten, ?_, ?_, fun thread hactive hpart => ?_, fun access hmem => ?_⟩
  · rw [memoryCoalescingArchAtomic, if_neg (not_not.mpr hspace), if_neg hparts, hok]
    rfl
  · rw [List.pairwise_flatten]
    refine ⟨fun accesses hmem => ?_, ?_⟩
    · obtain ⟨subwarp, -, -, hpairwise, -⟩ := Math.exists_of_mem_forall₂ hall hmem
      exact hpairwise
    · refine Math.pairwise_of_forall₂ hall List.nodup_range ?_
      rintro subwarp subwarp' accesses accesses' ⟨hlt, -, -, hsent⟩ ⟨hlt', -, -, hsent'⟩ hne
        access hmem access' hmem'
      refine Finset.disjoint_left.mpr fun thread hthread hthread' => hne ?_
      obtain ⟨block, k, hsent⟩ := hsent access hmem
      obtain ⟨block', k', hsent'⟩ := hsent' access' hmem'
      obtain ⟨hin, -⟩ := (hsent.warpMask thread).mp hthread
      obtain ⟨hin', -⟩ := (hsent'.warpMask thread).mp hthread'
      obtain ⟨-, -, heq⟩ := (mem_activeOf_subwarpThreads (List.mem_range.mp hlt)).mp hin
      obtain ⟨-, -, heq'⟩ := (mem_activeOf_subwarpThreads (List.mem_range.mp hlt')).mp hin'
      exact heq.symm.trans heq'
  · obtain ⟨hpos, hlt⟩ := part_of_lt hpart
    obtain ⟨accesses, hmem, -, -, hfound, -⟩ :=
      Math.exists_of_forall₂_mem hall (List.mem_range.mpr hlt)
    obtain ⟨access, haccess, hthread⟩ :=
      hfound thread ((mem_activeOf_subwarpThreads hlt).mpr ⟨hactive, hpos, rfl⟩)
    exact ⟨access, List.mem_flatten.mpr ⟨accesses, hmem, haccess⟩, hthread⟩
  · obtain ⟨accesses, hmem, haccess⟩ := List.mem_flatten.mp hmem
    obtain ⟨subwarp, hlt, -, -, -, hsent⟩ := Math.exists_of_mem_forall₂ hall hmem
    exact ⟨subwarp, List.mem_range.mp hlt, hsent access haccess⟩

theorem lowCollides_iff (h : ∀ thread, inst.IsActive cfg thread →
    (inst.firstAddr thread).toNat + inst.dataSize ≤ 2 ^ 32) :
    ∀ thread ∈ inst.actives cfg, ∀ other ∈ inst.actives cfg,
      inst.Collides cfg other thread ↔ inst.LowCollides cfg other thread := by
  intro thread hthread other hother
  have hpos := inst.dataSize_pos
  have hlow := h thread (mem_actives.mp hthread)
  have hlow' := h other (mem_actives.mp hother)
  rw [WarpInst.Collides, WarpInst.LowCollides]
  simp only [WarpInst.Touched, WarpInst.LowTouched]
  rw [low_eq_of_lt (by omega), low_eq_of_lt (by omega)]

theorem dataSize_of_atomic {isWrite : Bool} {accessType : Cache.MemAccessType}
    {accesses : List WarpAccess}
    (hok : memoryCoalescingArchAtomic cfg inst isWrite accessType = .ok accesses)
    {access : WarpAccess} (hmem : access ∈ accesses) (hsize : access.reqSize ≠ 0) :
    inst.dataSize ∈ [1, 2, 4, 8, 16] := by
  by_contra hdata
  rw [memoryCoalescingArchAtomic] at hok
  split at hok
  · exact nomatch hok
  split at hok
  · exact nomatch hok
  obtain ⟨parts, hparts, hflat⟩ := Math.bind_eq_ok.mp hok
  cases hflat
  obtain ⟨part, hpart, hmem⟩ := List.mem_flatten.mp hmem
  obtain ⟨subwarp, -, hsub⟩ := Math.exists_of_mem_mapM hparts hpart
  rw [atomicSubwarp, segmentSize_eq_zero hdata] at hsub
  obtain ⟨m, -, hsend⟩ := Math.bind_eq_ok.mp hsub
  obtain ⟨entry, -, hentry⟩ := Math.exists_of_mem_mapM hsend hmem
  exact hsize (reqSize_of_reduceAndSend_zero hentry)

theorem foldlM_atomicThread_of_inactive {threads : List (Fin 32)}
    (h : ∀ thread ∈ threads, thread ∉ inst.activeMask) (m : AtomicTransactions) :
    threads.foldlM (atomicThread cfg inst) m = .ok m := by
  induction threads with
  | nil => rfl
  | cons thread threads ih =>
      rw [List.foldlM_cons, atomicThread, if_pos (h thread List.mem_cons_self)]
      exact ih fun other hmem => h other (List.mem_cons_of_mem thread hmem)

theorem memoryCoalescingArchAtomic_of_inactive (isWrite : Bool)
    (accessType : Cache.MemAccessType) (hspace : inst.space = .globalSpace)
    (hparts : cfg.memWarpParts ≠ 0) (h : ∀ thread, ¬ inst.IsActive cfg thread) :
    memoryCoalescingArchAtomic cfg inst isWrite accessType = .ok [] := by
  have hsubwarp : ∀ subwarp ∈ List.range cfg.memWarpParts,
      atomicSubwarp cfg inst isWrite accessType subwarp = .ok [] := by
    intro subwarp hmem
    have hnone : ∀ thread ∈ cfg.subwarpThreads subwarp, thread ∉ inst.activeMask := by
      intro thread hthread hactive
      obtain ⟨hpos, hpart⟩ := mem_subwarpThreads_iff.mp hthread
      exact h thread ⟨hactive, lt_warpSize_of_part hpos hpart (List.mem_range.mp hmem)⟩
    rw [atomicSubwarp, foldlM_atomicThread_of_inactive hnone]
    rfl
  rw [memoryCoalescingArchAtomic, if_neg (not_not.mpr hspace), if_neg hparts,
    Math.mapM_eq_ok_map hsubwarp]
  refine congrArg Except.ok (List.flatten_eq_nil_iff.mpr fun accesses hmem => ?_)
  obtain ⟨subwarp, -, rfl⟩ := List.mem_map.mp hmem
  rfl

theorem atomicWhole_of_accesses {isWrite : Bool} {accessType : Cache.MemAccessType}
    {accesses : List WarpAccess} (hin : inst.InSegments cfg)
    (hok : memoryCoalescingArchAtomic cfg inst isWrite accessType = .ok accesses)
    (h : AtomicAccesses cfg inst accesses)
    (hround : Math.IsFirstFit (inst.actives cfg) (inst.Collides cfg) round)
    (hactive : inst.IsActive cfg thread) : AtomicWhole cfg inst round thread := by
  have hpos := inst.dataSize_pos
  have hspace : inst.space = .globalSpace := by
    by_contra hspace
    rw [memoryCoalescingArchAtomic, if_pos hspace] at hok
    exact nomatch hok
  have hparts : cfg.memWarpParts ≠ 0 := by
    intro hzero
    rw [memoryCoalescingArchAtomic, if_neg (not_not.mpr hspace), if_pos hzero] at hok
    exact nomatch hok
  have hdata : inst.dataSize ∈ [1, 2, 4, 8, 16] := by
    obtain ⟨access, hmem, hthread⟩ := h.found thread hactive
    have hhas := (h.serves access hmem thread hthread _
      ⟨le_rfl, Nat.lt_add_of_pos_right hpos⟩).has
    refine dataSize_of_atomic hok hmem fun hzero => ?_
    rw [WarpAccess.Has, hzero] at hhas
    omega
  have hsize : IsAccessSize (inst.segmentSize cfg) := isAccessSize_segmentSize hdata
  have hsent := fun {round : Fin 32 → ℕ}
      (hround : Math.IsFirstFit (inst.actives cfg) (inst.LowCollides cfg) round) =>
    memoryCoalescingArchAtomic_sent isWrite accessType hspace hparts hsize hin hround
  -- what is served has an address of 32 bits, whatever the rounds are
  have hrange : ∀ other, inst.IsActive cfg other →
      other.val < cfg.subwarpSize * cfg.memWarpParts ∧
        (inst.firstAddr other).toNat + inst.dataSize ≤ 2 ^ 32 := by
    intro other hother
    obtain ⟨low, hlow⟩ := Math.exists_isFirstFit (inst.actives cfg) (inst.LowCollides cfg)
    obtain ⟨accesses', hok', -, -, hat⟩ := hsent hlow
    rw [hok] at hok'
    cases hok'
    obtain ⟨access, hmem, hmask⟩ := h.found other hother
    obtain ⟨subwarp, hlt, block, k, hat⟩ := hat access hmem
    obtain ⟨-, hsub, hpart⟩ :=
      (mem_activeOf_subwarpThreads hlt).mp ((hat.warpMask other).mp hmask).1
    have hlast := hat.lt other hmask ((inst.firstAddr other).toNat + inst.dataSize - 1)
      (h.serves access hmem other hmask _ ⟨by omega, by omega⟩)
    refine ⟨?_, by omega⟩
    rw [Nat.mul_comm, ← Nat.div_lt_iff_lt_mul hsub, hpart]
    exact hlt
  have hlow : ∀ other, inst.IsActive cfg other →
      low (inst.firstAddr other) = (inst.firstAddr other).toNat := by
    intro other hother
    have hle := (hrange other hother).2
    exact low_eq_of_lt (by omega)
  obtain ⟨accesses', hok', -, -, hat⟩ :=
    hsent (hround.congr (lowCollides_iff fun other hother => (hrange other hother).2))
  rw [hok] at hok'
  cases hok'
  obtain ⟨access, hmem, hmask⟩ := h.found thread hactive
  obtain ⟨subwarp, hlt, block, k, hat⟩ := hat access hmem
  have htouch : inst.Touched thread ((inst.firstAddr thread).toNat + inst.dataSize - 1) :=
    ⟨by omega, by omega⟩
  have hlowTouch : inst.LowTouched thread ((inst.firstAddr thread).toNat + inst.dataSize - 1) := by
    rw [WarpInst.LowTouched, hlow thread hactive]
    exact htouch
  obtain ⟨mate, hmate, hchunk⟩ :=
    (hat.serves_iff thread hmask _ hlowTouch).mp (h.serves access hmem thread hmask _ htouch)
  obtain ⟨hthread, -, hk⟩ := (hat.warpMask thread).mp hmask
  obtain ⟨hmate, -, hk'⟩ := (hat.warpMask mate).mp hmate
  obtain ⟨-, -, hpart⟩ := (mem_activeOf_subwarpThreads hlt).mp hthread
  obtain ⟨hmate, -, hpart'⟩ := (mem_activeOf_subwarpThreads hlt).mp hmate
  rw [hlow mate hmate] at hchunk
  exact ⟨(hrange thread hactive).1, hdata, (hrange thread hactive).2, mate, hmate,
    hpart'.trans hpart.symm, hk'.trans hk.symm, hchunk⟩

theorem accesses_of_atomicWhole (isWrite : Bool) (accessType : Cache.MemAccessType)
    (hspace : inst.space = .globalSpace) (hparts : cfg.memWarpParts ≠ 0)
    (hin : inst.InSegments cfg)
    (hround : Math.IsFirstFit (inst.actives cfg) (inst.Collides cfg) round)
    (h : ∀ thread, inst.IsActive cfg thread → AtomicWhole cfg inst round thread) :
    ∃ accesses, memoryCoalescingArchAtomic cfg inst isWrite accessType = .ok accesses ∧
      AtomicAccesses cfg inst accesses := by
  have hpos := inst.dataSize_pos
  by_cases hsome : ∃ thread, inst.IsActive cfg thread
  case neg =>
    have hnone : ∀ thread, ¬ inst.IsActive cfg thread := fun thread hactive =>
      hsome ⟨thread, hactive⟩
    refine ⟨[], memoryCoalescingArchAtomic_of_inactive isWrite accessType hspace hparts hnone,
      fun thread hactive => absurd hactive (hnone thread), .nil, ?_, ?_⟩
    · exact fun access hmem => absurd hmem List.not_mem_nil
    · exact fun access hmem => absurd hmem List.not_mem_nil
  obtain ⟨first, hfirst⟩ := hsome
  have hdata := (h first hfirst).size
  have hlen := hdata
  simp only [List.mem_cons, List.not_mem_nil, or_false] at hlen
  have hsize : IsAccessSize (inst.segmentSize cfg) := isAccessSize_segmentSize hdata
  have hlow : ∀ thread, inst.IsActive cfg thread →
      low (inst.firstAddr thread) = (inst.firstAddr thread).toNat := by
    intro thread hactive
    have hle := (h thread hactive).inRange
    exact low_eq_of_lt (by omega)
  have htouched : ∀ thread, inst.IsActive cfg thread → ∀ x,
      inst.Touched thread x ↔ inst.LowTouched thread x := by
    intro thread hactive x
    rw [WarpInst.Touched, WarpInst.LowTouched, hlow thread hactive]
  obtain ⟨accesses, hok, honce, hfound, hat⟩ := memoryCoalescingArchAtomic_sent isWrite accessType
    hspace hparts hsize hin
    (hround.congr (lowCollides_iff fun thread hactive => (h thread hactive).inRange))
  refine ⟨accesses, hok, fun thread hactive => hfound thread hactive (h thread hactive).part,
    honce, ?_, ?_⟩
  · rintro access hmem thread hthread other hother hne x ⟨htouch, htouch'⟩
    obtain ⟨subwarp, hlt, block, k, hat⟩ := hat access hmem
    obtain ⟨hthread, -, hk⟩ := (hat.warpMask thread).mp hthread
    obtain ⟨hother, -, hk'⟩ := (hat.warpMask other).mp hother
    obtain ⟨hthread, -, hpart⟩ := (mem_activeOf_subwarpThreads hlt).mp hthread
    obtain ⟨hother, -, hpart'⟩ := (mem_activeOf_subwarpThreads hlt).mp hother
    rcases lt_or_gt_of_ne hne with hlt | hlt
    · exact hround.not_conflict (mem_actives.mpr hother) (mem_actives.mpr hthread) hlt
        (hk.trans hk'.symm) ⟨hpart.trans hpart'.symm, x, htouch, htouch'⟩
    · exact hround.not_conflict (mem_actives.mpr hthread) (mem_actives.mpr hother) hlt
        (hk'.trans hk.symm) ⟨hpart'.trans hpart.symm, x, htouch', htouch⟩
  · intro access hmem thread hthread x htouch
    obtain ⟨subwarp, hlt, block, k, hat⟩ := hat access hmem
    obtain ⟨hvisited, hblock, hk⟩ := (hat.warpMask thread).mp hthread
    obtain ⟨hactive, hsub, hpart⟩ := (mem_activeOf_subwarpThreads hlt).mp hvisited
    refine (hat.serves_iff thread hthread x ((htouched thread hactive x).mp htouch)).mpr ?_
    obtain ⟨hle, hlt'⟩ := htouch
    have hsame := hin thread hactive
    rcases div_eq_or (.inl rfl) hle (show x ≤ _ by exact Nat.le_sub_one_of_lt hlt') (by omega)
      with hx | hx
    · exact ⟨thread, hthread, by rw [hlow thread hactive, hx]⟩
    · obtain ⟨mate, hmate, hpart', hround', hchunk⟩ := (h thread hactive).chunk
      refine ⟨mate, (hat.warpMask mate).mpr ⟨?_, ?_, hround'.trans hk⟩, ?_⟩
      · exact (mem_activeOf_subwarpThreads hlt).mpr ⟨hmate, hsub, hpart'.trans hpart⟩
      · rw [← hblock, segmentOf_eq_iff hsize, hlow mate hmate, hlow thread hactive, hsame]
        exact div_eq_of_chunk hsize hchunk
      · rw [hlow mate hmate, hchunk, hx]

end Warp

/-- An atomic has every active thread in one access, which has all its bytes and those of no
thread that touches them too, exactly when each access has what it needs. -/
theorem memoryCoalescingArchAtomic_iff (cfg : CoreConfig) (inst : WarpInst) (isWrite : Bool)
    (accessType : Cache.MemAccessType) (hspace : inst.space = .globalSpace)
    (hin : inst.InSegments cfg) :
    (∃ accesses, memoryCoalescingArchAtomic cfg inst isWrite accessType = .ok accesses ∧
      AtomicAccesses cfg inst accesses) ↔
      cfg.memWarpParts ≠ 0 ∧
        ∀ round, Math.IsFirstFit (inst.actives cfg) (inst.Collides cfg) round →
          ∀ thread, inst.IsActive cfg thread → AtomicWhole cfg inst round thread := by
  constructor
  · rintro ⟨accesses, hok, h⟩
    refine ⟨fun hzero => ?_, fun round hround thread hactive =>
      atomicWhole_of_accesses hin hok h hround hactive⟩
    rw [memoryCoalescingArchAtomic, if_neg (not_not.mpr hspace), if_pos hzero] at hok
    exact nomatch hok
  · rintro ⟨hparts, h⟩
    obtain ⟨round, hround⟩ := Math.exists_isFirstFit (inst.actives cfg) (inst.Collides cfg)
    exact accesses_of_atomicWhole isWrite accessType hspace hparts hin hround (h round hround)

/-- Two threads that update one word. -/
def sameWordAtomic : WarpInst :=
  { splitLoad with
    activeMask := {0, 1}
    request := fun _ => ⟨[64], List.cons_ne_nil _ _, by decide⟩ }

theorem inSegments_sameWordAtomic : sameWordAtomic.InSegments sectorCore := by
  intro thread _
  have haddr : sameWordAtomic.firstAddr thread = 64 := rfl
  rw [haddr]
  decide

/-- The threads that update one word have an access each. -/
theorem memoryCoalescingArchAtomic_sameWord :
    ∃ accesses, memoryCoalescingArchAtomic sectorCore sameWordAtomic true .globalAccW =
      .ok accesses ∧ AtomicAccesses sectorCore sameWordAtomic accesses := by
  refine (memoryCoalescingArchAtomic_iff sectorCore sameWordAtomic true .globalAccW rfl
    inSegments_sameWordAtomic).mpr ⟨by decide, fun round hround thread hactive => ?_⟩
  have haddr : sameWordAtomic.firstAddr thread = 64 := rfl
  refine ⟨hactive.2.trans_le (by decide), by decide, ?_, thread, hactive, rfl, rfl, ?_⟩
  · rw [haddr]
    decide
  · rw [haddr]
    decide

/-- A core with segments of 128 bytes. -/
def segmentCore : CoreConfig := { sectorCore with gpgpuCoalesceArch := 13 }

theorem inSegments_splitLoad : splitLoad.InSegments segmentCore := by
  intro thread _
  have haddr : splitLoad.firstAddr thread = 30 := rfl
  rw [haddr]
  decide

/-- The segment of the bytes 30 to 33 is sent as its first 32 bytes. -/
theorem not_memoryCoalescingArchAtomic :
    ¬ ∀ (cfg : CoreConfig) (inst : WarpInst) (isWrite : Bool) (accessType : Cache.MemAccessType),
      inst.space = .globalSpace → inst.InSegments cfg →
        ∃ accesses, memoryCoalescingArchAtomic cfg inst isWrite accessType = .ok accesses ∧
          AtomicAccesses cfg inst accesses := by
  intro hall
  obtain ⟨accesses, hok, h⟩ :=
    hall segmentCore splitLoad true .globalAccW rfl inSegments_splitLoad
  have heq : memoryCoalescingArchAtomic segmentCore splitLoad true .globalAccW =
      .ok [{ type := .globalAccW, addr := 0, reqSize := 32, write := true,
             byteMask := {33, 32, 31, 30}, sectorMask := {0}, warpMask := {0} }] := by
    rfl
  rw [hok] at heq
  cases heq
  have hserves := h.serves _ List.mem_cons_self 0 (by decide) 32 ⟨by decide, by decide⟩
  exact absurd hserves.has.2 (by decide)

end GpuCalorie.Coalescer
