/-
# What the accesses of a warp cover

A warp is served when every byte an active thread touches lies in an access that names the
thread, the byte and its chunk, and every access is aligned to its size. The accesses are
described by the marks the threads leave in the transactions: the address of each access,
and its last byte where this lies in another segment. From there on an access serves its
whole size, but only inside the segment, and only chunks with a mark are sent. Hence a
warp is served exactly when accesses that cross a chunk find the rest of their bytes
marked by threads of the same part of the warp.
-/

import GpuCalorie.Coalescer.Reduce

namespace GpuCalorie.Coalescer

variable {cfg : CoreConfig} {inst : WarpInst}

/-! ## Warps that are served -/

/-- The access carries the byte `x` for a thread. -/
structure WarpAccess.Serves (access : WarpAccess) (thread : Fin 32) (x : ℕ) : Prop where
  has : access.Has x
  warp : thread ∈ access.warpMask
  byte : byteOf x ∈ access.byteMask
  sector : sectorOf x ∈ access.sectorMask

/-- An active thread of the warp accesses the bytes from `addr` on. -/
structure WarpInst.Accesses (inst : WarpInst) (cfg : CoreConfig) (thread : Fin 32) (addr : Addr) :
    Prop where
  active : thread ∈ inst.activeMask
  lt : thread.val < cfg.warpSize
  mem : addr ∈ (inst.request thread).val

/-- Every byte that is touched is in an access, and the accesses are aligned. -/
structure Served (cfg : CoreConfig) (inst : WarpInst) (accesses : List WarpAccess) : Prop where
  serves : ∀ thread addr, inst.Accesses cfg thread addr →
    ∀ x, addr.toNat ≤ x → x < addr.toNat + inst.dataSizeCoales →
      ∃ access ∈ accesses, access.Serves thread x
  aligned : ∀ access ∈ accesses, access.Aligned

/-! ## Marks -/

/-- The addresses a thread marks for an address it accesses. -/
def marksOf (segment size : ℕ) (addr : Addr) : List Addr :=
  let last := addr + .ofNat 64 size - 1
  if lineSizeBasedTagFunc addr (.ofNat 64 segment) ≠ lineSizeBasedTagFunc last (.ofNat 64 segment)
  then [addr, last]
  else [addr]

/-- The marks of a thread. -/
def threadMarks (cfg : CoreConfig) (inst : WarpInst) (thread : Fin 32) : List (Fin 32 × Addr) :=
  if thread ∉ inst.activeMask then []
  else (inst.visited thread).flatMap fun addr =>
    (marksOf (inst.segmentSize cfg) inst.dataSizeCoales addr).map (thread, ·)

/-- The marks of the threads of a part of the warp. -/
def subwarpMarks (cfg : CoreConfig) (inst : WarpInst) (subwarp : ℕ) : List (Fin 32 × Addr) :=
  (cfg.subwarpThreads subwarp).flatMap (threadMarks cfg inst)

/-- The transactions with marks put into them. -/
def mark (segment size : ℕ) : List (Fin 32 × Addr) → Transactions → Transactions :=
  Math.group (fun m => lineSizeBasedTagFunc m.2 (.ofNat 64 segment))
    (fun m => TransactionInfo.touch m.1 m.2 size)

theorem touchAddr_eq_mark (segment size : ℕ) (thread : Fin 32) (m : Transactions) (addr : Addr) :
    touchAddr segment size thread m addr =
      mark segment size ((marksOf segment size addr).map (thread, ·)) m := by
  rw [touchAddr, marksOf]
  split <;> rfl

theorem foldl_touchAddr (segment size : ℕ) (thread : Fin 32) (addrs : List Addr)
    (m : Transactions) :
    addrs.foldl (touchAddr segment size thread) m =
      mark segment size
        (addrs.flatMap fun addr => (marksOf segment size addr).map (thread, ·)) m := by
  induction addrs generalizing m with
  | nil => rfl
  | cons addr addrs ih =>
      rw [List.foldl_cons, ih, touchAddr_eq_mark, List.flatMap_cons, mark, Math.group_append]

theorem touchThread_eq_mark (h : inst.numAccesses ≤ maxAccessesPerInsnPerThread) (m : Transactions)
    (thread : Fin 32) :
    touchThread cfg inst m thread =
      .ok (mark (inst.segmentSize cfg) inst.dataSizeCoales (threadMarks cfg inst thread) m) := by
  rw [touchThread, threadMarks, if_pos h]
  split
  · rfl
  · rw [foldl_touchAddr]

theorem subwarpTransactions_eq_mark (h : inst.numAccesses ≤ maxAccessesPerInsnPerThread)
    (subwarp : ℕ) :
    subwarpTransactions cfg inst subwarp =
      .ok (mark (inst.segmentSize cfg) inst.dataSizeCoales (subwarpMarks cfg inst subwarp) ∅) := by
  have hall : ∀ (threads : List (Fin 32)) (m : Transactions),
      threads.foldlM (touchThread cfg inst) m =
        .ok (mark (inst.segmentSize cfg) inst.dataSizeCoales
          (threads.flatMap (threadMarks cfg inst)) m) := by
    intro threads
    induction threads with
    | nil => exact fun m => rfl
    | cons thread threads ih =>
        intro m
        rw [List.foldlM_cons, touchThread_eq_mark h, List.flatMap_cons, mark, Math.group_append]
        exact ih _
  exact hall _ ∅

section Transaction

variable {segment size : ℕ} {marks : List (Fin 32 × Addr)} {addr : Addr} {info : TransactionInfo}

theorem tag_eq_iff (hsize : IsAccessSize segment) (a : Addr) :
    lineSizeBasedTagFunc a (.ofNat 64 segment) = addr ↔
      low a / segment * segment = addr.toNat := by
  rw [← BitVec.toNat_inj, toNat_tag hsize]

theorem mark_iff {P : TransactionInfo → Prop} {Q : Fin 32 × Addr → Prop}
    (hsize : IsAccessSize segment) (hadd : ∀ m info, P (.touch m.1 m.2 size info) ↔ P info ∨ Q m)
    (hempty : ¬ P default) (h : (mark segment size marks ∅)[addr]? = some info) :
    P info ↔ ∃ m ∈ marks, low m.2 / segment * segment = addr.toNat ∧ Q m := by
  have hgroup : Math.HasAt P (mark segment size marks ∅) addr ↔ _ := Math.hasAt_group hadd
  have hhas : Math.HasAt P (mark segment size marks ∅) addr ↔ P info := by
    rw [Math.HasAt, h]
    rfl
  have hnone : ¬ Math.HasAt P (∅ : Transactions) addr := by
    rw [Math.HasAt, Std.TreeMap.getElem?_emptyc]
    exact hempty
  simp only [tag_eq_iff hsize] at hgroup
  rw [← hhas, hgroup, or_iff_right hnone]

/-- What the marks in its segment make of a transaction. -/
structure Marked (segment size : ℕ) (marks : List (Fin 32 × Addr)) (addr : Addr)
    (info : TransactionInfo) : Prop where
  active : ∀ thread, thread ∈ info.active ↔
    ∃ m ∈ marks, low m.2 / segment * segment = addr.toNat ∧ m.1 = thread
  chunks : ∀ c, c ∈ info.chunks ↔
    ∃ m ∈ marks, low m.2 / segment * segment = addr.toNat ∧ chunk m.2 = c
  bytes : ∀ byte, byte ∈ info.bytes ↔
    ∃ m ∈ marks, low m.2 / segment * segment = addr.toNat ∧ byte ∈ byteRange (offset m.2) size

theorem marked_of_mark (hsize : IsAccessSize segment)
    (h : (mark segment size marks ∅)[addr]? = some info) : Marked segment size marks addr info where
  active thread := mark_iff hsize (P := fun info => thread ∈ info.active)
    (fun m info => by rw [TransactionInfo.touch, Finset.mem_insert, or_comm, eq_comm])
    (Finset.notMem_empty thread) h
  chunks c := mark_iff hsize (P := fun info => c ∈ info.chunks)
    (fun m info => by rw [TransactionInfo.touch, Finset.mem_insert, or_comm, eq_comm])
    (Finset.notMem_empty c) h
  bytes byte := mark_iff hsize (P := fun info => byte ∈ info.bytes)
    (fun m info => by rw [TransactionInfo.touch, Finset.mem_union])
    (Finset.notMem_empty byte) h

theorem isSome_mark (hsize : IsAccessSize segment) :
    (mark segment size marks ∅)[addr]?.isSome ↔
      ∃ m ∈ marks, low m.2 / segment * segment = addr.toNat := by
  have hgroup : (mark segment size marks ∅)[addr]?.isSome ↔ _ := Math.isSome_group
  simp only [tag_eq_iff hsize, Std.TreeMap.getElem?_emptyc, Option.isSome_none, Bool.false_eq_true,
    false_or] at hgroup
  exact hgroup

/-- The marks that a byte of a thread needs: one of the thread in the segment, one in the
segment that reaches the byte, and one in the chunk. -/
structure Carried (segment size : ℕ) (marks : List (Fin 32 × Addr)) (thread : Fin 32) (x : ℕ) :
    Prop where
  warp : ∃ m ∈ marks, m.1 = thread ∧ low m.2 / segment = x / segment
  byte : ∃ m ∈ marks, low m.2 / segment = x / segment ∧ low m.2 ≤ x ∧ x < low m.2 + size
  sector : ∃ m ∈ marks, low m.2 / 32 = x / 32

theorem carried_iff {thread : Fin 32} {x : ℕ} (hlow : ∀ m ∈ marks, low m.2 = m.2.toNat) :
    Carried segment size marks thread x ↔
      (∃ m ∈ marks, m.1 = thread ∧ m.2.toNat / segment = x / segment) ∧
        (∃ m ∈ marks, m.2.toNat / segment = x / segment ∧ m.2.toNat ≤ x ∧
          x < m.2.toNat + size) ∧
        ∃ m ∈ marks, m.2.toNat / 32 = x / 32 := by
  constructor
  · rintro ⟨⟨m, hm, hwarp⟩, ⟨m', hm', hbyte⟩, m'', hm'', hsector⟩
    rw [hlow m hm] at hwarp
    rw [hlow m' hm'] at hbyte
    rw [hlow m'' hm''] at hsector
    exact ⟨⟨m, hm, hwarp⟩, ⟨m', hm', hbyte⟩, m'', hm'', hsector⟩
  · rintro ⟨⟨m, hm, hwarp⟩, ⟨m', hm', hbyte⟩, m'', hm'', hsector⟩
    rw [← hlow m hm] at hwarp
    rw [← hlow m' hm'] at hbyte
    rw [← hlow m'' hm''] at hsector
    exact ⟨⟨m, hm, hwarp⟩, ⟨m', hm', hbyte⟩, m'', hm'', hsector⟩

section

variable (hsize : IsAccessSize segment)
include hsize

theorem start_eq_iff {start x : ℕ} (hdvd : segment ∣ start) :
    x / segment * segment = start ↔ start ≤ x ∧ x < start + segment := by
  rcases hsize with rfl | rfl | rfl <;> omega

theorem div_eq_iff_start (x y : ℕ) :
    x / segment * segment = y / segment * segment ↔ x / segment = y / segment := by
  rcases hsize with rfl | rfl | rfl <;> omega

theorem byteOf_mem_iff {a : Addr} {x : ℕ} (h : low a / segment = x / segment) :
    byteOf x ∈ byteRange (offset a) size ↔ low a ≤ x ∧ x < low a + size := by
  rw [mem_byteRange, offset_eq, byteOf, Fin.val_ofNat, ← low_mod]
  rcases hsize with rfl | rfl | rfl <;> omega

theorem chunk_eq_iff {a : Addr} {x : ℕ} :
    (low a / segment = x / segment ∧ chunk a = sectorOf x) ↔ low a / 32 = x / 32 := by
  rw [chunk_eq_sectorOf, sectorOf_eq_iff, ← low_mod]
  rcases hsize with rfl | rfl | rfl <;> omega

theorem Sent.serves_iff (hdvd : segment ∣ addr.toNat)
    {access : WarpAccess} (hsent : Sent addr.toNat segment info access)
    (hmarked : Marked segment size marks addr info) (thread : Fin 32) (x : ℕ) :
    access.Serves thread x ↔
      x / segment * segment = addr.toNat ∧ Carried segment size marks thread x := by
  constructor
  · intro h
    have hstart : x / segment * segment = addr.toNat :=
      (start_eq_iff hsize hdvd).mpr
        ⟨hsent.part.le.trans h.has.1, h.has.2.trans_le hsent.part.add_le⟩
    have hwarp := h.warp
    have hbyte := h.byte
    have hsector := h.sector
    rw [hsent.warpMask, hmarked.active] at hwarp
    rw [hsent.byteMask, hmarked.bytes] at hbyte
    rw [hsent.sectorMask, hmarked.chunks] at hsector
    simp only [← hstart, div_eq_iff_start hsize] at hwarp hbyte hsector
    refine ⟨hstart, ?_, ?_, ?_⟩
    · obtain ⟨m, hm, hseg, hthread⟩ := hwarp
      exact ⟨m, hm, hthread, hseg⟩
    · obtain ⟨m, hm, hseg, hin⟩ := hbyte
      exact ⟨m, hm, hseg, (byteOf_mem_iff hsize hseg).mp hin⟩
    · obtain ⟨m, hm, hseg, hchunk⟩ := hsector
      exact ⟨m, hm, (chunk_eq_iff hsize).mp ⟨hseg, hchunk⟩⟩
  · rintro ⟨hstart, hcarried⟩
    have hsector : sectorOf x ∈ info.chunks := by
      obtain ⟨m, hm, hchunk⟩ := hcarried.sector
      obtain ⟨hseg, hchunk⟩ := (chunk_eq_iff hsize).mpr hchunk
      rw [hmarked.chunks]
      exact ⟨m, hm, by rw [← hstart, div_eq_iff_start hsize, hseg], hchunk⟩
    obtain ⟨hle, hlt⟩ := (start_eq_iff hsize hdvd).mp hstart
    refine ⟨hsent.part.has x hle hlt hsector, ?_, ?_, ?_⟩
    · obtain ⟨m, hm, hthread, hseg⟩ := hcarried.warp
      rw [hsent.warpMask, hmarked.active]
      exact ⟨m, hm, by rw [← hstart, div_eq_iff_start hsize, hseg], hthread⟩
    · obtain ⟨m, hm, hseg, hin⟩ := hcarried.byte
      rw [hsent.byteMask, hmarked.bytes]
      exact ⟨m, hm, by rw [← hstart, div_eq_iff_start hsize, hseg],
        (byteOf_mem_iff hsize hseg).mpr hin⟩
    · rw [hsent.sectorMask]
      exact hsector

end

theorem reduceAndSend_of_mark (isWrite : Bool) (accessType : Cache.MemAccessType)
    (hsize : IsAccessSize segment)
    (h : (mark segment size marks ∅)[addr]? = some info) :
    ∃ access, memoryCoalescingArchReduceAndSend isWrite accessType segment (addr, info) =
      .ok access ∧ access.Aligned ∧ ∀ thread x, access.Serves thread x ↔
        x / segment * segment = addr.toNat ∧ Carried segment size marks thread x := by
  have hmarked := marked_of_mark hsize h
  have hsome : (mark segment size marks ∅)[addr]?.isSome := by
    rw [h]
    rfl
  obtain ⟨m, hm, hseg⟩ := (isSome_mark hsize).mp hsome
  have hdvd : segment ∣ addr.toNat := ⟨_, (hseg.symm.trans (Nat.mul_comm _ _))⟩
  obtain ⟨hle, hlt⟩ := (start_eq_iff hsize hdvd).mp hseg
  have hchunk : sectorOf (low m.2) ∈ info.chunks := by
    refine (hmarked.chunks _).mpr ⟨m, hm, hseg, ?_⟩
    rw [chunk_eq_sectorOf, sectorOf_eq_iff, low_mod]
  obtain ⟨access, hok, hsent⟩ := reduceAndSend_sent isWrite accessType hsize hdvd
    ⟨low m.2, hle, hlt, hchunk⟩
  exact ⟨access, hok, ⟨hsent.part.size, hsent.part.dvd⟩, hsent.serves_iff hsize hdvd hmarked⟩

end Transaction

/-! ## Accesses of the warp -/

theorem coalesceSubwarp_carries (isWrite : Bool) (accessType : Cache.MemAccessType)
    (hnum : inst.numAccesses ≤ maxAccessesPerInsnPerThread)
    (hsize : IsAccessSize (inst.segmentSize cfg)) (subwarp : ℕ) :
    ∃ accesses, coalesceSubwarp cfg inst isWrite accessType subwarp = .ok accesses ∧
      (∀ access ∈ accesses, access.Aligned) ∧
      ∀ thread x, (∃ access ∈ accesses, access.Serves thread x) ↔
        Carried (inst.segmentSize cfg) inst.dataSizeCoales (subwarpMarks cfg inst subwarp)
          thread x := by
  have hsend : ∀ entry ∈
      (mark (inst.segmentSize cfg) inst.dataSizeCoales (subwarpMarks cfg inst subwarp) ∅).toList,
      ∃ access, memoryCoalescingArchReduceAndSend isWrite accessType (inst.segmentSize cfg) entry =
        .ok access ∧ access.Aligned ∧ ∀ thread x, access.Serves thread x ↔
          x / inst.segmentSize cfg * inst.segmentSize cfg = entry.1.toNat ∧
            Carried (inst.segmentSize cfg) inst.dataSizeCoales (subwarpMarks cfg inst subwarp)
              thread x :=
    fun entry hmem =>
      reduceAndSend_of_mark isWrite accessType hsize
        (Std.TreeMap.mem_toList_iff_getElem?_eq_some.mp hmem)
  obtain ⟨accesses, hok, hto, hfrom⟩ := Math.exists_mapM_eq_ok hsend
  refine ⟨accesses, ?_, ?_, ?_⟩
  · rw [coalesceSubwarp, subwarpTransactions_eq_mark hnum]
    exact hok
  · intro access hmem
    obtain ⟨entry, -, haligned, -⟩ := hfrom access hmem
    exact haligned
  · intro thread x
    constructor
    · rintro ⟨access, hmem, hserves⟩
      obtain ⟨entry, -, -, hiff⟩ := hfrom access hmem
      exact ((hiff thread x).mp hserves).2
    · intro hcarried
      obtain ⟨m, hm, -, hseg⟩ := hcarried.warp
      have hstart : low m.2 / inst.segmentSize cfg * inst.segmentSize cfg =
          (lineSizeBasedTagFunc m.2 (.ofNat 64 (inst.segmentSize cfg))).toNat :=
        (toNat_tag hsize m.2).symm
      obtain ⟨info, hinfo⟩ := Option.isSome_iff_exists.mp ((isSome_mark hsize).mpr ⟨m, hm, hstart⟩)
      obtain ⟨access, hmem, -, hiff⟩ :=
        hto _ (Std.TreeMap.mem_toList_iff_getElem?_eq_some.mpr hinfo)
      exact ⟨access, hmem, (hiff thread x).mpr ⟨by rw [← hseg, hstart], hcarried⟩⟩

theorem memoryCoalescingArch_carries (isWrite : Bool) (accessType : Cache.MemAccessType)
    (hparts : cfg.memWarpParts ≠ 0)
    (hnum : inst.numAccesses ≤ maxAccessesPerInsnPerThread)
    (hsize : IsAccessSize (inst.segmentSize cfg)) :
    ∃ accesses, memoryCoalescingArch cfg inst isWrite accessType = .ok accesses ∧
      (∀ access ∈ accesses, access.Aligned) ∧
      ∀ thread x, (∃ access ∈ accesses, access.Serves thread x) ↔
        ∃ subwarp < cfg.memWarpParts, Carried (inst.segmentSize cfg) inst.dataSizeCoales
          (subwarpMarks cfg inst subwarp) thread x := by
  have hsubwarp : ∀ subwarp ∈ List.range cfg.memWarpParts, _ := fun subwarp _ =>
    coalesceSubwarp_carries isWrite accessType hnum hsize subwarp
  obtain ⟨parts, hok, hto, hfrom⟩ := Math.exists_mapM_eq_ok hsubwarp
  refine ⟨parts.flatten, ?_, ?_, ?_⟩
  · rw [memoryCoalescingArch, if_neg hparts, hok]
    rfl
  · intro access hmem
    obtain ⟨accesses, hpart, hmem⟩ := List.mem_flatten.mp hmem
    obtain ⟨subwarp, -, haligned, -⟩ := hfrom accesses hpart
    exact haligned access hmem
  · intro thread x
    constructor
    · rintro ⟨access, hmem, hserves⟩
      obtain ⟨accesses, hpart, hmem⟩ := List.mem_flatten.mp hmem
      obtain ⟨subwarp, hlt, -, hiff⟩ := hfrom accesses hpart
      exact ⟨subwarp, List.mem_range.mp hlt, (hiff thread x).mp ⟨access, hmem, hserves⟩⟩
    · rintro ⟨subwarp, hlt, hcarried⟩
      obtain ⟨accesses, hpart, -, hiff⟩ := hto subwarp (List.mem_range.mpr hlt)
      obtain ⟨access, hmem, hserves⟩ := (hiff thread x).mpr hcarried
      exact ⟨access, List.mem_flatten.mpr ⟨accesses, hpart, hmem⟩, hserves⟩

end GpuCalorie.Coalescer
