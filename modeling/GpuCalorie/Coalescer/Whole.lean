/-
# Accesses that reach memory whole

An access inside one chunk is served by its own mark. One that crosses into another chunk
of its segment needs a mark there, which only an access of another thread can leave; one
that crosses into another segment marks that segment at its last byte, so that the bytes
before it are served only when some access of the part of the warp marks the first of
them. With addresses other than 0, which end the list of a thread, and one of the data
sizes the segments are made for, this is exactly when a warp is served.
-/

import Mathlib.Data.List.GetD
import Mathlib.Data.List.TakeWhile
import GpuCalorie.Coalescer.Coverage

namespace GpuCalorie.Coalescer

variable {cfg : CoreConfig} {inst : WarpInst} {subwarp : ℕ} {thread : Fin 32} {m : Fin 32 × Addr}
  {addr : Addr}

/-! ## Marks of accesses -/

theorem takeWhile_append_replicate (addrs : List Addr) (n : ℕ) :
    (addrs ++ List.replicate n 0).takeWhile (· ≠ 0) = addrs.takeWhile (· ≠ 0) := by
  induction addrs with
  | nil =>
      cases n with
      | zero => rfl
      | succ n => rfl
  | cons addr addrs ih =>
      rw [List.cons_append, List.takeWhile_cons, List.takeWhile_cons, ih]

theorem visited_eq (thread : Fin 32) :
    inst.visited thread = (inst.request thread).val.takeWhile (· ≠ 0) := by
  have hlen := (inst.request thread).property.2
  have hall : (List.range maxAccessesPerInsnPerThread).map (inst.memreqaddr thread) =
      (inst.request thread).val ++
        List.replicate (maxAccessesPerInsnPerThread - (inst.request thread).val.length) 0 := by
    refine List.ext_getElem ?_ fun access h h' => ?_
    · simp only [List.length_map, List.length_range, List.length_append, List.length_replicate]
      omega
    · rw [List.getElem_map, List.getElem_range, WarpInst.memreqaddr]
      by_cases hlt : access < (inst.request thread).val.length
      · rw [List.getElem_append_left hlt, List.getD_eq_getElem _ _ hlt]
      · rw [List.getElem_append_right (by omega), List.getElem_replicate,
          List.getD_eq_default _ _ (by omega)]
  rw [WarpInst.visited, hall, takeWhile_append_replicate]

theorem mem_visited (h : addr ∈ inst.visited thread) :
    addr ∈ (inst.request thread).val ∧ addr ≠ 0 := by
  rw [visited_eq] at h
  exact ⟨List.takeWhile_subset _ h, by simpa using List.mem_takeWhile_imp h⟩

theorem visited_of_ne_zero (h : ∀ addr ∈ (inst.request thread).val, addr ≠ 0) :
    inst.visited thread = (inst.request thread).val := by
  rw [visited_eq, List.takeWhile_eq_self_iff]
  simpa using h

theorem mem_subwarpThreads : thread ∈ cfg.subwarpThreads subwarp ↔
      subwarp * cfg.subwarpSize ≤ thread.val ∧ thread.val < cfg.subwarpSize * (subwarp + 1) := by
  simp [CoreConfig.subwarpThreads]

theorem mem_subwarpMarks : m ∈ subwarpMarks cfg inst subwarp ↔
      m.1 ∈ cfg.subwarpThreads subwarp ∧ m.1 ∈ inst.activeMask ∧
        ∃ addr ∈ inst.visited m.1,
          m.2 ∈ marksOf (inst.segmentSize cfg) inst.dataSizeCoales addr := by
  obtain ⟨thread, mark⟩ := m
  rw [subwarpMarks, List.mem_flatMap]
  constructor
  · rintro ⟨thread', hthread, hmem⟩
    rw [threadMarks] at hmem
    split at hmem
    · exact absurd hmem List.not_mem_nil
    · rename_i hactive
      obtain ⟨addr, haddr, hmem⟩ := List.mem_flatMap.mp hmem
      obtain ⟨mark', hmark, heq⟩ := List.mem_map.mp hmem
      cases heq
      exact ⟨hthread, not_not.mp hactive, addr, haddr, hmark⟩
  · rintro ⟨hthread, hactive, addr, haddr, hmark⟩
    refine ⟨thread, hthread, ?_⟩
    rw [threadMarks, if_neg (not_not.mpr hactive)]
    exact List.mem_flatMap.mpr ⟨addr, haddr, List.mem_map.mpr ⟨mark, hmark, rfl⟩⟩

theorem toNat_last {size : ℕ} (hpos : 0 < size) (hle : addr.toNat + size ≤ 2 ^ 32) :
    (addr + .ofNat 64 size - 1).toNat = addr.toNat + size - 1 := by
  rw [BitVec.toNat_sub, BitVec.toNat_add, BitVec.toNat_ofNat]
  have hone : (1 : Addr).toNat = 1 := rfl
  rw [hone]
  have hlt := addr.isLt
  omega

theorem mem_marksOf {segment size : ℕ} (hsize : IsAccessSize segment) (hpos : 0 < size)
    (hle : addr.toNat + size ≤ 2 ^ 32) {m : Addr} : m ∈ marksOf segment size addr ↔
      m = addr ∨ (addr.toNat / segment ≠ (addr.toNat + size - 1) / segment ∧
        m.toNat = addr.toNat + size - 1) := by
  have htag : lineSizeBasedTagFunc addr (.ofNat 64 segment) =
      lineSizeBasedTagFunc (addr + .ofNat 64 size - 1) (.ofNat 64 segment) ↔
        addr.toNat / segment = (addr.toNat + size - 1) / segment := by
    have hlast := toNat_last hpos hle
    rw [tag_eq_iff hsize, toNat_tag hsize, low_eq_of_lt (by omega), low_eq_of_lt (by omega), hlast,
      div_eq_iff_start hsize]
  have hmark : m = addr + .ofNat 64 size - 1 ↔ m.toNat = addr.toNat + size - 1 := by
    rw [← BitVec.toNat_inj, toNat_last hpos hle]
  rw [marksOf, ← hmark]
  split
  · rename_i hne
    rw [List.mem_pair]
    simp only [htag.not.mp hne, ne_eq, not_false_eq_true, true_and]
  · rename_i heq
    rw [List.mem_singleton]
    simp only [htag.mp (not_not.mp heq), ne_eq, not_true_eq_false, false_and, or_false]

/-! ## Accesses that are served whole -/

/-- An active thread of the same part of the warp accesses an address with a property. -/
def Mate (cfg : CoreConfig) (inst : WarpInst) (thread : Fin 32) (P : ℕ → Prop) : Prop :=
  ∃ mate ∈ inst.activeMask, mate.val / cfg.subwarpSize = thread.val / cfg.subwarpSize ∧
    ∃ addr ∈ (inst.request mate).val, P addr.toNat

/-- What an access of `size` bytes needs where it leaves its chunk. -/
inductive CrossingMarked (cfg : CoreConfig) (inst : WarpInst) (thread : Fin 32) (first last : ℕ) :
    Prop
  /-- It does not leave it. -/
  | chunk (h : first / 32 = last / 32)
  /-- It stays in its segment, and there is an access in the chunk it ends in. -/
  | segment (h : first / inst.segmentSize cfg = last / inst.segmentSize cfg)
      (mate : Mate cfg inst thread fun addr => addr / 32 = last / 32)
  /-- It crosses into another segment, and there is an access that begins at the first byte
  of this segment, or ends there. -/
  | boundary (h : first / inst.segmentSize cfg ≠ last / inst.segmentSize cfg)
      (mate : Mate cfg inst thread fun addr =>
        addr = last / inst.segmentSize cfg * inst.segmentSize cfg ∨
          addr + inst.dataSizeCoales = last / inst.segmentSize cfg * inst.segmentSize cfg + 1)

/-- What an access of a thread needs to be served whole. -/
structure Whole (cfg : CoreConfig) (inst : WarpInst) (thread : Fin 32) (addr : ℕ) : Prop where
  /-- The parts of the warp include the thread. -/
  part : thread.val < cfg.subwarpSize * cfg.memWarpParts
  /-- There are segments for the data size. -/
  size : inst.dataSize ∈ [1, 2, 4, 8, 16]
  /-- The address does not end the list of the thread. -/
  ne_zero : addr ≠ 0
  /-- The access ends in the addresses of 32 bits. -/
  inRange : addr + inst.dataSizeCoales ≤ 2 ^ 32
  crossing : CrossingMarked cfg inst thread addr (addr + inst.dataSizeCoales - 1)

theorem isAccessSize_segmentSize (h : inst.dataSize ∈ [1, 2, 4, 8, 16]) :
    IsAccessSize (inst.segmentSize cfg) := by
  rw [WarpInst.segmentSize]
  generalize inst.dataSize = size at h ⊢
  generalize sectorSegmentSize cfg inst.cacheOp = sector
  simp only [List.mem_cons, List.not_mem_nil, or_false] at h
  rcases h with rfl | rfl | rfl | rfl | rfl <;> cases sector <;> decide

theorem segmentSize_eq_zero (h : inst.dataSize ∉ [1, 2, 4, 8, 16]) : inst.segmentSize cfg = 0 := by
  simp only [List.mem_cons, List.not_mem_nil, or_false, not_or] at h
  obtain ⟨h1, h2, h4, h8, h16⟩ := h
  rw [WarpInst.segmentSize, segmentSize] <;> assumption

theorem dataSizeCoales_pos : 0 < inst.dataSizeCoales := by
  have := inst.dataSize_pos
  rw [WarpInst.dataSizeCoales]
  split <;> omega

theorem dataSizeCoales_le (h : inst.dataSize ∈ [1, 2, 4, 8, 16]) : inst.dataSizeCoales ≤ 16 := by
  simp only [List.mem_cons, List.not_mem_nil, or_false] at h
  rw [WarpInst.dataSizeCoales]
  split <;> omega

theorem numAccesses_le (h : inst.dataSize ∈ [1, 2, 4, 8, 16]) :
    inst.numAccesses ≤ maxAccessesPerInsnPerThread := by
  simp only [List.mem_cons, List.not_mem_nil, or_false] at h
  rw [WarpInst.numAccesses, maxAccessesPerInsnPerThread]
  split <;> omega

theorem mem_subwarpThreads_iff : thread ∈ cfg.subwarpThreads subwarp ↔
      0 < cfg.subwarpSize ∧ thread.val / cfg.subwarpSize = subwarp := by
  rw [mem_subwarpThreads]
  constructor
  · rintro ⟨hle, hlt⟩
    have hpos : 0 < cfg.subwarpSize := Nat.pos_of_mul_pos_right (Nat.zero_lt_of_lt hlt)
    exact ⟨hpos, Nat.div_eq_of_lt_le hle (by rwa [Nat.mul_comm])⟩
  · rintro ⟨hpos, rfl⟩
    exact ⟨Nat.div_mul_le_self _ _, Nat.lt_mul_div_succ _ hpos⟩

theorem subwarpSize_mul_le : cfg.subwarpSize * cfg.memWarpParts ≤ cfg.warpSize :=
  Nat.div_mul_le_self _ _

theorem lt_warpSize_of_part (hpos : 0 < cfg.subwarpSize)
    (hpart : thread.val / cfg.subwarpSize = subwarp) (hlt : subwarp < cfg.memWarpParts) :
    thread.val < cfg.warpSize := by
  refine lt_of_lt_of_le ?_ subwarpSize_mul_le
  rw [Nat.mul_comm, ← Nat.div_lt_iff_lt_mul hpos, hpart]
  exact hlt

section Clean

/-- No access of the warp is at address 0 or runs over the end of the addresses of 32 bits. -/
def Clean (cfg : CoreConfig) (inst : WarpInst) : Prop :=
  ∀ thread addr, inst.Accesses cfg thread addr →
    addr ≠ 0 ∧ addr.toNat + inst.dataSizeCoales ≤ 2 ^ 32

theorem Clean.mem_subwarpMarks (h : Clean cfg inst) (hsize : IsAccessSize (inst.segmentSize cfg))
    (hlt : subwarp < cfg.memWarpParts) : m ∈ subwarpMarks cfg inst subwarp ↔
      0 < cfg.subwarpSize ∧ m.1.val / cfg.subwarpSize = subwarp ∧ m.1 ∈ inst.activeMask ∧
        ∃ addr ∈ (inst.request m.1).val, m.2 = addr ∨
          (addr.toNat / inst.segmentSize cfg ≠
              (addr.toNat + inst.dataSizeCoales - 1) / inst.segmentSize cfg ∧
            m.2.toNat = addr.toNat + inst.dataSizeCoales - 1) := by
  rw [Coalescer.mem_subwarpMarks, mem_subwarpThreads_iff, and_assoc]
  refine and_congr_right fun hpos => and_congr_right fun hpart => and_congr_right fun hactive => ?_
  have hclean : ∀ addr ∈ (inst.request m.1).val, addr ≠ 0 ∧ _ :=
    fun addr hmem => h m.1 addr ⟨hactive, lt_warpSize_of_part hpos hpart hlt, hmem⟩
  rw [visited_of_ne_zero fun addr hmem => (hclean addr hmem).1]
  refine exists_congr fun addr => and_congr_right fun hmem => ?_
  exact mem_marksOf hsize dataSizeCoales_pos (hclean addr hmem).2

theorem Clean.low_mark (h : Clean cfg inst) (hsize : IsAccessSize (inst.segmentSize cfg))
    (hlt : subwarp < cfg.memWarpParts)
    (hm : m ∈ subwarpMarks cfg inst subwarp) : low m.2 = m.2.toNat := by
  obtain ⟨hpos, hpart, hactive, addr, hmem, heq⟩ := (h.mem_subwarpMarks hsize hlt).mp hm
  obtain ⟨-, hle⟩ := h m.1 addr ⟨hactive, lt_warpSize_of_part hpos hpart hlt, hmem⟩
  have hsize : 0 < inst.dataSizeCoales := dataSizeCoales_pos
  refine low_eq_of_lt ?_
  rcases heq with rfl | ⟨-, heq⟩
  · omega
  · omega

variable {thread : Fin 32} {addr : Addr}

theorem Clean.first_mem (h : Clean cfg inst) (hsize : IsAccessSize (inst.segmentSize cfg))
    (hlt : subwarp < cfg.memWarpParts) (hpos : 0 < cfg.subwarpSize)
    (hpart : thread.val / cfg.subwarpSize = subwarp) (hactive : thread ∈ inst.activeMask)
    (hmem : addr ∈ (inst.request thread).val) :
    (thread, addr) ∈ subwarpMarks cfg inst subwarp :=
  (h.mem_subwarpMarks hsize hlt).mpr ⟨hpos, hpart, hactive, addr, hmem, .inl rfl⟩

theorem Clean.last_mem (h : Clean cfg inst) (hsize : IsAccessSize (inst.segmentSize cfg))
    (hlt : subwarp < cfg.memWarpParts) (hpos : 0 < cfg.subwarpSize)
    (hpart : thread.val / cfg.subwarpSize = subwarp) (hactive : thread ∈ inst.activeMask)
    (hmem : addr ∈ (inst.request thread).val)
    (hle : addr.toNat + inst.dataSizeCoales ≤ 2 ^ 32)
    (hne : addr.toNat / inst.segmentSize cfg ≠
      (addr.toNat + inst.dataSizeCoales - 1) / inst.segmentSize cfg) :
    ∃ last : Addr, last.toNat = addr.toNat + inst.dataSizeCoales - 1 ∧
      (thread, last) ∈ subwarpMarks cfg inst subwarp := by
  have hpos' : 0 < inst.dataSizeCoales := dataSizeCoales_pos
  refine ⟨_, toNat_last hpos' hle, ?_⟩
  exact (h.mem_subwarpMarks hsize hlt).mpr
    ⟨hpos, hpart, hactive, addr, hmem, .inr ⟨hne, toNat_last hpos' hle⟩⟩

end Clean

/-! ## Bytes of an access that is not longer than a chunk -/

section Bytes

variable {segment first last x : ℕ} (hsize : IsAccessSize segment)
include hsize

theorem div_eq_or (hle : first ≤ x) (hle' : x ≤ last)
    (hlt : last < first + 32) : x / segment = first / segment ∨ x / segment = last / segment := by
  rcases hsize with rfl | rfl | rfl <;> omega

theorem div_eq_of_chunk (h : first / 32 = last / 32) : first / segment = last / segment := by
  rcases hsize with rfl | rfl | rfl <;> omega

theorem boundary_of_ne (hle : first ≤ last) (hne : first / segment ≠ last / segment) :
    first < last / segment * segment ∧ last / segment * segment ≤ last ∧
      last / segment * segment / segment = last / segment := by
  rcases hsize with rfl | rfl | rfl <;> omega

theorem boundary_le (h : x / segment = last / segment) : last / segment * segment ≤ x := by
  rcases hsize with rfl | rfl | rfl <;> omega

theorem chunk_eq_of_crossing (hle : first ≤ last)
    (hlt : last < first + 32) (hne : first / segment ≠ last / segment)
    (hx : x / segment = last / segment) (hle' : x ≤ last) : x / 32 = last / 32 := by
  rcases hsize with rfl | rfl | rfl <;> omega

theorem chunk_eq_before_crossing (hlt : last < first + 32)
    (hne : first / segment ≠ last / segment) (hx : x / segment = first / segment)
    (hle : first ≤ x) (hle' : x ≤ last) : x / 32 = first / 32 := by
  rcases hsize with rfl | rfl | rfl <;> omega

theorem ne_of_ends_at_boundary (h : x < last / segment * segment) :
    x / segment ≠ last / segment * segment / segment := by
  rcases hsize with rfl | rfl | rfl <;> omega

theorem chunk_ne_of_crossing {first' last' : ℕ}
    (hlt : last' < first' + 32) (hne : first' / segment ≠ last' / segment) (hle' : first' ≤ last')
    (hle : first ≤ last) (hseg : first / segment = last / segment)
    (hchunk : first / 32 ≠ last / 32) :
    last' / 32 ≠ last / 32 := by
  rcases hsize with rfl | rfl | rfl <;> omega

end Bytes

/-! ## Served warps -/

section Warp

variable {thread : Fin 32} {addr : Addr} {accessType : Cache.MemAccessType} {isWrite : Bool}

theorem part_of_lt (h : thread.val < cfg.subwarpSize * cfg.memWarpParts) :
    0 < cfg.subwarpSize ∧ thread.val / cfg.subwarpSize < cfg.memWarpParts := by
  have hpos : 0 < cfg.subwarpSize := Nat.pos_of_mul_pos_right (Nat.zero_lt_of_lt h)
  refine ⟨hpos, ?_⟩
  rw [Nat.div_lt_iff_lt_mul hpos, Nat.mul_comm]
  exact h

theorem Whole.carried (h : Whole cfg inst thread addr.toNat) (hclean : Clean cfg inst)
    (hacc : inst.Accesses cfg thread addr) {x : ℕ} (hle : addr.toNat ≤ x)
    (hlt : x < addr.toNat + inst.dataSizeCoales) :
    Carried (inst.segmentSize cfg) inst.dataSizeCoales
      (subwarpMarks cfg inst (thread.val / cfg.subwarpSize)) thread x := by
  have hsize : IsAccessSize (inst.segmentSize cfg) := isAccessSize_segmentSize h.size
  have hlen : inst.dataSizeCoales ≤ 16 := dataSizeCoales_le h.size
  obtain ⟨hpos, hpart⟩ := part_of_lt h.part
  have hfirst := hclean.first_mem hsize hpart hpos rfl hacc.active hacc.mem
  have hmate : ∀ mate ∈ inst.activeMask, mate.val / cfg.subwarpSize = thread.val / cfg.subwarpSize →
      ∀ a ∈ (inst.request mate).val,
        (mate, a) ∈ subwarpMarks cfg inst (thread.val / cfg.subwarpSize) :=
    fun mate hactive heq a hmem => hclean.first_mem hsize hpart hpos heq hactive hmem
  have hlast := hclean.last_mem hsize hpart hpos rfl hacc.active hacc.mem h.inRange
  have hcrossing := h.crossing
  generalize hend : addr.toNat + inst.dataSizeCoales - 1 = last at hlast hcrossing
  have hxlast : x ≤ last := by omega
  have hnear : last < addr.toNat + 32 := by omega
  have hrange := h.inRange
  rw [carried_iff fun m hm => hclean.low_mark hsize hpart hm]
  cases hcrossing with
  | chunk hchunk =>
      have hx : addr.toNat / 32 = x / 32 := by omega
      have hseg : addr.toNat / inst.segmentSize cfg = x / inst.segmentSize cfg :=
        div_eq_of_chunk hsize hx
      exact ⟨⟨_, hfirst, rfl, hseg⟩, ⟨_, hfirst, hseg, hle, hlt⟩, ⟨_, hfirst, hx⟩⟩
  | segment hseg mate =>
      have hx : addr.toNat / inst.segmentSize cfg = x / inst.segmentSize cfg := by
        rcases div_eq_or hsize hle hxlast hnear with hx | hx
        · exact hx.symm
        · exact hseg.trans hx.symm
      refine ⟨⟨_, hfirst, rfl, hx⟩, ⟨_, hfirst, hx, hle, hlt⟩, ?_⟩
      rcases div_eq_or (.inl rfl) hle hxlast hnear with hchunk | hchunk
      · exact ⟨_, hfirst, hchunk.symm⟩
      · obtain ⟨mate, hactive, heq, a, hmem, ha⟩ := mate
        exact ⟨_, hmate mate hactive heq a hmem, ha.trans hchunk.symm⟩
  | boundary hne mate =>
      rcases div_eq_or hsize hle hxlast hnear with hx | hx
      · have hchunk : x / 32 = addr.toNat / 32 :=
          chunk_eq_before_crossing hsize hnear hne hx hle hxlast
        exact ⟨⟨_, hfirst, rfl, hx.symm⟩, ⟨_, hfirst, hx.symm, hle, hlt⟩,
          ⟨_, hfirst, hchunk.symm⟩⟩
      · obtain ⟨m, hm, hmark⟩ := hlast hne
        have hchunk : x / 32 = last / 32 :=
          chunk_eq_of_crossing hsize (by omega) hnear hne hx hxlast
        obtain ⟨hbefore, hbegin, hstart⟩ := boundary_of_ne hsize (by omega) hne
        have hge := boundary_le hsize hx
        have hseg : last / inst.segmentSize cfg * inst.segmentSize cfg / inst.segmentSize cfg =
            x / inst.segmentSize cfg := hstart.trans hx.symm
        refine ⟨⟨_, hmark, rfl, by rw [hm, hx]⟩, ?_, ⟨_, hmark, by rw [hm, hchunk]⟩⟩
        -- the byte is in the range of the mark at the first byte of the segment
        obtain ⟨mate, hactive, heq, a, hmem, ha | ha⟩ := mate
        · exact ⟨_, hmate mate hactive heq a hmem, by rw [ha, hseg], show a.toNat ≤ x by omega,
            show x < a.toNat + inst.dataSizeCoales by omega⟩
        · have hend' : a.toNat + inst.dataSizeCoales - 1 =
              last / inst.segmentSize cfg * inst.segmentSize cfg := by omega
          obtain ⟨m', hm', hmark'⟩ := hclean.last_mem hsize hpart hpos heq hactive hmem
            (by omega) (by rw [hend']; exact ne_of_ends_at_boundary hsize (by omega))
          rw [hend'] at hm'
          exact ⟨_, hmark', by rw [hm', hseg], show m'.toNat ≤ x by omega,
            show x < m'.toNat + inst.dataSizeCoales by omega⟩

/-- The bytes of the accesses of a warp are carried by the marks of its parts. -/
def AllCarried (cfg : CoreConfig) (inst : WarpInst) : Prop :=
  ∀ thread addr, inst.Accesses cfg thread addr →
    ∀ x, addr.toNat ≤ x → x < addr.toNat + inst.dataSizeCoales →
      ∃ subwarp < cfg.memWarpParts, Carried (inst.segmentSize cfg) inst.dataSizeCoales
        (subwarpMarks cfg inst subwarp) thread x

theorem Carried.lt {segment size : ℕ} {marks : List (Fin 32 × Addr)} {x : ℕ}
    (h : Carried segment size marks thread x) (hsize : IsAccessSize segment) : x < 2 ^ 32 := by
  obtain ⟨m, -, -, hseg⟩ := h.warp
  have hlt := low_lt m.2
  rcases hsize with rfl | rfl | rfl <;> omega

theorem AllCarried.clean (h : AllCarried cfg inst) (hsize : IsAccessSize (inst.segmentSize cfg)) :
    Clean cfg inst := by
  have hpos : 0 < inst.dataSizeCoales := dataSizeCoales_pos
  have hinRange : ∀ thread addr, inst.Accesses cfg thread addr →
      addr.toNat + inst.dataSizeCoales ≤ 2 ^ 32 := by
    intro thread addr hacc
    obtain ⟨subwarp, -, hcarried⟩ :=
      h thread addr hacc (addr.toNat + inst.dataSizeCoales - 1) (by omega) (by omega)
    have hlt := hcarried.lt hsize
    omega
  intro thread addr hacc
  refine ⟨?_, hinRange thread addr hacc⟩
  rintro rfl
  -- the mark that reaches byte 0 is at 0, but no access is visited there
  obtain ⟨subwarp, hlt, hcarried⟩ := h thread 0 hacc 0 (Nat.le_refl 0) (by simpa using hpos)
  obtain ⟨m, hm, -, hle, -⟩ := hcarried.byte
  obtain ⟨hthread, hactive, a, hvisited, hmark⟩ := mem_subwarpMarks.mp hm
  obtain ⟨hmem, hne⟩ := mem_visited hvisited
  obtain ⟨hsub, hpart⟩ := mem_subwarpThreads_iff.mp hthread
  have hend := hinRange m.1 a ⟨hactive, lt_warpSize_of_part hsub hpart hlt, hmem⟩
  have hnat : a.toNat ≠ 0 := fun hzero => hne (BitVec.eq_of_toNat_eq hzero)
  rw [low] at hle
  rcases (mem_marksOf hsize hpos hend).mp hmark with heq | ⟨-, heq⟩
  · rw [heq] at hle
    omega
  · omega

theorem AllCarried.crossing (h : AllCarried cfg inst) (hdata : inst.dataSize ∈ [1, 2, 4, 8, 16])
    (hacc : inst.Accesses cfg thread addr) :
    thread.val < cfg.subwarpSize * cfg.memWarpParts ∧
      CrossingMarked cfg inst thread addr.toNat (addr.toNat + inst.dataSizeCoales - 1) := by
  have hsize : IsAccessSize (inst.segmentSize cfg) := isAccessSize_segmentSize hdata
  have hlen : inst.dataSizeCoales ≤ 16 := dataSizeCoales_le hdata
  have hpos : 0 < inst.dataSizeCoales := dataSizeCoales_pos
  have hclean := h.clean hsize
  have hall : ∀ x, addr.toNat ≤ x → x < addr.toNat + inst.dataSizeCoales →
      0 < cfg.subwarpSize ∧ thread.val / cfg.subwarpSize < cfg.memWarpParts ∧
        (∃ m ∈ subwarpMarks cfg inst (thread.val / cfg.subwarpSize),
          m.2.toNat / inst.segmentSize cfg = x / inst.segmentSize cfg ∧ m.2.toNat ≤ x) ∧
        ∃ m ∈ subwarpMarks cfg inst (thread.val / cfg.subwarpSize), m.2.toNat / 32 = x / 32 := by
    intro x hle hlt
    obtain ⟨subwarp, hpart, hcarried⟩ := h thread addr hacc x hle hlt
    obtain ⟨m, hm, hthread, -⟩ := hcarried.warp
    obtain ⟨hsub, heq⟩ := mem_subwarpThreads_iff.mp (mem_subwarpMarks.mp hm).1
    rw [hthread] at heq
    subst heq
    rw [carried_iff fun m hm => hclean.low_mark hsize hpart hm] at hcarried
    obtain ⟨-, ⟨m, hm, hseg, hle, -⟩, hsector⟩ := hcarried
    exact ⟨hsub, hpart, ⟨m, hm, hseg, hle⟩, hsector⟩
  obtain ⟨hsub, hpart, -⟩ := hall addr.toNat le_rfl (by omega)
  refine ⟨?_, ?_⟩
  · rw [Nat.mul_comm, ← Nat.div_lt_iff_lt_mul hsub]
    exact hpart
  have hmem : ∀ m ∈ subwarpMarks cfg inst (thread.val / cfg.subwarpSize), _ :=
    fun m hm => (hclean.mem_subwarpMarks hsize hpart).mp hm
  generalize hend : addr.toNat + inst.dataSizeCoales - 1 = last
  by_cases hchunk : addr.toNat / 32 = last / 32
  · exact .chunk hchunk
  by_cases hseg : addr.toNat / inst.segmentSize cfg = last / inst.segmentSize cfg
  · -- only the address of an access can be in a chunk that is not the first of its segment
    obtain ⟨-, -, -, m, hm, hmark⟩ := hall last (by omega) (by omega)
    obtain ⟨-, heq, hactive, a, ha, hma | ⟨hne, hma⟩⟩ := hmem m hm
    · exact .segment hseg ⟨m.1, hactive, heq, a, ha, by rw [← hma]; exact hmark⟩
    · rw [hma] at hmark
      exact absurd hmark
        (chunk_ne_of_crossing hsize (by omega) hne (by omega) (by omega) hseg hchunk)
  · obtain ⟨hbefore, hbegin, hstart⟩ := boundary_of_ne hsize (show addr.toNat ≤ last by omega) hseg
    obtain ⟨-, -, ⟨m, hm, hmark, hle⟩, -⟩ :=
      hall (last / inst.segmentSize cfg * inst.segmentSize cfg) (by omega) (by omega)
    have hge := boundary_le hsize (hmark.trans hstart)
    obtain ⟨-, heq, hactive, a, ha, hma | ⟨-, hma⟩⟩ := hmem m hm
    · exact .boundary hseg ⟨m.1, hactive, heq, a, ha, .inl (by rw [← hma]; omega)⟩
    · exact .boundary hseg ⟨m.1, hactive, heq, a, ha, .inr (by omega)⟩

theorem dataSize_of_served {accesses : List WarpAccess}
    (hok : memoryCoalescingArch cfg inst isWrite accessType = .ok accesses)
    (hserved : Served cfg inst accesses) (hacc : inst.Accesses cfg thread addr) :
    inst.dataSize ∈ [1, 2, 4, 8, 16] := by
  by_contra hdata
  obtain ⟨access, hmem, -⟩ := hserved.serves thread addr hacc addr.toNat le_rfl
    (Nat.lt_add_of_pos_right dataSizeCoales_pos)
  have haligned := (hserved.aligned access hmem).1
  have hzero : access.reqSize = 0 := by
    rw [memoryCoalescingArch] at hok
    split at hok
    · cases hok
    · cases hparts : (List.range cfg.memWarpParts).mapM
        (coalesceSubwarp cfg inst isWrite accessType) with
      | error e =>
          rw [hparts] at hok
          cases hok
      | ok parts =>
          rw [hparts] at hok
          cases hok
          obtain ⟨part, hpart, hmem⟩ := List.mem_flatten.mp hmem
          obtain ⟨subwarp, -, hsub⟩ := Math.exists_of_mem_mapM hparts hpart
          rw [coalesceSubwarp, segmentSize_eq_zero hdata] at hsub
          cases htrans : subwarpTransactions cfg inst subwarp with
          | error e =>
              rw [htrans] at hsub
              cases hsub
          | ok transactions =>
              rw [htrans] at hsub
              obtain ⟨entry, -, hentry⟩ := Math.exists_of_mem_mapM hsub hmem
              exact reqSize_of_reduceAndSend_zero hentry
  rw [hzero] at haligned
  exact absurd haligned (by decide)

theorem coalesceSubwarp_of_inactive
    (h : ∀ thread ∈ cfg.subwarpThreads subwarp, thread ∉ inst.activeMask) :
    coalesceSubwarp cfg inst isWrite accessType subwarp = .ok [] := by
  have hall : ∀ (threads : List (Fin 32)) (m : Transactions),
      (∀ thread ∈ threads, thread ∉ inst.activeMask) →
        threads.foldlM (touchThread cfg inst) m = .ok m := by
    intro threads
    induction threads with
    | nil => exact fun m _ => rfl
    | cons thread threads ih =>
        intro m hthreads
        rw [List.foldlM_cons, touchThread, if_pos (hthreads thread List.mem_cons_self)]
        exact ih m fun thread' hmem => hthreads thread' (List.mem_cons_of_mem thread hmem)
  rw [coalesceSubwarp, subwarpTransactions, hall _ ∅ h]
  rfl

theorem memoryCoalescingArch_of_no_access
    (hparts : cfg.memWarpParts ≠ 0) (h : ∀ thread addr, ¬ inst.Accesses cfg thread addr) :
    ∃ accesses, memoryCoalescingArch cfg inst isWrite accessType = .ok accesses ∧
      Served cfg inst accesses := by
  have hsub : ∀ subwarp ∈ List.range cfg.memWarpParts, ∃ part,
      coalesceSubwarp cfg inst isWrite accessType subwarp = .ok part ∧ part = [] := by
    intro subwarp hmem
    refine ⟨[], coalesceSubwarp_of_inactive fun thread hthread hactive => ?_, rfl⟩
    obtain ⟨hpos, hpart⟩ := mem_subwarpThreads_iff.mp hthread
    obtain ⟨addr, haddr⟩ := List.exists_mem_of_ne_nil _ (inst.request thread).property.1
    exact h thread addr
      ⟨hactive, lt_warpSize_of_part hpos hpart (List.mem_range.mp hmem), haddr⟩
  obtain ⟨parts, hok, -, hempty⟩ := Math.exists_mapM_eq_ok hsub
  refine ⟨parts.flatten, ?_, fun thread addr hacc => absurd hacc (h thread addr), ?_⟩
  · rw [memoryCoalescingArch, if_neg hparts, hok]
    rfl
  · intro access hmem
    obtain ⟨part, hpart, hmem⟩ := List.mem_flatten.mp hmem
    obtain ⟨-, -, rfl⟩ := hempty part hpart
    exact absurd hmem List.not_mem_nil

end Warp

/-- A warp is served exactly when each of its accesses has what it needs. -/
theorem memoryCoalescingArch_served_iff (cfg : CoreConfig) (inst : WarpInst) (isWrite : Bool)
    (accessType : Cache.MemAccessType) :
    (∃ accesses, memoryCoalescingArch cfg inst isWrite accessType = .ok accesses ∧
      Served cfg inst accesses) ↔
      cfg.memWarpParts ≠ 0 ∧
        ∀ thread addr, inst.Accesses cfg thread addr → Whole cfg inst thread addr.toNat := by
  constructor
  · rintro ⟨accesses, hok, hserved⟩
    have hparts : cfg.memWarpParts ≠ 0 := by
      intro hzero
      rw [memoryCoalescingArch, if_pos hzero] at hok
      cases hok
    refine ⟨hparts, fun thread addr hacc => ?_⟩
    have hdata := dataSize_of_served hok hserved hacc
    have hsize : IsAccessSize (inst.segmentSize cfg) := isAccessSize_segmentSize hdata
    obtain ⟨accesses', hok', -, hcarries⟩ :=
      memoryCoalescingArch_carries isWrite accessType hparts (numAccesses_le hdata) hsize
    rw [hok] at hok'
    cases hok'
    have hall : AllCarried cfg inst := fun thread addr hacc x hle hlt =>
      (hcarries thread x).mp (hserved.serves thread addr hacc x hle hlt)
    obtain ⟨hpart, hcrossing⟩ := hall.crossing hdata hacc
    obtain ⟨hne, hinRange⟩ := hall.clean hsize thread addr hacc
    exact ⟨hpart, hdata, fun hzero => hne (BitVec.eq_of_toNat_eq hzero), hinRange, hcrossing⟩
  · rintro ⟨hparts, hwhole⟩
    by_cases hsome : ∃ thread addr, inst.Accesses cfg thread addr
    · obtain ⟨thread, addr, hacc⟩ := hsome
      have hdata := (hwhole thread addr hacc).size
      have hclean : Clean cfg inst := fun thread addr hacc =>
        ⟨fun hzero => (hwhole thread addr hacc).ne_zero (by rw [hzero]; rfl),
          (hwhole thread addr hacc).inRange⟩
      obtain ⟨accesses, hok, haligned, hcarries⟩ := memoryCoalescingArch_carries isWrite accessType
        hparts (numAccesses_le hdata) (isAccessSize_segmentSize hdata)
      refine ⟨accesses, hok, ⟨fun thread addr hacc x hle hlt => ?_, haligned⟩⟩
      obtain ⟨-, hpart⟩ := part_of_lt (hwhole thread addr hacc).part
      exact (hcarries thread x).mpr
        ⟨_, hpart, (hwhole thread addr hacc).carried hclean hacc hle hlt⟩
    · exact memoryCoalescingArch_of_no_access hparts fun thread addr hacc =>
        hsome ⟨thread, addr, hacc⟩

/-- A core whose segments are sectors. -/
def sectorCore : CoreConfig where
  warpSize := 32
  memWarpParts := 1
  gpgpuCoalesceArch := 60
  gmemSkipL1D := false
  warpSize_le := le_rfl

/-- A load of 4 bytes by one thread, half of them in the next sector. -/
def splitLoad : WarpInst where
  space := .globalSpace
  cacheOp := .cacheAll
  dataSize := 4
  activeMask := {0}
  request _ := ⟨[30], List.cons_ne_nil _ _, by decide⟩
  dataSize_pos := by decide

/-- The second sector is sent with bytes 33 to 36 for the load of bytes 30 to 33. -/
theorem not_served_splitLoad :
    ¬ ∃ accesses, memoryCoalescingArch sectorCore splitLoad false .globalAccR = .ok accesses ∧
      Served sectorCore splitLoad accesses := by
  rintro ⟨accesses, hok, hserved⟩
  have heq : memoryCoalescingArch sectorCore splitLoad false .globalAccR =
      .ok [{ type := .globalAccR, addr := 0, reqSize := 32, write := false,
             byteMask := byteRange 30 4, sectorMask := {0}, warpMask := {0} },
           { type := .globalAccR, addr := 32, reqSize := 32, write := false,
             byteMask := byteRange 33 4, sectorMask := {1}, warpMask := {0} }] := by
    decide
  rw [hok] at heq
  cases heq
  obtain ⟨access, hmem, hserves⟩ := hserved.serves 0 30 ⟨by decide, by decide, by decide⟩ 32
    (by decide) (by decide)
  have hhas := hserves.has
  have hbyte := hserves.byte
  rcases List.mem_pair.mp hmem with rfl | rfl
  · exact absurd hhas.2 (by decide)
  · exact absurd hbyte (by decide)

end GpuCalorie.Coalescer
