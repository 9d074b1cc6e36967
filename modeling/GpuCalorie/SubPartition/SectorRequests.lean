/-
# Requests for single sectors

A sub-partition whose cache has sectors takes a request of more than one sector apart when
it arrives. The requests it makes are for one sector each and remember the request they
were made for; they have no instruction.
-/

import GpuCalorie.Cache.Types

namespace GpuCalorie.SubPartition

open Cache

/-- The assertions on the requests a sub-partition is given. -/
inductive SectorFailure
  /-- "Undefined sector mask is received" -/
  | sectorMask
  /-- "Undefined data size is received" -/
  | dataSize
  deriving DecidableEq, Repr

/-- The first and the last sector of a request of 64 or 128 bytes. -/
def sectorRange (mf : MemFetch) : Except SectorFailure (ℕ × ℕ) :=
  if mf.dataSize = 128 then .ok (0, 3)
  else if mf.sectorMask = {2, 3} then .ok (2, 3)
  else if mf.sectorMask = {0, 1} then .ok (0, 1)
  else if mf.sectorMask = Finset.univ ∨ mf.sectorMask = ∅ then
    if mf.addr.toNat % 128 = 0 then .ok (0, 1) else .ok (2, 3)
  else .error .sectorMask

/-- `byte_sector_mask` at a sector. It starts out with the bits from `start * SECTOR_SIZE` up
to `SECTOR_SIZE`. -/
def byteSectorMask (start sector : ℕ) : ByteMask :=
  if start = 0 then
    Finset.univ.filter fun byte =>
      sector * sectorSize ≤ byte.val ∧ byte.val < (sector + 1) * sectorSize
  else ∅

/-- The request for one of the sectors. -/
def sectorRequest (mf : MemFetch) (uid start sector : ℕ) : MemFetch where
  uid := uid
  access :=
    { type := mf.access.type
      addr := mf.addr + .ofNat 64 (sectorSize * (sector - start))
      reqSize := sectorSize
      write := mf.isWrite
      byteMask := mf.byteMask ∩ byteSectorMask start sector
      sectorMask := {Fin.ofNat 4 sector} }
  dataSize := sectorSize
  originalMf := some mf.uid

/-- `breakdown_request_to_sector_requests`, with new identities from `nextUid` on. -/
def breakdownRequestToSectorRequests (mf : MemFetch) (nextUid : ℕ) :
    Except SectorFailure (List MemFetch) :=
  if mf.dataSize = sectorSize ∧ mf.sectorMask.card = 1 then .ok [mf]
  else if mf.dataSize = 128 ∨ mf.dataSize = 64 then do
    let (first, last) ← sectorRange mf
    return (List.range (last + 1 - first)).map fun i =>
      sectorRequest mf (nextUid + i) first (first + i)
  else .error .dataSize

/-- What a sub-partition makes of a request. -/
inductive IsSectorRequest (mf : MemFetch) (nextUid : ℕ) (request : MemFetch) : Prop
  /-- A request for one sector stays. -/
  | whole (small : mf.dataSize = sectorSize) (eq : request = mf)
  | sector (large : mf.dataSize = 128 ∨ mf.dataSize = 64) (fresh : nextUid ≤ request.uid)
      (lt : request.uid < nextUid + 4) (type : request.access.type = mf.access.type)
      (write : request.isWrite = mf.isWrite) (original : request.originalMf = some mf.uid)

theorem sectorRange_spec {mf : MemFetch} {first last : ℕ} (h : sectorRange mf = .ok (first, last)) :
    last ≤ 3 := by
  rw [sectorRange] at h
  split_ifs at h <;> cases h <;> decide

theorem isSectorRequest_of_mem {mf request : MemFetch} {nextUid : ℕ} {requests : List MemFetch}
    (h : breakdownRequestToSectorRequests mf nextUid = .ok requests) (hmem : request ∈ requests) :
    IsSectorRequest mf nextUid request := by
  rw [breakdownRequestToSectorRequests] at h
  split at h
  · rename_i hsmall
    cases h
    exact .whole hsmall.1 (List.mem_singleton.mp hmem)
  · split at h
    · rename_i hlarge
      cases hrange : sectorRange mf with
      | error e =>
          rw [hrange] at h
          exact nomatch h
      | ok range =>
          obtain ⟨first, last⟩ := range
          rw [hrange] at h
          cases h
          obtain ⟨i, hi, rfl⟩ := List.mem_map.mp hmem
          have hlast := sectorRange_spec hrange
          have hlt := List.mem_range.mp hi
          exact .sector hlarge (Nat.le_add_right nextUid i)
            (show nextUid + i < nextUid + 4 by omega) rfl rfl rfl
    · exact nomatch h

end GpuCalorie.SubPartition

/-!
## Which requests are split into their sectors?

A request of 32, 64 or 128 bytes that is aligned to its size covers one, two or four sectors of a
line of 128 bytes. The requests it is taken apart into should cover these sectors, each once, with
the bytes of the request.

The sectors of a request of 64 bytes are taken from its sector mask, where that has two sectors,
and the bytes of the upper two sectors are lost.
-/

namespace GpuCalorie.SubPartition

open Cache

/-- The bytes of a sector in a line. -/
def sectorBytes (sector : ℕ) : ByteMask :=
  Finset.univ.filter fun byte =>
    sector * sectorSize ≤ byte.val ∧ byte.val < (sector + 1) * sectorSize

/-- The sector of an address in its line. -/
def firstSector (mf : MemFetch) : ℕ :=
  mf.addr.toNat % 128 / sectorSize

/-- The sectors of a request. -/
def sectorsOf (mf : MemFetch) : List ℕ :=
  List.range' (firstSector mf) (mf.dataSize / sectorSize)

/-- A request for one sector of another one, with the bytes that has in it. -/
structure Covers (mf : MemFetch) (sector : ℕ) (request : MemFetch) : Prop where
  size : request.dataSize = sectorSize
  addr : request.addr.toNat = mf.addr.toNat / 128 * 128 + sector * sectorSize
  sectorMask : request.sectorMask = {Fin.ofNat 4 sector}
  byteMask : request.byteMask = mf.byteMask ∩ sectorBytes sector

/-- Every request covers a sector of the original, and every sector is covered once. -/
structure PartitionsFootprint (mf : MemFetch) (requests : List MemFetch) : Prop where
  covers : ∀ request ∈ requests, ∃ sector ∈ sectorsOf mf, Covers mf sector request
  once : ∀ sector ∈ sectorsOf mf,
    requests.countP (fun request => request.sectorMask = {Fin.ofNat 4 sector}) = 1

/-- The requests whose masks agree with their address, and of the upper sectors those without
bytes. -/
structure MasksAgree (mf : MemFetch) : Prop where
  single : mf.dataSize = sectorSize →
    mf.sectorMask = {Fin.ofNat 4 (firstSector mf)} ∧ mf.byteMask ⊆ sectorBytes (firstSector mf)
  lower : mf.dataSize = 64 → mf.sectorMask = {0, 1} → firstSector mf = 0
  upper : mf.dataSize = 64 → mf.sectorMask = {2, 3} → firstSector mf = 2
  bytes : mf.dataSize = 64 → firstSector mf = 2 → ∀ sector ∈ [2, 3],
    mf.byteMask ∩ sectorBytes sector = ∅

variable {mf request : MemFetch} {requests : List MemFetch} {nextUid first count : ℕ}

/-! ## The ranges -/

theorem ofNat_sector_inj {s t : ℕ} (hs : s < 4) (ht : t < 4)
    (h : ({Fin.ofNat 4 s} : SectorMask) = {Fin.ofNat 4 t}) : s = t := by
  have hval := congrArg Fin.val (Finset.singleton_injective h)
  simp only [Fin.val_ofNat] at hval
  omega

theorem Covers.eq_of_mask {s t : ℕ} (h : Covers mf s request) (hs : s < 4) (ht : t < 4)
    (hmask : request.sectorMask = {Fin.ofNat 4 t}) : s = t :=
  ofNat_sector_inj hs ht (h.sectorMask.symm.trans hmask)

/-- The requests of a range of sectors. -/
def rangeRequests (mf : MemFetch) (nextUid first count : ℕ) : List MemFetch :=
  (List.range count).map fun i => sectorRequest mf (nextUid + i) first (first + i)

theorem sectorMask_sectorRequest (uid start sector : ℕ) :
    (sectorRequest mf uid start sector).sectorMask = {Fin.ofNat 4 sector} :=
  rfl

theorem addr_sectorRequest (haddr : mf.addr.toNat % 128 = first * sectorSize) {i : ℕ}
    (hi : first + i < 4) (uid : ℕ) :
    (sectorRequest mf uid first (first + i)).addr.toNat =
      mf.addr.toNat / 128 * 128 + (first + i) * sectorSize := by
  have hlt := mf.addr.isLt
  have hsub : first + i - first = i := Nat.add_sub_cancel_left ..
  show (mf.addr + BitVec.ofNat 64 (sectorSize * (first + i - first))).toNat = _
  rw [hsub, BitVec.toNat_add, BitVec.toNat_ofNat]
  simp only [sectorSize] at haddr ⊢
  omega

theorem byteSectorMask_eq (start sector : ℕ) :
    byteSectorMask start sector = if start = 0 then sectorBytes sector else ∅ :=
  rfl

theorem rangeRequests_iff (hcount : mf.dataSize / sectorSize = count) (hpos : 0 < count)
    (hend : first + count ≤ 4) (haligned : firstSector mf + count ≤ 4)
    (hsector : mf.addr.toNat % sectorSize = 0) :
    PartitionsFootprint mf (rangeRequests mf nextUid first count) ↔
      firstSector mf = first ∧
        ∀ sector ∈ sectorsOf mf, first = 0 ∨ mf.byteMask ∩ sectorBytes sector = ∅ := by
  have haddr : mf.addr.toNat % 128 = firstSector mf * sectorSize := by
    simp only [sectorSize] at hsector
    rw [firstSector, sectorSize]
    omega
  have hsectors : ∀ s, s ∈ sectorsOf mf ↔ firstSector mf ≤ s ∧ s < firstSector mf + count := by
    intro s
    rw [sectorsOf, hcount]
    exact List.mem_range'_1
  constructor
  · intro h
    have hmem : ∀ i < count,
        sectorRequest mf (nextUid + i) first (first + i) ∈ rangeRequests mf nextUid first count :=
      fun i hi => List.mem_map.mpr ⟨i, List.mem_range.mpr hi, rfl⟩
    have hcover : ∀ i < count,
        Covers mf (first + i) (sectorRequest mf (nextUid + i) first (first + i)) := by
      intro i hi
      obtain ⟨s, hs, hcovers⟩ := h.covers _ (hmem i hi)
      have hlt := (hsectors s).mp hs
      have heq : s = first + i :=
        hcovers.eq_of_mask (by omega) (by omega) (sectorMask_sectorRequest _ first (first + i))
      rw [← heq]
      rw [← heq] at hcovers
      exact hcovers
    have hfirst : firstSector mf = first := by
      obtain ⟨s, hs, hcovers⟩ := h.covers _ (hmem 0 hpos)
      have haddrs := (hcover 0 hpos).addr
      have hzero : (sectorRequest mf (nextUid + 0) first (first + 0)).addr = mf.addr := by
        show mf.addr + BitVec.ofNat 64 (sectorSize * (first + 0 - first)) = mf.addr
        rw [Nat.add_zero, Nat.sub_self, Nat.mul_zero]
        exact BitVec.add_zero _
      rw [hzero] at haddrs
      simp only [sectorSize] at haddrs haddr
      omega
    refine ⟨hfirst, fun s hs => ?_⟩
    obtain ⟨hle, hlt⟩ := (hsectors s).mp hs
    have hbytes := (hcover (s - first) (by omega)).byteMask
    have hback : first + (s - first) = s := by omega
    rw [hback] at hbytes
    by_cases hzero : first = 0
    · exact .inl hzero
    · right
      have hmask : mf.byteMask ∩ byteSectorMask first s = mf.byteMask ∩ sectorBytes s := hbytes
      rw [byteSectorMask_eq, if_neg hzero, Finset.inter_empty] at hmask
      exact hmask.symm
  · rintro ⟨hfirst, hbytes⟩
    constructor
    · intro request hrequest
      obtain ⟨i, hi, rfl⟩ := List.mem_map.mp hrequest
      have hlt := List.mem_range.mp hi
      have hs : first + i ∈ sectorsOf mf := (hsectors _).mpr (by omega)
      refine ⟨first + i, hs, rfl, addr_sectorRequest (hfirst ▸ haddr) (by omega) _, rfl, ?_⟩
      show mf.byteMask ∩ byteSectorMask first (first + i) = _
      rw [byteSectorMask_eq]
      split_ifs with hzero
      · rfl
      · rw [Finset.inter_empty, (hbytes _ hs).resolve_left hzero]
    · intro s hs
      obtain ⟨hle, hlt⟩ := (hsectors s).mp hs
      have hother : ∀ i ∈ List.range count,
          decide ((sectorRequest mf (nextUid + i) first (first + i)).sectorMask =
            {Fin.ofNat 4 s}) = true ↔ (i == s - first) = true := by
        intro i hi
        have hicount := List.mem_range.mp hi
        rw [decide_eq_true_iff, sectorMask_sectorRequest, beq_iff_eq]
        constructor
        · intro hmask
          have heq := ofNat_sector_inj (show first + i < 4 by omega) (show s < 4 by omega) hmask
          omega
        · rintro rfl
          have hback : first + (s - first) = s := by omega
          rw [hback]
      have hmem : s - first ∈ List.range count := List.mem_range.mpr (by omega)
      rw [rangeRequests, List.countP_map]
      exact (List.countP_congr hother).trans (List.count_eq_one_of_mem List.nodup_range hmem)

/-! ## The breakdown -/

theorem single_iff (hsize : mf.dataSize = sectorSize) (hsector : mf.addr.toNat % sectorSize = 0) :
    PartitionsFootprint mf [mf] ↔
      mf.sectorMask = {Fin.ofNat 4 (firstSector mf)} ∧
        mf.byteMask ⊆ sectorBytes (firstSector mf) := by
  have hsectors : sectorsOf mf = [firstSector mf] := by
    rw [sectorsOf, hsize]
    rfl
  constructor
  · intro h
    obtain ⟨s, hs, hcovers⟩ := h.covers mf (List.mem_singleton.mpr rfl)
    rw [hsectors, List.mem_singleton] at hs
    subst hs
    exact ⟨hcovers.sectorMask, Finset.inter_eq_left.mp hcovers.byteMask.symm⟩
  · rintro ⟨hmask, hbytes⟩
    constructor
    · intro request hrequest
      rw [List.mem_singleton] at hrequest
      subst hrequest
      refine ⟨firstSector request, ?_, hsize, ?_, hmask, (Finset.inter_eq_left.mpr hbytes).symm⟩
      · rw [hsectors]
        exact List.mem_singleton.mpr rfl
      · rw [firstSector]
        simp only [sectorSize] at hsector ⊢
        omega
    · intro s hs
      rw [hsectors, List.mem_singleton] at hs
      subst hs
      simp [hmask]

theorem sectorRange_cases {last : ℕ} (h : sectorRange mf = .ok (first, last)) :
    (mf.dataSize = 128 ∧ first = 0 ∧ last = 3) ∨
      mf.dataSize ≠ 128 ∧ (first = 0 ∧ last = 1 ∨ first = 2 ∧ last = 3) ∧
        (mf.sectorMask = {2, 3} → first = 2) ∧ (mf.sectorMask = {0, 1} → first = 0) ∧
        (mf.sectorMask ≠ {2, 3} → mf.sectorMask ≠ {0, 1} →
          (first = 0 ↔ mf.addr.toNat % 128 = 0)) := by
  have hne : ({2, 3} : SectorMask) ≠ {0, 1} := by decide
  rw [sectorRange] at h
  split_ifs at h with h128 hupper hlower hall hzero
  · cases h
    exact .inl ⟨h128, rfl, rfl⟩
  · cases h
    exact .inr ⟨h128, .inr ⟨rfl, rfl⟩, fun _ => rfl, fun h => absurd (hupper.symm.trans h) hne,
      fun h => absurd hupper h⟩
  · cases h
    exact .inr ⟨h128, .inl ⟨rfl, rfl⟩, fun h => absurd h hupper, fun _ => rfl,
      fun _ h => absurd hlower h⟩
  · cases h
    exact .inr ⟨h128, .inl ⟨rfl, rfl⟩, fun h => absurd h hupper, fun h => absurd h hlower,
      fun _ _ => iff_of_true rfl hzero⟩
  · cases h
    exact .inr ⟨h128, .inr ⟨rfl, rfl⟩, fun h => absurd h hupper, fun h => absurd h hlower,
      fun _ _ => iff_of_false (by decide) hzero⟩

/-- For every request that is accepted and aligned to its size, with any masks, the parts partition
its footprint if and only if its masks agree with its address and the upper two sectors, as a
request of 64 bytes, have no bytes. -/
theorem breakdownRequestToSectorRequests_iff
    (h : breakdownRequestToSectorRequests mf nextUid = .ok requests)
    (haligned : mf.addr.toNat % mf.dataSize = 0) :
    PartitionsFootprint mf requests ↔ MasksAgree mf := by
  rw [breakdownRequestToSectorRequests] at h
  split at h
  case isTrue hsmall =>
    cases h
    obtain ⟨hsize, -⟩ := hsmall
    have hne : mf.dataSize ≠ 64 := by
      rw [hsize]
      decide
    rw [single_iff hsize (hsize ▸ haligned)]
    exact ⟨fun hmasks => ⟨fun _ => hmasks, fun h => absurd h hne, fun h => absurd h hne,
      fun h => absurd h hne⟩, fun hagree => hagree.single hsize⟩
  case isFalse =>
    split at h
    case isFalse => cases h
    case isTrue hlarge =>
      cases hrange : sectorRange mf with
      | error e =>
          rw [hrange] at h
          cases h
      | ok range =>
        obtain ⟨first, last⟩ := range
        rw [hrange] at h
        cases h
        have hsmall : mf.dataSize ≠ sectorSize := by
          rw [sectorSize]
          omega
        obtain ⟨h128, rfl, rfl⟩ | ⟨hnot, hfirst, hupper, hlower, hother⟩ := sectorRange_cases hrange
        · have hne : mf.dataSize ≠ 64 := by omega
          have hzero : firstSector mf = 0 := by
            rw [h128] at haligned
            rw [firstSector, haligned]
            rfl
          refine (rangeRequests_iff (show mf.dataSize / sectorSize = 4 by rw [h128]; rfl)
            (by decide) (by decide)
            (by omega) (by rw [h128] at haligned; rw [sectorSize]; omega)).trans ?_
          exact iff_of_true ⟨hzero, fun _ _ => .inl rfl⟩
            ⟨fun h => absurd h hsmall, fun h => absurd h hne, fun h => absurd h hne,
              fun h => absurd h hne⟩
        · have h64 : mf.dataSize = 64 := by omega
          rw [h64] at haligned
          have hcount : last + 1 - first = 2 := by omega
          have hhalf : firstSector mf = 0 ∨ firstSector mf = 2 := by
            rw [firstSector, sectorSize]
            omega
          have hhalfIff : firstSector mf = 0 ↔ mf.addr.toNat % 128 = 0 := by
            rw [firstSector, sectorSize]
            omega
          rw [hcount]
          refine (rangeRequests_iff (show mf.dataSize / sectorSize = 2 by rw [h64]; rfl) (by decide)
            (by omega)
            (by omega) (by rw [sectorSize]; omega)).trans ?_
          have hsectors : sectorsOf mf = List.range' (firstSector mf) 2 := by
            rw [sectorsOf, h64]
            rfl
          constructor
          · rintro ⟨hstart, hbytes⟩
            refine ⟨fun h => absurd h hsmall, fun _ hmask => hstart.trans (hlower hmask),
              fun _ hmask => hstart.trans (hupper hmask), fun _ htwo s hs => ?_⟩
            rw [hsectors, htwo] at hbytes
            exact (hbytes s hs).resolve_left (by omega)
          · intro hagree
            have hstart : firstSector mf = first := by
              by_cases hup : mf.sectorMask = {2, 3}
              · rw [hagree.upper h64 hup, hupper hup]
              by_cases hlow : mf.sectorMask = {0, 1}
              · rw [hagree.lower h64 hlow, hlower hlow]
              have hiff := hother hup hlow
              omega
            refine ⟨hstart, fun s hs => ?_⟩
            by_cases hzero : first = 0
            · exact .inl hzero
            · right
              have htwo : firstSector mf = 2 := by omega
              rw [hsectors, htwo] at hs
              exact hagree.bytes h64 htwo s hs

/-- A request of 64 bytes. -/
def halfRequest (addr : Addr) (sectorMask : SectorMask) (byteMask : ByteMask) : MemFetch where
  uid := 0
  access :=
    { type := .globalAccW
      addr := addr
      reqSize := 64
      write := true
      byteMask := byteMask
      sectorMask := sectorMask }
  dataSize := 64

/-- A store to some bytes of the lower half of a line. -/
theorem breakdownRequestToSectorRequests_lower :
    PartitionsFootprint (halfRequest 0x1000 {0, 1} {3, 40})
      ((List.range 2).map fun i =>
        sectorRequest (halfRequest 0x1000 {0, 1} {3, 40}) (7 + i) 0 (0 + i)) :=
  (breakdownRequestToSectorRequests_iff (show breakdownRequestToSectorRequests
      (halfRequest 0x1000 {0, 1} {3, 40}) 7 = .ok _ from rfl) (by decide)).mpr
    ⟨fun h => absurd h (by decide), fun _ _ => by decide, fun _ h => absurd h (by decide),
      fun _ h => absurd h (by decide)⟩

/-- A store to byte 64 of a line loses its byte. -/
theorem not_breakdownRequestToSectorRequests_upper :
    ¬ ∀ (mf : MemFetch) (nextUid : ℕ) (requests : List MemFetch),
      breakdownRequestToSectorRequests mf nextUid = .ok requests →
      mf.addr.toNat % mf.dataSize = 0 → PartitionsFootprint mf requests := by
  intro hall
  have h := hall (halfRequest 0x1040 {2, 3} {64}) 0 _ rfl (by decide)
  obtain ⟨s, hs, hcovers⟩ := h.covers _ (List.mem_cons_self ..)
  have hmask := hcovers.sectorMask
  have hsector : s = 2 ∨ s = 3 := by
    have hrange : s ∈ [2, 3] := hs
    simpa using hrange
  obtain rfl | rfl := hsector
  · exact absurd hcovers.byteMask (by decide)
  · exact absurd hmask (by decide)

end GpuCalorie.SubPartition
