/-
# Nothing stale is hit

After an invalidation a probe only hits data that came since: by a fill, or with a write that
takes its sector. That is so if the invalidation comes to every line with data, which it does
not in a cache that was flushed or invalidated and not accessed since, or that was larger when
the data came, and if it comes to no line that waits for a fill, which would go to the line of
another block. The same lines are those that a flush leaves modified.
-/

import GpuCalorie.Cache.Flush
import GpuCalorie.Cache.Reservation

namespace GpuCalorie.Cache

open GpuCalorie.Math TransitionSystem

variable {ct : CacheType} {cfg : CacheConfig} {kind : CacheKind} {nset : ℕ} {mask : SectorMask}

/-! ## Lines -/

namespace CacheBlock

variable {b : CacheBlock ct} {k : Fin 4}

theorem status_foldl_setStatus (js : List (Fin 4)) (b : CacheBlock ct) (k : Fin 4) :
    ((js.foldl (fun b j => b.setStatus .invalid {j}) b).stateAt k).status =
      if ∃ j ∈ js, Covers ct {j} k then .invalid else (b.stateAt k).status := by
  induction js generalizing b with
  | nil => simp
  | cons j js ih =>
      rw [List.foldl_cons, ih, stateAt_setStatus]
      by_cases hrest : ∃ j ∈ js, Covers ct {j} k
      · obtain ⟨i, hi, hcovers⟩ := hrest
        rw [if_pos ⟨i, hi, hcovers⟩, if_pos ⟨i, List.mem_cons_of_mem _ hi, hcovers⟩]
      · rw [if_neg hrest]
        by_cases hj : Covers ct {j} k
        · rw [if_pos hj, if_pos ⟨j, List.mem_cons_self, hj⟩]
        · have hnone : ¬ ∃ i ∈ j :: js, Covers ct {i} k := by
            rintro ⟨i, hi, hcovers⟩
            rcases List.mem_cons.mp hi with rfl | hi
            · exact hj hcovers
            · exact hrest ⟨i, hi, hcovers⟩
          rw [if_neg hj, if_neg hnone]

@[simp]
theorem status_clear (b : CacheBlock ct) (k : Fin 4) : (b.clear.stateAt k).status = .invalid := by
  rw [clear, status_foldl_setStatus, if_pos]
  exact ⟨k, List.mem_finRange k, .inr (getSectorIndex_singleton k)⟩

end CacheBlock

theorem not_holdsData_clear (b : CacheBlock ct) (k : Fin 4) : ¬ HoldsData (b.clear.stateAt k) := by
  rw [HoldsData, CacheBlock.status_clear]
  decide

/-! ## What a flush and an invalidation come to -/

namespace FlushableCache

variable {s : FlushableCache cfg}

/-- An invalidation comes to every line with data. -/
def Covered (nset : ℕ) (s : FlushableCache cfg) : Prop :=
  ∀ i k, HoldsData ((s.lines i).stateAt k) → s.isUsed = true ∧ i < s.numLines nset

/-- A flush comes to every modified line. -/
def ModifiedCovered (nset : ℕ) (s : FlushableCache cfg) : Prop :=
  ∀ i, (s.lines i).isModifiedLine = true → s.isUsed = true ∧ i < s.numLines nset

theorem lines_invalidate (i : ℕ) : (s.invalidate nset).lines i =
    if s.isUsed = true ∧ i < s.numLines nset then (s.lines i).clear else s.lines i := by
  show (s.cache.tagArray.invalidate _ _).lines i = _
  rw [TagArray.invalidate]
  by_cases hused : s.isUsed = true
  · rw [if_pos hused]
    exact if_congr (by rw [hused]; simp) rfl rfl
  · rw [if_neg hused, if_neg fun h => hused h.1]

theorem lines_flush (i : ℕ) : (s.flush nset).lines i =
    if s.isUsed = true ∧ i < s.numLines nset ∧
      (s.lines i).isModifiedLine = true then (s.lines i).clear
    else s.lines i := by
  show (s.cache.tagArray.flush _ _).lines i = _
  rw [TagArray.flush]
  by_cases hused : s.isUsed = true
  · rw [if_pos hused]
    exact if_congr (by rw [hused]; simp) rfl rfl
  · rw [if_neg hused, if_neg fun h => hused h.1]

theorem not_holdsData_invalidate_iff :
    (∀ i k, ¬ HoldsData (((s.invalidate nset).lines i).stateAt k)) ↔ s.Covered nset := by
  constructor
  · intro h i k hk
    by_contra hleft
    apply h i k
    rw [lines_invalidate, if_neg hleft]
    exact hk
  · intro h i k
    rw [lines_invalidate]
    split_ifs with hcleared
    · exact not_holdsData_clear _ _
    · exact fun hk => hcleared (h i k hk)

theorem not_isModifiedLine_flush_iff :
    (∀ i k, (((s.flush nset).lines i).stateAt k).status ≠ .modified) ↔ s.ModifiedCovered nset := by
  constructor
  · intro h i hmodified
    by_contra hleft
    obtain ⟨k, hk⟩ := CacheBlock.isModifiedLine_iff.mp hmodified
    apply h i k
    rw [lines_flush, if_neg fun hcleared => hleft ⟨hcleared.1, hcleared.2.1⟩]
    exact hk
  · intro h i k
    rw [lines_flush]
    split_ifs with hcleared
    · rw [CacheBlock.status_clear]
      decide
    · intro hk
      have hmodified := CacheBlock.isModifiedLine_iff.mpr ⟨k, hk⟩
      obtain ⟨hused, hin⟩ := h i hmodified
      exact hcleared ⟨hused, hin, hmodified⟩

end FlushableCache

/-! ## Where data comes from -/

section Data

variable {tags : TagArray ct} {addr : Addr} {time : UInt32} {mf : MemFetch} {r : TagAccess ct}
    {i : ℕ}
  {k : Fin 4}

section

variable (h : TagAccessed cfg tags addr time mf r)
include h

theorem TagAccessed.held (hk : HoldsData ((r.tags.lines i).stateAt k)) :
    HoldsData ((tags.lines i).stateAt k) ∧ (r.tags.lines i).tag = (tags.lines i).tag := by
  cases h with
  | @touched _ way _ _ _ _ =>
      by_cases hi : i = cfg.setIndex addr * cfg.assoc + way
      · subst hi
        rw [HoldsData, TagArray.lines_modifyLine_self, CacheBlock.status_setLastAccessTime] at hk
        rw [TagArray.lines_modifyLine_self]
        exact ⟨hk, rfl⟩
      · rw [TagArray.lines_modifyLine_ne _ hi] at hk ⊢
        exact ⟨hk, rfl⟩
  | @allocated way _ _ _ _ _ _ _ _ =>
      by_cases hi : i = cfg.setIndex addr * cfg.assoc + way
      · rw [hi, TagArray.lines_modifyLine_self] at hk
        by_cases hcovers : Covers ct mf.sectorMask k
        · rw [HoldsData, (CacheBlock.stateAt_allocate_of_covers _ _ hcovers).1] at hk
          exact absurd hk (by decide)
        · rw [HoldsData, CacheBlock.stateAt_allocate_of_not_covers _ _ hcovers] at hk
          exact absurd hk (by decide)
      · rw [TagArray.lines_modifyLine_ne _ hi] at hk ⊢
        exact ⟨hk, rfl⟩
  | @allocatedSector way _ _ _ _ _ _ =>
      by_cases hi : i = cfg.setIndex addr * cfg.assoc + way
      · subst hi
        rw [TagArray.lines_modifyLine_self, CacheBlock.stateAt_allocateSector] at hk
        rw [TagArray.lines_modifyLine_self]
        by_cases hcovers : Covers ct mf.sectorMask k
        · rw [if_pos hcovers] at hk
          exact absurd hk (by simp [HoldsData])
        · rw [if_neg hcovers] at hk
          exact ⟨hk, rfl⟩
      · rw [TagArray.lines_modifyLine_ne _ hi] at hk ⊢
        exact ⟨hk, rfl⟩
  | deferred => exact ⟨hk, rfl⟩
  | full => exact ⟨hk, rfl⟩

theorem TagAccessed.tag_idx (honMiss : cfg.allocPolicy = .onMiss)
    (htaken : r.status ≠ .reservationFail) : (r.tags.lines r.idx).tag = cfg.blockAddr addr := by
  cases h with
  | touched _ tag _ _ =>
      rw [TagArray.lines_modifyLine_self]
      exact tag
  | allocated =>
      rw [TagArray.lines_modifyLine_self]
      exact CacheBlock.tag_allocate _ _
  | allocatedSector _ tag =>
      rw [TagArray.lines_modifyLine_self]
      exact tag
  | deferred _ _ onFill => exact absurd (honMiss.symm.trans onFill) (by decide)
  | full => exact absurd rfl htaken

theorem TagAccessed.held_of_hit (hhit : r.status = .hit) (hk : Covers ct mf.sectorMask k) :
    HoldsData ((tags.lines r.idx).stateAt k) ∧
      (r.tags.lines r.idx).tag = (tags.lines r.idx).tag := by
  cases h with
  | touched _ _ matched _ =>
      rw [TagArray.lines_modifyLine_self]
      refine ⟨?_, rfl⟩
      rw [HoldsData, ← CacheBlock.stateAt_of_covers hk]
      rcases matchLine_some matched with ⟨hs, -⟩ | ⟨-, hs⟩ | ⟨hs, -⟩
      · exact absurd (hs.symm.trans hhit) (by decide)
      · exact hs
      · exact absurd (hs.symm.trans hhit) (by decide)
  | allocated => cases hhit
  | allocatedSector => cases hhit
  | deferred _ miss _ => rcases miss with hs | hs <;> exact absurd (hs.symm.trans hhit) (by decide)
  | full => cases hhit

end

theorem TagArray.tag_of_outcome {status : RequestStatus} {idx : ℕ}
    (h : tags.outcome cfg addr mask = some (status, idx)) (hmiss : status ≠ .miss)
    (htaken : status ≠ .reservationFail) : (tags.lines idx).tag = cfg.blockAddr addr := by
  have hstart : ({} : ProbeState).Replaceable tags.lines (cfg.setIndex addr * cfg.assoc)
      cfg.assoc := by
    rintro v (hv | hv) <;> cases hv
  simp only [TagArray.outcome, TagArray.probe] at h
  rcases probeWays_spec (cfg.blockAddr addr) mask (List.range cfg.assoc)
      (fun w => List.mem_range.mp) {} hstart with
    ⟨way, -, found, htag, -, hrun⟩ | ⟨s, hrun, -⟩
  · rw [hrun] at h
    cases h
    exact htag
  · rw [hrun] at h
    dsimp only at h
    split_ifs at h
    · cases h
      exact absurd rfl htaken
    · cases h
    · cases hv : s.invalidLine <|> s.validLine with
      | none =>
          rw [hv] at h
          cases h
      | some v =>
          rw [hv] at h
          cases h
          exact absurd rfl hmiss

theorem TagArray.held_of_outcome {idx : ℕ} (h : tags.outcome cfg addr mask = some (.hit, idx)) :
    HoldsData ((tags.lines idx).stateAt (getSectorIndex mask)) := by
  cases hprobe : tags.probe cfg addr noIndex mask none with
  | error e =>
      rw [outcome, hprobe] at h
      cases h
  | ok found =>
      rw [outcome, hprobe] at h
      cases h
      cases (TagArray.probe_ok hprobe).1 with
      | found _ _ matched =>
          rcases matchLine_some matched with ⟨hs, -⟩ | ⟨-, hs⟩ | ⟨hs, -⟩
          · cases hs
          · exact hs
          · cases hs
      | victim _ _ _ miss => rcases miss with hs | ⟨hs, -⟩ <;> cases hs

end Data

namespace BaselineCache

variable {c c' : BaselineCache cfg} {time : UInt32} {k : Fin 4} {i : ℕ}

theorem held_of_writeHit {mf : MemFetch} {r : TagAccess cfg.cacheType}
    {change : CacheBlock cfg.cacheType → CacheBlock cfg.cacheType}
    (tags : TagAccessed cfg c.tagArray (cfg.blockAddr mf.addr) time mf r) (hit : r.status = .hit)
    (writes : WritesSector mf.sectorMask change)
    (hk : HoldsData (((r.tags.modifyLine r.idx change).lines i).stateAt k)) :
    HoldsData ((c.tagArray.lines i).stateAt k) ∧
      ((r.tags.modifyLine r.idx change).lines i).tag = (c.tagArray.lines i).tag := by
  by_cases hi : i = r.idx
  · subst hi
    rw [TagArray.lines_modifyLine_self] at hk ⊢
    rw [writes.tag]
    by_cases hcovers : Covers cfg.cacheType mf.sectorMask k
    · exact tags.held_of_hit hit hcovers
    · rw [writes.others _ k hcovers] at hk
      exact tags.held hk
  · rw [TagArray.lines_modifyLine_ne _ hi] at hk ⊢
    exact tags.held hk

theorem Accessed.held_or {mf : MemFetch} (h : Accessed kind c mf time c')
    (hk : HoldsData ((c'.tagArray.lines i).stateAt k)) :
    (HoldsData ((c.tagArray.lines i).stateAt k) ∧
    (c'.tagArray.lines i).tag = (c.tagArray.lines i).tag) ∨
      c.Brings (c'.tagArray.lines i).tag k (.access mf time) := by
  cases h with
  | readHit _ _ tags _ lines =>
      rw [lines] at hk ⊢
      exact .inl (tags.held hk)
  | atomicHit _ _ _ tags _ hit writes lines =>
      rw [lines] at hk ⊢
      exact .inl (held_of_writeHit tags hit writes hk)
  | writeHit _ _ _ tags _ hit writes lines =>
      rw [lines] at hk ⊢
      exact .inl (held_of_writeHit tags hit writes hk)
  | @writeEvict idx _ _ _ _ _ lines =>
      rw [lines] at hk ⊢
      by_cases hi : i = idx
      · subst hi
        rw [TagArray.lines_modifyLine_self, CacheBlock.stateAt_setStatus] at hk
        rw [TagArray.lines_modifyLine_self]
        by_cases hcovers : Covers cfg.cacheType mf.sectorMask k
        · rw [if_pos hcovers] at hk
          exact absurd hk (by simp [HoldsData])
        · rw [if_neg hcovers] at hk
          exact .inl ⟨hk, rfl⟩
      · rw [TagArray.lines_modifyLine_ne _ hi] at hk ⊢
        exact .inl ⟨hk, rfl⟩
  | writeAround _ lines =>
      rw [lines] at hk ⊢
      exact .inl ⟨hk, rfl⟩
  | @fetched r plan _ _ _ tags _ _ _ _ _ _ _ lines =>
      have hsame : ((c'.tagArray.lines i).stateAt k).status = ((r.tags.lines i).stateAt k).status ∧
          (c'.tagArray.lines i).tag = (r.tags.lines i).tag := by
        rw [lines]
        split_ifs
        · refine ⟨status_setModifiedOnFill, ?_⟩
          by_cases hi : i = r.idx
          · subst hi
            rw [TagArray.lines_modifyLine_self]
            rfl
          · rw [TagArray.lines_modifyLine_ne _ hi]
        · exact ⟨rfl, rfl⟩
      rw [HoldsData, hsame.1] at hk
      rw [hsame.2]
      exact .inl (tags.held hk)
  | @written r _ _ write policy tags probed miss taken queueRoom writes lines =>
      rw [lines] at hk ⊢
      by_cases hi : i = r.idx
      · subst hi
        rw [TagArray.lines_modifyLine_self] at hk ⊢
        rw [writes.tag]
        by_cases hcovers : Covers cfg.cacheType mf.sectorMask k
        · have honMiss : cfg.allocPolicy = .onMiss := by
            by_contra hne
            obtain ⟨hfetch, hlazy⟩ := cfg.onFill_writeAllocPolicy (cfg.onFill_of_ne hne)
            exact policy.elim hlazy fun h => hfetch h.1
          have htag := tags.tag_idx honMiss taken
          rw [CacheConfig.blockAddr_blockAddr] at htag
          have hstatus : r.status ∈ [RequestStatus.miss, .sectorMiss, .hitReserved] := by
            cases hs : r.status with
            | hit => exact absurd hs miss
            | reservationFail => exact absurd hs taken
            | _ => simp
          exact .inr ⟨⟨write, policy, queueRoom, r.status, hstatus, by rw [probed]; rfl⟩, htag.symm,
            hcovers⟩
        · rw [writes.others _ k hcovers] at hk
          exact .inl (tags.held hk)
      · rw [TagArray.lines_modifyLine_ne _ hi] at hk ⊢
        exact .inl (tags.held hk)

/-! ## Fills -/

theorem held_of_fill {b b' : CacheBlock ct}
    (hother : ¬ Covers ct mask k → HoldsData (b'.stateAt k) → HoldsData (b.stateAt k))
    (hk : HoldsData ((b'.fill time mask).stateAt k)) :
    HoldsData (b.stateAt k) ∨ Covers ct mask k := by
  by_cases hcovers : Covers ct mask k
  · exact .inr hcovers
  · rw [CacheBlock.stateAt_fill, if_neg hcovers] at hk
    exact .inl (hother hcovers hk)

theorem BlockFilled.held_or {tags tags' : TagArray ct} {addr : Addr}
    (h : BlockFilled cfg tags addr time mask tags') (hk : HoldsData ((tags'.lines i).stateAt k)) :
    (HoldsData ((tags.lines i).stateAt k) ∧ (tags'.lines i).tag = (tags.lines i).tag) ∨
      ((tags'.lines i).tag = cfg.blockAddr addr ∧ Covers ct mask k) := by
  cases h with
  | @found status idx outcome _ hit lines =>
      rw [lines] at hk ⊢
      by_cases hi : i = idx
      · subst hi
        rw [TagArray.lines_modifyLine_self] at hk ⊢
        rcases held_of_fill (fun _ h => h) hk with hold | hcovers
        · exact .inl ⟨hold, rfl⟩
        · refine .inr ⟨?_, hcovers⟩
          apply TagArray.tag_of_outcome outcome
          · rcases hit with rfl | rfl <;> decide
          · rcases hit with rfl | rfl <;> decide
      · rw [TagArray.lines_modifyLine_ne _ hi] at hk ⊢
        exact .inl ⟨hk, rfl⟩
  | @allocated idx _ _ lines =>
      rw [lines] at hk ⊢
      by_cases hi : i = idx
      · subst hi
        rw [TagArray.lines_modifyLine_self] at hk ⊢
        refine .inr ⟨CacheBlock.tag_allocate _ _, ?_⟩
        by_contra hcovers
        rw [CacheBlock.stateAt_fill, if_neg hcovers, HoldsData,
          CacheBlock.stateAt_allocate_of_not_covers _ _ hcovers] at hk
        exact absurd hk (by decide)
      · rw [TagArray.lines_modifyLine_ne _ hi] at hk ⊢
        exact .inl ⟨hk, rfl⟩
  | @allocatedSector idx outcome _ lines =>
      rw [lines] at hk ⊢
      by_cases hi : i = idx
      · subst hi
        rw [TagArray.lines_modifyLine_self] at hk ⊢
        have hother : ¬ Covers ct mask k → HoldsData
          (((tags.lines i).allocateSector time mask).stateAt k) →
            HoldsData ((tags.lines i).stateAt k) := by
          intro hcovers h
          rwa [CacheBlock.stateAt_allocateSector, if_neg hcovers] at h
        rcases held_of_fill hother hk with hold | hcovers
        · exact .inl ⟨hold, rfl⟩
        · exact .inr ⟨TagArray.tag_of_outcome outcome (by decide) (by decide), hcovers⟩
      · rw [TagArray.lines_modifyLine_ne _ hi] at hk ⊢
        exact .inl ⟨hk, rfl⟩

theorem Filled.held_or {uid : ℕ} {e : ExtraMfFields}
    (hr : c.RegistersInvariant) (hlands : cfg.allocPolicy = .onMiss → c.AllLand)
    (h : Filled c uid e time c')
    (hk : HoldsData ((c'.tagArray.lines i).stateAt k)) :
    (HoldsData ((c.tagArray.lines i).stateAt k) ∧
    (c'.tagArray.lines i).tag = (c.tagArray.lines i).tag) ∨
      (cfg.blockAddr e.addr = (c'.tagArray.lines i).tag ∧
        Covers cfg.cacheType e.mf.sectorMask k) := by
  have hwf := hr.record_wellFormed uid e h.record
  obtain ⟨entry, -, hlines⟩ := h.ready
  cases hlines with
  | onMiss policy lines =>
      rw [lines] at hk ⊢
      by_cases hi : i = e.cacheIndex
      · subst hi
        rw [TagArray.lines_modifyLine_self] at hk ⊢
        have htag : (fillLineOf cfg e time entry.hasAtomic (c.tagArray.lines e.cacheIndex)).tag
            = (c.tagArray.lines e.cacheIndex).tag := tag_fillLineOf _
        by_cases hcovers : Covers cfg.cacheType e.mf.sectorMask k
        · exact .inr ⟨(htag.trans (hlands policy uid e h.record).tag).symm, hcovers⟩
        · have hsame : (fillLineOf cfg e time entry.hasAtomic
            (c.tagArray.lines e.cacheIndex)).stateAt k
              = (c.tagArray.lines e.cacheIndex).stateAt k := stateAt_fillLineOf _ hcovers
          have hheld : HoldsData
              ((fillLineOf cfg e time entry.hasAtomic (c.tagArray.lines e.cacheIndex)).stateAt k) :=
                hk
          rw [hsame] at hheld
          exact .inl ⟨hheld, htag⟩
      · rw [TagArray.lines_modifyLine_ne _ hi] at hk ⊢
        exact .inl ⟨hk, rfl⟩
  | onFill _ _ filled =>
      rcases filled.held_or hk with hold | ⟨htag, hcovers⟩
      · exact .inl hold
      · rw [hwf.blockAddr, CacheConfig.blockAddr_mshrAddr, ← hwf.addr] at htag
        exact .inr ⟨htag.symm, hcovers⟩

theorem Stepped.held_or {a : CacheAction} (hr : c.RegistersInvariant)
    (hlands : cfg.allocPolicy = .onMiss → c.AllLand) (hs : Stepped kind c a c')
    (hk : HoldsData ((c'.tagArray.lines i).stateAt k)) :
    (HoldsData ((c.tagArray.lines i).stateAt k) ∧
    (c'.tagArray.lines i).tag = (c.tagArray.lines i).tag) ∨
      c.Brings (c'.tagArray.lines i).tag k a := by
  cases hs with
  | refused => exact .inl ⟨hk, rfl⟩
  | accessed _ _ h => exact h.held_or hk
  | cycled lines =>
      rw [lines] at hk ⊢
      exact .inl ⟨hk, rfl⟩
  | partlyFilled h =>
      rw [h.lines] at hk ⊢
      exact .inl ⟨hk, rfl⟩
  | filled reply_uid last h =>
      rcases h.held_or hr hlands hk with hold | ⟨htag, hcovers⟩
      · exact .inl hold
      · refine .inr ⟨_, ?_, last, htag, hcovers⟩
        rw [reply_uid]
        exact h.record
  | drained _ lines =>
      rw [lines] at hk ⊢
      exact .inl ⟨hk, rfl⟩

end BaselineCache

/-! ## Other actions -/

theorem keepsReserved_clear {lines lines' : ℕ → CacheBlock ct} {p : ℕ → Prop} [DecidablePred p]
    (hlines : ∀ i, lines' i = if p i then (lines i).clear else lines i)
    (hnone : ∀ i, p i → (lines i).isReservedLine = false) : KeepsReserved lines lines' := by
  intro i k hk
  rw [hlines]
  split_ifs with hi
  · have hreserved := CacheBlock.isReservedLine_iff.mpr ⟨k, hk⟩
    rw [hnone i hi] at hreserved
    cases hreserved
  · exact ⟨rfl, hk⟩

namespace BaselineCache

theorem RegistersInvariant.setAssoc {m : ℕ} {c : BaselineCache (cfg.setAssoc m)}
    (h : c.RegistersInvariant) (n : ℕ) : (c.setAssoc n).RegistersInvariant where
  pending := h.pending
  response_nodup := h.response_nodup
  response_mem := h.response_mem
  entries_le := h.entries_le
  merged_le := h.merged_le
  record_lt := h.record_lt
  record_wellFormed uid e he :=
    ⟨(h.record_wellFormed uid e he).addr, (h.record_wellFormed uid e he).blockAddr,
    (h.record_wellFormed uid e he).accepts⟩
  record_waits := h.record_waits
  record_unique := h.record_unique
  entry_record := h.entry_record

theorem RegistersInvariant.withTags {c : BaselineCache cfg} (h : c.RegistersInvariant)
    (tags : TagArray cfg.cacheType) : ({ c with tagArray := tags } :
    BaselineCache cfg).RegistersInvariant :=
  h.of_kept ⟨rfl, rfl, le_rfl⟩

theorem AllLand.setAssoc {m : ℕ} {c : BaselineCache (cfg.setAssoc m)} (h : c.AllLand) (n : ℕ) :
    (c.setAssoc n).AllLand :=
  fun uid e he => ⟨(h uid e he).tag, (h uid e he).reserved⟩

theorem AllLand.withTags {c : BaselineCache cfg} (h : c.AllLand) {tags : TagArray cfg.cacheType}
    (hkept : KeepsReserved c.tagArray.lines tags.lines) :
    ({ c with tagArray := tags } : BaselineCache cfg).AllLand := by
  intro uid e he
  have hlands : ({ c with tagArray := tags } : BaselineCache cfg).Lands e := (h uid e he).kept hkept
  exact ⟨hlands.tag, hlands.reserved⟩

end BaselineCache

namespace WatchedCache

variable {w w' : WatchedCache cfg}

/-- A flush or an invalidation comes to no line that waits for a fill, and an invalidation to
every line with data. No write takes a reserved sector. -/
def Undisturbed (nset : ℕ) (w : WatchedCache cfg) : FlushAction → Prop
  | .cache a => ¬ w.state.cache.TakesReserved a
  | .flush => cfg.allocPolicy = .onMiss → ∀ i, w.state.isUsed = true ∧ i < w.state.numLines nset ∧
      (w.state.lines i).isModifiedLine = true → (w.state.lines i).isReservedLine = false
  | .invalidate => w.state.Covered nset ∧ (cfg.allocPolicy = .onMiss → ∀ i, w.state.isUsed = true ∧
      i < w.state.numLines nset → (w.state.lines i).isReservedLine = false)
  | .setAssoc _ => True

/-- Only data that came since the last invalidation is in the cache. -/
structure Sound (w : WatchedCache cfg) : Prop where
  registers : w.state.cache.RegistersInvariant
  lands : cfg.allocPolicy = .onMiss → w.state.cache.AllLand
  since : ∀ i k, HoldsData ((w.state.lines i).stateAt k) → w.since (w.state.lines i).tag k = true

theorem sound_of_isNew (h : w.IsNew) : w.Sound := by
  obtain ⟨⟨assoc, cache, isUsed⟩, since⟩ := w
  obtain ⟨hempty, -, -⟩ := h
  rw [show cache = _ from hempty]
  refine ⟨.empty _, fun _ _ _ he => ?_, fun i k hk => ?_⟩
  · cases he
  · have hinvalid : (((CacheBlock.empty cfg.cacheType).stateAt k)).status = .invalid := by
      cases cfg.cacheType <;> rfl
    change HoldsData ((CacheBlock.empty cfg.cacheType).stateAt k) at hk
    rw [HoldsData, hinvalid] at hk
    exact absurd hk (by decide)

theorem Sound.cache {a : CacheAction} (h : w.Sound) (hguard : w.Undisturbed nset (.cache a))
    (henabled : w.state.cache.Enabled a) :
    OkOr Sound (fun _ => True) (w.step kind nset (.cache a)) := by
  have hspec : OkOr (BaselineCache.Stepped kind w.state.cache a) _ (w.state.cache.step kind a) :=
    BaselineCache.step_spec a henabled
  show OkOr _ _ ((w.state.cache.step kind a >>= _) >>= _)
  cases hstep : w.state.cache.step kind a with
  | error e => trivial
  | ok c =>
      have hs := hspec.of_ok hstep
      refine ⟨h.registers.stepped henabled hs, fun honMiss =>
        (h.lands honMiss).stepped honMiss h.registers hguard hs,
        fun i k hk => ?_⟩
      show (w.since _ k || decide (w.state.cache.Brings _ k a)) = true
      rw [Bool.or_eq_true, decide_eq_true_iff]
      rcases hs.held_or h.registers h.lands hk with ⟨hold, htag⟩ | hbrings
      · refine .inl ?_
        have hsince := h.since i k hold
        rw [← htag] at hsince
        exact hsince
      · exact .inr hbrings

theorem Sound.flush (h : w.Sound) (hguard : w.Undisturbed nset .flush) :
    Sound ⟨w.state.flush nset, w.since⟩ where
  registers := h.registers.withTags _
  lands honMiss := (h.lands honMiss).withTags
    (keepsReserved_clear FlushableCache.lines_flush (hguard honMiss))
  since i k hk := by
    change HoldsData (((w.state.flush nset).lines i).stateAt k) at hk
    show w.since ((w.state.flush nset).lines i).tag k = true
    rw [FlushableCache.lines_flush] at hk ⊢
    split_ifs at hk ⊢ with hcleared
    · exact absurd hk (not_holdsData_clear _ _)
    · exact h.since i k hk

theorem Sound.invalidate (h : w.Sound) (hguard : w.Undisturbed nset .invalidate) :
    Sound ⟨w.state.invalidate nset, fun _ _ => false⟩ where
  registers := h.registers.withTags _
  lands honMiss := (h.lands honMiss).withTags
    (keepsReserved_clear FlushableCache.lines_invalidate (hguard.2 honMiss))
  since i k hk := absurd hk (FlushableCache.not_holdsData_invalidate_iff.mpr hguard.1 i k)

theorem Sound.step {a : FlushAction} (h : w.Sound) (hguard : w.Undisturbed nset a)
    (henabled : w.state.Enabled a) : OkOr Sound (fun _ => True) (w.step kind nset a) := by
  cases a with
  | cache a => exact h.cache hguard henabled
  | flush => exact h.flush hguard
  | invalidate => exact h.invalidate hguard
  | setAssoc n =>
      exact ⟨h.registers.setAssoc n, fun honMiss => (h.lands honMiss).setAssoc n, h.since⟩

/-- Nothing stale is hit: a probe only hits data that came since the last invalidation. -/
def HitsFresh (w : WatchedCache cfg) : Prop :=
  ∀ addr mask idx, w.state.cache.tagArray.outcome (cfg.setAssoc w.state.assoc) addr mask =
    some (.hit, idx) →
    w.since (cfg.blockAddr addr) (getSectorIndex mask) = true

theorem Sound.hitsFresh (h : w.Sound) : w.HitsFresh := by
  intro addr mask idx houtcome
  have htag : (w.state.lines idx).tag = (cfg.setAssoc w.state.assoc).blockAddr addr :=
    TagArray.tag_of_outcome houtcome (by decide) (by decide)
  show w.since ((cfg.setAssoc w.state.assoc).blockAddr addr) _ = true
  rw [← htag]
  exact h.since idx _ (TagArray.held_of_outcome houtcome)

/-- Actions of which it can be computed that they are not disturbed. -/
def PlainAction (w : WatchedCache cfg) : FlushAction → Prop
  | .cache a => ¬ w.state.cache.TakesReserved a
  | .setAssoc _ => True
  | .flush | .invalidate => False

instance (w : WatchedCache cfg) (a : FlushAction) : Decidable (w.PlainAction a) :=
  match a with
  | .cache a => inferInstanceAs (Decidable (¬ w.state.cache.TakesReserved a))
  | .setAssoc _ => inferInstanceAs (Decidable True)
  | .flush | .invalidate => inferInstanceAs (Decidable False)

theorem PlainAction.undisturbed {a : FlushAction} (h : w.PlainAction a) : w.Undisturbed nset a := by
  cases a with
  | cache a => exact h
  | setAssoc n => trivial
  | flush => exact h.elim
  | invalidate => exact h.elim

end WatchedCache

/-! ## Two blocks -/

/-- A cache of one set with two ways. -/
def twoWayCache : WatchedCache (oneLineConfig .writeEvict .noWriteAllocate) where
  state := { assoc := 2, cache := { nextUid := 9 } }
  since _ _ := false

/-- Two blocks are read and filled. -/
def twoFills : List FlushAction :=
  [.cache (.access (globalRequest 1 0 false) 1), .cache (.cycle false),
    .cache (.fill (globalRequest 1 0 false) 2), .cache (.access (globalRequest 2 128 false) 3),
    .cache (.cycle false), .cache (.fill (globalRequest 2 128 false) 4)]

end GpuCalorie.Cache
