/-
# Victims over sequences of calls

Every call keeps `Dated`: an access or a fill changes one line, which is then not invalid,
and leaves it the times of the call; a line gets a new tag only where no line of its set
holds that block.
-/

import GpuCalorie.Cache.Machine
import GpuCalorie.Cache.Replacement
import Mathlib.Data.UInt

namespace GpuCalorie.Cache

open GpuCalorie.Math TransitionSystem

variable {cfg : CacheConfig} {ct : CacheType} {addr : Addr} {way : ℕ}

/-! ## What changes of a line do -/

section Lines

variable {b : CacheBlock ct} {mask : SectorMask} {time : UInt32}

theorem isInvalidLine_eq_false_iff :
    b.isInvalidLine = false ↔ ∃ k, (b.stateAt k).status ≠ .invalid := by
  rw [← Bool.not_eq_true, CacheBlock.isInvalidLine_iff, not_forall]

theorem isReservedLine_eq_false_iff :
    b.isReservedLine = false ↔ ∀ k, (b.stateAt k).status ≠ .reserved := by
  rw [← Bool.not_eq_true, CacheBlock.isReservedLine_iff, not_exists]

/-- The times replacement goes by. -/
def CacheBlock.times (b : CacheBlock ct) : UInt32 × UInt32 :=
  (b.getLastAccessTime, b.getAllocTime)

theorem times_update {change : SectorState → SectorState}
    (hlast : ∀ s, (change s).lastAccessTime = s.lastAccessTime)
    (halloc : ∀ s, (change s).allocTime = s.allocTime) :
    (b.update mask change).times = b.times := by
  obtain ⟨tag, blockAddr, body⟩ := b
  cases body with
  | line state => exact Prod.ext (hlast state) (halloc state)
  | sectors sectorLine => rfl

theorem times_fill : (b.fill time mask).times = b.times := by
  obtain ⟨tag, blockAddr, body⟩ := b
  cases body <;> rfl

theorem times_mark (change : BlockMark) : (change.apply mask b).times = b.times := by
  cases change <;> exact times_update (fun _ => rfl) fun _ => rfl

theorem times_setLastAccessTime :
    (b.setLastAccessTime time mask).times = (time, b.times.2) := by
  obtain ⟨tag, blockAddr, body⟩ := b
  cases body <;> rfl

theorem times_allocate (tag blockAddr : Addr) :
    (b.allocate tag blockAddr time mask).times = (time, time) := by
  obtain ⟨_, _, body⟩ := b
  cases body <;> rfl

theorem times_allocateSector (hct : ct = .sector) :
    (b.allocateSector time mask).times = (time, b.times.2) := by
  obtain ⟨tag, blockAddr, body⟩ := b
  cases body with
  | line state => cases hct
  | sectors sectorLine => rfl

theorem isInvalidLine_setLastAccessTime :
    (b.setLastAccessTime time mask).isInvalidLine = b.isInvalidLine := by
  simp only [CacheBlock.isInvalidLine, CacheBlock.status_setLastAccessTime]

theorem isReservedLine_setLastAccessTime :
    (b.setLastAccessTime time mask).isReservedLine = b.isReservedLine := by
  simp only [CacheBlock.isReservedLine, CacheBlock.status_setLastAccessTime]

theorem isInvalidLine_allocate (tag blockAddr : Addr) :
    (b.allocate tag blockAddr time mask).isInvalidLine = false := by
  rw [isInvalidLine_eq_false_iff]
  refine ⟨getSectorIndex mask, ?_⟩
  rw [(CacheBlock.stateAt_allocate_of_covers tag blockAddr (by simp)).1]
  decide

theorem isInvalidLine_allocateSector : (b.allocateSector time mask).isInvalidLine = false := by
  rw [isInvalidLine_eq_false_iff]
  refine ⟨getSectorIndex mask, ?_⟩
  rw [CacheBlock.stateAt_allocateSector, if_pos (by simp)]
  nofun

theorem status_fill {k : Fin 4} (hk : Covers ct mask k) :
    ((b.fill time mask).stateAt k).status = .valid ∨
      ((b.fill time mask).stateAt k).status = .modified := by
  rw [CacheBlock.stateAt_fill, if_pos hk]
  cases (b.stateAt k).modifiedOnFill
  · exact .inl rfl
  · exact .inr rfl

theorem isInvalidLine_fill : (b.fill time mask).isInvalidLine = false := by
  rw [isInvalidLine_eq_false_iff]
  refine ⟨getSectorIndex mask, fun hinvalid => ?_⟩
  have hfilled := @status_fill ct b mask time _ (CacheBlock.covers_getSectorIndex ct mask)
  rcases hfilled with h | h <;> rw [hinvalid] at h <;> cases h

theorem isReservedLine_fill
    (hother : ∀ k, ¬ Covers ct mask k → (b.stateAt k).status ≠ .reserved) :
    (b.fill time mask).isReservedLine = false := by
  rw [isReservedLine_eq_false_iff]
  intro k
  by_cases hk : Covers ct mask k
  · rcases @status_fill ct b mask time k hk with h | h <;> rw [h] <;> decide
  · rw [CacheBlock.stateAt_fill, if_neg hk]
    exact hother k hk

theorem isInvalidLine_mark (change : BlockMark) (h : b.isInvalidLine = false) :
    (change.apply mask b).isInvalidLine = false := by
  rw [isInvalidLine_eq_false_iff] at h ⊢
  obtain ⟨k, hk⟩ := h
  refine ⟨k, ?_⟩
  cases change with
  | modified =>
      rw [BlockMark.apply, CacheBlock.stateAt_setStatus]
      split_ifs
      · nofun
      · exact hk
  | ignoreOnFill value =>
      rw [BlockMark.apply, CacheBlock.stateAt_setIgnoreOnFill]
      split_ifs <;> exact hk
  | modifiedOnFill value =>
      rw [BlockMark.apply, CacheBlock.stateAt_setModifiedOnFill]
      split_ifs <;> exact hk
  | readable value =>
      rw [BlockMark.apply, CacheBlock.stateAt_setReadable]
      split_ifs <;> exact hk

theorem isReservedLine_mark (change : BlockMark) (h : b.isReservedLine = false) :
    (change.apply mask b).isReservedLine = false := by
  rw [isReservedLine_eq_false_iff] at h ⊢
  intro k
  have hk := h k
  cases change with
  | modified =>
      rw [BlockMark.apply, CacheBlock.stateAt_setStatus]
      split_ifs
      · nofun
      · exact hk
  | ignoreOnFill value =>
      rw [BlockMark.apply, CacheBlock.stateAt_setIgnoreOnFill]
      split_ifs <;> exact hk
  | modifiedOnFill value =>
      rw [BlockMark.apply, CacheBlock.stateAt_setModifiedOnFill]
      split_ifs <;> exact hk
  | readable value =>
      rw [BlockMark.apply, CacheBlock.stateAt_setReadable]
      split_ifs <;> exact hk

theorem tag_mark (change : BlockMark) : (change.apply mask b).tag = b.tag := by
  cases change <;> rfl

end Lines

/-! ## Tags -/

section Tags

variable {tags : TagArray ct} {change : CacheBlock ct → CacheBlock ct}

theorem way_eq {set set' assoc way way' : ℕ} (hway : way < assoc) (hway' : way' < assoc)
    (h : set * assoc + way = set' * assoc + way') : set = set' ∧ way = way' := by
  have hassoc : 0 < assoc := (Nat.zero_le way).trans_lt hway
  have hset : ∀ n {w : ℕ}, w < assoc → (n * assoc + w) / assoc = n := fun n w hw => by
    rw [Nat.add_comm, Nat.add_mul_div_right _ _ hassoc, Nat.div_eq_of_lt hw, Nat.zero_add]
  have heq : set = set' := by rw [← hset set hway, h, hset set' hway']
  rw [heq] at h
  exact ⟨heq, Nat.add_left_cancel h⟩

theorem UniqueTags.modifyLine (h : UniqueTags cfg tags) {idx : ℕ}
    (hvalid : (tags.lines idx).isInvalidLine = false)
    (htag : (change (tags.lines idx)).tag = (tags.lines idx).tag) :
    UniqueTags cfg (tags.modifyLine idx change) := by
  have hline : ∀ j, ((tags.modifyLine idx change).lines j).tag = (tags.lines j).tag := by
    intro j
    by_cases hj : j = idx
    · rw [hj, TagArray.lines_modifyLine_self, htag]
    · rw [TagArray.lines_modifyLine_ne _ hj]
  have hheld : ∀ j, ((tags.modifyLine idx change).lines j).isInvalidLine = false →
      (tags.lines j).isInvalidLine = false := by
    intro j hj
    by_cases hidx : j = idx
    · rw [hidx]
      exact hvalid
    · rwa [TagArray.lines_modifyLine_ne _ hidx] at hj
  intro set way hway way' hway' hvalid hvalid' htags
  rw [hline, hline] at htags
  exact h set way hway way' hway' (hheld _ hvalid) (hheld _ hvalid') htags

theorem UniqueTags.allocate (h : UniqueTags cfg tags)
    (hway : way < cfg.assoc) (habsent : Absent cfg tags addr)
    (htag : (change (tags.lines (cfg.setIndex addr * cfg.assoc + way))).tag =
      cfg.blockAddr addr) :
    UniqueTags cfg (tags.modifyLine (cfg.setIndex addr * cfg.assoc + way) change) := by
  -- no other way of the set holds the block
  have hnew : ∀ set w, w < cfg.assoc → set * cfg.assoc + w ≠ cfg.setIndex addr * cfg.assoc + way →
      set = cfg.setIndex addr → (tags.lines (set * cfg.assoc + w)).isInvalidLine = false →
      (tags.lines (set * cfg.assoc + w)).tag ≠ cfg.blockAddr addr := by
    rintro set w hw - rfl hvalid heq
    rw [habsent w hw heq] at hvalid
    cases hvalid
  intro set w hw w' hw' hvalid hvalid' htags
  by_cases hj : set * cfg.assoc + w = cfg.setIndex addr * cfg.assoc + way
  · by_cases hj' : set * cfg.assoc + w' = cfg.setIndex addr * cfg.assoc + way
    · exact (way_eq hw hway hj).2.trans (way_eq hw' hway hj').2.symm
    · rw [TagArray.lines_modifyLine_ne _ hj'] at hvalid' htags
      rw [hj, TagArray.lines_modifyLine_self, htag] at htags
      exact absurd htags.symm (hnew set w' hw' hj' (way_eq hw hway hj).1 hvalid')
  · rw [TagArray.lines_modifyLine_ne _ hj] at hvalid htags
    by_cases hj' : set * cfg.assoc + w' = cfg.setIndex addr * cfg.assoc + way
    · rw [hj', TagArray.lines_modifyLine_self, htag] at htags
      exact absurd htags (hnew set w hw hj (way_eq hw' hway hj').1 hvalid)
    · rw [TagArray.lines_modifyLine_ne _ hj'] at hvalid' htags
      exact h set w hw w' hw' hvalid hvalid' htags

end Tags

/-! ## Calls -/

section Calls

variable {epoch : ℕ} {s : TimedTags cfg} {idx : ℕ}
  {change : CacheBlock cfg.cacheType → CacheBlock cfg.cacheType} {recency : Recency}
  {mask : SectorMask} {time : UInt64}

theorem Dated.empty (cfg : CacheConfig) (epoch : ℕ) : Dated epoch ({} : TimedTags cfg) := by
  have hinvalid : ∀ ct, (CacheBlock.empty ct).isInvalidLine = true := by
    intro ct
    cases ct <;> rfl
  have hreserved : ∀ ct, (CacheBlock.empty ct).isReservedLine = false := by
    intro ct
    cases ct <;> rfl
  constructor
  · intro set way _ way' _ hvalid
    rw [hinvalid] at hvalid
    cases hvalid
  · intro idx hvalid
    rw [hinvalid] at hvalid
    cases hvalid
  · intro idx hidx
    cases hidx
  · exact fun _ _ => hreserved _

theorem Dated.use (h : Dated epoch s) (hunique : UniqueTags cfg (s.tags.modifyLine idx change))
    (hvalid : (change (s.tags.lines idx)).isInvalidLine = false)
    (hdated : LineDated epoch recency idx (change (s.tags.lines idx)))
    (hother : ∀ j, j ≠ idx → recency.accessed j = s.recency.accessed j ∧
      recency.allocated j = s.recency.allocated j)
    (hfree : cfg.allocPolicy = .onFill → (change (s.tags.lines idx)).isReservedLine = false) :
    Dated epoch ⟨s.tags.modifyLine idx change, recency, idx :: s.held⟩ := by
  have hself := s.tags.lines_modifyLine_self idx change
  have hlines : ∀ {j}, j ≠ idx → (s.tags.modifyLine idx change).lines j = s.tags.lines j :=
    TagArray.lines_modifyLine_ne change
  refine ⟨hunique, fun j hj => ?_, fun j hj => ?_, fun honFill j => ?_⟩
  · by_cases hidx : j = idx
    · rw [hidx]
      simp only [hself]
      exact hdated
    · simp only [hlines hidx] at hj ⊢
      have hold := h.dated j hj
      obtain ⟨haccessed, hallocated⟩ := hother j hidx
      constructor
      · simpa only [haccessed] using hold.accessed
      · simpa only [hallocated] using hold.allocated
      · simpa only [haccessed] using hold.lastAccessTime
      · simpa only [hallocated] using hold.allocTime
  · by_cases hidx : j = idx
    · simpa only [hidx, hself] using hvalid
    · simpa only [hlines hidx] using h.held j (List.mem_of_ne_of_mem hidx hj)
  · by_cases hidx : j = idx
    · simpa only [hidx, hself] using hfree honFill
    · simpa only [hlines hidx] using h.unreserved honFill j

theorem Dated.touch (h : Dated epoch s) (htime : InEpoch epoch time)
    (hvalid : (s.tags.lines idx).isInvalidLine = false)
    (htag : (change (s.tags.lines idx)).tag = (s.tags.lines idx).tag)
    (hstays : (change (s.tags.lines idx)).isInvalidLine = false)
    (htimes : (change (s.tags.lines idx)).times = (time.toUInt32, (s.tags.lines idx).times.2))
    (hfree : cfg.allocPolicy = .onFill → (change (s.tags.lines idx)).isReservedLine = false) :
    Dated epoch ⟨s.tags.modifyLine idx change, s.recency.touch idx time, idx :: s.held⟩ := by
  have hold := h.dated idx hvalid
  refine h.use (h.unique.modifyLine hvalid htag) hstays ?_ (fun j hj => ?_) hfree
  · have haccessed : (s.recency.touch idx time).accessed idx = time := Function.update_self ..
    constructor
    · rw [haccessed]
      exact htime
    · exact hold.allocated
    · rw [haccessed]
      exact congrArg Prod.fst htimes
    · exact (congrArg Prod.snd htimes).trans hold.allocTime
  · exact ⟨Function.update_of_ne hj .., rfl⟩

theorem Dated.allocate (h : Dated epoch s) (htime : InEpoch epoch time)
    (hway : way < cfg.assoc) (habsent : Absent cfg s.tags addr)
    (hidx : idx = cfg.setIndex addr * cfg.assoc + way)
    (htag : (change (s.tags.lines idx)).tag = cfg.blockAddr addr)
    (hvalid : (change (s.tags.lines idx)).isInvalidLine = false)
    (htimes : (change (s.tags.lines idx)).times = (time.toUInt32, time.toUInt32))
    (hfree : cfg.allocPolicy = .onFill → (change (s.tags.lines idx)).isReservedLine = false) :
    Dated epoch ⟨s.tags.modifyLine idx change, s.recency.allocate idx time, idx :: s.held⟩ := by
  subst hidx
  refine h.use (h.unique.allocate hway habsent htag) hvalid ?_ (fun j hj => ?_) hfree
  · have haccessed : ∀ j, (s.recency.allocate j time).accessed j = time :=
      fun j => Function.update_self ..
    have hallocated : ∀ j, (s.recency.allocate j time).allocated j = time :=
      fun j => Function.update_self ..
    constructor
    · rw [haccessed]
      exact htime
    · rw [hallocated]
      exact htime
    · rw [haccessed]
      exact congrArg Prod.fst htimes
    · rw [hallocated]
      exact congrArg Prod.snd htimes
  · exact ⟨Function.update_of_ne hj .., Function.update_of_ne hj ..⟩

theorem Dated.keep (h : Dated epoch s) (hvalid : (s.tags.lines idx).isInvalidLine = false)
    (htag : (change (s.tags.lines idx)).tag = (s.tags.lines idx).tag)
    (hstays : (change (s.tags.lines idx)).isInvalidLine = false)
    (htimes : (change (s.tags.lines idx)).times = (s.tags.lines idx).times)
    (hfree : cfg.allocPolicy = .onFill → (change (s.tags.lines idx)).isReservedLine = false) :
    Dated epoch ⟨s.tags.modifyLine idx change, s.recency, idx :: s.held⟩ := by
  have hold := h.dated idx hvalid
  exact h.use (h.unique.modifyLine hvalid htag) hstays
    ⟨hold.accessed, hold.allocated, (congrArg Prod.fst htimes).trans hold.lastAccessTime,
      (congrArg Prod.snd htimes).trans hold.allocTime⟩
    (fun _ _ => ⟨rfl, rfl⟩) hfree

theorem Dated.of_held_cons {tags : TagArray cfg.cacheType} {held : List ℕ}
    (h : Dated epoch (⟨tags, recency, idx :: held⟩ : TimedTags cfg)) :
    Dated epoch (⟨tags, recency, held⟩ : TimedTags cfg) :=
  ⟨h.unique, h.dated, fun j hj => h.held j (List.mem_cons_of_mem _ hj), h.unreserved⟩

theorem isInvalidLine_of_matchLine {line : CacheBlock ct}
    {status : RequestStatus} (h : matchLine line mask = some status) :
    line.isInvalidLine = false := by
  by_contra hinvalid
  rw [matchLine_eq_none_iff.mpr (Bool.eq_true_of_not_eq_false hinvalid)] at h
  cases h

variable (h : Dated epoch s)
include h

theorem Dated.access {mf : MemFetch} {r : TagAccess cfg.cacheType} (htime : InEpoch epoch time)
    (hr : TagAccessed cfg s.tags addr time.toUInt32 mf r) : Dated epoch (s.afterAccess r time) := by
  cases hr with
  | @touched status way inSet tag matched hit =>
      have hvalid := isInvalidLine_of_matchLine matched
      have htouched : Dated epoch
          ⟨s.tags.modifyLine (cfg.setIndex addr * cfg.assoc + way)
              (·.setLastAccessTime time.toUInt32 mf.sectorMask),
            s.recency.touch (cfg.setIndex addr * cfg.assoc + way) time,
            (cfg.setIndex addr * cfg.assoc + way) :: s.held⟩ := by
        apply h.touch htime hvalid CacheBlock.tag_setLastAccessTime
        · rw [isInvalidLine_setLastAccessTime, hvalid]
        · exact times_setLastAccessTime
        · intro honFill
          rw [isReservedLine_setLastAccessTime, h.unreserved honFill]
      rcases hit with rfl | rfl <;> exact htouched
  | @allocated way wb evicted inSet noMatch unreserved onMiss dirty info =>
      rw [TimedTags.afterAccess]
      simp only [if_pos onMiss]
      apply h.allocate htime inSet (noMatch_iff.mp noMatch) rfl (CacheBlock.tag_allocate _ _)
        (isInvalidLine_allocate _ _) (times_allocate _ _)
      intro honFill
      rw [onMiss] at honFill
      cases honFill
  | @allocatedSector way inSet tag matched sector onMiss validLine =>
      rw [TimedTags.afterAccess]
      simp only [if_pos onMiss]
      apply h.touch htime (isInvalidLine_of_matchLine matched) CacheBlock.tag_allocateSector
        isInvalidLine_allocateSector (times_allocateSector sector)
      intro honFill
      rw [onMiss] at honFill
      cases honFill
  | deferred _ miss onFill =>
      have hnot : ¬ cfg.allocPolicy = .onMiss := by
        rw [onFill]
        decide
      rcases miss with rfl | rfl <;>
      · rw [TimedTags.afterAccess]
        simp only [if_neg hnot]
        exact h
  | full _ => exact h

theorem Dated.fillHeld (hvalid : (s.tags.lines idx).isInvalidLine = false)
    (time : UInt32) (mask : SectorMask) :
    Dated epoch ⟨s.tags.modifyLine idx (·.fill time mask), s.recency, idx :: s.held⟩ := by
  apply h.keep hvalid CacheBlock.tag_fill isInvalidLine_fill times_fill
  intro honFill
  exact isReservedLine_fill fun k _ =>
    isReservedLine_eq_false_iff.mp (h.unreserved honFill idx) k

theorem Dated.fillAllocated (htime : InEpoch epoch time) (hway : way < cfg.assoc)
    (habsent : Absent cfg s.tags addr) (hidx : idx = cfg.setIndex addr * cfg.assoc + way) :
    Dated epoch
      ⟨s.tags.modifyLine idx fun b =>
          (b.allocate (cfg.blockAddr addr) (cfg.blockAddr addr) time.toUInt32 mask).fill
            time.toUInt32 mask,
        s.recency.allocate idx time, idx :: s.held⟩ := by
  apply h.allocate htime hway habsent hidx
  · rw [CacheBlock.tag_fill, CacheBlock.tag_allocate]
  · exact isInvalidLine_fill
  · rw [times_fill, times_allocate]
  · intro _
    apply isReservedLine_fill
    intro k hk
    rw [CacheBlock.stateAt_allocate_of_not_covers _ _ hk]
    decide

theorem Dated.fillSector (hsector : cfg.cacheType = .sector) (htime : InEpoch epoch time)
    (hvalid : (s.tags.lines idx).isInvalidLine = false) :
    Dated epoch
      ⟨s.tags.modifyLine idx fun b =>
          (b.allocateSector time.toUInt32 mask).fill time.toUInt32 mask,
        s.recency.touch idx time, idx :: s.held⟩ := by
  apply h.touch htime hvalid
  · rw [CacheBlock.tag_fill, CacheBlock.tag_allocateSector]
  · exact isInvalidLine_fill
  · rw [times_fill, times_allocateSector hsector]
  · intro honFill
    apply isReservedLine_fill
    intro k hk
    rw [CacheBlock.stateAt_allocateSector, if_neg hk]
    exact isReservedLine_eq_false_iff.mp (h.unreserved honFill idx) k

omit h in
theorem Probed.isInvalidLine {tags : TagArray ct}
    {status : RequestStatus} (h : Probed cfg tags addr mask status idx)
    (hit : status = .hit ∨ status = .hitReserved) : (tags.lines idx).isInvalidLine = false := by
  cases h with
  | found _ _ matched => exact isInvalidLine_of_matchLine matched
  | victim _ _ _ miss =>
      rcases hit with rfl | rfl <;> rcases miss with h | ⟨h, -⟩ <;> cases h
  | full => rcases hit with h | h <;> cases h

theorem Dated.fill (htime : InEpoch epoch time) (hroom : HasRoom cfg s.tags addr) :
    OkOr (Dated epoch) (· ≠ .noVictim) (s.step (.fill addr time mask)) := by
  have hselects := h.selects addr 0 mask none
  rw [TimedTags.step]
  cases hprobe : s.tags.probe cfg addr 0 mask none with
  | error e =>
      intro he
      rw [he] at hprobe
      exact hselects.noAbort hprobe
  | ok found =>
      obtain ⟨status, i⟩ := found
      have hprobed := (TagArray.probe_ok hprobe).1
      simp only [bind, Except.bind, TagArray.fillBlock, hprobe]
      cases status with
      | hit => exact h.fillHeld (hprobed.isInvalidLine (.inl rfl)) ..
      | hitReserved => exact h.fillHeld (hprobed.isInvalidLine (.inr rfl)) ..
      | miss =>
          cases hprobed with
          | found _ _ matched =>
              rcases matchLine_some matched with ⟨hs, -⟩ | ⟨hs, -⟩ | ⟨hs, -⟩ <;> cases hs
          | @victim _ way inSet noMatch _ _ =>
              rw [TagArray.modifyLine_modifyLine]
              exact h.fillAllocated htime inSet (noMatch_iff.mp noMatch) rfl
      | sectorMiss =>
          split_ifs with hsector hvalid
          · rintro ⟨⟩
          · simp only [TagArray.modifyLine_modifyLine]
            exact h.fillSector (not_not.mp hsector) htime
              (CacheBlock.isInvalidLine_of_isValidLine hvalid)
          · rintro ⟨⟩
      | reservationFail =>
          -- it has room
          obtain ⟨habsent, hall⟩ := hselects.full i hprobe
          cases hprobed with
          | found _ _ matched =>
              rcases matchLine_some matched with ⟨hs, -⟩ | ⟨hs, -⟩ | ⟨hs, -⟩ <;> cases hs
          | victim _ _ _ miss => rcases miss with hs | ⟨hs, -⟩ <;> cases hs
          | full _ _ onMiss =>
              obtain ⟨way, hway, htag | hfree⟩ := hroom onMiss
              · have hinvalid := habsent way hway htag
                rw [isInvalidLine_of_isReservedLine (hall way hway)] at hinvalid
                cases hinvalid
              · rw [hall way hway] at hfree
                cases hfree

theorem Dated.step {call : TagCall} (hcovered : s.Covered epoch call)
    (henabled : s.Enabled call) : OkOr (Dated epoch) (· ≠ .noVictim) (s.step call) := by
  cases call with
  | access addr time mf =>
      rw [TimedTags.step]
      cases haccess : s.tags.access cfg addr time.toUInt32 noIndex mf with
      | ok r => exact h.access hcovered (TagArray.access_ok haccess)
      | error e =>
          intro he
          rw [he, TagArray.access] at haccess
          cases hprobe : s.tags.probe cfg addr noIndex mf.sectorMask none with
          | error e' =>
              rw [hprobe] at haccess
              cases haccess
              exact (h.selects addr noIndex mf.sectorMask none).noAbort hprobe
          | ok found =>
              obtain ⟨status, i⟩ := found
              rw [hprobe] at haccess
              simp only [bind, Except.bind] at haccess
              cases status <;> simp only at haccess
              all_goals first | cases haccess | (split_ifs at haccess <;> cases haccess)
  | fill addr time mask => exact h.fill hcovered.1 hcovered.2
  | fillIndex idx time mask =>
      rw [TimedTags.step, TagArray.fillLine]
      split_ifs
      · exact (h.fillHeld (h.held idx henabled) ..).of_held_cons
      · rintro ⟨⟩
  | mark idx mask change =>
      have hvalid := h.held idx henabled
      have hkept : Dated epoch
          ⟨s.tags.modifyLine idx (change.apply mask), s.recency, idx :: s.held⟩ :=
        h.keep hvalid (tag_mark change) (isInvalidLine_mark change hvalid) (times_mark change)
          fun honFill => isReservedLine_mark change (h.unreserved honFill idx)
      exact hkept.of_held_cons

end Calls

/-- Where all calls are covered, tags are unique and every probe selects the right line. -/
theorem selectsVictims_of_covered (cfg : CacheConfig) (epoch : ℕ)
    {r : Except CacheFailure (TimedTags cfg)}
    (reached : ((tagSystem cfg).restrict (onOk (TimedTags.Covered epoch))).Reachable r) :
    OkOr SelectsVictims (· ≠ .noVictim) r := by
  have hdated : OkOr (Dated epoch) (· ≠ .noVictim) r := by
    apply reached.invariant_ofExcept
    · rintro s rfl
      exact Dated.empty cfg epoch
    · exact fun s call h hcovered henabled => h.step hcovered henabled
  exact hdated.imp fun s h => ⟨h.unique, fun addr idx mask mode => h.selects addr idx mask mode⟩

/-- A miss and its fill at the start of an epoch, and another miss at its end. -/
theorem selectsVictims_secondEpoch :
    ∃ s : TimedTags (oneLineConfig .readOnly .noWriteAllocate),
      s.recency.accessed 0 = 2 ^ 33 - 2 ∧ SelectsVictims s := by
  let calls : List TagCall :=
    [.access 0x1000 (2 ^ 32) (globalRequest 1 0x1000 false), .fillIndex 0 (2 ^ 32 + 9) {0},
      .access 0x2000 (2 ^ 33 - 2) (globalRequest 2 0x2000 false)]
  have hrun : ((execOk (fun s call => s.Covered 1 call ∧ s.Enabled call) TimedTags.step
      ({} : TimedTags (oneLineConfig .readOnly .noWriteAllocate)) calls).map
        fun s => s.recency.accessed 0) = some (2 ^ 33 - 2) := by decide +kernel
  obtain ⟨s, hs, haccessed⟩ := Option.map_eq_some_iff.mp hrun
  have hreached : ((tagSystem _).restrict (onOk (TimedTags.Covered 1))).Reachable (.ok s) :=
    .execOk_restrict calls (.init ⟨_, rfl, rfl⟩) hs
  exact ⟨s, haccessed, selectsVictims_of_covered _ 1 hreached⟩

/-- A line that was accessed in the cycle before 2^32 cannot be replaced: `probe` aborts. -/
theorem not_selectsVictims_lastCycle :
    ¬ ∀ (cfg : CacheConfig) (calls : List TagCall) (s : TimedTags cfg),
      (calls.filterMap TagCall.time).Pairwise (· ≤ ·) →
      execOk TimedTags.Enabled TimedTags.step {} calls = some s → SelectsVictims s := by
  intro hall
  let calls : List TagCall :=
    [.access 0x1000 (2 ^ 32 - 1) (globalRequest 1 0x1000 false), .fillIndex 0 (2 ^ 32 - 1) {0}]
  have hrun : ((execOk TimedTags.Enabled TimedTags.step
      ({} : TimedTags (oneLineConfig .readOnly .noWriteAllocate)) calls).map
        fun s => s.tags.probe (oneLineConfig .readOnly .noWriteAllocate) 0x2000 0 {0} none) =
      some (.error .noVictim) := by decide +kernel
  obtain ⟨s, hs, hprobe⟩ := Option.map_eq_some_iff.mp hrun
  have hselects := hall _ calls s (by decide) hs
  exact (hselects.2 0x2000 0 {0} none).noAbort hprobe

end GpuCalorie.Cache
