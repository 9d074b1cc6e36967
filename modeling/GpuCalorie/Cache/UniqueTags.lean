/-
# A block is held once

Lines of a set that are not invalid hold different blocks in every run. A fill by index goes by
its record and does not look at the tags: a line that became invalid while it waited would come
back as a second line of its block. Only a write that evicts makes a line invalid, and it does
not find the sectors that wait for a fill unless a write has taken one of them before.
-/

import GpuCalorie.Cache.Reservation
import GpuCalorie.Cache.Victims

namespace GpuCalorie.Cache

open GpuCalorie.Math TransitionSystem

variable {cfg : CacheConfig} {ct : CacheType} {tags tags' tags'' : TagArray ct} {addr : Addr}
  {time : UInt32} {mf : MemFetch} {mask : SectorMask} {idx : ℕ}
  {change : CacheBlock ct → CacheBlock ct}

/-- Writes take no sectors that wait for a fill, or do not evict. -/
def CacheConfig.KeepsTags (cfg : CacheConfig) : Prop :=
  (cfg.writeAllocPolicy ≠ .lazyFetchOnRead ∧ cfg.writeAllocPolicy ≠ .fetchOnWrite) ∨
    (cfg.writePolicy ≠ .writeEvict ∧ cfg.writePolicy ≠ .localWbGlobalWt)

instance (cfg : CacheConfig) : Decidable cfg.KeepsTags := inferInstanceAs (Decidable (_ ∨ _))

/-- Tags stay unique, and lines that are not invalid stay so. -/
structure TagsKept (cfg : CacheConfig) (tags tags' : TagArray ct) : Prop where
  unique : UniqueTags cfg tags → UniqueTags cfg tags'
  held : ∀ i, (tags.lines i).isInvalidLine = false → (tags'.lines i).isInvalidLine = false

namespace TagsKept

theorem refl (tags : TagArray ct) : TagsKept cfg tags tags := ⟨id, fun _ h => h⟩

theorem trans (h : TagsKept cfg tags tags') (h' : TagsKept cfg tags' tags'') :
    TagsKept cfg tags tags'' :=
  ⟨fun hunique => h'.unique (h.unique hunique), fun i hi => h'.held i (h.held i hi)⟩

theorem of_lines (h : TagsKept cfg tags tags') (hlines : tags''.lines = tags'.lines) :
    TagsKept cfg tags tags'' := by
  refine ⟨fun hunique => ?_, fun i hi => ?_⟩
  · have hunique' := h.unique hunique
    unfold UniqueTags at hunique' ⊢
    rwa [hlines]
  · rw [hlines]
    exact h.held i hi

theorem held_modifyLine (hstays : (change (tags.lines idx)).isInvalidLine = false) (i : ℕ)
    (hi : (tags.lines i).isInvalidLine = false) :
    ((tags.modifyLine idx change).lines i).isInvalidLine = false := by
  by_cases hidx : i = idx
  · rwa [hidx, TagArray.lines_modifyLine_self]
  · rwa [TagArray.lines_modifyLine_ne _ hidx]

theorem modifyLine (hvalid : (tags.lines idx).isInvalidLine = false)
    (htag : (change (tags.lines idx)).tag = (tags.lines idx).tag)
    (hstays : (change (tags.lines idx)).isInvalidLine = false) :
    TagsKept cfg tags (tags.modifyLine idx change) :=
  ⟨fun h => h.modifyLine hvalid htag, held_modifyLine hstays⟩

/-- A line is allocated for a block that no line of its set holds. -/
theorem allocate {way : ℕ} (hway : way < cfg.assoc) (hnone : NoMatch cfg tags addr mask)
    (htag : (change (tags.lines (cfg.setIndex addr * cfg.assoc + way))).tag = cfg.blockAddr addr)
    (hstays : (change (tags.lines (cfg.setIndex addr * cfg.assoc + way))).isInvalidLine = false) :
    TagsKept cfg tags (tags.modifyLine (cfg.setIndex addr * cfg.assoc + way) change) :=
  ⟨fun h => h.allocate hway (noMatch_iff.mp hnone) htag, held_modifyLine hstays⟩

theorem mark (htag : (change (tags.lines idx)).tag = (tags.lines idx).tag)
    (hsame : (change (tags.lines idx)).isInvalidLine = (tags.lines idx).isInvalidLine) :
    TagsKept cfg tags (tags.modifyLine idx change) := by
  have hlines : ∀ i, ((tags.modifyLine idx change).lines i).tag = (tags.lines i).tag ∧
      ((tags.modifyLine idx change).lines i).isInvalidLine = (tags.lines i).isInvalidLine := by
    intro i
    by_cases hidx : i = idx
    · rw [hidx, TagArray.lines_modifyLine_self]
      exact ⟨htag, hsame⟩
    · rw [TagArray.lines_modifyLine_ne _ hidx]
      exact ⟨rfl, rfl⟩
  refine ⟨fun hunique set way hway way' hway' => ?_, fun i hi => (hlines i).2.trans hi⟩
  rw [(hlines _).1, (hlines _).1, (hlines _).2, (hlines _).2]
  exact hunique set way hway way' hway'

end TagsKept

theorem BaselineCache.WritesSector.isInvalidLine (h : BaselineCache.WritesSector mask change)
    (b : CacheBlock ct) :
    (change b).isInvalidLine = false := by
  rw [isInvalidLine_eq_false_iff]
  refine ⟨getSectorIndex mask, ?_⟩
  rw [h.covered b _ (CacheBlock.covers_getSectorIndex ct mask)]
  decide

theorem isInvalidLine_setModifiedOnFill {b : CacheBlock ct} :
    (b.setModifiedOnFill true mask).isInvalidLine = b.isInvalidLine := by
  rw [Bool.eq_iff_iff, CacheBlock.isInvalidLine_iff, CacheBlock.isInvalidLine_iff]
  refine forall_congr' fun k => ?_
  rw [CacheBlock.stateAt_setModifiedOnFill]
  split_ifs <;> rfl

namespace TagAccessed

variable {r : TagAccess ct} (h : TagAccessed cfg tags addr time mf r)
include h

theorem tagsKept : TagsKept cfg tags r.tags := by
  cases h with
  | touched _ _ matched _ =>
      have hvalid := isInvalidLine_of_matchLine matched
      dsimp only
      apply TagsKept.modifyLine hvalid
      · exact CacheBlock.tag_setLastAccessTime
      · rw [isInvalidLine_setLastAccessTime, hvalid]
  | allocated inSet noMatch =>
      dsimp only
      apply TagsKept.allocate inSet noMatch
      · exact CacheBlock.tag_allocate _ _
      · exact isInvalidLine_allocate _ _
  | allocatedSector _ _ matched =>
      dsimp only
      apply TagsKept.modifyLine (isInvalidLine_of_matchLine matched)
      · exact CacheBlock.tag_allocateSector
      · exact isInvalidLine_allocateSector
  | deferred => exact .refl _
  | full => exact .refl _

theorem holdsBlock (hstatus : r.status = .hit ∨
    (cfg.allocPolicy = .onMiss ∧ r.status ≠ .reservationFail)) :
    (r.tags.lines r.idx).isInvalidLine = false := by
  cases h with
  | touched _ _ matched _ =>
      rw [TagArray.lines_modifyLine_self, isInvalidLine_setLastAccessTime]
      exact isInvalidLine_of_matchLine matched
  | allocated =>
      rw [TagArray.lines_modifyLine_self]
      exact isInvalidLine_allocate _ _
  | allocatedSector =>
      rw [TagArray.lines_modifyLine_self]
      exact isInvalidLine_allocateSector
  | deferred _ miss onFill =>
      rcases hstatus with rfl | ⟨onMiss, -⟩
      · rcases miss with hs | hs <;> cases hs
      · exact absurd (onMiss.symm.trans onFill) (by decide)
  | full =>
      rcases hstatus with hs | ⟨-, hne⟩
      · cases hs
      · exact absurd rfl hne

theorem tagsKept_write (hstatus : r.status = .hit ∨
    (cfg.allocPolicy = .onMiss ∧ r.status ≠ .reservationFail))
    (hwrites : BaselineCache.WritesSector mask change) :
    TagsKept cfg tags (r.tags.modifyLine r.idx change) :=
  h.tagsKept.trans (.modifyLine (h.holdsBlock hstatus) (hwrites.tag _) (hwrites.isInvalidLine _))

end TagAccessed

theorem isInvalidLine_of_sectorMiss (h : tags.outcome cfg addr mask = some (.sectorMiss, idx)) :
    (tags.lines idx).isInvalidLine = false := by
  have hprobe : tags.probe cfg addr noIndex mask none = .ok (.sectorMiss, idx) := by
    rw [TagArray.outcome] at h
    cases hp : tags.probe cfg addr noIndex mask none with
    | error e =>
        rw [hp] at h
        cases h
    | ok found =>
        rw [hp] at h
        cases h
        rfl
  cases (TagArray.probe_ok hprobe).1 with
  | found _ _ matched => exact isInvalidLine_of_matchLine matched
  | victim _ noMatch =>
      rcases tags.probeWays_cases cfg addr mask with ⟨hheld, -⟩ | ⟨-, p, hrun, -⟩
      · exact absurd (noMatch_iff.mp noMatch) hheld
      · simp only [TagArray.probe, hrun] at hprobe
        split_ifs at hprobe
        · cases hprobe
        · cases hvictim : p.invalidLine <|> p.validLine with
          | none =>
              rw [hvictim] at hprobe
              cases hprobe
          | some v =>
              rw [hvictim] at hprobe
              cases hprobe

theorem BaselineCache.BlockFilled.tagsKept
    (h : BaselineCache.BlockFilled cfg tags addr time mask tags') :
    TagsKept cfg tags tags' := by
  cases h with
  | found _ probed hit lines =>
      exact (TagsKept.modifyLine (probed.isInvalidLine hit) CacheBlock.tag_fill
        isInvalidLine_fill).of_lines lines
  | allocated _ probed lines =>
      cases probed with
      | found _ _ matched =>
          rcases matchLine_some matched with ⟨hs, -⟩ | ⟨hs, -⟩ | ⟨hs, -⟩ <;> cases hs
      | victim inSet noMatch =>
          refine (TagsKept.allocate inSet noMatch ?_ isInvalidLine_fill).of_lines lines
          rw [CacheBlock.tag_fill, CacheBlock.tag_allocate]
  | allocatedSector outcome _ lines =>
      refine (TagsKept.modifyLine (isInvalidLine_of_sectorMiss outcome) ?_
        isInvalidLine_fill).of_lines lines
      rw [CacheBlock.tag_fill, CacheBlock.tag_allocateSector]

namespace BaselineCache

variable {kind : CacheKind} {c c' : BaselineCache cfg} {uid : ℕ} {e : ExtraMfFields}
  {a : CacheAction}

theorem Accessed.tagsKept (h : Accessed kind c mf time c') :
    TagsKept cfg c.tagArray c'.tagArray ∨
      (EvictsWrites cfg mf ∧ (UniqueTags cfg c.tagArray → UniqueTags cfg c'.tagArray)) := by
  cases h with
  | readHit _ _ tags _ lines => exact .inl (tags.tagsKept.of_lines lines)
  | atomicHit _ _ _ tags _ hit writes lines =>
      exact .inl ((tags.tagsKept_write (.inl hit) writes).of_lines lines)
  | writeHit _ _ _ tags _ hit writes lines =>
      exact .inl ((tags.tagsKept_write (.inl hit) writes).of_lines lines)
  | writeEvict policy _ probed _ _ lines =>
      refine .inr ⟨policy, fun hunique => ?_⟩
      have hchanged : UniqueTags cfg
          (c.tagArray.modifyLine _ (·.setStatus .invalid mf.sectorMask)) :=
        hunique.modifyLine (probed.isInvalidLine (.inl rfl)) rfl
      unfold UniqueTags at hchanged ⊢
      rwa [lines]
  | writeAround _ lines => exact .inl ((TagsKept.refl _).of_lines lines)
  | @fetched r plan _ _ _ tags _ _ _ _ _ _ _ lines =>
      split_ifs at lines with hmarks
      · refine .inl (TagsKept.of_lines (tags.tagsKept.trans (.mark ?_ ?_)) lines)
        · rfl
        · exact isInvalidLine_setModifiedOnFill
      · exact .inl (tags.tagsKept.of_lines lines)
  | written _ policy tags _ _ taken _ writes lines =>
      refine .inl ((tags.tagsKept_write (.inr ⟨?_, taken⟩) writes).of_lines lines)
      by_contra hpolicy
      obtain ⟨hfetch, hlazy⟩ := cfg.onFill_writeAllocPolicy (cfg.onFill_of_ne hpolicy)
      exact policy.elim hlazy fun h => hfetch h.1

/-- The record of a request that has not been filled is for a line that holds a block. -/
def RecordsHeld (c : BaselineCache cfg) : Prop :=
  ∀ uid e, c.extraMfFields uid = some e → (c.tagArray.lines e.cacheIndex).isInvalidLine = false

theorem AllLand.recordsHeld (h : c.AllLand) : c.RecordsHeld := by
  intro uid e he
  rw [isInvalidLine_eq_false_iff]
  refine ⟨getSectorIndex e.mf.sectorMask, ?_⟩
  rw [(h uid e he).reserved _ (CacheBlock.covers_getSectorIndex _ _)]
  decide

/-- Where writes take no sectors that wait for a fill the records land in their lines, and where
they do not evict the lines of the records stay. -/
structure Tagged (c : BaselineCache cfg) : Prop where
  registers : c.RegistersInvariant
  unique : UniqueTags cfg c.tagArray
  held : cfg.allocPolicy = .onMiss → c.RecordsHeld
  land : cfg.allocPolicy = .onMiss → cfg.writeAllocPolicy ≠ .lazyFetchOnRead ∧
    cfg.writeAllocPolicy ≠ .fetchOnWrite → c.AllLand

theorem Accessed.recordsHeld (honMiss : cfg.allocPolicy = .onMiss) (hheld : c.RecordsHeld)
    (hkept : TagsKept cfg c.tagArray c'.tagArray) (h : Accessed kind c mf time c') :
    c'.RecordsHeld := by
  have hold : ∀ uid e, c.extraMfFields uid = some e →
      (c'.tagArray.lines e.cacheIndex).isInvalidLine = false :=
    fun uid e he => hkept.held _ (hheld uid e he)
  have hsame : c'.extraMfFields = c.extraMfFields → c'.RecordsHeld := by
    intro hextra uid e he
    rw [hextra] at he
    exact hold uid e he
  cases h with
  | readHit _ _ _ _ _ kept => exact hsame kept.extraMfFields
  | atomicHit _ _ _ _ _ _ _ _ kept => exact hsame kept.extraMfFields
  | writeHit _ _ _ _ _ _ _ _ kept => exact hsame kept.extraMfFields
  | writeEvict _ _ _ _ _ _ kept => exact hsame kept.extraMfFields
  | writeAround _ _ kept => exact hsame kept.extraMfFields
  | written _ _ _ _ _ _ _ _ _ kept => exact hsame kept.extraMfFields
  | @fetched r plan _ _ _ tags _ _ taken _ _ _ _ lines missTaken =>
      rcases missTaken with ⟨-, hextra, -⟩ | ⟨-, hextra, -⟩
      · exact hsame hextra
      · intro uid e he
        rw [hextra] at he
        by_cases huid : uid = plan.request.uid
        · rw [huid, Function.update_self] at he
          cases he
          have hline := tags.holdsBlock (.inr ⟨honMiss, taken⟩)
          rw [lines]
          split_ifs
          · have hmark : TagsKept cfg r.tags (r.tags.modifyLine r.idx
                (·.setModifiedOnFill true mf.sectorMask)) :=
              .mark rfl isInvalidLine_setModifiedOnFill
            exact hmark.held _ hline
          · exact hline
        · rw [Function.update_of_ne huid] at he
          exact hold uid e he

theorem isInvalidLine_fillLineOf (b : CacheBlock cfg.cacheType) (hasAtomic : Bool) :
    (fillLineOf cfg e time hasAtomic b).isInvalidLine = false := by
  rw [fillLineOf]
  split_ifs
  · exact isInvalidLine_mark .modified isInvalidLine_fill
  · exact isInvalidLine_fill

theorem Filled.tagsKept (hheld : cfg.allocPolicy = .onMiss → c.RecordsHeld)
    (h : Filled c uid e time c') : TagsKept cfg c.tagArray c'.tagArray := by
  obtain ⟨entry, -, hlines⟩ := h.ready
  cases hlines with
  | onFill _ _ filled => exact filled.tagsKept
  | onMiss honMiss =>
      obtain ⟨hasAtomic, hlines⟩ := h.lines honMiss
      exact (TagsKept.modifyLine (hheld honMiss uid e h.record) (tag_fillLineOf _)
        (isInvalidLine_fillLineOf _ _)).of_lines hlines

theorem RecordsHeld.kept (hheld : c.RecordsHeld) (hkept : TagsKept cfg c.tagArray c'.tagArray)
    (hrecords : ∀ uid e', c'.extraMfFields uid = some e' →
      ∃ e, c.extraMfFields uid = some e ∧ e.cacheIndex = e'.cacheIndex) : c'.RecordsHeld := by
  intro uid e' he'
  obtain ⟨e, he, hidx⟩ := hrecords uid e' he'
  rw [← hidx]
  exact hkept.held _ (hheld uid e he)

theorem Tagged.kept (hI : c.Tagged) (h : Stepped kind c a c') :
    (TagsKept cfg c.tagArray c'.tagArray ∧ (cfg.allocPolicy = .onMiss → c'.RecordsHeld)) ∨
      (cfg.writePolicy = .writeEvict ∨ cfg.writePolicy = .localWbGlobalWt) ∧
        UniqueTags cfg c'.tagArray := by
  have hsame : c'.tagArray.lines = c.tagArray.lines → (∀ uid e', c'.extraMfFields uid = some e' →
      ∃ e, c.extraMfFields uid = some e ∧ e.cacheIndex = e'.cacheIndex) →
      TagsKept cfg c.tagArray c'.tagArray ∧ (cfg.allocPolicy = .onMiss → c'.RecordsHeld) := by
    intro hlines hrecords
    have hkept : TagsKept cfg c.tagArray c'.tagArray := (TagsKept.refl _).of_lines hlines
    exact ⟨hkept, fun honMiss => (hI.held honMiss).kept hkept hrecords⟩
  cases h with
  | refused => exact .inl (hsame rfl fun _ e he => ⟨e, he, rfl⟩)
  | accessed _ _ h =>
      rcases h.tagsKept with hkept | ⟨hevicts, hunique⟩
      · exact .inl ⟨hkept, fun honMiss => h.recordsHeld honMiss (hI.held honMiss) hkept⟩
      · exact .inr ⟨hevicts.imp_right And.left, hunique hI.unique⟩
  | cycled lines kept =>
      exact .inl (hsame lines fun _ e he => ⟨e, kept.extraMfFields ▸ he, rfl⟩)
  | @partlyFilled _ _ uid _ _ h =>
      refine .inl (hsame h.lines fun uid' e' he' => ?_)
      obtain ⟨n, hextra⟩ := h.extraMfFields
      rw [hextra] at he'
      by_cases huid : uid' = uid
      · rw [huid, Function.update_self] at he'
        cases he'
        exact ⟨_, (congrArg c.extraMfFields huid).trans h.record, rfl⟩
      · rw [Function.update_of_ne huid] at he'
        exact ⟨e', he', rfl⟩
  | @filled _ _ uid _ _ _ _ h =>
      have hkept := h.tagsKept hI.held
      refine .inl ⟨hkept, fun honMiss => (hI.held honMiss).kept hkept fun uid' e' he' => ?_⟩
      rw [h.extraMfFields] at he'
      by_cases huid : uid' = uid
      · rw [huid, Function.update_self] at he'
        cases he'
      · rw [Function.update_of_ne huid] at he'
        exact ⟨e', he', rfl⟩
  | drained _ lines _ extraMfFields =>
      exact .inl (hsame lines fun _ e he => ⟨e, extraMfFields ▸ he, rfl⟩)

theorem Tagged.stepped (hkeeps : cfg.KeepsTags) (henabled : c.Enabled a) (hI : c.Tagged)
    (h : Stepped kind c a c') : c'.Tagged := by
  have hland : cfg.allocPolicy = .onMiss → cfg.writeAllocPolicy ≠ .lazyFetchOnRead ∧
      cfg.writeAllocPolicy ≠ .fetchOnWrite → c'.AllLand := by
    intro honMiss hpolicy
    refine (hI.land honMiss hpolicy).stepped honMiss hI.registers ?_ h
    cases a with
    | access mf time => exact fun htakes => htakes.2.1.elim hpolicy.1 fun h => hpolicy.2 h.1
    | cycle memportFull => exact id
    | fill reply time => exact id
    | nextAccess => exact id
  refine ⟨hI.registers.stepped henabled h, ?_, fun honMiss => ?_, hland⟩
  · rcases hI.kept h with ⟨hkept, -⟩ | ⟨-, hunique⟩
    · exact hkept.unique hI.unique
    · exact hunique
  · rcases hI.kept h with ⟨-, hheld⟩ | ⟨hevicts, -⟩
    · exact hheld honMiss
    · -- then writes take no sectors
      refine (hland honMiss (hkeeps.resolve_right fun hnone => ?_)).recordsHeld
      exact hevicts.elim hnone.1 hnone.2

theorem uniqueTags_of_reachable (hkeeps : cfg.KeepsTags)
    (reached : (cacheSystem kind cfg).Reachable (.ok c)) : UniqueTags cfg c.tagArray := by
  have htagged :
      OkOr (fun c : BaselineCache cfg => c.Tagged) (fun _ : CacheFailure => True) (.ok c) := by
    apply invariant_of_reachable _ _ _ reached
    · intro n
      refine ⟨.empty n, (Dated.empty cfg 0).unique, fun _ uid e he => ?_, fun _ _ uid e he => ?_⟩
      · cases he
      · cases he
    · exact fun c a c' hI henabled h => hI.stepped hkeeps henabled h
    · exact fun _ _ _ _ _ _ => trivial
  exact Tagged.unique htagged

theorem uniqueTags_run :
    ∃ c, run (.data .l1) { oneLineConfig .writeBack .lazyFetchOnRead with assoc := 2 } 9
        [.access (globalRequest 1 0 false) 1, .access (globalRequest 2 128 false) 2,
          .cycle false, .access (globalRequest 3 128 true) 3, .cycle false,
          .fill (globalRequest 2 128 false) 4, .fill (globalRequest 1 0 false) 5] = some c ∧
      UniqueTags { oneLineConfig .writeBack .lazyFetchOnRead with assoc := 2 } c.tagArray := by
  have hrun : (run (.data .l1) { oneLineConfig .writeBack .lazyFetchOnRead with assoc := 2 } 9
        [.access (globalRequest 1 0 false) 1, .access (globalRequest 2 128 false) 2,
          .cycle false, .access (globalRequest 3 128 true) 3, .cycle false,
          .fill (globalRequest 2 128 false) 4,
          .fill (globalRequest 1 0 false) 5]).isSome = true := by decide +kernel
  obtain ⟨c, hc⟩ := Option.isSome_iff_exists.mp hrun
  exact ⟨c, hc, uniqueTags_of_reachable (by decide) (reachable_of_run hc)⟩

end BaselineCache

end GpuCalorie.Cache
