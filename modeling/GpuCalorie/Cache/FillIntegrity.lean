/-
# Reserved sectors

What accesses to the tags do to reserved sectors, for caches that allocate at a miss: a
reserved sector stays reserved and keeps its block, and a miss makes the sectors of its
request reserved.
-/

import GpuCalorie.Cache.Registers

namespace GpuCalorie.Cache

variable {cfg : CacheConfig} {ct : CacheType} {tags tags' : TagArray ct} {addr : Addr}
  {time : UInt32} {mf : MemFetch} {mask : SectorMask} {r : TagAccess ct} {idx i : ℕ} {k : Fin 4}

/-- Reserved sectors stay so, in a line with the same tag. -/
def KeepsReserved (lines lines' : ℕ → CacheBlock ct) : Prop :=
  ∀ idx k, ((lines idx).stateAt k).status = .reserved →
    (lines' idx).tag = (lines idx).tag ∧ ((lines' idx).stateAt k).status = .reserved

theorem KeepsReserved.refl (lines : ℕ → CacheBlock ct) : KeepsReserved lines lines :=
  fun _ _ h => ⟨rfl, h⟩

theorem KeepsReserved.trans {lines lines' lines'' : ℕ → CacheBlock ct}
    (h : KeepsReserved lines lines') (h' : KeepsReserved lines' lines'') :
    KeepsReserved lines lines'' := by
  intro idx k hk
  obtain ⟨htag, hstatus⟩ := h idx k hk
  obtain ⟨htag', hstatus'⟩ := h' idx k hstatus
  exact ⟨htag'.trans htag, hstatus'⟩

theorem keepsReserved_modifyLine {change : CacheBlock ct → CacheBlock ct}
    (h : ∀ k, ((tags.lines idx).stateAt k).status = .reserved →
      (change (tags.lines idx)).tag = (tags.lines idx).tag ∧
        ((change (tags.lines idx)).stateAt k).status = .reserved) :
    KeepsReserved tags.lines (tags.modifyLine idx change).lines := by
  intro i k hk
  by_cases hi : i = idx
  · rw [hi] at hk ⊢
    rw [TagArray.lines_modifyLine_self]
    exact h k hk
  · rw [TagArray.lines_modifyLine_ne _ hi]
    exact ⟨rfl, hk⟩

theorem status_of_matchLine {line : CacheBlock ct} {status : RequestStatus}
    (h : matchLine line mask = some status) (hne : status ≠ .hitReserved) (hk : Covers ct mask k) :
    (line.stateAt k).status ≠ .reserved := by
  have hsame : (line.stateAt k).status = line.getStatus mask := by
    rw [CacheBlock.getStatus, CacheBlock.stateAt_of_covers hk]
  rw [hsame]
  rcases matchLine_some h with ⟨hs, -⟩ | ⟨-, hs | hs⟩ | ⟨-, hs | ⟨hs, -⟩⟩
  · exact absurd hs hne
  all_goals simp [hs]

namespace TagAccessed

variable (h : TagAccessed cfg tags addr time mf r)
include h

theorem keepsReserved : KeepsReserved tags.lines r.tags.lines := by
  cases h with
  | touched _ _ _ _ =>
      apply keepsReserved_modifyLine
      intro k hk
      rw [CacheBlock.status_setLastAccessTime]
      exact ⟨rfl, hk⟩
  | allocated _ _ unreserved _ _ _ =>
      apply keepsReserved_modifyLine
      intro k hk
      rw [CacheBlock.isReservedLine_iff.mpr ⟨k, hk⟩] at unreserved
      cases unreserved
  | allocatedSector _ _ matched _ _ _ =>
      apply keepsReserved_modifyLine
      intro k hk
      have hnot : ¬ Covers ct mf.sectorMask k :=
        fun hcovers => status_of_matchLine matched (by decide) hcovers hk
      rw [CacheBlock.stateAt_allocateSector, if_neg hnot]
      exact ⟨rfl, hk⟩
  | deferred => exact .refl _
  | full => exact .refl _

theorem not_reserved (honMiss : cfg.allocPolicy = .onMiss)
    (hreserved : r.status ≠ .hitReserved) (htaken : r.status ≠ .reservationFail)
    (hk : Covers ct mf.sectorMask k) : ((tags.lines r.idx).stateAt k).status ≠ .reserved := by
  cases h with
  | touched _ _ matched _ => exact status_of_matchLine matched hreserved hk
  | allocated _ _ unreserved _ _ _ =>
      intro hstatus
      rw [CacheBlock.isReservedLine_iff.mpr ⟨k, hstatus⟩] at unreserved
      cases unreserved
  | allocatedSector _ _ matched _ _ _ => exact status_of_matchLine matched (by decide) hk
  | deferred _ _ onFill => exact absurd (honMiss.symm.trans onFill) (by decide)
  | full => exact absurd rfl htaken

theorem reserves (honMiss : cfg.allocPolicy = .onMiss)
    (hmiss : r.status ≠ .hit) (htaken : r.status ≠ .reservationFail) :
    (r.tags.lines r.idx).tag = cfg.blockAddr addr ∧
      ∀ k, Covers ct mf.sectorMask k → ((r.tags.lines r.idx).stateAt k).status = .reserved := by
  cases h with
  | touched _ tag matched hit =>
      rw [TagArray.lines_modifyLine_self]
      refine ⟨tag, fun k hk => ?_⟩
      rw [CacheBlock.status_setLastAccessTime, ← CacheBlock.stateAt_of_covers hk]
      rcases matchLine_some matched with ⟨-, hs⟩ | ⟨hs, -⟩ | ⟨hs, -⟩
      · exact hs
      · exact absurd hs hmiss
      · rcases hit with hit | hit <;> rw [hit] at hs <;> cases hs
  | allocated _ _ _ _ _ _ =>
      rw [TagArray.lines_modifyLine_self]
      exact ⟨CacheBlock.tag_allocate _ _, fun k hk =>
        (CacheBlock.stateAt_allocate_of_covers _ _ hk).1⟩
  | allocatedSector _ tag _ _ _ _ =>
      rw [TagArray.lines_modifyLine_self]
      refine ⟨tag, fun k hk => ?_⟩
      rw [CacheBlock.stateAt_allocateSector, if_pos hk]
  | deferred _ _ onFill => exact absurd (honMiss.symm.trans onFill) (by decide)
  | full => exact absurd rfl htaken

theorem reserved_or (hk : ((r.tags.lines i).stateAt k).status = .reserved) :
    ((tags.lines i).stateAt k).status = .reserved ∨
      (i = r.idx ∧ Covers ct mf.sectorMask k ∧ (r.status = .miss ∨ r.status = .sectorMiss)) := by
  cases h with
  | @touched _ way _ _ _ _ =>
      by_cases hi : i = cfg.setIndex addr * cfg.assoc + way
      · rw [hi, TagArray.lines_modifyLine_self, CacheBlock.status_setLastAccessTime] at hk
        exact .inl (hi ▸ hk)
      · rw [TagArray.lines_modifyLine_ne _ hi] at hk
        exact .inl hk
  | @allocated way _ _ _ _ _ _ _ _ =>
      by_cases hi : i = cfg.setIndex addr * cfg.assoc + way
      · rw [hi, TagArray.lines_modifyLine_self] at hk
        by_cases hcovers : Covers ct mf.sectorMask k
        · exact .inr ⟨hi, hcovers, .inl rfl⟩
        · rw [CacheBlock.stateAt_allocate_of_not_covers _ _ hcovers] at hk
          cases hk
      · rw [TagArray.lines_modifyLine_ne _ hi] at hk
        exact .inl hk
  | @allocatedSector way _ _ _ _ _ _ =>
      by_cases hi : i = cfg.setIndex addr * cfg.assoc + way
      · rw [hi, TagArray.lines_modifyLine_self, CacheBlock.stateAt_allocateSector] at hk
        by_cases hcovers : Covers ct mf.sectorMask k
        · exact .inr ⟨hi, hcovers, .inr rfl⟩
        · rw [if_neg hcovers] at hk
          exact .inl (hi ▸ hk)
      · rw [TagArray.lines_modifyLine_ne _ hi] at hk
        exact .inl hk
  | deferred => exact .inl hk
  | full => exact .inl hk

end TagAccessed

end GpuCalorie.Cache

/-!
## Fills go to the line of their block

A line with reserved sectors is not replaced, so that the fill of a request finds the line
its record points to as it was. That depends on the sector being reserved until then. The
policies that write a reserved sector without waiting for its fill break it: the sector is
`MODIFIED` from then on, the line may be replaced, and the fill goes to the line of another
block.
-/

namespace GpuCalorie.Cache

open GpuCalorie.Math TransitionSystem

namespace BaselineCache

variable {cfg : CacheConfig} {kind : CacheKind} {c c' : BaselineCache cfg} {e : ExtraMfFields}
  {time : UInt32} {k : Fin 4}

/-- Every fill finds the block its request was sent for in the line of its record. -/
def FillsOwnLine (c : BaselineCache cfg) : Prop :=
  ∀ reply uid e, replyUid cfg reply = some uid → c.extraMfFields uid = some e →
    (c.tagArray.lines e.cacheIndex).tag = cfg.blockAddr e.addr

/-- A write that takes a reserved sector at once. -/
def TakesReserved (c : BaselineCache cfg) : CacheAction → Prop
  | .access mf _ =>
    mf.isWrite = true ∧
      (cfg.writeAllocPolicy = .lazyFetchOnRead ∨
        (cfg.writeAllocPolicy = .fetchOnWrite ∧ mf.byteMask.card = cfg.atomSz)) ∧
      c.missQueueFull 0 = false ∧
      (c.tagArray.outcome cfg (cfg.blockAddr mf.addr) mf.sectorMask).map Prod.fst =
        some .hitReserved
  | _ => False

instance (c : BaselineCache cfg) (a : CacheAction) : Decidable (c.TakesReserved a) :=
  match a with
  | .access _ _ => inferInstanceAs (Decidable (_ ∧ _ ∧ _ ∧ _))
  | .cycle _ | .fill _ _ | .nextAccess => inferInstanceAs (Decidable False)

/-- The line of a record holds its block, and the sectors of the request are reserved. -/
structure Lands (c : BaselineCache cfg) (e : ExtraMfFields) : Prop where
  tag : (c.tagArray.lines e.cacheIndex).tag = cfg.blockAddr e.addr
  reserved : ∀ k, Covers cfg.cacheType e.mf.sectorMask k →
    ((c.tagArray.lines e.cacheIndex).stateAt k).status = .reserved

/-- All records do. -/
def AllLand (c : BaselineCache cfg) : Prop :=
  ∀ uid e, c.extraMfFields uid = some e → c.Lands e

theorem Lands.kept (h : c.Lands e)
    (hkept : KeepsReserved c.tagArray.lines c'.tagArray.lines) : c'.Lands e where
  tag := (hkept e.cacheIndex _ (h.reserved _ (CacheBlock.covers_getSectorIndex _
    e.mf.sectorMask))).1.trans h.tag
  reserved k hk := (hkept e.cacheIndex k (h.reserved k hk)).2

/-! ## Accesses -/

theorem keepsReserved_write {tags : TagArray cfg.cacheType} {lines : ℕ → CacheBlock cfg.cacheType}
    {mask : SectorMask} {idx : ℕ} {change : CacheBlock cfg.cacheType → CacheBlock cfg.cacheType}
    (hkept : KeepsReserved lines tags.lines) (hwrites : WritesSector mask change)
    (hnot : ∀ k, Covers cfg.cacheType mask k → ((lines idx).stateAt k).status ≠ .reserved) :
    KeepsReserved lines (tags.modifyLine idx change).lines := by
  intro i k hk
  obtain ⟨htag, hstatus⟩ := hkept i k hk
  by_cases hi : i = idx
  · rw [hi] at hk htag hstatus ⊢
    have hcovers : ¬ Covers cfg.cacheType mask k := fun hcovers => hnot k hcovers hk
    rw [TagArray.lines_modifyLine_self, hwrites.tag, hwrites.others _ k hcovers]
    exact ⟨htag, hstatus⟩
  · rw [TagArray.lines_modifyLine_ne _ hi]
    exact ⟨htag, hstatus⟩

theorem keepsReserved_setModifiedOnFill {tags : TagArray cfg.cacheType} {idx : ℕ}
    {mask : SectorMask} :
    KeepsReserved tags.lines (tags.modifyLine idx (·.setModifiedOnFill true mask)).lines := by
  apply keepsReserved_modifyLine
  intro k hk
  rw [CacheBlock.stateAt_setModifiedOnFill]
  refine ⟨rfl, ?_⟩
  split_ifs <;> exact hk

theorem Accessed.keepsReserved {mf : MemFetch} (honMiss : cfg.allocPolicy = .onMiss)
    (h : Accessed kind c mf time c') (hguard : ¬ c.TakesReserved (.access mf time)) :
    KeepsReserved c.tagArray.lines c'.tagArray.lines := by
  cases h with
  | readHit _ _ tags _ lines =>
      rw [lines]
      exact tags.keepsReserved
  | atomicHit _ _ _ tags _ hit writes lines =>
      rw [lines]
      apply keepsReserved_write tags.keepsReserved writes
      exact fun k => tags.not_reserved honMiss (by simp [hit]) (by simp [hit])
  | writeHit _ _ _ tags _ hit writes lines =>
      rw [lines]
      apply keepsReserved_write tags.keepsReserved writes
      exact fun k => tags.not_reserved honMiss (by simp [hit]) (by simp [hit])
  | @writeEvict idx _ _ probed _ _ lines =>
      rw [lines]
      apply keepsReserved_modifyLine
      intro k hk
      have hnot : ¬ Covers cfg.cacheType mf.sectorMask k := by
        intro hcovers
        cases probed with
        | found _ _ matched => exact status_of_matchLine matched (by decide) hcovers hk
        | victim _ _ _ miss => rcases miss with hs | ⟨hs, -⟩ <;> cases hs
      rw [CacheBlock.stateAt_setStatus, if_neg hnot]
      exact ⟨rfl, hk⟩
  | writeAround _ lines =>
      rw [lines]
      exact .refl _
  | @fetched r plan _ _ _ tags _ _ _ _ _ _ _ lines =>
      rw [lines]
      split_ifs
      · exact tags.keepsReserved.trans keepsReserved_setModifiedOnFill
      · exact tags.keepsReserved
  | @written r _ _ write policy tags probed _ taken queueRoom writes lines =>
      have hreserved : r.status ≠ .hitReserved := by
        intro hs
        exact hguard ⟨write, policy, queueRoom, by rw [probed, ← hs]; rfl⟩
      rw [lines]
      apply keepsReserved_write tags.keepsReserved writes
      exact fun k => tags.not_reserved honMiss hreserved taken

theorem AllLand.accessed {mf : MemFetch} (honMiss : cfg.allocPolicy = .onMiss)
    (hall : c.AllLand) (h : Accessed kind c mf time c')
    (hguard : ¬ c.TakesReserved (.access mf time)) : c'.AllLand := by
  have hkept := h.keepsReserved honMiss hguard
  have hold : c'.extraMfFields = c.extraMfFields → c'.AllLand := by
    intro hextra uid e he
    rw [hextra] at he
    exact (hall uid e he).kept hkept
  cases h with
  | readHit _ _ _ _ _ kept => exact hold kept.extraMfFields
  | atomicHit _ _ _ _ _ _ _ _ kept => exact hold kept.extraMfFields
  | writeHit _ _ _ _ _ _ _ _ kept => exact hold kept.extraMfFields
  | writeEvict _ _ _ _ _ _ kept => exact hold kept.extraMfFields
  | writeAround _ _ kept => exact hold kept.extraMfFields
  | written _ _ _ _ _ _ _ _ _ kept => exact hold kept.extraMfFields
  | @fetched r plan _ planned _ tags _ miss taken _ _ _ _ lines missTaken =>
      rcases missTaken with ⟨-, hextra, -⟩ | ⟨-, hextra, -⟩
      · exact hold hextra
      · have hfor := missPlan_for planned
        intro uid e he
        rw [hextra] at he
        by_cases huid : uid = plan.request.uid
        · rw [huid, Function.update_self, Option.some.injEq] at he
          subst he
          -- the miss has reserved its sectors
          have hreserves := tags.reserves honMiss miss taken
          have hlands : ∀ k, Covers cfg.cacheType plan.request.sectorMask k →
              (c'.tagArray.lines r.idx).tag = (r.tags.lines r.idx).tag ∧
                ((c'.tagArray.lines r.idx).stateAt k).status = .reserved := by
            intro k hk
            rw [lines]
            split_ifs
            · exact keepsReserved_setModifiedOnFill r.idx k (hreserves.2 k hk)
            · exact ⟨rfl, hreserves.2 k hk⟩
          refine ⟨?_, fun k hk => (hlands k hk).2⟩
          refine (hlands _ (CacheBlock.covers_getSectorIndex _ _)).1.trans (hreserves.1.trans ?_)
          show _ = cfg.blockAddr plan.request.addr
          rw [CacheConfig.blockAddr_blockAddr, hfor.addr]
        · rw [Function.update_of_ne huid] at he
          exact (hall uid e he).kept hkept

/-! ## Fills -/

theorem uid_eq_of_covers {uid uid' : ℕ} {e e' : ExtraMfFields}
    (hr : c.RegistersInvariant) (he : c.extraMfFields uid = some e)
    (he' : c.extraMfFields uid' = some e') (hlands : c.Lands e) (hlands' : c.Lands e')
    (hidx : e'.cacheIndex = e.cacheIndex) (hk : Covers cfg.cacheType e.mf.sectorMask k)
    (hk' : Covers cfg.cacheType e'.mf.sectorMask k) : uid' = uid := by
  have hwf := hr.record_wellFormed uid e he
  have hwf' := hr.record_wellFormed uid' e' he'
  apply hr.record_unique uid' uid e' e he' he
  rw [hwf.blockAddr, hwf'.blockAddr]
  apply CacheConfig.mshrAddr_eq
  · rw [← hwf.addr, ← hwf'.addr, ← hlands.tag, ← hlands'.tag, hidx]
  · intro hsector
    rcases hk with hnormal | hk
    · rw [hsector] at hnormal
      cases hnormal
    rcases hk' with hnormal | hk'
    · rw [hsector] at hnormal
      cases hnormal
    rw [hwf.accepts hsector, getSectorIndex_singleton] at hk
    rw [hwf'.accepts hsector, getSectorIndex_singleton] at hk'
    rw [hk, hk']

/-- The change of a line that a fill makes. -/
def fillLineOf (cfg : CacheConfig) (e : ExtraMfFields) (time : UInt32) (hasAtomic : Bool)
    (b : CacheBlock cfg.cacheType) : CacheBlock cfg.cacheType :=
  if hasAtomic then (b.fill time e.mf.sectorMask).setStatus .modified e.mf.sectorMask
  else b.fill time e.mf.sectorMask

section

variable (b : CacheBlock cfg.cacheType) {hasAtomic : Bool}
include b

theorem tag_fillLineOf : (fillLineOf cfg e time hasAtomic b).tag = b.tag := by
  rw [fillLineOf]
  split_ifs <;> rfl

theorem stateAt_fillLineOf (hk : ¬ Covers cfg.cacheType e.mf.sectorMask k) :
    (fillLineOf cfg e time hasAtomic b).stateAt k = b.stateAt k := by
  rw [fillLineOf]
  split_ifs
  · rw [CacheBlock.stateAt_setStatus, if_neg hk, CacheBlock.stateAt_fill, if_neg hk]
  · rw [CacheBlock.stateAt_fill, if_neg hk]

theorem status_fillLineOf (hk : Covers cfg.cacheType e.mf.sectorMask k) :
    ((fillLineOf cfg e time hasAtomic b).stateAt k).status ≠ .reserved := by
  rw [fillLineOf]
  split_ifs
  · rw [CacheBlock.stateAt_setStatus, if_pos hk]
    simp
  · rw [CacheBlock.stateAt_fill, if_pos hk]
    cases (b.stateAt k).modifiedOnFill <;> simp

end

section

variable (honMiss : cfg.allocPolicy = .onMiss) {uid : ℕ}
include honMiss

theorem Filled.lines (h : Filled c uid e time c') : ∃ hasAtomic, c'.tagArray.lines =
      (c.tagArray.modifyLine e.cacheIndex (fillLineOf cfg e time hasAtomic)).lines := by
  obtain ⟨entry, -, hlines⟩ := h.ready
  cases hlines with
  | onMiss _ lines => exact ⟨entry.hasAtomic, lines⟩
  | onFill policy => exact absurd (honMiss.symm.trans policy) (by decide)

theorem AllLand.filled (hr : c.RegistersInvariant) (hall : c.AllLand)
    (h : Filled c uid e time c') : c'.AllLand := by
  obtain ⟨hasAtomic, hlines⟩ := h.lines honMiss
  intro uid' e' he'
  rw [h.extraMfFields] at he'
  by_cases huid : uid' = uid
  · rw [huid, Function.update_self] at he'
    cases he'
  rw [Function.update_of_ne huid] at he'
  have hlands := hall uid' e' he'
  by_cases hidx : e'.cacheIndex = e.cacheIndex
  · -- the requests are for different sectors
    have hother : ∀ k, Covers cfg.cacheType e'.mf.sectorMask k →
        ¬ Covers cfg.cacheType e.mf.sectorMask k := fun k hk' hk =>
      huid (uid_eq_of_covers hr h.record he' (hall uid e h.record) hlands hidx hk hk')
    constructor
    · rw [hlines, hidx, TagArray.lines_modifyLine_self, tag_fillLineOf, ← hidx]
      exact hlands.tag
    · intro k hk
      rw [hlines, hidx, TagArray.lines_modifyLine_self, stateAt_fillLineOf _ (hother k hk), ← hidx]
      exact hlands.reserved k hk
  · constructor
    · rw [hlines, TagArray.lines_modifyLine_ne _ hidx]
      exact hlands.tag
    · intro k hk
      rw [hlines, TagArray.lines_modifyLine_ne _ hidx]
      exact hlands.reserved k hk

omit honMiss in
theorem AllLand.partlyFilled (hall : c.AllLand) (h : PartlyFilled c uid e c') : c'.AllLand := by
  obtain ⟨n, hextra⟩ := h.extraMfFields
  have hkept : KeepsReserved c.tagArray.lines c'.tagArray.lines := by
    rw [h.lines]
    exact .refl _
  intro uid' e' he'
  rw [hextra] at he'
  by_cases huid : uid' = uid
  · rw [huid, Function.update_self, Option.some.injEq] at he'
    subst he'
    have hlands := (hall uid e h.record).kept hkept
    exact ⟨hlands.tag, hlands.reserved⟩
  · rw [Function.update_of_ne huid] at he'
    exact (hall uid' e' he').kept hkept

theorem AllLand.stepped {a : CacheAction}
    (hr : c.RegistersInvariant) (hall : c.AllLand) (hguard : ¬ c.TakesReserved a)
    (hs : Stepped kind c a c') : c'.AllLand := by
  have hsame : c'.tagArray.lines = c.tagArray.lines → c'.extraMfFields = c.extraMfFields →
      c'.AllLand := by
    intro hlines hextra uid e he
    rw [hextra] at he
    have hlands := hall uid e he
    exact ⟨by rw [hlines]; exact hlands.tag, by rw [hlines]; exact hlands.reserved⟩
  cases hs with
  | refused => exact hall
  | accessed _ _ h => exact hall.accessed honMiss h hguard
  | cycled lines kept => exact hsame lines kept.extraMfFields
  | partlyFilled h => exact hall.partlyFilled h
  | filled _ _ h => exact hall.filled honMiss hr h
  | drained _ lines _ extraMfFields => exact hsame lines extraMfFields

end

/-- In every run of a cache that allocates at a miss, none of whose writes takes a reserved
sector, fills go to the line of their block. -/
theorem fillsOwnLine_of_reachable (honMiss : cfg.allocPolicy = .onMiss)
    (reached : ((cacheSystem kind cfg).restrict
      (onOk fun c a => ¬ c.TakesReserved a)).Reachable (.ok c)) : c.FillsOwnLine := by
  have hinvariant : OkOr (fun c : BaselineCache cfg => c.RegistersInvariant ∧ c.AllLand)
      (fun _ : CacheFailure => True) (.ok c) := by
    apply invariant_of_reachable_restrict _ _ _ reached
    · exact fun n => ⟨.empty n, fun _ _ he => by cases he⟩
    · exact fun c a c' hI hguard henabled hs =>
        ⟨hI.1.stepped henabled hs, hI.2.stepped honMiss hI.1 hguard hs⟩
    · exact fun _ _ _ _ _ _ _ => trivial
  have hall : c.AllLand := hinvariant.2
  exact fun _ uid e _ he => (hall uid e he).tag

/-- Reads that miss, are merged and are filled. -/
theorem fillsOwnLine_run :
    ∃ c, runWhere (.data .l1) (oneLineConfig .writeBack .lazyFetchOnRead)
        (fun c a => ¬ c.TakesReserved a) 9
        [.access (globalRequest 1 0 false) 1, .access (globalRequest 2 0 false) 2, .cycle false,
          .fill (globalRequest 1 0 false) 3, .access (globalRequest 3 0 true) 4,
          .access (globalRequest 4 128 false) 5] = some c ∧ c.FillsOwnLine := by
  have hrun : (runWhere (.data .l1) (oneLineConfig .writeBack .lazyFetchOnRead)
      (fun c a => ¬ c.TakesReserved a) 9
      [.access (globalRequest 1 0 false) 1, .access (globalRequest 2 0 false) 2, .cycle false,
        .fill (globalRequest 1 0 false) 3, .access (globalRequest 3 0 true) 4,
        .access (globalRequest 4 128 false) 5]).isSome = true := by decide +kernel
  obtain ⟨c, hc⟩ := Option.isSome_iff_exists.mp hrun
  exact ⟨c, hc, fillsOwnLine_of_reachable rfl (reachable_of_runWhere hc)⟩

/-- A read misses and is sent, a write takes its sector, and a read of another block replaces
the line: the fill of the first read goes to the line of the other block. -/
theorem not_fillsOwnLine :
    ¬ ∀ (cfg : CacheConfig) (level : DataCacheLevel) (c : BaselineCache cfg),
      cfg.allocPolicy = .onMiss → (cacheSystem (.data level) cfg).Reachable (.ok c) →
        c.FillsOwnLine := by
  intro hall
  have hrun : (run (.data .l1) (oneLineConfig .writeBack .lazyFetchOnRead) 9
      [.access (globalRequest 1 0 false) 1, .cycle false, .access (globalRequest 2 0 true) 2,
        .access (globalRequest 3 128 false) 3]).any (fun c =>
          (c.extraMfFields 1).any fun e =>
            decide ((c.tagArray.lines e.cacheIndex).tag ≠
              (oneLineConfig .writeBack .lazyFetchOnRead).blockAddr e.addr)) = true := by
    decide +kernel
  obtain ⟨c, hc, hany⟩ := (Option.any_eq_true _ _).mp hrun
  obtain ⟨e, he, hbad⟩ := (Option.any_eq_true _ _).mp hany
  exact of_decide_eq_true hbad
    (hall _ .l1 c rfl (reachable_of_run hc) (globalRequest 1 0 false) 1 e rfl he)

end BaselineCache

end GpuCalorie.Cache
