/-
# Reserved sectors wait for a fill

Every reserved sector should have a record of a request that will fill it. A miss that is
merged into an entry of the registers does not send a request, as one is on its way; but the
entry may be one that was filled already and is being drained, or the line of the earlier
miss may be another. Then the sector the miss reserves is never filled.
-/

import GpuCalorie.Cache.FillIntegrity

namespace GpuCalorie.Cache

open GpuCalorie.Math TransitionSystem

namespace BaselineCache

variable {cfg : CacheConfig} {kind : CacheKind} {c c' : BaselineCache cfg} {time : UInt32}
  {mf : MemFetch} {k : Fin 4} {mask : SectorMask} {e : ExtraMfFields} {uid : ℕ}

/-- A record of a request that has not been filled is for a sector of a line. -/
def Outstanding (c : BaselineCache cfg) (idx : ℕ) (k : Fin 4) : Prop :=
  ∃ uid e, c.extraMfFields uid = some e ∧ e.cacheIndex = idx ∧
    Covers cfg.cacheType e.mf.sectorMask k

/-- Every reserved sector has an outstanding fill. So once all are filled no line is
reserved. -/
structure NoOrphan (c : BaselineCache cfg) : Prop where
  outstanding : ∀ idx k, ((c.tagArray.lines idx).stateAt k).status = .reserved →
    c.Outstanding idx k
  settled : (∀ uid, c.extraMfFields uid = none) →
    ∀ idx, (c.tagArray.lines idx).isReservedLine = false

/-- An access that is a miss, is not refused and waits for a fill. -/
structure WaitsFor (kind : CacheKind) (c : BaselineCache cfg) (mf : MemFetch) (plan : MissPlan)
    (status : RequestStatus) (idx : ℕ) : Prop where
  planned : missPlan kind c mf = some plan
  outcome : c.tagArray.outcome cfg (cfg.blockAddr mf.addr) mf.sectorMask = some (status, idx)
  miss : status = .miss ∨ status = .sectorMiss
  queueRoom : c.missQueueFull plan.numMiss = false
  tableRoom : c.mshrs.full cfg (cfg.mshrAddr mf.addr) = false
  inOrder : plan.marks = true → cfg.mshrAddr mf.addr ∈ c.mshrs.data →
    c.mshrs.isReadAfterWritePending (cfg.mshrAddr mf.addr) = false

/-- A miss that is merged into an entry of the registers, but reserves a sector no
outstanding fill is for. -/
def MergesUnfilled (kind : CacheKind) (c : BaselineCache cfg) : CacheAction → Prop
  | .access mf _ => ∃ plan status idx, WaitsFor kind c mf plan status idx ∧
    cfg.mshrAddr mf.addr ∈ c.mshrs.data ∧ ¬ c.Outstanding idx (getSectorIndex mf.sectorMask)
  | _ => False

/-- Misses that are merged find their sector reserved. -/
def MergesReserved (c : BaselineCache cfg) : CacheAction → Prop
  | .access mf _ => c.mshrs.probe (cfg.mshrAddr mf.addr) = false ∨
    (c.tagArray.outcome cfg (cfg.blockAddr mf.addr) mf.sectorMask).map Prod.fst = some .hitReserved
  | _ => True

instance (c : BaselineCache cfg) (a : CacheAction) : Decidable (c.MergesReserved a) :=
  match a with
  | .access _ _ => inferInstanceAs (Decidable (_ ∨ _))
  | .cycle _ | .fill _ _ | .nextAccess => inferInstanceAs (Decidable True)

theorem MergesReserved.not_mergesUnfilled {a : CacheAction} (h : c.MergesReserved a) :
    ¬ MergesUnfilled kind c a := by
  cases a with
  | access mf time =>
      rintro ⟨plan, status, idx, hwaits, hmem, -⟩
      rcases h with hnot | hreserved
      · rw [MshrTable.probe_iff.mpr hmem] at hnot
        cases hnot
      · rw [hwaits.outcome] at hreserved
        rcases hwaits.miss with rfl | rfl <;> cases hreserved
  | cycle memportFull => exact id
  | fill reply time => exact id
  | nextAccess => exact id

theorem mergesReserved_imp (kind : CacheKind) :
    ∀ (x : Except CacheFailure (BaselineCache cfg)) (a : CacheAction), onOk MergesReserved x a →
      onOk (fun c a => ¬ MergesUnfilled kind c a) x a := by
  intro x a h
  cases x with
  | ok c => exact MergesReserved.not_mergesUnfilled h
  | error e => exact h

theorem NoOrphan.of_outstanding (h : ∀ idx k,
    ((c.tagArray.lines idx).stateAt k).status = .reserved → c.Outstanding idx k) : c.NoOrphan where
  outstanding := h
  settled hnone idx := by
    by_contra hreserved
    obtain ⟨k, hk⟩ := CacheBlock.isReservedLine_iff.mp (Bool.eq_true_of_not_eq_false hreserved)
    obtain ⟨uid, e, he, -⟩ := h idx k hk
    rw [hnone uid] at he
    cases he

theorem Outstanding.covers {idx : ℕ}
    (h : c.Outstanding idx (getSectorIndex mask)) (hk : Covers cfg.cacheType mask k) :
    c.Outstanding idx k := by
  obtain ⟨uid, e, he, hidx, hcovers⟩ := h
  refine ⟨uid, e, he, hidx, ?_⟩
  rcases hk with hnormal | hk
  · exact .inl hnormal
  · rwa [← hk]

/-! ## Accesses -/

theorem Outstanding.of_extra {idx : ℕ} (h : c.Outstanding idx k)
    (hextra : ∀ uid e, c.extraMfFields uid = some e → c'.extraMfFields uid = some e) :
    c'.Outstanding idx k := by
  obtain ⟨uid, e, he, hrest⟩ := h
  exact ⟨uid, e, hextra uid e he, hrest⟩

theorem reserved_of_writes {tags : TagArray cfg.cacheType} {i idx : ℕ}
    {change : CacheBlock cfg.cacheType → CacheBlock cfg.cacheType}
    (hwrites : WritesSector mask change)
    (hk : (((tags.modifyLine idx change).lines i).stateAt k).status = .reserved) :
    ((tags.lines i).stateAt k).status = .reserved ∧ ¬ (i = idx ∧ Covers cfg.cacheType mask k) := by
  by_cases hi : i = idx
  · rw [hi, TagArray.lines_modifyLine_self] at hk
    by_cases hcovers : Covers cfg.cacheType mask k
    · rw [hwrites.covered _ k hcovers] at hk
      cases hk
    · rw [hwrites.others _ k hcovers] at hk
      exact ⟨hi ▸ hk, fun h => hcovers h.2⟩
  · rw [TagArray.lines_modifyLine_ne _ hi] at hk
    exact ⟨hk, fun h => hi h.1⟩

theorem status_setModifiedOnFill {tags : TagArray cfg.cacheType} {i idx : ℕ} :
    (((tags.modifyLine idx (·.setModifiedOnFill true mask)).lines i).stateAt k).status =
      ((tags.lines i).stateAt k).status := by
  by_cases hi : i = idx
  · rw [hi, TagArray.lines_modifyLine_self, CacheBlock.stateAt_setModifiedOnFill]
    split_ifs <;> rfl
  · rw [TagArray.lines_modifyLine_ne _ hi]

theorem Accessed.reserved_or {i : ℕ} (h : Accessed kind c mf time c')
    (hk : ((c'.tagArray.lines i).stateAt k).status = .reserved) :
    ((c.tagArray.lines i).stateAt k).status = .reserved ∨
      ∃ (plan : MissPlan) (r : TagAccess cfg.cacheType) (wbs : List MemFetch),
        WaitsFor kind c mf plan r.status r.idx ∧ MissTaken c mf plan r.idx wbs c' ∧
          i = r.idx ∧ Covers cfg.cacheType mf.sectorMask k := by
  cases h with
  | readHit _ _ tags hit lines =>
      rw [lines] at hk
      rcases tags.reserved_or hk with hold | ⟨-, -, hmiss | hmiss⟩
      · exact .inl hold
      · rw [hit] at hmiss
        cases hmiss
      · rw [hit] at hmiss
        cases hmiss
  | atomicHit _ _ _ tags _ _ writes lines =>
      rw [lines] at hk
      obtain ⟨hk, hnot⟩ := reserved_of_writes writes hk
      exact .inl ((tags.reserved_or hk).resolve_right fun h => hnot ⟨h.1, h.2.1⟩)
  | writeHit _ _ _ tags _ _ writes lines =>
      rw [lines] at hk
      obtain ⟨hk, hnot⟩ := reserved_of_writes writes hk
      exact .inl ((tags.reserved_or hk).resolve_right fun h => hnot ⟨h.1, h.2.1⟩)
  | @writeEvict idx _ _ _ _ _ lines =>
      rw [lines] at hk
      by_cases hi : i = idx
      · rw [hi, TagArray.lines_modifyLine_self, CacheBlock.stateAt_setStatus] at hk
        by_cases hcovers : Covers cfg.cacheType mf.sectorMask k
        · rw [if_pos hcovers] at hk
          cases hk
        · rw [if_neg hcovers] at hk
          exact .inl (hi ▸ hk)
      · rw [TagArray.lines_modifyLine_ne _ hi] at hk
        exact .inl hk
  | writeAround _ lines =>
      rw [lines] at hk
      exact .inl hk
  | @fetched r plan uid planned _ tags probed _ _ queueRoom tableRoom inOrder _ lines missTaken =>
      have hfor := missPlan_for planned
      have hk : ((r.tags.lines i).stateAt k).status = .reserved := by
        rw [lines] at hk
        split_ifs at hk
        · rwa [status_setModifiedOnFill] at hk
        · exact hk
      rcases tags.reserved_or hk with hold | ⟨hi, hcovers, hmiss⟩
      · exact .inl hold
      · rw [hfor.sectorMask] at hcovers
        exact .inr ⟨plan, r, _, ⟨planned, probed, hmiss, queueRoom, tableRoom, inOrder⟩, missTaken,
          hi,
          hcovers⟩
  | written _ _ tags _ _ _ _ writes lines =>
      rw [lines] at hk
      obtain ⟨hk, hnot⟩ := reserved_of_writes writes hk
      exact .inl ((tags.reserved_or hk).resolve_right fun h => hnot ⟨h.1, h.2.1⟩)

theorem uid_notMem {plan : MissPlan} (hr : c.RegistersInvariant)
    (henabled : c.Enabled (.access mf time)) (hplan : missPlan kind c mf = some plan) :
    c.extraMfFields plan.request.uid = none := by
  rcases (missPlan_for hplan).uid with hreq | ⟨hreq, -⟩
  · rw [hreq]
    exact henabled.2.1
  · rw [hreq, Option.eq_none_iff_forall_ne_some]
    exact fun e he => lt_irrefl _ (hr.record_lt _ e he)

theorem Accessed.extraMfFields_of
    (hr : c.RegistersInvariant) (henabled : c.Enabled (.access mf time))
    (h : Accessed kind c mf time c') (he : c.extraMfFields uid = some e) :
    c'.extraMfFields uid = some e := by
  cases h with
  | readHit _ _ _ _ _ kept => rw [kept.extraMfFields, he]
  | atomicHit _ _ _ _ _ _ _ _ kept => rw [kept.extraMfFields, he]
  | writeHit _ _ _ _ _ _ _ _ kept => rw [kept.extraMfFields, he]
  | writeEvict _ _ _ _ _ _ kept => rw [kept.extraMfFields, he]
  | writeAround _ _ kept => rw [kept.extraMfFields, he]
  | written _ _ _ _ _ _ _ _ _ kept => rw [kept.extraMfFields, he]
  | @fetched r plan _ planned _ _ _ _ _ _ _ _ _ _ missTaken =>
      rcases missTaken with ⟨-, hextra, -⟩ | ⟨-, hextra, -⟩
      · rw [hextra, he]
      · have hne : uid ≠ plan.request.uid := by
          intro huid
          rw [huid, uid_notMem hr henabled planned] at he
          cases he
        rw [hextra, Function.update_of_ne hne, he]

theorem Accessed.outstanding (hr : c.RegistersInvariant)
    (hall : c.NoOrphan) (henabled : c.Enabled (.access mf time))
    (hguard : ¬ MergesUnfilled kind c (.access mf time)) (h : Accessed kind c mf time c') :
    ∀ idx k, ((c'.tagArray.lines idx).stateAt k).status = .reserved → c'.Outstanding idx k := by
  intro i k hk
  have hkept : ∀ uid e, c.extraMfFields uid = some e → c'.extraMfFields uid = some e :=
    fun uid e he => h.extraMfFields_of hr henabled he
  rcases h.reserved_or hk with hold | ⟨plan, r, wbs, hwaits, hmisses, rfl, hcovers⟩
  · exact (hall.outstanding i k hold).of_extra hkept
  · have hfor := missPlan_for hwaits.planned
    rcases hmisses with ⟨hmem, -⟩ | ⟨-, hextra, -⟩
    · -- merged: the condition says that a fill is under way
      have hout : c.Outstanding r.idx (getSectorIndex mf.sectorMask) := by
        by_contra hnone
        exact hguard ⟨plan, r.status, r.idx, hwaits, hmem, hnone⟩
      exact (hout.covers hcovers).of_extra hkept
    · refine ⟨plan.request.uid, .new cfg plan.request r.idx, ?_, rfl, ?_⟩
      · rw [hextra, Function.update_self]
      · show Covers cfg.cacheType plan.request.sectorMask k
        rw [hfor.sectorMask]
        exact hcovers

/-! ## Fills -/

theorem Filled.outstanding
    (honMiss : cfg.allocPolicy = .onMiss) (hall : c.NoOrphan) (h : Filled c uid e time c') :
    ∀ idx k, ((c'.tagArray.lines idx).stateAt k).status = .reserved → c'.Outstanding idx k := by
  obtain ⟨hasAtomic, hlines⟩ := h.lines honMiss
  intro i k hk
  -- the sector is not one that was filled, so its record is another
  have hcase : ((c.tagArray.lines i).stateAt k).status = .reserved ∧
      ¬ (e.cacheIndex = i ∧ Covers cfg.cacheType e.mf.sectorMask k) := by
    by_cases hi : i = e.cacheIndex
    · rw [hlines, hi, TagArray.lines_modifyLine_self] at hk
      by_cases hcovers : Covers cfg.cacheType e.mf.sectorMask k
      · exact absurd hk (status_fillLineOf _ hcovers)
      · rw [stateAt_fillLineOf _ hcovers] at hk
        exact ⟨hi ▸ hk, fun h => hcovers h.2⟩
    · rw [hlines, TagArray.lines_modifyLine_ne _ hi] at hk
      exact ⟨hk, fun h => hi h.1.symm⟩
  obtain ⟨uid', e', he', hidx, hcovers⟩ := hall.outstanding i k hcase.1
  have huid : uid' ≠ uid := by
    rintro rfl
    rw [h.record, Option.some.injEq] at he'
    exact hcase.2 ⟨he' ▸ hidx, he' ▸ hcovers⟩
  exact ⟨uid', e', by rw [h.extraMfFields, Function.update_of_ne huid, he'], hidx, hcovers⟩

theorem PartlyFilled.outstanding (hall : c.NoOrphan) (h : PartlyFilled c uid e c') :
    ∀ idx k, ((c'.tagArray.lines idx).stateAt k).status = .reserved → c'.Outstanding idx k := by
  obtain ⟨n, hextra⟩ := h.extraMfFields
  intro i k hk
  rw [h.lines] at hk
  obtain ⟨uid', e', he', hidx, hcovers⟩ := hall.outstanding i k hk
  by_cases huid : uid' = uid
  · rw [huid, h.record, Option.some.injEq] at he'
    subst he'
    exact ⟨uid, { e with pendingRead := n }, by rw [hextra, Function.update_self], hidx, hcovers⟩
  · exact ⟨uid', e', by rw [hextra, Function.update_of_ne huid, he'], hidx, hcovers⟩

/-! ## Runs -/

theorem NoOrphan.stepped {a : CacheAction} (honMiss : cfg.allocPolicy = .onMiss)
    (hr : c.RegistersInvariant) (hall : c.NoOrphan) (henabled : c.Enabled a)
    (hguard : ¬ MergesUnfilled kind c a) (hs : Stepped kind c a c') : c'.NoOrphan := by
  have hsame : c'.tagArray.lines = c.tagArray.lines → c'.extraMfFields = c.extraMfFields →
      c'.NoOrphan := by
    intro hlines hextra
    apply NoOrphan.of_outstanding
    intro i k hk
    rw [hlines] at hk
    exact (hall.outstanding i k hk).of_extra fun uid e he => by rw [hextra, he]
  cases hs with
  | refused => exact hall
  | accessed _ _ h => exact .of_outstanding (h.outstanding hr hall henabled hguard)
  | cycled lines kept => exact hsame lines kept.extraMfFields
  | partlyFilled h => exact .of_outstanding (h.outstanding hall)
  | filled _ _ h => exact .of_outstanding (h.outstanding honMiss hall)
  | drained _ lines _ extraMfFields => exact hsame lines extraMfFields

theorem CacheBlock.stateAt_empty {ct : CacheType} (k : Fin 4) :
    ((CacheBlock.empty ct).stateAt k).status = .invalid := by
  cases ct <;> rfl

end BaselineCache

end GpuCalorie.Cache
