/-
# Cycles of the data port

After an access `use_data_port` looks in the list of its events for a write-back, to add the time
it takes to read what was evicted. It finds one only at the front of the list. A miss that is
fetched has other events before, or, at a read, an event that does not say what was evicted.
-/

import GpuCalorie.Cache.Machine
import Mathlib.Algebra.Order.Floor.Div

namespace GpuCalorie.Cache.BaselineCache

open GpuCalorie.Math

variable {cfg : CacheConfig} {level : DataCacheLevel} {c : BaselineCache cfg} {mf : MemFetch}
  {time : UInt32} {status : RequestStatus} {idx i : ℕ} {probeMode : Option MemFetch}
  {events : List CacheEvent} {r : AccessResult cfg} {t : TagAccess cfg.cacheType} {plan : MissPlan}
  {request : MemFetch}

/-- The cycles of an access are those of its data at a hit, and at a miss those of the modified
bytes it evicts, if it sends a write-back. -/
structure PortAccounted (c : BaselineCache cfg) (mf : MemFetch) (r : AccessResult cfg) : Prop where
  hit : r.status = .hit →
    r.cache.dataPortOccupiedCycles = c.dataPortOccupiedCycles + mf.dataSize ⌈/⌉ cfg.dataPortWidth
  writeBack : r.status = .hitReserved ∨ r.status = .miss →
    (∃ evicted, .writeBackRequestSent evicted ∈ r.events) → ∀ status idx,
      c.tagArray.outcome cfg (cfg.blockAddr mf.addr) mf.sectorMask = some (status, idx) →
        r.cache.dataPortOccupiedCycles
          = c.dataPortOccupiedCycles + (c.tagArray.lines idx).getModifiedSize / cfg.dataPortWidth
  noWriteBack : r.status = .hitReserved ∨ r.status = .miss →
    (∀ evicted, .writeBackRequestSent evicted ∉ r.events) →
      r.cache.dataPortOccupiedCycles = c.dataPortOccupiedCycles

/-! ## The accesses that are not accounted for -/

/-- A miss that is served by a read, and not refused. -/
structure Fetches (level : DataCacheLevel) (c : BaselineCache cfg) (mf : MemFetch)
    (plan : MissPlan) :
    Prop where
  planned : missPlan (.data level) c mf = some plan
  queueRoom : c.missQueueFull plan.numMiss = false
  tableRoom : c.mshrs.full cfg (cfg.mshrAddr mf.addr) = false
  inOrder : plan.marks = true → c.mshrs.probe (cfg.mshrAddr mf.addr) = true →
    c.mshrs.isReadAfterWritePending (cfg.mshrAddr mf.addr) = false

/-- An access evicts a modified line. -/
structure EvictsModified (c : BaselineCache cfg) (mf : MemFetch) (idx : ℕ) : Prop where
  outcome : c.tagArray.outcome cfg (cfg.blockAddr mf.addr) mf.sectorMask = some (.miss, idx)
  onMiss : cfg.allocPolicy = .onMiss
  modified : (c.tagArray.lines idx).isModifiedLine = true

/-- A miss is served by a read, and writes back what takes time to be read out. -/
structure LosesReadOut (level : DataCacheLevel) (c : BaselineCache cfg) (mf : MemFetch) : Prop where
  fetches : ∃ plan, Fetches level c mf plan
  policy : cfg.writePolicy ≠ .writeThrough
  evicts : ∃ idx, EvictsModified c mf idx ∧ cfg.dataPortWidth ≤
    (c.tagArray.lines idx).getModifiedSize

/-! ## Events -/

/-- The event of a write-back, if there is one. -/
def writeBackEvents (cfg : CacheConfig) (wb : Bool) (request : CacheEvent) : List CacheEvent :=
  if wb ∧ cfg.writePolicy ≠ .writeThrough then [request] else []

/-- How the status and the events of an access go together. -/
inductive EventsSent (level : DataCacheLevel) (c : BaselineCache cfg) (mf : MemFetch)
    (status : RequestStatus)
    (events : List CacheEvent) : Prop
  | refused (refused : status = .reservationFail) (kept : ¬ LosesReadOut level c mf)
  | hit {idx : ℕ} (hit : status = .hit)
      (outcome : c.tagArray.outcome cfg (cfg.blockAddr mf.addr) mf.sectorMask = some (.hit, idx))
  | around (miss : status = .miss) (unplanned : missPlan (.data level) c mf = none)
      (sent : events = [.writeRequestSent])
  | written {time : UInt32} {t : TagAccess cfg.cacheType} (miss : status = .miss)
      (unplanned : missPlan (.data level) c mf = none)
      (tags : TagAccessed cfg c.tagArray (cfg.blockAddr mf.addr) time mf t)
      (probed : c.tagArray.outcome cfg (cfg.blockAddr mf.addr) mf.sectorMask =
        some (t.status, t.idx))
      (sent : events = writeBackEvents cfg t.wb (.writeBackRequestSent t.evicted))
  /-- Events before that of the write-back, or one that does not say what was evicted. -/
  | fetched {time : UInt32} {plan : MissPlan} {t : TagAccess cfg.cacheType}
    {before : List CacheEvent}
      {evicted : EvictedBlockInfo} (miss : status = .miss) (fetches : Fetches level c mf plan)
      (tags : TagAccessed cfg c.tagArray (cfg.blockAddr mf.addr) time plan.request t)
      (probed : c.tagArray.outcome cfg (cfg.blockAddr mf.addr) mf.sectorMask =
        some (t.status, t.idx))
      (others : ∀ evicted, .writeBackRequestSent evicted ∉ before)
        (unseen : before = [] → evicted = {})
      (sent : events = before ++ writeBackEvents cfg t.wb (.writeBackRequestSent evicted))

theorem evictsModified_iff
    (htags : TagAccessed cfg c.tagArray (cfg.blockAddr mf.addr) time request t)
    (hprobed : c.tagArray.outcome cfg (cfg.blockAddr mf.addr) mf.sectorMask =
    some (t.status, t.idx)) (idx : ℕ) :
    EvictsModified c mf idx ↔ t.wb = true ∧ t.idx = idx := by
  constructor
  · rintro ⟨houtcome, honMiss, hmodified⟩
    obtain ⟨hstatus, hidx⟩ := Prod.mk.inj (Option.some.inj (hprobed.symm.trans houtcome))
    subst hidx
    refine ⟨?_, rfl⟩
    cases htags with
    | touched _ _ _ hit => rcases hit with rfl | rfl <;> cases hstatus
    | allocated _ _ _ _ dirty _ => exact dirty.trans hmodified
    | allocatedSector => cases hstatus
    | deferred _ _ onFill => exact absurd (honMiss.symm.trans onFill) (by decide)
    | full => cases hstatus
  · rintro ⟨hwb, rfl⟩
    obtain ⟨hstatus, honMiss⟩ := htags.miss_of_wb hwb
    refine ⟨hstatus ▸ hprobed, honMiss, ?_⟩
    cases htags with
    | touched => cases hwb
    | allocated _ _ _ _ dirty _ => exact dirty.symm.trans hwb
    | allocatedSector => cases hwb
    | deferred => cases hwb
    | full => cases hwb

theorem modifiedSize_evicted
    (htags : TagAccessed cfg c.tagArray (cfg.blockAddr mf.addr) time request t)
    (hwb : t.wb = true) :
    t.evicted.modifiedSize = (c.tagArray.lines t.idx).getModifiedSize := by
  cases htags with
  | touched => cases hwb
  | allocated _ _ _ _ _ info => rw [info hwb]
  | allocatedSector => cases hwb
  | deferred => cases hwb
  | full => cases hwb

theorem not_losesReadOut_of_probe
    (hprobe : c.tagArray.probe cfg (cfg.blockAddr mf.addr) i mf.sectorMask probeMode =
    .ok (status, idx))
    (hne : status ≠ .miss) : ¬ LosesReadOut level c mf := by
  rintro ⟨-, -, j, ⟨houtcome, honMiss, -⟩, -⟩
  rw [TagArray.outcome] at houtcome
  cases hnone : c.tagArray.probe cfg (cfg.blockAddr mf.addr) noIndex mf.sectorMask none with
  | error e =>
      rw [hnone] at houtcome
      cases houtcome
  | ok found =>
      rw [hnone] at houtcome
      cases houtcome
      rcases (TagArray.probe_none hprobe hnone).1 with heq | ⟨hstreaming, -⟩
      · exact hne heq.symm
      · exact absurd (honMiss.symm.trans (cfg.streaming hstreaming)) (by decide)

theorem not_losesReadOut_of_unplanned (h : missPlan (.data level) c mf = none) :
    ¬ LosesReadOut level c mf := by
  rintro ⟨⟨plan, hplan, -⟩, -, -⟩
  exact nomatch h.symm.trans hplan

theorem not_losesReadOut_of_plan (hplan : missPlan (.data level) c mf = some plan)
    (h : ¬ Fetches level c mf plan) : ¬ LosesReadOut level c mf := by
  rintro ⟨⟨plan', hfetches⟩, -, -⟩
  cases hplan.symm.trans hfetches.planned
  exact h hfetches

/-! ## The events of the policies -/

/-- A policy leaves the port alone, and its events go with its status. -/
structure PolicyEvents (level : DataCacheLevel) (c : BaselineCache cfg) (mf : MemFetch)
    (r : AccessResult cfg) :
    Prop where
  port : r.cache.dataPortOccupiedCycles = c.dataPortOccupiedCycles
  sent : EventsSent level c mf r.status r.events

theorem PolicyEvents.refused {events : List CacheEvent} (h : ¬ LosesReadOut level c mf) :
    PolicyEvents level c mf ⟨.reservationFail, events, c⟩ :=
  ⟨rfl, .refused rfl h⟩

theorem PolicyEvents.noRoom (hplan : missPlan (.data level) c mf = some plan)
    {events : List CacheEvent} (h : c.missQueueFull plan.numMiss = true ∨
      c.mshrs.full cfg (cfg.mshrAddr mf.addr) = true) :
    PolicyEvents level c mf ⟨.reservationFail, events, c⟩ := by
  refine .refused (not_losesReadOut_of_plan hplan fun hfetches => ?_)
  rcases h with hroom | hfull
  · exact nomatch hroom.symm.trans hfetches.queueRoom
  · exact nomatch hfull.symm.trans hfetches.tableRoom

variable (level) in
theorem sendWriteBack_events (c : BaselineCache cfg) (wb : Bool) (evicted : EvictedBlockInfo)
    (request : CacheEvent)
    (events : List CacheEvent) :
    (c.sendWriteBack level wb evicted request events).1 = events ++ writeBackEvents cfg wb request ∧
      (c.sendWriteBack level wb evicted request events).2.dataPortOccupiedCycles =
        c.dataPortOccupiedCycles := by
  rw [sendWriteBack, writeBackEvents]
  split_ifs
  · exact ⟨rfl, rfl⟩
  · exact ⟨(List.append_nil events).symm, rfl⟩

theorem sendReadRequest_events {addr : Addr} {readOnly wa : Bool} {q : ReadRequest cfg}
    (h : c.sendReadRequest addr idx request time events readOnly wa = .ok q) :
    q.cache.dataPortOccupiedCycles = c.dataPortOccupiedCycles ∧
      (q.events = events ∨ (wa = false ∧ q.events = events ++ [.readRequestSent])) := by
  rw [sendReadRequest] at h
  dsimp only at h
  split at h
  · obtain ⟨t, -, h⟩ := bind_eq_ok.mp h
    obtain ⟨mshrs, -, h⟩ := bind_eq_ok.mp h
    cases h
    exact ⟨rfl, .inl rfl⟩
  · split at h
    · obtain ⟨t, -, h⟩ := bind_eq_ok.mp h
      obtain ⟨mshrs, -, h⟩ := bind_eq_ok.mp h
      cases h
      cases wa with
      | true => exact ⟨rfl, .inl rfl⟩
      | false => exact ⟨rfl, .inr ⟨rfl, rfl⟩⟩
    · split at h
      · cases h
        exact ⟨rfl, .inl rfl⟩
      · cases h

theorem fetched_events {before : List CacheEvent}
    {evicted info : EvictedBlockInfo} {wb : Bool} {c₁ : BaselineCache cfg}
    (hfetches : Fetches level c mf plan)
    (htags : TagAccessed cfg c.tagArray (cfg.blockAddr mf.addr) time plan.request t)
    (hprobed : c.tagArray.outcome cfg (cfg.blockAddr mf.addr) mf.sectorMask =
      some (t.status, t.idx))
    (hport : c₁.dataPortOccupiedCycles = c.dataPortOccupiedCycles) (hwb : wb = t.wb)
    (hothers : ∀ evicted, .writeBackRequestSent evicted ∉ before)
    (hunseen : before = [] → evicted = {}) :
    PolicyEvents level c mf
      ⟨.miss, (c₁.sendWriteBack level wb info (.writeBackRequestSent evicted) before).1,
        (c₁.sendWriteBack level wb info (.writeBackRequestSent evicted) before).2⟩ := by
  have hback := sendWriteBack_events level c₁ wb info (.writeBackRequestSent evicted) before
  exact ⟨hback.2.trans hport, .fetched rfl hfetches htags hprobed hothers hunseen
    (hback.1.trans (congrArg (_ ++ writeBackEvents cfg · _) hwb))⟩

theorem written_events {c₁ : BaselineCache cfg} (hplan : missPlan (.data level) c mf = none)
    (htags : TagTaken cfg c.tagArray (cfg.blockAddr mf.addr) time mf status idx t)
    (htaken : status ≠ .reservationFail)
    (hport : c₁.dataPortOccupiedCycles = c.dataPortOccupiedCycles) :
    PolicyEvents level c mf
      ⟨.miss, (c₁.sendWriteBack level t.wb t.evicted (.writeBackRequestSent t.evicted) []).1,
        (c₁.sendWriteBack level t.wb t.evicted (.writeBackRequestSent t.evicted) []).2⟩ := by
  have hback := sendWriteBack_events level c₁ t.wb t.evicted (.writeBackRequestSent t.evicted) []
  refine ⟨hback.2.trans hport, ?_⟩
  exact .written rfl hplan htags.accessed (htags.probed (mt htags.reservationFail_iff.mp htaken))
    hback.1

section Misses

variable (hprobe : c.tagArray.probe cfg (cfg.blockAddr mf.addr) i mf.sectorMask probeMode =
    .ok (status, idx)) (htaken : status ≠ .reservationFail)
include hprobe htaken

theorem sendReadRequest_taken {c₀ : BaselineCache cfg} {n₀ : ℕ} {wa : Bool} {q : ReadRequest cfg}
    (hplan : missPlan (.data level) c mf = some plan)
    (hbefore : c₀ = { c with missQueue := c.missQueue ++ plan.before, nextUid := n₀ })
    (hroom : c.missQueueFull plan.numMiss = false)
    (h : c₀.sendReadRequest (cfg.blockAddr mf.addr) idx plan.request time events false wa = .ok q) :
    (c.mshrs.full cfg (cfg.mshrAddr mf.addr) = true ∧ q.doMiss = false) ∨
      (c.mshrs.full cfg (cfg.mshrAddr mf.addr) = false ∧ q.doMiss = true ∧ ∃ t,
        TagAccessed cfg c.tagArray (cfg.blockAddr mf.addr) time plan.request t ∧
        c.tagArray.outcome cfg (cfg.blockAddr mf.addr) mf.sectorMask = some (t.status, t.idx) ∧
        q.wb = t.wb ∧ q.evicted = t.evicted) := by
  have hfor := missPlan_for hplan
  have hqueue : c₀.missQueue.length < cfg.missQueueSize := by
    have hlt := missQueueFull_eq_false.mp hroom
    have hlength := hfor.room 0 false {}
    rw [hbefore]
    simp only [List.length_append]
    omega
  have hprobe₀ : c₀.tagArray.probe cfg (cfg.blockAddr mf.addr) i plan.request.sectorMask probeMode =
      .ok (status, idx) := by
    rw [hfor.sectorMask, hbefore]
    exact hprobe
  rcases (sendReadRequest_spec time idx events false wa hprobe₀ hqueue).of_ok h with
    ⟨hfull, hno, -⟩ | ⟨hdo, t, ht, hwb, hevicted⟩
  · rw [hfor.addr, hbefore] at hfull
    exact .inl ⟨hfull, hno⟩
  · have hfull := ht.room
    have hprobed := ht.tags.probed (mt ht.tags.reservationFail_iff.mp htaken)
    have haccessed := ht.tags.accessed
    rw [hfor.addr, hbefore] at hfull
    rw [hfor.sectorMask, hbefore] at hprobed
    rw [hbefore] at haccessed
    exact .inr ⟨hfull, hdo, t, haccessed, hprobed, hwb, hevicted⟩

theorem wrMissWaNaive_events (hwrite : mf.isWrite = true)
    (hpolicy : cfg.writeAllocPolicy = .writeAllocate)
    (h : c.wrMissWaNaive level mf.addr idx mf time [] status = .ok r) :
    PolicyEvents level c mf r := by
  have hplan : missPlan (.data level) c mf =
      some { request := c.writeAllocateRequest level mf none, before := [mf], numMiss := 2 } := by
    simp only [missPlan, if_pos hwrite, hpolicy]
  rw [wrMissWaNaive, refusesMiss_eq] at h
  cases hroom : c.missQueueFull 2 with
  | true =>
      rw [hroom] at h
      cases h
      exact .noRoom hplan (.inl hroom)
  | false =>
      cases hfull : c.mshrs.full cfg (cfg.mshrAddr mf.addr) with
      | true =>
          rw [hroom, hfull] at h
          cases h
          exact .noRoom hplan (.inr hfull)
      | false =>
          rw [hroom, hfull] at h
          change (sendReadRequest _ _ _ _ _ _ _ _ >>= _) = _ at h
          obtain ⟨q, hq, h⟩ := bind_eq_ok.mp h
          obtain ⟨hport, hevents⟩ := sendReadRequest_events hq
          rcases sendReadRequest_taken hprobe htaken hplan rfl hroom hq with
            ⟨hno, -⟩ | ⟨-, hdo, t, haccessed, hprobed, hwb, hevicted⟩
          · cases hfull.symm.trans hno
          · rw [if_pos hdo] at h
            split at h
            · cases h
            · cases h
              rw [hevents.resolve_right (by simp)]
              exact fetched_events ⟨hplan, hroom, hfull, by rintro ⟨⟩⟩ haccessed hprobed hport hwb
                (by simp) (by rintro ⟨⟩)

theorem wrMissWaFetchOnWritePart_events (hwrite : mf.isWrite = true)
    (hpolicy : cfg.writeAllocPolicy = .fetchOnWrite)
    (hpart : mf.byteMask.card ≠ cfg.atomSz)
    (h : c.wrMissWaFetchOnWritePart level mf.addr idx mf time [] = .ok r) :
    PolicyEvents level c mf r := by
  have hplan : missPlan (.data level) c mf =
      some { request := c.writeAllocateRequest level mf (some (mf.uid, mf.access)), marks :=
        true, numMiss := 1 } := by
    simp only [missPlan, if_pos hwrite, hpolicy, if_neg hpart]
  rw [wrMissWaFetchOnWritePart, refusesMiss_eq] at h
  cases hroom : c.missQueueFull 1 with
  | true =>
      rw [hroom] at h
      cases h
      exact .noRoom hplan (.inl hroom)
  | false =>
      cases hfull : c.mshrs.full cfg (cfg.mshrAddr mf.addr) with
      | true =>
          rw [hroom, hfull] at h
          cases h
          exact .noRoom hplan (.inr hfull)
      | false =>
          rw [hroom, hfull] at h
          change (if c.mshrs.probe _ = true ∧ _ then _ else sendReadRequest _ _ _ _ _ _ _ _ >>= _) =
            _ at h
          split at h
          case isTrue hpending =>
            cases h
            refine .refused (not_losesReadOut_of_plan hplan fun hfetches => ?_)
            cases hpending.2.1.symm.trans (hfetches.inOrder rfl hpending.1)
          case isFalse hpending =>
            have horder (hhit : c.mshrs.probe (cfg.mshrAddr mf.addr) = true) :
                c.mshrs.isReadAfterWritePending (cfg.mshrAddr mf.addr) = false :=
              Bool.eq_false_of_not_eq_true fun hpend => hpending ⟨hhit, hpend, hwrite⟩
            obtain ⟨q, hq, h⟩ := bind_eq_ok.mp h
            obtain ⟨hport, hevents⟩ := sendReadRequest_events hq
            have hbefore : { c with nextUid := c.nextUid + 1 }
                = { c with missQueue := c.missQueue ++ [], nextUid := c.nextUid + 1 } := by
                  rw [List.append_nil]
            rcases sendReadRequest_taken hprobe htaken hplan hbefore hroom hq with
              ⟨hno, -⟩ | ⟨-, hdo, t, haccessed, hprobed, hwb, hevicted⟩
            · cases hfull.symm.trans hno
            · rw [if_pos hdo] at h
              cases h
              rw [hevents.resolve_right (by simp)]
              exact fetched_events ⟨hplan, hroom, hfull, fun _ => horder⟩ haccessed hprobed
                hport hwb (by simp) (by rintro ⟨⟩)

theorem rdMissBase_events (hread : mf.isWrite = false)
    (h : c.rdMissBase level mf.addr idx mf time [] = .ok r) :
    PolicyEvents level c mf r := by
  have hplan : missPlan (.data level) c mf = some { request := mf, numMiss := 1 } := by
    simp [missPlan, hread]
  rw [rdMissBase] at h
  split at h
  case isTrue hfull =>
    cases h
    exact .noRoom hplan (.inl hfull)
  case isFalse hfull =>
    have hroom := Bool.eq_false_of_not_eq_true hfull
    obtain ⟨q, hq, h⟩ := bind_eq_ok.mp h
    obtain ⟨hport, hevents⟩ := sendReadRequest_events hq
    have hbefore : c = { c with missQueue := c.missQueue ++ [], nextUid := c.nextUid } := by
      rw [List.append_nil]
    rcases sendReadRequest_taken hprobe htaken hplan hbefore hroom hq with
      ⟨hfull, hno⟩ | ⟨hfull, hdo, t, haccessed, hprobed, hwb, hevicted⟩
    · rw [if_neg (by rw [hno]; decide)] at h
      cases h
      refine ⟨hport, .refused rfl (not_losesReadOut_of_plan hplan fun hfetches => ?_)⟩
      cases hfull.symm.trans hfetches.tableRoom
    · rw [if_pos hdo] at h
      cases h
      refine fetched_events ⟨hplan, hroom, hfull, by rintro ⟨⟩⟩ haccessed hprobed hport hwb ?_
        fun _ => rfl
      rcases hevents with heq | ⟨-, heq⟩
      · rw [heq]
        exact fun _ => List.not_mem_nil
      · rw [heq]
        simp

/-! ## Misses that are not fetched -/

theorem wrMissWaFetchOnWriteFull_events (hplan : missPlan (.data level) c mf = none)
    (h : c.wrMissWaFetchOnWriteFull level mf.addr idx mf time [] = .ok r) :
    PolicyEvents level c mf r := by
  rw [wrMissWaFetchOnWriteFull] at h
  split at h
  · cases h
    exact .refused (not_losesReadOut_of_unplanned hplan)
  · obtain ⟨t, ht, h⟩ := bind_eq_ok.mp h
    have htags := (tagAccess_spec time idx hprobe).of_ok ht
    split at h
    · cases h
    · change (if t.status ≠ .reservationFail then _ else _) = _ at h
      rw [if_pos (mt htags.reservationFail_iff.mp htaken)] at h
      cases h
      exact written_events hplan htags htaken rfl

theorem wrMissWaLazyFetchOnRead_events (hplan : missPlan (.data level) c mf = none)
    (h : c.wrMissWaLazyFetchOnRead level mf.addr idx mf time [] = .ok r) :
    PolicyEvents level c mf r := by
  rw [wrMissWaLazyFetchOnRead] at h
  split at h
  · cases h
    exact .refused (not_losesReadOut_of_unplanned hplan)
  · obtain ⟨t, ht, h⟩ := bind_eq_ok.mp h
    have htags := (tagAccess_spec time idx hprobe).of_ok ht
    split at h
    · cases h
    · change (if t.status ≠ .reservationFail then _ else _) = _ at h
      rw [if_pos (mt htags.reservationFail_iff.mp htaken)] at h
      cases h
      exact written_events hplan htags htaken rfl

end Misses

theorem wrMissNoWa_events (hplan : missPlan (.data level) c mf = none)
    (h : c.wrMissNoWa mf [] = .ok r) :
    PolicyEvents level c mf r := by
  rw [wrMissNoWa] at h
  split at h
  · cases h
    exact .refused (not_losesReadOut_of_unplanned hplan)
  · cases h
    exact ⟨rfl, .around rfl hplan rfl⟩

/-! ## Hits -/

section Hits

variable (hprobe : c.tagArray.probe cfg (cfg.blockAddr mf.addr) i mf.sectorMask probeMode =
    .ok (.hit, idx))
include hprobe

theorem wrHitWb_events (h : c.wrHitWb mf.addr idx mf time [] = .ok r) :
    PolicyEvents level c mf r := by
  rw [wrHitWb] at h
  obtain ⟨t, -, h⟩ := bind_eq_ok.mp h
  cases h
  exact ⟨rfl, .hit rfl (TagArray.outcome_of_hit hprobe)⟩

theorem wrHitWt_events (h : c.wrHitWt mf.addr idx mf time [] = .ok r) :
    PolicyEvents level c mf r := by
  rw [wrHitWt] at h
  split at h
  · cases h
    exact .refused (not_losesReadOut_of_probe hprobe (by decide))
  · obtain ⟨t, -, h⟩ := bind_eq_ok.mp h
    cases h
    exact ⟨rfl, .hit rfl (TagArray.outcome_of_hit hprobe)⟩

theorem wrHitWe_events (h : c.wrHitWe idx mf [] = .ok r) : PolicyEvents level c mf r := by
  rw [wrHitWe] at h
  split at h
  · cases h
    exact .refused (not_losesReadOut_of_probe hprobe (by decide))
  · cases h
    exact ⟨rfl, .hit rfl (TagArray.outcome_of_hit hprobe)⟩

theorem wrHit_events (h : c.wrHit mf.addr idx mf time [] = .ok r) : PolicyEvents level c mf r := by
  rw [wrHit] at h
  split at h
  · cases h
  · exact wrHitWb_events hprobe h
  · exact wrHitWt_events hprobe h
  · exact wrHitWe_events hprobe h
  · rw [wrHitGlobalWeLocalWb] at h
    split at h
    · exact wrHitWe_events hprobe h
    · exact wrHitWb_events hprobe h

theorem rdHitBase_events (h : c.rdHitBase mf.addr idx mf time [] = .ok r) :
    PolicyEvents level c mf r := by
  rw [rdHitBase] at h
  obtain ⟨t, -, h⟩ := bind_eq_ok.mp h
  split at h
  · split at h
    · cases h
      exact ⟨rfl, .hit rfl (TagArray.outcome_of_hit hprobe)⟩
    · cases h
  · cases h
    exact ⟨rfl, .hit rfl (TagArray.outcome_of_hit hprobe)⟩

end Hits

/-! ## Accesses -/

theorem wrMiss_events (hwrite : mf.isWrite = true)
    (hprobe : c.tagArray.probe cfg (cfg.blockAddr mf.addr) i mf.sectorMask probeMode =
    .ok (status, idx))
    (htaken : status ≠ .reservationFail ∨ cfg.writeAllocPolicy = .noWriteAllocate)
    (h : c.wrMiss level mf.addr idx mf time [] status = .ok r) : PolicyEvents level c mf r := by
  rw [wrMiss] at h
  cases hpolicy : cfg.writeAllocPolicy with
  | noWriteAllocate =>
      rw [hpolicy] at h
      exact wrMissNoWa_events (by simp only [missPlan, if_pos hwrite, hpolicy]) h
  | writeAllocate =>
      rw [hpolicy] at h
      exact wrMissWaNaive_events hprobe (htaken.resolve_right (by simp [hpolicy])) hwrite hpolicy h
  | fetchOnWrite =>
      rw [hpolicy] at h
      have htaken := htaken.resolve_right (by simp [hpolicy])
      dsimp only at h
      rw [wrMissWaFetchOnWrite] at h
      split at h
      case isTrue hall =>
        exact wrMissWaFetchOnWriteFull_events hprobe htaken
          (by simp only [missPlan, if_pos hwrite, hpolicy, if_pos hall]) h
      case isFalse hpart =>
          exact wrMissWaFetchOnWritePart_events hprobe htaken hwrite hpolicy hpart h
  | lazyFetchOnRead =>
      rw [hpolicy] at h
      exact wrMissWaLazyFetchOnRead_events hprobe (htaken.resolve_right (by simp [hpolicy]))
        (by simp only [missPlan, if_pos hwrite, hpolicy]) h

theorem processTagProbe_events
    (hprobe : c.tagArray.probe cfg (cfg.blockAddr mf.addr) i mf.sectorMask probeMode =
    .ok (status, idx))
    (h : c.processTagProbe level status mf.addr idx mf time = .ok r) :
    PolicyEvents level c mf r := by
  rw [processTagProbe] at h
  split at h
  case isTrue hwrite =>
    split at h
    case isTrue hhit =>
      subst hhit
      exact wrHit_events hprobe h
    case isFalse hmiss =>
      split at h
      case isTrue htaken => exact wrMiss_events hwrite hprobe htaken h
      case isFalse hfail =>
        cases h
        have hstatus : status = .reservationFail := by
          by_contra hne
          exact hfail (.inl hne)
        exact .refused (not_losesReadOut_of_probe hprobe (by rw [hstatus]; decide))
  case isFalse hread =>
    split at h
    case isTrue hhit =>
      subst hhit
      exact rdHitBase_events hprobe h
    case isFalse hmiss =>
      split at h
      case isTrue htaken =>
          exact rdMissBase_events hprobe htaken (Bool.eq_false_of_not_eq_true hread) h
      case isFalse hfail =>
        cases h
        exact .refused (not_losesReadOut_of_probe hprobe (by rw [not_not.mp hfail]; decide))

/-! ## The port -/

theorem ceilDiv_eq (hwidth : 0 < cfg.dataPortWidth) (bytes : ℕ) :
    bytes / cfg.dataPortWidth + (if 0 < bytes % cfg.dataPortWidth then 1 else 0) =
      bytes ⌈/⌉ cfg.dataPortWidth := by
  have hdiv := Nat.div_add_mod bytes cfg.dataPortWidth
  have hmod := Nat.mod_lt bytes hwidth
  rw [Nat.ceilDiv_eq_add_pred_div]
  symm
  split_ifs with hrest
  · apply Nat.div_eq_of_lt_le
    · rw [Nat.add_mul, Nat.mul_comm, Nat.one_mul]
      omega
    · rw [Nat.add_mul, Nat.add_mul, Nat.mul_comm, Nat.one_mul]
      omega
  · apply Nat.div_eq_of_lt_le
    · rw [Nat.mul_comm, Nat.add_zero]
      omega
    · rw [Nat.add_mul, Nat.mul_comm, Nat.add_zero, Nat.one_mul]
      omega

theorem useDataPort_miss (c : BaselineCache cfg) (mf : MemFetch) (events : List CacheEvent) :
    (c.useDataPort mf .miss events).dataPortOccupiedCycles = c.dataPortOccupiedCycles +
      match events with
      | .writeBackRequestSent evicted :: _ => evicted.modifiedSize / cfg.dataPortWidth
      | _ => 0 := by
  cases events with
  | nil => rfl
  | cons e rest =>
      cases e with
      | writeBackRequestSent evicted => rfl
      | readRequestSent => rfl
      | writeRequestSent => rfl
      | writeAllocateSent => rfl

theorem useDataPort_fetched {before : List CacheEvent} {evicted : EvictedBlockInfo}
    (c : BaselineCache cfg)
    (mf : MemFetch) (wb : Bool) (hothers : ∀ evicted, .writeBackRequestSent evicted ∉ before)
    (hunseen : before = [] → evicted = {}) :
    (c.useDataPort mf .miss (before ++ writeBackEvents cfg wb
    (.writeBackRequestSent evicted))).dataPortOccupiedCycles
      = c.dataPortOccupiedCycles := by
  rw [useDataPort_miss]
  cases before with
  | nil =>
      rw [hunseen rfl, writeBackEvents, List.nil_append]
      split_ifs
      · show c.dataPortOccupiedCycles + 0 / cfg.dataPortWidth = _
        rw [Nat.zero_div, Nat.add_zero]
      · rfl
  | cons e rest =>
      cases e with
      | writeBackRequestSent evicted => exact absurd List.mem_cons_self (hothers evicted)
      | readRequestSent => rfl
      | writeRequestSent => rfl
      | writeAllocateSent => rfl

theorem portAccounted_iff (hwidth : 0 < cfg.dataPortWidth)
    (h : c.dataAccess level mf.addr mf time = .ok r) :
    PortAccounted c mf r ↔ ¬ LosesReadOut level c mf := by
  rw [dataAccess] at h
  split at h
  · cases h
  · obtain ⟨⟨status, idx⟩, hprobe, h⟩ := bind_eq_ok.mp h
    obtain ⟨q, hq, h⟩ := bind_eq_ok.mp h
    cases h
    obtain ⟨hport, hsent⟩ := processTagProbe_events hprobe hq
    obtain ⟨status, events, c'⟩ := q
    cases hsent with
    | refused hstatus hkept =>
        subst hstatus
        exact iff_of_true ⟨by rintro ⟨⟩, by simp, by simp⟩ hkept
    | hit hstatus houtcome =>
        subst hstatus
        refine iff_of_true ⟨fun _ => ?_, by simp, by simp⟩ ?_
        · rw [← ceilDiv_eq hwidth, ← Nat.add_assoc, ← hport]
          rfl
        · rintro ⟨-, -, j, ⟨hmiss, -⟩, -⟩
          cases houtcome.symm.trans hmiss
    | around hstatus hplan hevents =>
        subst hstatus hevents
        refine iff_of_true ⟨by rintro ⟨⟩, fun _ hsent => ?_, fun _ _ => hport⟩
          (not_losesReadOut_of_unplanned hplan)
        obtain ⟨evicted, hmem⟩ := hsent
        cases List.mem_singleton.mp hmem
    | @written _ t hstatus hplan htags hprobed hsent =>
        change status = _ at hstatus
        change events = _ at hsent
        subst hstatus
        refine iff_of_true ?_ (not_losesReadOut_of_unplanned hplan)
        have hcycles := useDataPort_miss c' mf events
        by_cases hsend : t.wb = true ∧ cfg.writePolicy ≠ .writeThrough
        · rw [writeBackEvents, if_pos hsend] at hsent
          subst hsent
          refine ⟨by rintro ⟨⟩, fun _ _ status idx houtcome => ?_, fun _ hnone => ?_⟩
          · obtain ⟨-, rfl⟩ := Prod.mk.inj (Option.some.inj (hprobed.symm.trans houtcome))
            rw [← modifiedSize_evicted htags hsend.1, ← hport]
            exact hcycles
          · exact absurd List.mem_cons_self (hnone t.evicted)
        · rw [writeBackEvents, if_neg hsend] at hsent
          subst hsent
          refine ⟨by rintro ⟨⟩, fun _ hsent => ?_, fun _ _ => hcycles.trans hport⟩
          obtain ⟨evicted, hmem⟩ := hsent
          exact absurd hmem List.not_mem_nil
    | @fetched _ plan t before evicted hstatus hfetches htags hprobed hothers hunseen hsent =>
        change status = _ at hstatus
        change events = _ at hsent
        subst hstatus hsent
        have hcycles := (useDataPort_fetched c' mf t.wb hothers hunseen).trans hport
        have hevicts := evictsModified_iff htags hprobed
        by_cases hsend : t.wb = true ∧ cfg.writePolicy ≠ .writeThrough
        · have hmem : .writeBackRequestSent evicted
              ∈ before ++ writeBackEvents cfg t.wb (.writeBackRequestSent evicted) := by
            rw [writeBackEvents, if_pos hsend]
            exact List.mem_append_right _ List.mem_cons_self
          constructor
          · rintro haccounted ⟨-, -, j, hj, hle⟩
            have hcount :=
              (haccounted.writeBack (.inr rfl) ⟨evicted, hmem⟩ .miss j hj.outcome).symm.trans
              hcycles
            have hpos := Nat.div_pos hle hwidth
            omega
          · intro hkept
            refine ⟨by rintro ⟨⟩, fun _ _ status j hj => ?_, fun _ _ => hcycles⟩
            obtain ⟨-, rfl⟩ := Prod.mk.inj (Option.some.inj (hprobed.symm.trans hj))
            have hlt : (c.tagArray.lines t.idx).getModifiedSize < cfg.dataPortWidth := by
              by_contra hle
              exact hkept ⟨⟨plan, hfetches⟩, hsend.2, t.idx, (hevicts t.idx).mpr ⟨hsend.1, rfl⟩,
                Nat.not_lt.mp hle⟩
            rw [Nat.div_eq_of_lt hlt]
            exact hcycles
        · refine iff_of_true ⟨by rintro ⟨⟩, fun _ hsent => ?_, fun _ _ => hcycles⟩ ?_
          · obtain ⟨other, hmem⟩ := hsent
            rw [writeBackEvents, if_neg hsend, List.append_nil] at hmem
            exact absurd hmem (hothers other)
          · rintro ⟨-, hpolicy, j, hj, -⟩
            exact hsend ⟨((hevicts j).mp hj).1, hpolicy⟩

/-! ## Runs -/

/-- An access is accounted for. -/
def AccountsPort (level : DataCacheLevel) (c : BaselineCache cfg) : CacheAction → Prop
  | .access mf time => ∀ r, c.dataAccess level mf.addr mf time = .ok r → PortAccounted c mf r
  | _ => True

/-- An action is no miss that is fetched and writes back. -/
def KeepsReadOut (level : DataCacheLevel) (c : BaselineCache cfg) : CacheAction → Prop
  | .access mf _ => ¬ LosesReadOut level c mf
  | _ => True

/-- In a run every access is accounted for if and only if none loses a read-out. -/
theorem accountsPort_iff (hwidth : 0 < cfg.dataPortWidth) (level : DataCacheLevel)
    (c : BaselineCache cfg)
    (actions : List CacheAction) :
    TransitionSystem.AlongOk (step (.data level)) (AccountsPort level) c actions
      ↔ TransitionSystem.AlongOk (step (.data level)) (KeepsReadOut level) c actions := by
  refine TransitionSystem.alongOk_congr (fun c a c' h => ?_) c actions
  cases a with
  | access mf time =>
      obtain ⟨r, hr, -⟩ := bind_eq_ok.mp h
      constructor
      · exact fun haccounts => (portAccounted_iff hwidth hr).mp (haccounts r hr)
      · intro hkeeps r' hr'
        exact (portAccounted_iff hwidth hr').mpr hkeeps
  | cycle memportFull => exact Iff.rfl
  | fill reply time => exact Iff.rfl
  | nextAccess => exact Iff.rfl

/-- Two writes under lazy fetch on read, the second of which evicts the first. -/
theorem accountsPort_writes :
    TransitionSystem.AlongOk (step (.data .l1)) (AccountsPort .l1)
      ({ nextUid := 2 } : BaselineCache (oneLineConfig .writeBack .lazyFetchOnRead))
      [.access (globalRequest 0 0 true) 0, .access (globalRequest 1 128 true) 1] :=
  (accountsPort_iff (by decide) .l1 _ _).mpr fun _ _ =>
    ⟨not_losesReadOut_of_unplanned rfl, fun _ _ => ⟨not_losesReadOut_of_unplanned rfl, trivial⟩⟩

/-- A read that evicts what a write left, in a cache of one line: 128 bytes go out of a port of 32
bytes, and no cycles are added. -/
theorem not_accountsPort :
    ¬ TransitionSystem.AlongOk (step (.data .l1)) (AccountsPort .l1)
      ({ nextUid := 2 } : BaselineCache (oneLineConfig .writeBack .lazyFetchOnRead))
      [.access (globalRequest 0 0 true) 0, .access (globalRequest 1 128 false) 1] := by
  intro h
  have hread := ((h _ rfl).2 _ rfl).1 _ rfl
  have hcycles :=
    hread.writeBack (.inr rfl) ⟨{}, List.mem_cons_of_mem _ List.mem_cons_self⟩ .miss 0 rfl
  exact absurd hcycles (by decide)

end GpuCalorie.Cache.BaselineCache
