/-
# The policies meet their specification

Each policy function is opened once, to show that it handles its accesses as `Handled`
says, and from these that `data_cache::access` and `read_only_cache::access` do.
-/

import GpuCalorie.Cache.Effect

namespace GpuCalorie.Cache

open GpuCalorie.Math

namespace BaselineCache

variable {cfg : CacheConfig} {c : BaselineCache cfg} {mf : MemFetch} {time : UInt32} {addr : Addr}
  {status : RequestStatus} {idx i : ℕ} {probeMode : Option MemFetch}

theorem Handled.refused {kind : CacheKind} {events : List CacheEvent} :
    Handled kind c mf time ⟨.reservationFail, events, c⟩ :=
  .inl ⟨rfl, rfl⟩

theorem writesSector_setStatus {ct : CacheType} (mask : SectorMask) :
    WritesSector mask fun b : CacheBlock ct => b.setStatus .modified mask where
  tag _ := rfl
  blockAddr _ := rfl
  covered b k h := by rw [CacheBlock.stateAt_setStatus, if_pos h]
  others b k h := by rw [CacheBlock.stateAt_setStatus, if_neg h]

namespace WritesSector

variable {ct : CacheType} {mask : SectorMask} {change : CacheBlock ct → CacheBlock ct}
  (h : WritesSector mask change)
include h

theorem update (flag : SectorState → SectorState) (hflag : ∀ s, (flag s).status = s.status) :
    WritesSector mask fun b => (change b).update mask flag where
  tag b := h.tag b
  blockAddr b := h.blockAddr b
  covered b k hk := by rw [CacheBlock.stateAt_update, if_pos hk, hflag, h.covered b k hk]
  others b k hk := by rw [CacheBlock.stateAt_update, if_neg hk, h.others b k hk]

theorem setIgnoreOnFill (ignore : Bool) :
    WritesSector mask fun b => (change b).setIgnoreOnFill ignore mask :=
  h.update (fun s => { s with ignoreOnFill := ignore }) fun _ => rfl

theorem setModifiedOnFill (modified : Bool) :
    WritesSector mask fun b => (change b).setModifiedOnFill modified mask :=
  h.update (fun s => { s with modifiedOnFill := modified }) fun _ => rfl

theorem setReadable (readable : Bool) :
    WritesSector mask fun b => (change b).setReadable readable mask :=
  h.update (fun s => { s with readable := readable }) fun _ => rfl

end WritesSector

theorem tagAccess_spec (time : UInt32) (idx' : ℕ)
    (hprobe : c.tagArray.probe cfg addr i mf.sectorMask probeMode = .ok (status, idx)) :
    OkOr (TagTaken cfg c.tagArray addr time mf status idx) c.AccessFailure
      (c.tagArray.access cfg addr time idx' mf) :=
  (TagArray.access_spec hprobe).mono (fun _ h => h) fun _ he => .inl (List.mem_append_left _ he)

theorem tagAccessNoWb_spec (time : UInt32) (idx' : ℕ)
    (hprobe : c.tagArray.probe cfg addr i mf.sectorMask probeMode = .ok (status, idx)) :
    OkOr (TagTaken cfg c.tagArray addr time mf status idx) c.AccessFailure
      (c.tagArray.accessNoWb cfg addr time idx' mf) :=
  (missAccess_spec time idx' true hprobe).imp fun _ h => h.1

section WriteHits

variable (level : DataCacheLevel) (idx' : ℕ) (events : List CacheEvent) (hwrite : mf.isWrite = true)
  (hprobe : c.tagArray.probe cfg (cfg.blockAddr mf.addr) i mf.sectorMask probeMode =
    .ok (.hit, idx))
include hwrite hprobe

theorem wrHitWb_spec (hpolicy : cfg.writePolicy ≠ .writeThrough) :
    OkOr (Handled (.data level) c mf time) c.AccessFailure
      (c.wrHitWb mf.addr idx' mf time events) := by
  rw [wrHitWb]
  apply OkOr.bind (tagAccessNoWb_spec time idx' hprobe)
  intro r hr
  refine .inr ⟨by simp, ?_⟩
  have hhit := hr.hit_iff.mpr rfl
  exact .writeHit false (by simp [hpolicy]) hwrite hr.accessed (hr.probed (by simp [hhit])) hhit
    (writesSector_setStatus _) rfl ⟨rfl, rfl, le_rfl⟩ (List.append_nil _).symm (by simp)

theorem wrHitWt_spec (hpolicy : cfg.writePolicy = .writeThrough) :
    OkOr (Handled (.data level) c mf time) c.AccessFailure
      (c.wrHitWt mf.addr idx' mf time events) := by
  rw [wrHitWt]
  apply OkOr.ite
  · exact fun _ => Handled.refused
  · intro hroom
    have hlt := missQueueFull_eq_false.mp (Bool.eq_false_of_not_eq_true hroom)
    apply OkOr.bind (tagAccessNoWb_spec time idx' hprobe)
    intro r hr
    refine .inr ⟨by simp, ?_⟩
    have hhit := hr.hit_iff.mpr rfl
    exact .writeHit true (by simp [hpolicy]) hwrite hr.accessed (hr.probed (by simp [hhit])) hhit
      (writesSector_setStatus _) rfl ⟨rfl, rfl, le_rfl⟩ rfl
      fun _ => by
        show (c.missQueue ++ [mf]).length ≤ cfg.missQueueSize
        rw [List.length_append]
        exact hlt

theorem wrHitWe_spec (hpolicy : EvictsWrites cfg mf) :
    OkOr (Handled (.data level) c mf time) c.AccessFailure (c.wrHitWe idx mf events) := by
  rw [wrHitWe]
  apply OkOr.ite
  · exact fun _ => Handled.refused
  · intro hroom
    have hlt := missQueueFull_eq_false.mp (Bool.eq_false_of_not_eq_true hroom)
    refine .inr ⟨by simp, ?_⟩
    exact .writeEvict hpolicy hwrite (TagArray.probe_ok hprobe).1
      (TagArray.outcome_of_hit hprobe) (Bool.eq_false_of_not_eq_true hroom) rfl
        ⟨rfl, rfl, le_rfl⟩ rfl
      (by
        show (c.missQueue ++ [mf]).length ≤ cfg.missQueueSize
        rw [List.length_append]
        exact hlt)

theorem wrHit_spec :
    OkOr (Handled (.data level) c mf time) c.AccessFailure
      (c.wrHit mf.addr idx mf time events) := by
  rw [wrHit]
  cases hpolicy : cfg.writePolicy with
  | readOnly => exact .inl (by simp [accessFailures])
  | writeBack => exact wrHitWb_spec level idx events hwrite hprobe (by simp [hpolicy])
  | writeThrough => exact wrHitWt_spec level idx events hwrite hprobe hpolicy
  | writeEvict => exact wrHitWe_spec level events hwrite hprobe (.inl hpolicy)
  | localWbGlobalWt =>
      apply OkOr.ite
      · exact fun hglobal => wrHitWe_spec level events hwrite hprobe (.inr ⟨hpolicy, hglobal⟩)
      · exact fun _ => wrHitWb_spec level idx events hwrite hprobe (by simp [hpolicy])

end WriteHits

section Misses

variable {kind : CacheKind} {level : DataCacheLevel} (idx' : ℕ) (events : List CacheEvent)

theorem fetched_of_readTaken {plan : MissPlan} {c₀ c₁ c' : BaselineCache cfg}
    {r : TagAccess cfg.cacheType} {readOnly : Bool} {n₀ n uid : ℕ}
    (hplan : missPlan kind c mf = some plan)
    (hbefore : c₀ = { c with missQueue := c.missQueue ++ plan.before, nextUid := n₀ })
    (hread : ReadTaken c₀ (cfg.blockAddr mf.addr) plan.request time status idx readOnly r c₁)
    (hmiss : status ≠ .hit) (htaken : status ≠ .reservationFail)
    (hroom : c.missQueueFull plan.numMiss = false)
    (horder : plan.marks = true → cfg.mshrAddr mf.addr ∈ c.mshrs.data →
      c.mshrs.isReadAfterWritePending (cfg.mshrAddr mf.addr) = false)
    (hafter : c' =
      { c₁ with
        tagArray :=
          if plan.marks then c₁.tagArray.modifyLine idx (·.setModifiedOnFill true mf.sectorMask)
          else c₁.tagArray
        missQueue := c₁.missQueue ++ writeBacks kind cfg uid r.wb r.evicted
        nextUid := n })
    (hn : n₀ ≤ n) (huid : c.nextUid ≤ n₀) (hfresh : plan.request = mf ∨ c.nextUid < n₀)
    (hkind : kind = .readOnly → readOnly = true) : Accessed kind c mf time c' := by
  have hfor := missPlan_for hplan
  subst hbefore hafter
  have hlines : (if plan.marks then c₁.tagArray.modifyLine idx
    (·.setModifiedOnFill true mf.sectorMask)
      else c₁.tagArray).lines =
        if plan.marks then (r.tags.modifyLine r.idx (·.setModifiedOnFill true mf.sectorMask)).lines
        else r.tags.lines := by
    rw [hread.tags.idx_eq htaken]
    split_ifs
    · simp only [TagArray.modifyLine, hread.lines]
    · exact hread.lines
  have hqueue := missQueueFull_eq_false.mp hroom
  have hwbs := hfor.room uid r.wb r.evicted
  have hmisses : MissTaken c mf plan r.idx (writeBacks kind cfg uid r.wb r.evicted)
      { c₁ with
        tagArray :=
          if plan.marks then c₁.tagArray.modifyLine idx (·.setModifiedOnFill true mf.sectorMask)
          else c₁.tagArray
        missQueue := c₁.missQueue ++ writeBacks kind cfg uid r.wb r.evicted
        nextUid := n } := by
    rcases hread.misses with ⟨hmem, hextra, hsent⟩ | ⟨hmem, hextra, hsent⟩
    · rw [hfor.addr] at hmem
      exact .inl ⟨hmem, hextra, by simp [hsent]⟩
    · rw [hfor.addr] at hmem
      exact .inr ⟨hmem, hextra, by simp [hsent, hfor.addr]⟩
  have hadded := hread.added
  have htable := hread.room
  rw [hfor.addr] at hadded htable
  have hrtaken := mt hread.tags.reservationFail_iff.mp htaken
  have hprobed := hread.tags.probed hrtaken
  rw [hfor.sectorMask] at hprobed
  exact .fetched hplan (fun h => hread.wb (hkind h)) hread.tags.accessed hprobed
    (mt hread.tags.hit_iff.mp hmiss) hrtaken hroom htable horder hadded hlines hmisses
    (huid.trans hn) (hfresh.imp_right fun h => h.trans_le hn)
    (by
      show (c₁.missQueue ++ writeBacks kind cfg uid r.wb r.evicted).length ≤ cfg.missQueueSize
      rcases hread.misses with ⟨-, -, hsent⟩ | ⟨-, -, hsent⟩
      · rw [hsent]
        simp only [List.append_nil, List.length_append]
        omega
      · rw [hsent]
        simp only [List.append_nil, List.length_append, List.length_singleton]
        omega)

theorem written_of_tagTaken {r : TagAccess cfg.cacheType} {tags : TagArray cfg.cacheType}
    {change : CacheBlock cfg.cacheType → CacheBlock cfg.cacheType}
    (hwrite : mf.isWrite = true)
    (hpolicy : cfg.writeAllocPolicy = .lazyFetchOnRead ∨
      (cfg.writeAllocPolicy = .fetchOnWrite ∧ mf.byteMask.card = cfg.atomSz))
    (htags : TagTaken cfg c.tagArray (cfg.blockAddr mf.addr) time mf status idx r)
    (hmiss : status ≠ .hit) (htaken : status ≠ .reservationFail) (hroom : c.missQueueFull 0 = false)
    (hwrites : WritesSector mf.sectorMask change)
    (hlines : tags.lines = (r.tags.modifyLine r.idx change).lines) (request : CacheEvent) :
    Accessed (.data level) c mf time
      (({ c with tagArray := tags }).sendWriteBack level r.wb r.evicted request events).2 := by
  obtain ⟨n, hn, hcache⟩ :=
    sendWriteBack_cache level { c with tagArray := tags } r.wb r.evicted request events
  have hlt := missQueueFull_eq_false.mp hroom
  have hlength := length_writeBacks cfg (.data level) c.nextUid r.wb r.evicted
  rw [hcache]
  have hrtaken := mt htags.reservationFail_iff.mp htaken
  exact .written hwrite hpolicy htags.accessed (htags.probed hrtaken) (mt htags.hit_iff.mp hmiss)
    hrtaken hroom hwrites hlines ⟨rfl, rfl, hn⟩ rfl
    (by
      show (c.missQueue ++ writeBacks (.data level) cfg c.nextUid r.wb r.evicted).length ≤ _
      rw [List.length_append]
      omega)

variable (hprobe : c.tagArray.probe cfg (cfg.blockAddr mf.addr) i mf.sectorMask probeMode =
    .ok (status, idx)) (hmiss : status ≠ .hit) (htaken : status ≠ .reservationFail)
include hprobe hmiss htaken

theorem sendReadRequest_planned {plan : MissPlan} {c₀ : BaselineCache cfg} {n₀ : ℕ} (wa : Bool)
    (hplan : missPlan (.data level) c mf = some plan)
    (hbefore : c₀ = { c with missQueue := c.missQueue ++ plan.before, nextUid := n₀ })
    (hroom : c.missQueueFull plan.numMiss = false)
    (horder : plan.marks = true → cfg.mshrAddr mf.addr ∈ c.mshrs.data →
      c.mshrs.isReadAfterWritePending (cfg.mshrAddr mf.addr) = false) (huid : c.nextUid ≤ n₀)
    (hfresh : plan.request = mf ∨ c.nextUid < n₀) :
    OkOr (fun r =>
        (c.mshrs.full cfg (cfg.mshrAddr mf.addr) = true ∧ r.doMiss = false ∧ r.cache = c₀) ∨
          (r.doMiss = true ∧ (r.wb = true → status = .miss) ∧ ∀ request events',
            Accessed (.data level) c mf time (({ r.cache with
              tagArray :=
                if plan.marks then
                  r.cache.tagArray.modifyLine idx (·.setModifiedOnFill true mf.sectorMask)
                else r.cache.tagArray }).sendWriteBack level r.wb r.evicted request events').2))
      c.AccessFailure
      (c₀.sendReadRequest (cfg.blockAddr mf.addr) idx plan.request time events false wa) := by
  have hfor := missPlan_for hplan
  have hqueue : c₀.missQueue.length < cfg.missQueueSize := by
    have hlt := missQueueFull_eq_false.mp hroom
    have hlength := hfor.room 0 false {}
    rw [hbefore]
    simp only [List.length_append]
    omega
  have hprobe₀ : c₀.tagArray.probe cfg (cfg.blockAddr mf.addr) i plan.request.sectorMask probeMode =
      .ok (status, idx) := by
    rw [hfor.sectorMask, hbefore]
    exact hprobe
  apply (sendReadRequest_spec time idx events false wa hprobe₀ hqueue).mono
  · rintro r (⟨hfull, hno, hcache⟩ | ⟨hdo, t, ht, hwb, hevicted⟩)
    · rw [hfor.addr, hbefore] at hfull
      exact .inl ⟨hfull, hno, hcache⟩
    · refine .inr ⟨hdo, fun hback => ht.tags.miss_of_wb (hwb ▸ hback), fun request events' => ?_⟩
      obtain ⟨n, hn, hcache⟩ := sendWriteBack_cache level
        { r.cache with
          tagArray :=
            if plan.marks then
              r.cache.tagArray.modifyLine idx (·.setModifiedOnFill true mf.sectorMask)
            else r.cache.tagArray } r.wb r.evicted request events'
      have hnext : r.cache.nextUid = n₀ := ht.nextUid.trans (congrArg nextUid hbefore)
      have hn₀ : n₀ ≤ n := hnext.symm.trans_le hn
      rw [hwb, hevicted] at hcache ⊢
      exact fetched_of_readTaken hplan hbefore ht hmiss htaken hroom horder hcache hn₀ huid hfresh
        nofun
  · intro e he
    rw [hbefore] at he
    exact he

variable (hwrite : mf.isWrite = true)
include hwrite

theorem wrMissWaNaive_spec (hpolicy : cfg.writeAllocPolicy = .writeAllocate) :
    OkOr (Handled (.data level) c mf time) c.AccessFailure
      (c.wrMissWaNaive level mf.addr idx mf time events status) := by
  have hplan : missPlan (.data level) c mf =
      some { request := c.writeAllocateRequest level mf none, before := [mf], numMiss := 2 } := by
    simp only [missPlan, if_pos hwrite, hpolicy]
  rw [wrMissWaNaive, refusesMiss_eq]
  cases hroom : c.missQueueFull 2 with
  | true => exact Handled.refused
  | false =>
      cases hfull : c.mshrs.full cfg (cfg.mshrAddr mf.addr) with
      | true => exact Handled.refused
      | false =>
          apply OkOr.bind (sendReadRequest_planned _ hprobe hmiss htaken true hplan rfl hroom
            (by rintro ⟨⟩) (Nat.le_succ _) (.inr (Nat.lt_succ_self _)))
          rintro r (⟨hno, -⟩ | ⟨hdo, hwb, haccessed⟩)
          · exact absurd (hno.symm.trans hfull) (by decide)
          · show OkOr _ _ (if r.doMiss = true then _ else _)
            rw [if_pos hdo, if_neg fun h => h.2.2 (hwb h.1)]
            exact .inr ⟨by simp, haccessed _ _⟩

theorem wrMissWaFetchOnWritePart_spec
    (hpolicy : cfg.writeAllocPolicy = .fetchOnWrite) (hpart : mf.byteMask.card ≠ cfg.atomSz) :
    OkOr (Handled (.data level) c mf time) c.AccessFailure
      (c.wrMissWaFetchOnWritePart level mf.addr idx mf time events) := by
  have hplan : missPlan (.data level) c mf =
      some { request := c.writeAllocateRequest level mf (some (mf.uid, mf.access))
             marks := true
             numMiss := 1 } := by
    simp only [missPlan, if_pos hwrite, hpolicy, if_neg hpart]
  rw [wrMissWaFetchOnWritePart, refusesMiss_eq]
  cases hroom : c.missQueueFull 1 with
  | true => exact Handled.refused
  | false =>
      cases hfull : c.mshrs.full cfg (cfg.mshrAddr mf.addr) with
      | true => exact Handled.refused
      | false =>
          show OkOr _ _ (if c.mshrs.probe _ = true ∧ _ then _ else _)
          apply OkOr.ite
          · exact fun _ => Handled.refused
          · intro hpending
            have horder : c.mshrs.probe (cfg.mshrAddr mf.addr) = true →
                c.mshrs.isReadAfterWritePending (cfg.mshrAddr mf.addr) = false :=
              fun hhit => Bool.eq_false_of_not_eq_true fun h => hpending ⟨hhit, h, hwrite⟩
            apply OkOr.bind (sendReadRequest_planned _ hprobe hmiss htaken true hplan
              (by simp) hroom
              (fun _ hmem => horder (MshrTable.probe_iff.mpr hmem)) (Nat.le_succ _)
                (.inr (Nat.lt_succ_self _)))
            rintro r (⟨hno, -⟩ | ⟨hdo, -, haccessed⟩)
            · exact absurd (hno.symm.trans hfull) (by decide)
            · show OkOr _ _ (if r.doMiss = true then _ else _)
              rw [if_pos hdo]
              exact .inr ⟨by simp, haccessed _ _⟩

omit hwrite in
theorem rdMissBase_spec (hread : mf.isWrite = false) :
    OkOr (Handled (.data level) c mf time) c.AccessFailure
      (c.rdMissBase level mf.addr idx mf time events) := by
  have hplan : missPlan (.data level) c mf = some { request := mf, numMiss := 1 } := by
    simp [missPlan, hread]
  rw [rdMissBase]
  apply OkOr.ite
  · exact fun _ => Handled.refused
  · intro hfull
    have hroom := Bool.eq_false_of_not_eq_true hfull
    apply OkOr.bind (sendReadRequest_planned events hprobe hmiss htaken false hplan (by simp) hroom
      (by rintro ⟨⟩) le_rfl (.inl rfl))
    rintro r (⟨-, hno, hcache⟩ | ⟨hdo, -, haccessed⟩)
    · rw [hno, hcache]
      exact Handled.refused
    · rw [if_pos hdo]
      exact .inr ⟨by simp, haccessed _ _⟩

theorem wrMissWaFetchOnWriteFull_spec
    (hpolicy : cfg.writeAllocPolicy = .fetchOnWrite) (hall : mf.byteMask.card = cfg.atomSz) :
    OkOr (Handled (.data level) c mf time) c.AccessFailure
      (c.wrMissWaFetchOnWriteFull level mf.addr idx mf time events) := by
  rw [wrMissWaFetchOnWriteFull]
  apply OkOr.ite
  · exact fun _ => Handled.refused
  · intro hfull
    apply OkOr.bind (tagAccess_spec time idx hprobe)
    intro r hr
    show OkOr _ _ (if r.status = .hit then _ else if r.status ≠ .reservationFail then _ else _)
    rw [if_neg (mt hr.hit_iff.mp hmiss), if_pos (mt hr.reservationFail_iff.mp htaken)]
    refine .inr ⟨by simp, ?_⟩
    by_cases hreserved : r.status = .hitReserved
    · rw [if_pos hreserved]
      exact written_of_tagTaken events hwrite (.inr ⟨hpolicy, hall⟩) hr hmiss htaken
        (Bool.eq_false_of_not_eq_true hfull) ((writesSector_setStatus _).setIgnoreOnFill true)
        (congrArg TagArray.lines (TagArray.modifyLine_modifyLine _ _ _ _)) _
    · rw [if_neg hreserved]
      exact written_of_tagTaken events hwrite (.inr ⟨hpolicy, hall⟩) hr hmiss htaken
        (Bool.eq_false_of_not_eq_true hfull) (writesSector_setStatus _) rfl _

theorem wrMissWaLazyFetchOnRead_spec (hpolicy : cfg.writeAllocPolicy = .lazyFetchOnRead) :
    OkOr (Handled (.data level) c mf time) c.AccessFailure
      (c.wrMissWaLazyFetchOnRead level mf.addr idx mf time events) := by
  rw [wrMissWaLazyFetchOnRead]
  apply OkOr.ite
  · exact fun _ => Handled.refused
  · intro hfull
    apply OkOr.bind (tagAccess_spec time idx hprobe)
    intro r hr
    show OkOr _ _ (if r.status = .hit then _ else if r.status ≠ .reservationFail then _ else _)
    rw [if_neg (mt hr.hit_iff.mp hmiss), if_pos (mt hr.reservationFail_iff.mp htaken)]
    refine .inr ⟨by simp, ?_⟩
    by_cases hreserved : r.status = .hitReserved
    · rw [if_pos hreserved]
      exact written_of_tagTaken events hwrite (.inl hpolicy) hr hmiss htaken
        (Bool.eq_false_of_not_eq_true hfull)
        ((((writesSector_setStatus _).setIgnoreOnFill true).setModifiedOnFill true).setReadable
          (decide (mf.byteMask.card = cfg.atomSz)))
        (by simp only [TagArray.modifyLine_modifyLine]) _
    · rw [if_neg hreserved]
      exact written_of_tagTaken events hwrite (.inl hpolicy) hr hmiss htaken
        (Bool.eq_false_of_not_eq_true hfull) ((writesSector_setStatus _).setReadable _)
        (congrArg TagArray.lines (TagArray.modifyLine_modifyLine _ _ _ _)) _

end Misses

section Probes

variable {level : DataCacheLevel} (events : List CacheEvent)

theorem wrMissNoWa_spec (hwrite : mf.isWrite = true) :
    OkOr (Handled (.data level) c mf time) c.AccessFailure (c.wrMissNoWa mf events) := by
  rw [wrMissNoWa]
  apply OkOr.ite
  · exact fun _ => Handled.refused
  · intro hfull
    have hlt := missQueueFull_eq_false.mp (Bool.eq_false_of_not_eq_true hfull)
    refine .inr ⟨by simp, ?_⟩
    exact .writeAround hwrite rfl ⟨rfl, rfl, le_rfl⟩ rfl
      (by
        show (c.missQueue ++ [mf]).length ≤ _
        rw [List.length_append]
        exact hlt)

theorem wrMiss_spec (hwrite : mf.isWrite = true)
    (hprobe : c.tagArray.probe cfg (cfg.blockAddr mf.addr) i mf.sectorMask probeMode =
      .ok (status, idx)) (hmiss : status ≠ .hit)
    (htaken : status ≠ .reservationFail ∨ cfg.writeAllocPolicy = .noWriteAllocate) :
    OkOr (Handled (.data level) c mf time) c.AccessFailure
      (c.wrMiss level mf.addr idx mf time events status) := by
  rw [wrMiss]
  cases hpolicy : cfg.writeAllocPolicy with
  | noWriteAllocate => exact wrMissNoWa_spec events hwrite
  | writeAllocate =>
      have htaken := htaken.resolve_right (by simp [hpolicy])
      exact wrMissWaNaive_spec events hprobe hmiss htaken hwrite hpolicy
  | fetchOnWrite =>
      have htaken := htaken.resolve_right (by simp [hpolicy])
      apply OkOr.ite
      · exact fun hall =>
          wrMissWaFetchOnWriteFull_spec events hprobe hmiss htaken hwrite hpolicy hall
      · exact fun hpart =>
          wrMissWaFetchOnWritePart_spec events hprobe hmiss htaken hwrite hpolicy hpart
  | lazyFetchOnRead =>
      have htaken := htaken.resolve_right (by simp [hpolicy])
      exact wrMissWaLazyFetchOnRead_spec events hprobe hmiss htaken hwrite hpolicy

theorem rdHitBase_spec (hread : mf.isWrite = false)
    (hprobe : c.tagArray.probe cfg (cfg.blockAddr mf.addr) i mf.sectorMask probeMode =
      .ok (.hit, idx)) :
    OkOr (Handled (.data level) c mf time) c.AccessFailure
      (c.rdHitBase mf.addr idx mf time events) := by
  rw [rdHitBase]
  apply OkOr.bind (tagAccessNoWb_spec time idx hprobe)
  intro r hr
  have hhit := hr.hit_iff.mpr rfl
  apply OkOr.ite
  · intro hatomic
    apply OkOr.ite
    · intro _
      refine .inr ⟨by simp, ?_⟩
      exact .atomicHit (by simp) hread hatomic hr.accessed (hr.probed (by simp [hhit])) hhit
        (writesSector_setStatus _) rfl ⟨rfl, rfl, le_rfl⟩ rfl
    · exact fun _ => .inl (by simp [accessFailures])
  · intro hatomic
    refine .inr ⟨by simp, ?_⟩
    exact .readHit hread (.inr (by simpa using hatomic)) hr.accessed hhit rfl ⟨rfl, rfl, le_rfl⟩ rfl

theorem processTagProbe_spec
    (hprobe : c.tagArray.probe cfg (cfg.blockAddr mf.addr) i mf.sectorMask probeMode =
      .ok (status, idx)) :
    OkOr (Handled (.data level) c mf time) c.AccessFailure
      (c.processTagProbe level status mf.addr idx mf time) := by
  rw [processTagProbe]
  apply OkOr.ite
  · intro hwrite
    apply OkOr.ite
    · rintro rfl
      exact wrHit_spec level [] hwrite hprobe
    · intro hmiss
      apply OkOr.ite
      · exact fun htaken => wrMiss_spec [] hwrite hprobe hmiss htaken
      · exact fun _ => Handled.refused
  · intro hwrite
    have hread := Bool.eq_false_of_not_eq_true hwrite
    apply OkOr.ite
    · rintro rfl
      exact rdHitBase_spec [] hread hprobe
    · intro hmiss
      apply OkOr.ite
      · exact fun htaken => rdMissBase_spec [] hprobe hmiss htaken hread
      · exact fun _ => Handled.refused

end Probes

/-! ## The whole access -/

theorem Accessed.useDataPort {kind : CacheKind} {c' : BaselineCache cfg}
    (h : Accessed kind c mf time c') (outcome : RequestStatus) (events : List CacheEvent) :
    Accessed kind c mf time (c'.useDataPort mf outcome events) := by
  obtain ⟨n, hport⟩ := useDataPort_eq c' mf outcome events
  rw [hport]
  cases h with
  | readHit read plain tags hit lines kept queue =>
      exact .readHit read plain tags hit lines ⟨kept.1, kept.2, kept.3⟩ queue
  | atomicHit data read atomic tags probed hit writes lines kept queue =>
      exact .atomicHit data read atomic tags probed hit writes lines ⟨kept.1, kept.2, kept.3⟩ queue
  | writeHit through policy write tags probed hit writes lines kept queue room =>
      exact .writeHit through policy write tags probed hit writes lines
        ⟨kept.1, kept.2, kept.3⟩ queue
        room
  | writeEvict policy write probed outcome queueRoom lines kept queue room =>
      exact .writeEvict policy write probed outcome queueRoom lines
        ⟨kept.1, kept.2, kept.3⟩ queue room
  | writeAround write lines kept queue room =>
      exact .writeAround write lines ⟨kept.1, kept.2, kept.3⟩ queue room
  | fetched planned noWb tags probed miss taken queueRoom tableRoom inOrder added lines missTaken
      nextUid uid_lt room =>
      exact .fetched planned noWb tags probed miss taken queueRoom tableRoom inOrder added lines
        missTaken
        nextUid uid_lt room
  | written write policy tags probed miss taken queueRoom writes lines kept queue room =>
      exact .written write policy tags probed miss taken queueRoom writes lines
        ⟨kept.1, kept.2, kept.3⟩ queue room

theorem dataAccess_spec (level : DataCacheLevel) (c : BaselineCache cfg) (mf : MemFetch)
    (time : UInt32) :
    OkOr (Handled (.data level) c mf time) c.AccessFailure
      (c.dataAccess level mf.addr mf time) := by
  rw [dataAccess]
  apply OkOr.ite
  · exact fun _ => .inl (by simp [accessFailures])
  · intro _
    apply OkOr.bind_eq (P := fun _ => True)
    · apply OkOr.intro
      · exact fun _ _ => trivial
      · exact fun e he => .inl (List.mem_append_left _ (TagArray.probe_error he))
    · rintro ⟨status, idx⟩ hprobe -
      apply OkOr.bind (processTagProbe_spec hprobe)
      intro r hr
      rcases hr with ⟨hstatus, hcache⟩ | ⟨hstatus, haccessed⟩
      · refine .inl ⟨hstatus, ?_⟩
        rw [hstatus]
        exact hcache
      · exact .inr ⟨hstatus, haccessed.useDataPort _ _⟩

theorem readOnlyAccess_spec (c : BaselineCache cfg) (mf : MemFetch) (time : UInt32) :
    OkOr (Handled .readOnly c mf time) c.AccessFailure (c.readOnlyAccess mf.addr mf time) := by
  have hplan : missPlan .readOnly c mf = some { request := mf, numMiss := 0 } := rfl
  rw [readOnlyAccess]
  apply OkOr.ite
  · exact fun _ => .inl (by simp [accessFailures])
  intro _
  apply OkOr.ite
  · exact fun _ => .inl (by simp [accessFailures])
  intro _
  apply OkOr.ite
  · exact fun _ => .inl (by simp [accessFailures])
  intro hwrite
  have hread := Bool.eq_false_of_not_eq_true hwrite
  apply OkOr.bind_eq (P := fun _ => True)
  · apply OkOr.intro
    · exact fun _ _ => trivial
    · exact fun e he => .inl (List.mem_append_left _ (TagArray.probe_error he))
  rintro ⟨status, idx⟩ hprobe -
  show OkOr _ _ (if status = .hit then _ else if status ≠ .reservationFail then _ else _)
  apply OkOr.ite
  · rintro rfl
    apply OkOr.bind (tagAccessNoWb_spec time idx hprobe)
    intro r hr
    have hhit := hr.hit_iff.mpr rfl
    refine .inr ⟨?_, ?_⟩
    · rw [hhit]
      simp
    · exact .readHit hread (.inl rfl) hr.accessed hhit rfl ⟨rfl, rfl, le_rfl⟩ rfl
  · intro hmiss
    apply OkOr.ite
    · intro htaken
      apply OkOr.ite
      · exact fun _ => Handled.refused
      · intro hfull
        have hroom := Bool.eq_false_of_not_eq_true hfull
        apply OkOr.bind (sendReadRequest_spec time idx [] true false hprobe
          (missQueueFull_eq_false.mp hroom))
        rintro r (⟨-, hno, hcache⟩ | ⟨hdo, t, ht, -, -⟩)
        · rw [hno, hcache]
          exact Handled.refused
        · refine .inr ⟨by simp [hdo], ?_⟩
          have hbefore : c = { c with missQueue := c.missQueue ++ [], nextUid := c.nextUid } := by
            simp
          have hafter : r.cache =
              { r.cache with
                missQueue := r.cache.missQueue ++ writeBacks .readOnly cfg 0 t.wb t.evicted
                nextUid := r.cache.nextUid } := by
            simp [writeBacks]
          exact fetched_of_readTaken hplan hbefore ht hmiss htaken hroom (by rintro ⟨⟩)
            hafter ht.nextUid.ge le_rfl
            (.inl rfl) fun _ => rfl
    · exact fun _ => Handled.refused

end BaselineCache

end GpuCalorie.Cache
