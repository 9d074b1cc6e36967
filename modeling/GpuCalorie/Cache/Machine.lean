/-
# A cache as a state machine

Between the cycles of its owner a cache is accessed, sends requests, is filled and hands
back requests that were served, in any order. `cacheSystem` has all these runs. The owner
keeps to what `Enabled` says: a request that waits for its fill is not sent again, fills
are for requests that wait, and served requests are taken when there are any.
-/

import GpuCalorie.Cache.Policies
import GpuCalorie.Math.Transition

namespace GpuCalorie.Cache

open GpuCalorie.Math

/-- What the owner of a cache does with it. -/
inductive CacheAction
  | access (mf : MemFetch) (time : UInt32)
  | cycle (memportFull : Bool)
  | fill (reply : MemFetch) (time : UInt32)
  | nextAccess
  deriving DecidableEq

namespace BaselineCache

variable {cfg : CacheConfig} (kind : CacheKind) (c : BaselineCache cfg)

/-- `access` of either kind of cache. Requests are for the address they carry. -/
def access (mf : MemFetch) (time : UInt32) : Except CacheFailure (AccessResult cfg) :=
  match kind with
  | .readOnly => c.readOnlyAccess mf.addr mf time
  | .data level => c.dataAccess level mf.addr mf time

/-- `next_access`. -/
def nextAccess : Except CacheFailure (MemFetch × BaselineCache cfg) := do
  let (mf, mshrs) ← c.mshrs.nextAccess
  return (mf, { c with mshrs := mshrs })

/-- The request whose record a reply is for. -/
def replyUid (cfg : CacheConfig) (reply : MemFetch) : Option ℕ :=
  match cfg.mshrType with
  | .assoc => some reply.uid
  | .sectorAssoc => reply.originalMf

/-- What the owner of a cache sees to. -/
def Enabled : CacheAction → Prop
  | .access mf _ => mf.uid < c.nextUid ∧ c.extraMfFields mf.uid = none ∧ cfg.Accepts mf
  | .cycle _ => True
  | .fill reply _ => ((replyUid cfg reply).bind c.extraMfFields).isSome = true
  | .nextAccess => c.mshrs.currentResponse ≠ []

/-- The cache after an action. -/
def step : CacheAction → Except CacheFailure (BaselineCache cfg)
  | .access mf time => do
    let r ← c.access kind mf time
    return r.cache
  | .cycle memportFull => .ok (c.cycle memportFull).2
  | .fill reply time => c.fill reply time
  | .nextAccess => do
    let (_, c) ← c.nextAccess
    return c

/-- A cache before its first access. -/
def IsEmpty : Prop :=
  c = { nextUid := c.nextUid }

end BaselineCache

/-- The runs of a cache. -/
def cacheSystem (kind : CacheKind) (cfg : CacheConfig) :
    TransitionSystem (Except CacheFailure (BaselineCache cfg)) CacheAction :=
  TransitionSystem.ofExcept BaselineCache.IsEmpty BaselineCache.Enabled (BaselineCache.step kind)

namespace BaselineCache
variable {F : CacheFailure → Prop}


variable {cfg : CacheConfig} {kind : CacheKind} {c : BaselineCache cfg} {e : ExtraMfFields}

theorem access_spec (kind : CacheKind) (c : BaselineCache cfg) (mf : MemFetch) (time : UInt32) :
    OkOr (Handled kind c mf time) c.AccessFailure (c.access kind mf time) := by
  cases kind with
  | readOnly => exact readOnlyAccess_spec c mf time
  | data level => exact dataAccess_spec level c mf time

/-! ## Fills -/

/-- What the fill of a block does to the lines: it finds the sector, or allocates it first. -/
inductive BlockFilled {ct : CacheType} (cfg : CacheConfig) (tags : TagArray ct) (addr : Addr)
    (time : UInt32) (mask : SectorMask) (tags' : TagArray ct) : Prop
  | found {status : RequestStatus} {idx : ℕ} (outcome :
    tags.outcome cfg addr mask = some (status, idx))
      (probed : Probed cfg tags addr mask status idx) (hit : status = .hit ∨ status = .hitReserved)
      (lines : tags'.lines = (tags.modifyLine idx (·.fill time mask)).lines)
  | allocated {idx : ℕ} (outcome : tags.outcome cfg addr mask = some (.miss, idx))
      (probed : Probed cfg tags addr mask .miss idx)
      (lines : tags'.lines = (tags.modifyLine idx fun b =>
        (b.allocate (cfg.blockAddr addr) (cfg.blockAddr addr) time mask).fill time mask).lines)
  | allocatedSector {idx : ℕ} (outcome : tags.outcome cfg addr mask = some (.sectorMiss, idx))
      (probed : Probed cfg tags addr mask .sectorMiss idx)
      (lines : tags'.lines = (tags.modifyLine idx fun b =>
        (b.allocateSector time mask).fill time mask).lines)

/-- The failures of a fill that finds its record. -/
def fillFailures : List CacheFailure :=
  tagFailures ++ [.markReadyEntry, .markReadySize, .atomicOnFill]

theorem BlockFilled.of_lines {ct : CacheType} {tags tags' tags'' : TagArray ct} {addr : Addr}
    {time : UInt32} {mask : SectorMask} (h : BlockFilled cfg tags addr time mask tags')
    (hlines : tags''.lines = tags'.lines) : BlockFilled cfg tags addr time mask tags'' := by
  cases h with
  | found outcome probed hit lines => exact .found outcome probed hit (hlines.trans lines)
  | allocated outcome probed lines => exact .allocated outcome probed (hlines.trans lines)
  | allocatedSector outcome probed lines =>
      exact .allocatedSector outcome probed (hlines.trans lines)

theorem fillBlock_spec {ct : CacheType} {tags : TagArray ct} (addr : Addr) (time : UInt32)
    (mask : SectorMask) (honFill : cfg.allocPolicy = .onFill) :
    OkOr (BlockFilled cfg tags addr time mask) (· ∈ tagFailures)
      (tags.fillBlock cfg addr time mask) := by
  rw [TagArray.fillBlock]
  apply OkOr.bind_eq (P := fun _ => True)
  · apply OkOr.intro
    · exact fun _ _ => trivial
    · exact fun e he => TagArray.probe_error he
  rintro ⟨status, idx⟩ hprobe -
  have hprobed := (TagArray.probe_ok hprobe).1
  have houtcome : status ≠ .reservationFail → tags.outcome cfg addr mask = some (status, idx) := by
    intro htaken
    rw [TagArray.outcome, TagArray.probe_idx noIndex hprobe htaken]
    rfl
  cases status with
  | hit => exact .found (houtcome (by decide)) hprobed (.inl rfl) rfl
  | hitReserved => exact .found (houtcome (by decide)) hprobed (.inr rfl) rfl
  | miss =>
      exact .allocated (houtcome (by decide)) hprobed
        (congrArg TagArray.lines (TagArray.modifyLine_modifyLine _ _ _ _))
  | sectorMiss =>
      apply OkOr.ite
      · intro _
        show CacheFailure.sectorMissOfLine ∈ tagFailures
        simp [tagFailures]
      · intro _
        apply OkOr.ite
        · exact fun _ => .allocatedSector (houtcome (by decide)) hprobed
            (congrArg TagArray.lines (TagArray.modifyLine_modifyLine _ _ _ _))
        · intro _
          show CacheFailure.allocateSector ∈ tagFailures
          simp [tagFailures]
  | reservationFail =>
      -- only caches that allocate at a miss run out of lines
      cases hprobed with
      | found _ _ matched =>
          rcases matchLine_some matched with ⟨h, -⟩ | ⟨h, -⟩ | ⟨h, -⟩ <;> cases h
      | victim _ _ _ miss => rcases miss with h | ⟨h, -⟩ <;> cases h
      | full _ _ onMiss => exact absurd (onMiss.symm.trans honFill) (by decide)

/-- How the fill of a request changes the lines. Where an atomic waits, the sector is
modified afterwards. -/
inductive LinesFilled (c : BaselineCache cfg) (e : ExtraMfFields) (time : UInt32) (hasAtomic : Bool)
    (c' : BaselineCache cfg) : Prop
  | onMiss (policy : cfg.allocPolicy = .onMiss)
      (lines : c'.tagArray.lines = (c.tagArray.modifyLine e.cacheIndex fun b =>
        if hasAtomic then (b.fill time e.mf.sectorMask).setStatus .modified e.mf.sectorMask
        else b.fill time e.mf.sectorMask).lines)
  | onFill (policy : cfg.allocPolicy = .onFill) (noAtomic : hasAtomic = false)
      (filled : BlockFilled cfg c.tagArray e.blockAddr time e.mf.sectorMask c'.tagArray)

/-- The fill of a request whose data is complete. -/
structure Filled (c : BaselineCache cfg) (uid : ℕ) (e : ExtraMfFields) (time : UInt32)
    (c' : BaselineCache cfg) : Prop where
  record : c.extraMfFields uid = some e
  ready : ∃ entry, c.mshrs.data.lookup e.blockAddr = some entry ∧
    LinesFilled c e time entry.hasAtomic c'
  mshrs : c'.mshrs = { c.mshrs with currentResponse := c.mshrs.currentResponse ++ [e.blockAddr] }
  extraMfFields : c'.extraMfFields = Function.update c.extraMfFields uid none
  missQueue : c'.missQueue = c.missQueue
  nextUid : c'.nextUid = c.nextUid

/-- Why `mark_ready` fails. -/
def MarkReadyFails (c : BaselineCache cfg) (e : ExtraMfFields) : Prop :=
  e.blockAddr ∉ c.mshrs.data ∨ c.mshrs.data.keys.length ≤ c.mshrs.currentResponse.length

/-- The failures of a fill. Those of `mark_ready` have their reason in the registers. -/
def FillFailure (c : BaselineCache cfg) (e : ExtraMfFields) (failure : CacheFailure) : Prop :=
  failure ∈ fillFailures ∧
    (failure = .markReadyEntry ∨ failure = .markReadySize → c.MarkReadyFails e)

theorem fillTags_spec (c : BaselineCache cfg) (e : ExtraMfFields) (time : UInt32) :
    OkOr (fun tags =>
        (cfg.allocPolicy = .onMiss →
          tags.lines = (c.tagArray.modifyLine e.cacheIndex (·.fill time e.mf.sectorMask)).lines) ∧
        (cfg.allocPolicy = .onFill →
          BlockFilled cfg c.tagArray e.blockAddr time e.mf.sectorMask tags))
      (· ∈ tagFailures) (c.fillTags e (e.mf.sentFor e.addr e.dataSize) time) := by
  rw [fillTags]
  cases hpolicy : cfg.allocPolicy with
  | onMiss =>
      show OkOr _ _ (c.tagArray.fillLine cfg e.cacheIndex time e.mf.sectorMask)
      rw [TagArray.fillLine, if_pos hpolicy]
      exact ⟨fun _ => rfl, nofun⟩
  | onFill =>
      apply OkOr.bind (fillBlock_spec e.blockAddr time e.mf.sectorMask hpolicy)
      intro tags htags
      refine ⟨nofun, fun _ => ?_⟩
      cases cfg.isStreaming with
      | false => exact htags
      | true => exact htags.of_lines rfl

theorem fillFailure_of_tags {failure : CacheFailure}
    (h : failure ∈ tagFailures) : c.FillFailure e failure := by
  refine ⟨List.mem_append_left _ h, ?_⟩
  rintro (rfl | rfl) <;> simp [tagFailures] at h

theorem markAtomic_spec (tags : TagArray cfg.cacheType) (idx : ℕ) (mask : SectorMask)
    (hasAtomic : Bool) :
    OkOr (fun tags' =>
        (hasAtomic = true → cfg.allocPolicy = .onMiss) ∧
          tags'.lines =
            if hasAtomic then (tags.modifyLine idx
              (·.setStatus .modified mask)).lines else tags.lines)
      (· = .atomicOnFill) (markAtomic cfg tags idx mask hasAtomic) := by
  rw [markAtomic]
  apply OkOr.ite
  · intro hatomic
    apply OkOr.ite
    · exact fun hpolicy => ⟨fun _ => hpolicy, (if_pos hatomic).symm⟩
    · exact fun _ => rfl
  · exact fun hatomic => ⟨fun h => absurd h hatomic, (if_neg hatomic).symm⟩

theorem fillRequest_spec {uid : ℕ} (time : UInt32) (he : c.extraMfFields uid = some e) :
    OkOr (Filled c uid e time) (c.FillFailure e) (c.fillRequest uid time) := by
  rw [fillRequest, he]
  have htags : OkOr _ (c.FillFailure e) _ :=
    (fillTags_spec c e time).mono (fun _ h => h) fun _ h => fillFailure_of_tags h
  apply OkOr.bind htags
  intro tags htags
  apply OkOr.bind_eq (P := fun _ => True)
  · apply OkOr.intro
    · exact fun _ _ => trivial
    · intro failure hfailure
      have hready := MshrTable.markReady_error hfailure
      refine ⟨?_, fun _ => hready.2⟩
      rcases hready.1 with rfl | rfl <;> simp [fillFailures]
  rintro ⟨hasAtomic, mshrs⟩ hready -
  obtain ⟨hmshrs, entry, hentry, rfl⟩ := MshrTable.markReady_ok hready
  have hatomic : OkOr _ (c.FillFailure e) _ :=
    (markAtomic_spec tags e.cacheIndex e.mf.sectorMask entry.hasAtomic).mono (fun _ h => h) (by
      rintro failure rfl
      exact ⟨by simp [fillFailures], by simp⟩)
  apply OkOr.bind hatomic
  rintro tags' ⟨hpolicy, hlines⟩
  refine ⟨he, ⟨entry, hentry, ?_⟩, hmshrs, rfl, rfl, rfl⟩
  cases honMiss : cfg.allocPolicy with
  | onMiss =>
      apply LinesFilled.onMiss honMiss
      show tags'.lines = _
      rw [hlines]
      cases entry.hasAtomic with
      | true =>
          show (tags.modifyLine e.cacheIndex _).lines = _
          simp [TagArray.modifyLine, htags.1 honMiss]
      | false => exact htags.1 honMiss
  | onFill =>
      have hno : entry.hasAtomic = false := by
        by_contra hyes
        have hmiss := hpolicy (Bool.eq_true_of_not_eq_false hyes)
        rw [honMiss] at hmiss
        cases hmiss
      apply LinesFilled.onFill honMiss hno
      apply (htags.2 honMiss).of_lines
      show tags'.lines = _
      rw [hlines, hno]
      rfl

/-! ## Fills sector by sector -/

/-- A reply that is not the last one for its request. -/
structure PartlyFilled (c : BaselineCache cfg) (uid : ℕ) (e : ExtraMfFields)
    (c' : BaselineCache cfg) :
    Prop where
  record : c.extraMfFields uid = some e
  lines : c'.tagArray.lines = c.tagArray.lines
  mshrs : c'.mshrs = c.mshrs
  extraMfFields : ∃ n, c'.extraMfFields =
    Function.update c.extraMfFields uid (some { e with pendingRead := n })
  missQueue : c'.missQueue = c.missQueue
  nextUid : c'.nextUid = c.nextUid

theorem Filled.of_pendingRead {uid : ℕ} {time : UInt32} {n : UInt32}
    {c₁ c' : BaselineCache cfg} (he : c.extraMfFields uid = some e)
    (hc₁ : c₁ = { c with
      extraMfFields := Function.update c.extraMfFields uid (some { e with pendingRead := n }) })
    (h : Filled c₁ uid { e with pendingRead := n } time c') : Filled c uid e time c' := by
  subst hc₁
  obtain ⟨entry, hentry, hlines⟩ := h.ready
  refine ⟨he, ⟨entry, hentry, ?_⟩, h.mshrs, ?_, h.missQueue, h.nextUid⟩
  · cases hlines with
    | onMiss policy lines => exact .onMiss policy lines
    | onFill policy noAtomic filled => exact .onFill policy noAtomic filled
  · rw [h.extraMfFields, Function.update_idem]

/-- The next reply for a request is the last one. -/
def Completes (cfg : CacheConfig) (e : ExtraMfFields) : Prop :=
  cfg.mshrType = .sectorAssoc → ¬ 0 < e.pendingRead - 1

instance (cfg : CacheConfig) (e : ExtraMfFields) : Decidable (Completes cfg e) :=
  inferInstanceAs (Decidable (_ → _))

theorem fill_spec {reply : MemFetch} (time : UInt32) (henabled : Enabled c (.fill reply time)) :
    ∃ uid e, replyUid cfg reply = some uid ∧ c.extraMfFields uid = some e ∧
      OkOr (fun c' => PartlyFilled c uid e c' ∨ (Completes cfg e ∧ Filled c uid e time c'))
        (c.FillFailure e) (c.fill reply time) := by
  obtain ⟨e, he⟩ := Option.isSome_iff_exists.mp henabled
  obtain ⟨uid, huid, he⟩ := Option.bind_eq_some_iff.mp he
  refine ⟨uid, e, huid, he, ?_⟩
  rw [fill]
  rw [replyUid] at huid
  cases hmshr : cfg.mshrType with
  | assoc =>
      rw [hmshr] at huid
      cases huid
      have hcompletes : Completes cfg e := fun h => by simp [hmshr] at h
      exact (fillRequest_spec time he).imp fun _ h => .inr ⟨hcompletes, h⟩
  | sectorAssoc =>
      rw [hmshr] at huid
      simp only [show reply.originalMf = some uid from huid, he]
      apply OkOr.ite
      · exact fun _ => .inl ⟨he, rfl, rfl, ⟨_, rfl⟩, rfl, rfl⟩
      · intro hlast
        apply (fillRequest_spec time (Function.update_self _ _ _)).mono
        · exact fun c' h => .inr ⟨fun _ => hlast, h.of_pendingRead he rfl⟩
        · exact fun _ h => h

/-! ## Steps -/

instance (c : BaselineCache cfg) (a : CacheAction) : Decidable (c.Enabled a) :=
  match a with
  | .access _ _ => inferInstanceAs (Decidable (_ ∧ _ ∧ _))
  | .cycle _ => inferInstanceAs (Decidable True)
  | .fill _ _ => inferInstanceAs (Decidable (_ = true))
  | .nextAccess => inferInstanceAs (Decidable (¬ _))

/-- What an action does. -/
inductive Stepped (kind : CacheKind) (c : BaselineCache cfg) :
    CacheAction → BaselineCache cfg → Prop
  | refused {mf : MemFetch} {time : UInt32} {r : AccessResult cfg}
      (result : c.access kind mf time = .ok r) (status : r.status = .reservationFail) :
      Stepped kind c (.access mf time) c
  | accessed {mf : MemFetch} {time : UInt32} {r : AccessResult cfg}
      (result : c.access kind mf time = .ok r) (status : r.status ≠ .reservationFail)
      (h : Accessed kind c mf time r.cache) : Stepped kind c (.access mf time) r.cache
  | cycled {memportFull : Bool} {c' : BaselineCache cfg}
      (lines : c'.tagArray.lines = c.tagArray.lines) (kept : MissesKept c c')
      (queue : c'.missQueue <:+ c.missQueue) : Stepped kind c (.cycle memportFull) c'
  | partlyFilled {reply : MemFetch} {time : UInt32} {uid : ℕ} {e : ExtraMfFields}
      {c' : BaselineCache cfg} (h : PartlyFilled c uid e c') : Stepped kind c (.fill reply time) c'
  | filled {reply : MemFetch} {time : UInt32} {uid : ℕ} {e : ExtraMfFields} {c' : BaselineCache cfg}
      (reply_uid : replyUid cfg reply = some uid) (last : Completes cfg e)
      (h : Filled c uid e time c') : Stepped kind c (.fill reply time) c'
  | drained {a : Addr} {rest : List Addr} {mf : MemFetch} {list : List MemFetch}
      {c' : BaselineCache cfg} (returned : c.mshrs.nextAccess = .ok (mf, c'.mshrs))
      (lines : c'.tagArray.lines = c.tagArray.lines)
      (drained : MshrTable.Drained c.mshrs a rest mf list c'.mshrs)
      (extraMfFields : c'.extraMfFields = c.extraMfFields) (queue : c'.missQueue = c.missQueue)
      (nextUid : c'.nextUid = c.nextUid) : Stepped kind c .nextAccess c'

/-- The assertions an action may trip. -/
def StepFailure (c : BaselineCache cfg) : CacheAction → CacheFailure → Prop
  | .access _ _, failure => c.AccessFailure failure
  | .cycle _, _ => False
  | .fill _ _, failure =>
    ∃ uid e, c.extraMfFields uid = some e ∧ c.FillFailure e failure
  | .nextAccess, failure => failure = .emptyEntry ∧ ∀ a rest, c.mshrs.currentResponse = a :: rest →
      c.mshrs.requests a = []

theorem cycle_spec (c : BaselineCache cfg) (memportFull : Bool) :
    Stepped kind c (.cycle memportFull) (c.cycle memportFull).2 := by
  rw [cycle]
  cases hqueue : c.missQueue with
  | nil => exact .cycled rfl ⟨rfl, rfl, le_rfl⟩ (List.suffix_refl _)
  | cons mf rest =>
      cases memportFull with
      | true => exact .cycled rfl ⟨rfl, rfl, le_rfl⟩ (List.suffix_refl _)
      | false =>
          have hsuffix : rest <:+ c.missQueue := by
            rw [hqueue]
            exact List.suffix_cons mf rest
          exact .cycled rfl ⟨rfl, rfl, le_rfl⟩ hsuffix

theorem nextAccess_spec (henabled : Enabled c .nextAccess) :
    OkOr (Stepped kind c .nextAccess) (StepFailure c .nextAccess) (step kind c .nextAccess) := by
  rw [step, nextAccess]
  cases hnext : c.mshrs.nextAccess with
  | ok r =>
      obtain ⟨mf, mshrs⟩ := r
      obtain ⟨a, rest, list, hdrained⟩ := MshrTable.nextAccess_ok hnext
      exact .drained hnext rfl hdrained rfl rfl rfl
  | error e => exact MshrTable.nextAccess_error hnext henabled

theorem step_spec (a : CacheAction) (henabled : c.Enabled a) :
    OkOr (Stepped kind c a) (c.StepFailure a) (step kind c a) := by
  cases a with
  | access mf time =>
      apply OkOr.bind_eq (access_spec kind c mf time)
      rintro r hresult (⟨hstatus, hcache⟩ | ⟨hstatus, haccessed⟩)
      · show Stepped kind c (.access mf time) r.cache
        rw [hcache]
        exact .refused hresult hstatus
      · exact .accessed hresult hstatus haccessed
  | cycle memportFull => exact cycle_spec c memportFull
  | fill reply time =>
      obtain ⟨uid, e, huid, he, hfill⟩ := fill_spec time henabled
      apply hfill.mono
      · rintro c' (h | ⟨hlast, h⟩)
        · exact .partlyFilled h
        · exact .filled huid hlast h
      · exact fun failure h => ⟨uid, e, he, h⟩
  | nextAccess => exact nextAccess_spec henabled

theorem invariant_of_reachable_restrict {guard : BaselineCache cfg → CacheAction → Prop}
    {I : BaselineCache cfg → Prop} (start : ∀ n, I { nextUid := n })
    (preserved : ∀ c a c', I c → guard c a → c.Enabled a → Stepped kind c a c' → I c')
    (failed : ∀ c a e, I c → guard c a → c.Enabled a → c.StepFailure a e → F e)
    {x : Except CacheFailure (BaselineCache cfg)}
    (reached : ((cacheSystem kind cfg).restrict (TransitionSystem.onOk guard)).Reachable x) :
    OkOr I F x := by
  apply TransitionSystem.Reachable.invariant_ofExcept _ _ reached
  · intro c hempty
    rw [hempty]
    exact start _
  · intro c a hI hguard henabled
    exact (step_spec a henabled).mono (fun c' h => preserved c a c' hI hguard henabled h)
      fun e h => failed c a e hI hguard henabled h

theorem invariant_of_reachable {I : BaselineCache cfg → Prop} (start : ∀ n, I { nextUid := n })
    (preserved : ∀ c a c', I c → c.Enabled a → Stepped kind c a c' → I c')
    (failed : ∀ c a e, I c → c.Enabled a → c.StepFailure a e → F e)
    {x : Except CacheFailure (BaselineCache cfg)} (reached : (cacheSystem kind cfg).Reachable x) :
    OkOr I F x := by
  have hall : ∀ y a, TransitionSystem.onOk (fun _ _ =>
    True : BaselineCache cfg → CacheAction → Prop)
      (y : Except CacheFailure (BaselineCache cfg)) a := by
    intro y a
    cases y <;> trivial
  exact invariant_of_reachable_restrict start (fun c a c' hI _ => preserved c a c' hI)
    (fun c a e hI _ => failed c a e hI) (reached.restrict hall)

/-! ## Observed runs -/

end BaselineCache

/-- Something that watches a cache: it sees each action, and the cache before and after. -/
structure CacheObserver (cfg : CacheConfig) (γ : Type) where
  start : γ
  see : BaselineCache cfg → CacheAction → BaselineCache cfg → γ → γ

/-- A step of a cache that is watched. -/
def CacheObserver.step {γ : Type} (observer : CacheObserver cfg γ) (kind : CacheKind)
    (s : BaselineCache cfg × γ) (a : CacheAction) :
    Except CacheFailure (BaselineCache cfg × γ) := do
  let c ← s.1.step kind a
  return (c, observer.see s.1 a c s.2)

/-- The runs of a cache that is watched. -/
def observedSystem {γ : Type} (kind : CacheKind) (cfg : CacheConfig)
    (observer : CacheObserver cfg γ) :
    TransitionSystem (Except CacheFailure (BaselineCache cfg × γ)) CacheAction :=
  TransitionSystem.ofExcept (fun s => s.1.IsEmpty ∧ s.2 = observer.start) (fun s a => s.1.Enabled a)
    (observer.step kind)

namespace BaselineCache

theorem invariant_of_observed_restrict {γ : Type} {observer : CacheObserver cfg γ}
    {guard : BaselineCache cfg × γ → CacheAction → Prop} {I : BaselineCache cfg → γ → Prop}
    (start : ∀ n, I { nextUid := n } observer.start)
    (preserved : ∀ c g a c', I c g → guard (c, g) a → c.Enabled a → Stepped kind c a c' →
      I c' (observer.see c a c' g))
    (failed : ∀ c g a e, I c g → guard (c, g) a → c.Enabled a → c.StepFailure a e → F e)
    {x : Except CacheFailure (BaselineCache cfg × γ)}
    (reached :
      ((observedSystem kind cfg observer).restrict (TransitionSystem.onOk guard)).Reachable x) :
    OkOr (fun s => I s.1 s.2) F x := by
  apply TransitionSystem.Reachable.invariant_ofExcept _ _ reached
  · rintro ⟨c, g⟩ ⟨hempty, rfl⟩
    show I c observer.start
    rw [show c = _ from hempty]
    exact start _
  · rintro ⟨c, g⟩ a hI hguard henabled
    have hstep : OkOr (Stepped kind c a) (c.StepFailure a) (step kind c a) := step_spec a henabled
    show OkOr _ _ (c.step kind a >>= _)
    cases hresult : c.step kind a with
    | ok c' =>
        exact preserved c g a c' hI hguard henabled (hstep.of_ok hresult)
    | error e =>
        exact failed c g a e hI hguard henabled (hstep.of_error hresult)

theorem invariant_of_observed {γ : Type} {observer : CacheObserver cfg γ}
    {I : BaselineCache cfg → γ → Prop} (start : ∀ n, I { nextUid := n } observer.start)
    (preserved : ∀ c g a c', I c g → c.Enabled a → Stepped kind c a c' →
      I c' (observer.see c a c' g))
    (failed : ∀ c g a e, I c g → c.Enabled a → c.StepFailure a e → F e)
    {x : Except CacheFailure (BaselineCache cfg × γ)}
    (reached : (observedSystem kind cfg observer).Reachable x) : OkOr (fun s => I s.1 s.2) F x := by
  have hall : ∀ y a, TransitionSystem.onOk
      (fun _ _ => True : BaselineCache cfg × γ → CacheAction → Prop)
      (y : Except CacheFailure (BaselineCache cfg × γ)) a := by
    intro y a
    cases y <;> trivial
  exact invariant_of_observed_restrict start (fun c g a c' hI _ => preserved c g a c' hI)
    (fun c g a e hI _ => failed c g a e hI) (reached.restrict hall)

/-! ## Single runs -/

/-- The cache after a list of actions on an empty one, if no assertion is tripped. -/
def run (kind : CacheKind) (cfg : CacheConfig) (nextUid : ℕ) (actions : List CacheAction) :
    Option (BaselineCache cfg) :=
  TransitionSystem.execOk Enabled (step kind) { nextUid := nextUid } actions

variable {actions : List CacheAction}

theorem reachable_of_run {n : ℕ} (h : run kind cfg n actions = some c) :
    (cacheSystem kind cfg).Reachable (.ok c) := by
  have hempty : IsEmpty ({ nextUid := n } : BaselineCache cfg) := rfl
  exact .execOk actions (.init ⟨_, rfl, hempty⟩) h

/-- The same where the actions have to meet a condition. -/
def runWhere (kind : CacheKind) (cfg : CacheConfig) (guard : BaselineCache cfg → CacheAction → Prop)
    [∀ c a, Decidable (guard c a)] (nextUid : ℕ) (actions : List CacheAction) :
    Option (BaselineCache cfg) :=
  TransitionSystem.execOk (fun c a => guard c a ∧ c.Enabled a) (step kind) { nextUid := nextUid }
    actions

theorem reachable_of_runWhere {guard : BaselineCache cfg → CacheAction → Prop}
    [∀ c a, Decidable (guard c a)] {n : ℕ} (h : runWhere kind cfg guard n actions = some c) :
    ((cacheSystem kind cfg).restrict (TransitionSystem.onOk guard)).Reachable (.ok c) := by
  have hempty : IsEmpty ({ nextUid := n } : BaselineCache cfg) := rfl
  exact .execOk_restrict actions (.init ⟨_, rfl, hempty⟩) h

/-- The same where the cache is watched. -/
def observedRun {γ : Type} (kind : CacheKind) (observer : CacheObserver cfg γ) (nextUid : ℕ)
    (actions : List CacheAction) : Option (BaselineCache cfg × γ) :=
  TransitionSystem.execOk (fun s a => s.1.Enabled a) (observer.step kind)
    ({ nextUid := nextUid }, observer.start) actions

theorem reachable_of_observedRun {γ : Type} {observer : CacheObserver cfg γ} {n : ℕ}
    {s : BaselineCache cfg × γ} (h : observedRun kind observer n actions = some s) :
    (observedSystem kind cfg observer).Reachable (.ok s) := by
  have hempty : IsEmpty ({ nextUid := n } : BaselineCache cfg) := rfl
  exact .execOk actions (.init ⟨_, rfl, hempty, rfl⟩) h

end BaselineCache

/-- A cache of one line. -/
def oneLineConfig (writePolicy : WritePolicy) (writeAllocPolicy : WriteAllocatePolicy) :
    CacheConfig where
  cacheType := .normal
  lineSz := 128
  assoc := 1
  replacementPolicy := .lru
  writePolicy := writePolicy
  allocPolicy := .onMiss
  isStreaming := false
  writeAllocPolicy := writeAllocPolicy
  mshrType := .assoc
  mshrEntries := 4
  mshrMaxMerge := 4
  missQueueSize := 4
  dataPortWidth := 32
  setIndex _ := 0
  sectors := nofun
  streaming := nofun
  onFill_writePolicy := nofun
  onFill_writeAllocPolicy := nofun

/-- A request of a core for part of a block. -/
def globalRequest (uid : ℕ) (addr : Addr) (write : Bool) : MemFetch where
  uid := uid
  access :=
    { type := if write then .globalAccW else .globalAccR
      addr := addr
      reqSize := 32
      write := write
      byteMask := {0}
      sectorMask := {0} }
  dataSize := 32

end GpuCalorie.Cache
