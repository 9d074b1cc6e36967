/-
# Requests a data cache sends

What an access of a data cache adds to the queue and to the records. A read in the queue
has a record from the moment it is put there; it is the access itself, or a read for a
write that allocates. A fill needs the record of its request, and touches no other.
-/

import GpuCalorie.Cache.Machine

namespace GpuCalorie.Cache.BaselineCache

open GpuCalorie.Math

variable {cfg : CacheConfig} {level : DataCacheLevel} {c c' : BaselineCache cfg} {mf : MemFetch}
  {time : UInt32}

/-- There is a record for a request. -/
def HasRecord (c : BaselineCache cfg) (uid : ℕ) : Prop := (c.extraMfFields uid).isSome

/-- A read that an access puts into the queue. -/
inductive SentRead (level : DataCacheLevel) (c : BaselineCache cfg) (mf : MemFetch)
    (c' : BaselineCache cfg) (request : MemFetch) : Prop
  | own (read : mf.isWrite = false) (uid : request.uid = mf.uid)
      (type : request.access.type = mf.access.type) (original : request.originalMf = mf.originalMf)
  | allocate (uid : request.uid = c.nextUid) (lt : c.nextUid < c'.nextUid)
      (type : request.access.type = level.wrAllocType) (original : request.originalMf = none)

/-- Where the identity of the read of a miss is from. -/
def ReadUid (c : BaselineCache cfg) (mf : MemFetch) (c' : BaselineCache cfg) (uid : ℕ) : Prop :=
  (uid = mf.uid ∧ mf.isWrite = false) ∨ (uid = c.nextUid ∧ c.nextUid < c'.nextUid)

/-- What an access does to the queue and to the records. -/
structure Sends (level : DataCacheLevel) (c : BaselineCache cfg) (mf : MemFetch)
    (c' : BaselineCache cfg) : Prop where
  nextUid : c.nextUid ≤ c'.nextUid
  kept : ∀ uid, c.HasRecord uid → c'.HasRecord uid
  records : ∀ uid, c'.HasRecord uid → c.HasRecord uid ∨ ReadUid c mf c' uid
  queue : ∀ request ∈ c'.missQueue, request.isWrite = false →
    request ∈ c.missQueue ∨ (SentRead level c mf c' request ∧ c'.HasRecord request.uid)

theorem Sends.of_kept_records (nextUid : c.nextUid ≤ c'.nextUid)
    (hextra : c'.extraMfFields = c.extraMfFields)
    (queue : ∀ request ∈ c'.missQueue, request.isWrite = false → request ∈ c.missQueue) :
    Sends level c mf c' where
  nextUid := nextUid
  kept uid h := by
    rw [HasRecord, hextra]
    exact h
  records uid h := by
    rw [HasRecord, hextra] at h
    exact .inl h
  queue request hmem hread := .inl (queue request hmem hread)

theorem Sends.of_kept (kept : MissesKept c c')
    (queue : ∀ request ∈ c'.missQueue, request.isWrite = false → request ∈ c.missQueue) :
    Sends level c mf c' :=
  .of_kept_records kept.nextUid kept.extraMfFields queue

theorem isWrite_of_mem_writeBacks {kind : CacheKind} {uid : ℕ} {wb : Bool}
    {evicted : EvictedBlockInfo} {request : MemFetch}
    (h : request ∈ writeBacks kind cfg uid wb evicted) : request.isWrite = true := by
  cases kind with
  | readOnly => exact absurd h List.not_mem_nil
  | data level =>
      rw [writeBacks] at h
      split at h
      · rw [List.mem_singleton.mp h]
        rfl
      · exact absurd h List.not_mem_nil

theorem mem_of_writes {queue added : List MemFetch}
    (hadded : ∀ request ∈ added, request.isWrite = true)
    {request : MemFetch} (hmem : request ∈ queue ++ added) (hread : request.isWrite = false) :
    request ∈ queue := by
  rcases List.mem_append.mp hmem with hmem | hmem
  · exact hmem
  · rw [hadded request hmem] at hread
    exact nomatch hread

theorem sentRead_of_writeAllocate {original : Option (ℕ × MemAccess)} (hwrite : mf.isWrite = true)
    (hlt : c.writeAllocateRequest level mf original = mf ∨ c.nextUid < c'.nextUid)
    (blockAddr : Addr) :
    SentRead level c mf c' ((c.writeAllocateRequest level mf original).sentFor blockAddr
      cfg.atomSz) ∧
      ReadUid c mf c' (c.writeAllocateRequest level mf original).uid := by
  have hlt' : c.nextUid < c'.nextUid := by
    refine hlt.resolve_left fun heq => ?_
    have hread : (c.writeAllocateRequest level mf original).isWrite = false := rfl
    rw [heq, hwrite] at hread
    exact nomatch hread
  exact ⟨.allocate rfl hlt' rfl rfl, .inr ⟨rfl, hlt'⟩⟩

theorem sentRead_of_missPlan {plan : MissPlan} (h : missPlan (.data level) c mf = some plan)
    (hlt : plan.request = mf ∨ c.nextUid < c'.nextUid) (blockAddr : Addr) :
    (∀ request ∈ plan.before, request.isWrite = true) ∧
      SentRead level c mf c' (plan.request.sentFor blockAddr cfg.atomSz) ∧
        ReadUid c mf c' plan.request.uid := by
  simp only [missPlan] at h
  by_cases hwrite : mf.isWrite = true
  · rw [if_pos hwrite] at h
    cases hpolicy : cfg.writeAllocPolicy with
    | noWriteAllocate =>
        rw [hpolicy] at h
        cases h
    | lazyFetchOnRead =>
        rw [hpolicy] at h
        cases h
    | writeAllocate =>
        rw [hpolicy] at h
        cases h
        exact ⟨fun request hmem => by rw [List.mem_singleton.mp hmem, hwrite],
          sentRead_of_writeAllocate hwrite hlt blockAddr⟩
    | fetchOnWrite =>
        rw [hpolicy] at h
        by_cases hfull : mf.byteMask.card = cfg.atomSz
        · simp [hfull] at h
        · simp only [hfull, if_false] at h
          cases h
          exact ⟨fun request hmem =>
            absurd hmem List.not_mem_nil, sentRead_of_writeAllocate hwrite hlt blockAddr⟩
  · rw [if_neg hwrite] at h
    cases h
    have hread := Bool.eq_false_of_not_eq_true hwrite
    exact ⟨fun request hmem =>
      absurd hmem List.not_mem_nil, .own hread rfl rfl rfl, .inl ⟨rfl, hread⟩⟩

theorem Accessed.sends (h : Accessed (.data level) c mf time c') : Sends level c mf c' := by
  cases h with
  | readHit _ _ _ _ _ kept queue =>
      exact .of_kept kept fun request hmem _ => queue ▸ hmem
  | atomicHit _ _ _ _ _ _ _ _ kept queue =>
      exact .of_kept kept fun request hmem _ => queue ▸ hmem
  | writeHit through _ write _ _ _ _ _ kept queue =>
      refine .of_kept kept fun request hmem hread => ?_
      rw [queue] at hmem
      refine mem_of_writes (fun request hmem => ?_) hmem hread
      cases through with
      | true => rw [List.mem_singleton.mp hmem, write]
      | false => exact absurd hmem List.not_mem_nil
  | writeEvict _ write _ _ _ _ kept queue =>
      refine .of_kept kept fun request hmem hread => ?_
      rw [queue] at hmem
      exact mem_of_writes (fun request hmem => by rw [List.mem_singleton.mp hmem, write]) hmem hread
  | writeAround write _ kept queue =>
      refine .of_kept kept fun request hmem hread => ?_
      rw [queue] at hmem
      exact mem_of_writes (fun request hmem => by rw [List.mem_singleton.mp hmem, write]) hmem hread
  | written _ _ _ _ _ _ _ _ _ kept queue =>
      refine .of_kept kept fun request hmem hread => ?_
      rw [queue] at hmem
      exact mem_of_writes (fun request hmem => isWrite_of_mem_writeBacks hmem) hmem hread
  | @fetched r plan uid planned _ _ _ _ _ _ _ _ _ _ missTaken nextUid uid_lt _ =>
      obtain ⟨hbefore, hsent, huid⟩ :=
        sentRead_of_missPlan planned uid_lt (cfg.mshrAddr mf.addr)
      rcases missTaken with ⟨-, hextra, hqueue⟩ | ⟨-, hextra, hqueue⟩
      · refine .of_kept_records nextUid hextra fun request hmem hread => ?_
        rw [hqueue] at hmem
        exact mem_of_writes hbefore
          (mem_of_writes (fun request hmem => isWrite_of_mem_writeBacks hmem) hmem hread) hread
      · have hrecord : ∀ uid, c'.HasRecord uid ↔ uid = plan.request.uid ∨ c.HasRecord uid := by
          intro uid
          rw [HasRecord, hextra]
          by_cases heq : uid = plan.request.uid
          · simp [heq]
          · rw [Function.update_of_ne heq, or_iff_right heq]
            rfl
        refine
          { nextUid := nextUid
            kept := fun uid h => (hrecord uid).mpr (.inr h)
            records := fun uid h => ?_
            queue := fun request hmem hread => ?_ }
        · rcases (hrecord uid).mp h with rfl | h
          · exact .inr huid
          · exact .inl h
        · rw [hqueue] at hmem
          have hmem' :=
            mem_of_writes (fun request hmem => isWrite_of_mem_writeBacks hmem) hmem hread
          rcases List.mem_append.mp hmem' with hmem' | hmem'
          · exact .inl (mem_of_writes hbefore hmem' hread)
          · rw [List.mem_singleton.mp hmem']
            exact .inr ⟨hsent, (hrecord _).mpr (.inl rfl)⟩

theorem Handled.sends {r : AccessResult cfg} (h : Handled (.data level) c mf time r) :
    Sends level c mf r.cache := by
  rcases h with ⟨-, hcache⟩ | ⟨-, haccessed⟩
  · rw [hcache]
    exact .of_kept_records le_rfl rfl fun request hmem _ => hmem
  · exact haccessed.sends

/-- What a fill does to the records: it finds that of its request, and keeps the others. -/
structure Fills (c : BaselineCache cfg) (uid : ℕ) (c' : BaselineCache cfg) : Prop where
  record : c.HasRecord uid
  others : ∀ other, other ≠ uid → (c'.HasRecord other ↔ c.HasRecord other)
  queue : c'.missQueue = c.missQueue
  nextUid : c'.nextUid = c.nextUid

theorem hasRecord_update_of_ne {uid other : ℕ} {e : Option ExtraMfFields} (hne : other ≠ uid)
    (hextra : c'.extraMfFields = Function.update c.extraMfFields uid e) :
    c'.HasRecord other ↔ c.HasRecord other := by
  rw [HasRecord, HasRecord, hextra, Function.update_of_ne hne]

theorem enabled_of_fill {reply : MemFetch} (h : c.fill reply time = .ok c') :
    c.Enabled (.fill reply time) := by
  rw [fill] at h
  show ((replyUid cfg reply).bind c.extraMfFields).isSome = true
  rw [replyUid]
  cases hmshr : cfg.mshrType with
  | assoc =>
      rw [hmshr] at h
      cases he : c.extraMfFields reply.uid with
      | none =>
          simp only [fillRequest, he] at h
          cases h
      | some e => exact congrArg Option.isSome he
  | sectorAssoc =>
      rw [hmshr] at h
      cases horiginal : reply.originalMf with
      | none =>
          rw [horiginal] at h
          cases h
      | some uid =>
          cases he : c.extraMfFields uid with
          | none =>
              simp only [horiginal, he] at h
              cases h
          | some e => exact congrArg Option.isSome he

theorem fills_of_fill {reply : MemFetch} (h : c.fill reply time = .ok c') :
    ∃ uid, replyUid cfg reply = some uid ∧ Fills c uid c' := by
  obtain ⟨uid, e, huid, he, hspec⟩ := fill_spec time (enabled_of_fill h)
  have hrecord : c.HasRecord uid := by
    rw [HasRecord, he]
    rfl
  refine ⟨uid, huid, ?_⟩
  rcases hspec.of_ok h with hpartly | ⟨-, hfilled⟩
  · obtain ⟨n, hextra⟩ := hpartly.extraMfFields
    exact ⟨hrecord, fun other hne =>
      hasRecord_update_of_ne hne hextra, hpartly.missQueue, hpartly.nextUid⟩
  · exact ⟨hrecord, fun other hne =>
      hasRecord_update_of_ne hne hfilled.extraMfFields, hfilled.missQueue,
      hfilled.nextUid⟩

end GpuCalorie.Cache.BaselineCache
