/-
# What an access does to a cache

`Handled` is the specification of the accesses of data caches and read-only caches: a
refused access changes nothing, any other is `Accessed`, which has a case for each way
that blocks, registers and queue change together. The functions that all policies call have
their specifications here.
-/

import GpuCalorie.Cache.DataCache

namespace GpuCalorie.Cache

open GpuCalorie.Math

/-- Which cache it is: `read_only_cache`, or a data cache. -/
inductive CacheKind
  | readOnly
  | data (level : DataCacheLevel)
  deriving DecidableEq

namespace BaselineCache

variable {cfg : CacheConfig}

/-! ## What a miss asks for -/

/-- How the miss of an access is served by a read: the request that waits for the fill, the
write that is sent before it, whether the sector will be modified when it is filled, and the
number of requests for which the queue must have more room than this. -/
structure MissPlan where
  request : MemFetch
  before : List MemFetch := []
  marks : Bool := false
  numMiss : ℕ

/-- Reads are served so, and writes that allocate, unless the write is of all of what would
be fetched. -/
def missPlan (kind : CacheKind) (c : BaselineCache cfg) (mf : MemFetch) : Option MissPlan :=
  match kind with
  | .readOnly => some { request := mf, numMiss := 0 }
  | .data level =>
    if mf.isWrite then
      match cfg.writeAllocPolicy with
      | .writeAllocate =>
        some { request := c.writeAllocateRequest level mf none, before := [mf], numMiss := 2 }
      | .fetchOnWrite =>
        if mf.byteMask.card = cfg.atomSz then none
        else
          some { request := c.writeAllocateRequest level mf (some (mf.uid, mf.access))
                 marks := true
                 numMiss := 1 }
      | .noWriteAllocate | .lazyFetchOnRead => none
    else some { request := mf, numMiss := 1 }

/-- What is written back of what an access evicted. -/
def writeBacks (kind : CacheKind) (cfg : CacheConfig) (uid : ℕ) (wb : Bool)
    (evicted : EvictedBlockInfo) : List MemFetch :=
  match kind with
  | .readOnly => []
  | .data level =>
    if wb ∧ cfg.writePolicy ≠ .writeThrough then
      [MemFetch.new uid
        { type := level.wrbkType
          addr := evicted.blockAddr
          reqSize := evicted.modifiedSize
          write := true } none]
    else []

theorem length_writeBacks (cfg : CacheConfig) (kind : CacheKind) (uid : ℕ) (wb : Bool)
    (evicted : EvictedBlockInfo) :
    (writeBacks kind cfg uid wb evicted).length ≤ 1 := by
  cases kind with
  | readOnly => exact Nat.zero_le 1
  | data level =>
      rw [writeBacks]
      split_ifs
      · exact le_rfl
      · exact Nat.zero_le 1

/-- The request of a miss is the access itself, or a new read of the same sector; the queue
has room for what comes before it and a write-back. -/
structure MissPlan.For (kind : CacheKind) (c : BaselineCache cfg) (mf : MemFetch)
    (plan : MissPlan) :
    Prop where
  addr : plan.request.addr = mf.addr
  sectorMask : plan.request.sectorMask = mf.sectorMask
  uid : plan.request = mf ∨ (plan.request.uid = c.nextUid ∧ plan.request.isatomic = false)
  room : ∀ uid wb evicted,
    plan.before.length + (writeBacks kind cfg uid wb evicted).length ≤ plan.numMiss

theorem missPlan_for {kind : CacheKind} {c : BaselineCache cfg} {mf : MemFetch} {plan : MissPlan}
    (h : missPlan kind c mf = some plan) : plan.For kind c mf := by
  cases kind with
  | readOnly =>
      cases h
      exact ⟨rfl, rfl, .inl rfl, fun _ _ _ => le_rfl⟩
  | data level =>
      have hone := fun uid wb evicted => length_writeBacks cfg (.data level) uid wb evicted
      simp only [missPlan] at h
      by_cases hwrite : mf.isWrite = true
      · rw [if_pos hwrite] at h
        cases hpolicy : cfg.writeAllocPolicy with
        | noWriteAllocate =>
            rw [hpolicy] at h
            cases h
        | writeAllocate =>
            rw [hpolicy] at h
            cases h
            exact ⟨rfl, rfl, .inr ⟨rfl, rfl⟩, fun uid wb evicted =>
              Nat.add_le_add_left (hone uid wb evicted) 1⟩
        | fetchOnWrite =>
            rw [hpolicy] at h
            by_cases hfull : mf.byteMask.card = cfg.atomSz
            · simp [hfull] at h
            · simp only [hfull, if_false] at h
              cases h
              exact ⟨rfl, rfl, .inr ⟨rfl, rfl⟩,
                fun uid wb evicted => by simpa using hone uid wb evicted⟩
        | lazyFetchOnRead =>
            rw [hpolicy] at h
            cases h
      · rw [if_neg hwrite] at h
        cases h
        exact ⟨rfl, rfl, .inl rfl, fun uid wb evicted => by simpa using hone uid wb evicted⟩

/-! ## Accesses -/

/-- The registers and the records of the misses stay. -/
structure MissesKept (c c' : BaselineCache cfg) : Prop where
  mshrs : c'.mshrs = c.mshrs
  extraMfFields : c'.extraMfFields = c.extraMfFields
  nextUid : c.nextUid ≤ c'.nextUid

/-- A change of a line that makes the sector of a mask modified. -/
structure WritesSector {ct : CacheType} (mask : SectorMask)
    (change : CacheBlock ct → CacheBlock ct) :
    Prop where
  tag : ∀ b, (change b).tag = b.tag
  blockAddr : ∀ b, (change b).blockAddr = b.blockAddr
  covered : ∀ b k, Covers ct mask k → ((change b).stateAt k).status = .modified
  others : ∀ b k, ¬ Covers ct mask k → (change b).stateAt k = b.stateAt k

/-- The misses after the miss of an access: it waits for a fill that is under way, or is
sent to the next level with a record of where its fill goes. -/
def MissTaken (c : BaselineCache cfg) (mf : MemFetch) (plan : MissPlan) (idx : ℕ)
    (wbs : List MemFetch) (c' : BaselineCache cfg) : Prop :=
  (cfg.mshrAddr mf.addr ∈ c.mshrs.data ∧ c'.extraMfFields = c.extraMfFields ∧
      c'.missQueue = c.missQueue ++ plan.before ++ wbs) ∨
    (cfg.mshrAddr mf.addr ∉ c.mshrs.data ∧
      c'.extraMfFields = Function.update c.extraMfFields plan.request.uid
        (some (.new cfg plan.request idx)) ∧
      c'.missQueue = c.missQueue ++ plan.before ++
        [plan.request.sentFor (cfg.mshrAddr mf.addr) cfg.atomSz] ++ wbs)

/-- Writes that hit a line evict it. -/
def EvictsWrites (cfg : CacheConfig) (mf : MemFetch) : Prop :=
  cfg.writePolicy = .writeEvict ∨
    (cfg.writePolicy = .localWbGlobalWt ∧ mf.access.type = .globalAccW)

instance (cfg : CacheConfig) (mf : MemFetch) : Decidable (EvictsWrites cfg mf) :=
  inferInstanceAs (Decidable (_ ∨ _))

/-- What an access that is not refused does. -/
inductive Accessed (kind : CacheKind) (c : BaselineCache cfg) (mf : MemFetch) (time : UInt32)
    (c' : BaselineCache cfg) : Prop
  | readHit {r : TagAccess cfg.cacheType} (read : mf.isWrite = false)
      (plain : kind = .readOnly ∨ mf.isatomic = false)
      (tags : TagAccessed cfg c.tagArray (cfg.blockAddr mf.addr) time mf r)
      (hit : r.status = .hit) (lines : c'.tagArray.lines = r.tags.lines)
      (kept : MissesKept c c') (queue : c'.missQueue = c.missQueue)
  /-- An atomic writes what it reads. -/
  | atomicHit {r : TagAccess cfg.cacheType} {change :
    CacheBlock cfg.cacheType → CacheBlock cfg.cacheType}
      (data : kind ≠ .readOnly) (read : mf.isWrite = false) (atomic : mf.isatomic = true)
      (tags : TagAccessed cfg c.tagArray (cfg.blockAddr mf.addr) time mf r)
      (probed : c.tagArray.outcome cfg (cfg.blockAddr mf.addr) mf.sectorMask =
        some (r.status, r.idx))
      (hit : r.status = .hit) (writes : WritesSector mf.sectorMask change)
      (lines : c'.tagArray.lines = (r.tags.modifyLine r.idx change).lines)
      (kept : MissesKept c c') (queue : c'.missQueue = c.missQueue)
  | writeHit {r : TagAccess cfg.cacheType} (through : Bool)
      {change : CacheBlock cfg.cacheType → CacheBlock cfg.cacheType}
      (policy : through = true ↔ cfg.writePolicy = .writeThrough) (write : mf.isWrite = true)
      (tags : TagAccessed cfg c.tagArray (cfg.blockAddr mf.addr) time mf r)
      (probed : c.tagArray.outcome cfg (cfg.blockAddr mf.addr) mf.sectorMask =
        some (r.status, r.idx))
      (hit : r.status = .hit) (writes : WritesSector mf.sectorMask change)
      (lines : c'.tagArray.lines = (r.tags.modifyLine r.idx change).lines)
      (kept : MissesKept c c') (queue : c'.missQueue = c.missQueue ++ if through then [mf] else [])
      (room : through = true → c'.missQueue.length ≤ cfg.missQueueSize)
  /-- The sector is invalid afterwards, and the write is sent. -/
  | writeEvict {idx : ℕ} (policy : EvictsWrites cfg mf) (write : mf.isWrite = true)
      (probed : Probed cfg c.tagArray (cfg.blockAddr mf.addr) mf.sectorMask .hit idx)
      (outcome : c.tagArray.outcome cfg (cfg.blockAddr mf.addr) mf.sectorMask = some (.hit, idx))
      (queueRoom : c.missQueueFull 0 = false)
      (lines : c'.tagArray.lines =
        (c.tagArray.modifyLine idx (·.setStatus .invalid mf.sectorMask)).lines)
      (kept : MissesKept c c') (queue : c'.missQueue = c.missQueue ++ [mf])
      (room : c'.missQueue.length ≤ cfg.missQueueSize)
  /-- A write that misses and does not allocate is sent. -/
  | writeAround (write : mf.isWrite = true) (lines : c'.tagArray.lines = c.tagArray.lines)
      (kept : MissesKept c c') (queue : c'.missQueue = c.missQueue ++ [mf])
      (room : c'.missQueue.length ≤ cfg.missQueueSize)
  /-- The miss waits for a fill. -/
  | fetched {r : TagAccess cfg.cacheType} {plan : MissPlan} {uid : ℕ}
      (planned : missPlan kind c mf = some plan) (noWb : kind = .readOnly → r.wb = false)
      (tags : TagAccessed cfg c.tagArray (cfg.blockAddr mf.addr) time plan.request r)
      (probed : c.tagArray.outcome cfg (cfg.blockAddr mf.addr) mf.sectorMask =
        some (r.status, r.idx))
      (miss : r.status ≠ .hit) (taken : r.status ≠ .reservationFail)
      (queueRoom : c.missQueueFull plan.numMiss = false)
      (tableRoom : c.mshrs.full cfg (cfg.mshrAddr mf.addr) = false)
      (inOrder : plan.marks = true → cfg.mshrAddr mf.addr ∈ c.mshrs.data →
        c.mshrs.isReadAfterWritePending (cfg.mshrAddr mf.addr) = false)
      (added : MshrTable.Added cfg c.mshrs (cfg.mshrAddr mf.addr) plan.request c'.mshrs)
      (lines : c'.tagArray.lines =
        if plan.marks then (r.tags.modifyLine r.idx (·.setModifiedOnFill true mf.sectorMask)).lines
        else r.tags.lines)
      (missTaken : MissTaken c mf plan r.idx (writeBacks kind cfg uid r.wb r.evicted) c')
      (nextUid : c.nextUid ≤ c'.nextUid)
      (uid_lt : plan.request = mf ∨ c.nextUid < c'.nextUid)
      (room : c'.missQueue.length ≤ cfg.missQueueSize)
  /-- A write that misses takes its sector without a fill. -/
  | written {r : TagAccess cfg.cacheType} {uid : ℕ}
      {change : CacheBlock cfg.cacheType → CacheBlock cfg.cacheType}
      (write : mf.isWrite = true)
      (policy : cfg.writeAllocPolicy = .lazyFetchOnRead ∨
        (cfg.writeAllocPolicy = .fetchOnWrite ∧ mf.byteMask.card = cfg.atomSz))
      (tags : TagAccessed cfg c.tagArray (cfg.blockAddr mf.addr) time mf r)
      (probed : c.tagArray.outcome cfg (cfg.blockAddr mf.addr) mf.sectorMask =
        some (r.status, r.idx))
      (miss : r.status ≠ .hit) (taken : r.status ≠ .reservationFail)
      (queueRoom : c.missQueueFull 0 = false) (writes : WritesSector mf.sectorMask change)
      (lines : c'.tagArray.lines = (r.tags.modifyLine r.idx change).lines)
      (kept : MissesKept c c')
      (queue : c'.missQueue = c.missQueue ++ writeBacks kind cfg uid r.wb r.evicted)
      (room : c'.missQueue.length ≤ cfg.missQueueSize)

/-- The specification of an access. -/
def Handled (kind : CacheKind) (c : BaselineCache cfg) (mf : MemFetch) (time : UInt32)
    (r : AccessResult cfg) : Prop :=
  (r.status = .reservationFail ∧ r.cache = c) ∨
    (r.status ≠ .reservationFail ∧ Accessed kind c mf time r.cache)

/-- The assertions an access may trip in some state. -/
def accessFailures : List CacheFailure :=
  tagFailures ++ [.droppedWriteBack, .atomicType, .dataSize, .writableReadOnly, .readOnlyPolicy,
    .readOnlyWrite]

/-- The assertions an access may trip. Those of the registers need a table with too many
entries, or whose entries have no room. -/
def AccessFailure (c : BaselineCache cfg) (e : CacheFailure) : Prop :=
  e ∈ accessFailures ∨ (e = .mshrEntries ∧ cfg.mshrEntries < c.mshrs.data.keys.length) ∨
    (e = .mshrMerged ∧ cfg.mshrMaxMerge = 0)

/-! ## The parts of an access -/

variable {c : BaselineCache cfg} {mf : MemFetch} {time : UInt32} {addr : Addr}
  {status : RequestStatus} {idx i : ℕ} {probeMode : Option MemFetch}

theorem missQueueFull_eq_false {n : ℕ} :
    c.missQueueFull n = false ↔ c.missQueue.length + n < cfg.missQueueSize := by
  rw [missQueueFull, decide_eq_false_iff_not, Nat.not_le]

theorem refusesMiss_eq (a : Addr) (n : ℕ) :
    c.refusesMiss a n = .ok (c.missQueueFull n || c.mshrs.full cfg a) := by
  rw [refusesMiss]
  cases hqueue : c.missQueueFull n with
  | true => simp
  | false =>
      have hroom : c.missQueue.length < cfg.missQueueSize := by
        have hlt := missQueueFull_eq_false.mp hqueue
        omega
      cases hfull : c.mshrs.full cfg a <;> cases hhit : c.mshrs.probe a <;> simp [hroom]

theorem missAccess_spec (time : UInt32) (idx' : ℕ) (readOnly : Bool)
    (hprobe : c.tagArray.probe cfg addr i mf.sectorMask probeMode = .ok (status, idx)) :
    OkOr (fun r =>
      TagTaken cfg c.tagArray addr time mf status idx r ∧ (readOnly = true → r.wb = false))
      c.AccessFailure (c.missAccess addr idx' mf time readOnly) := by
  rw [missAccess]
  apply OkOr.ite
  · intro _
    apply (TagArray.accessNoWb_spec hprobe).mono
    · exact fun r hr => ⟨hr.1, fun _ => hr.2⟩
    · rintro e (he | rfl)
      · exact .inl (List.mem_append_left _ he)
      · exact .inl (by simp [accessFailures])
  · intro hreadOnly
    apply (TagArray.access_spec hprobe).mono
    · exact fun r hr => ⟨hr, fun h => absurd h hreadOnly⟩
    · exact fun e he => .inl (List.mem_append_left _ he)

/-- A read miss that was taken. -/
structure ReadTaken (c : BaselineCache cfg) (addr : Addr) (mf : MemFetch) (time : UInt32)
    (status : RequestStatus) (idx : ℕ) (readOnly : Bool) (r : TagAccess cfg.cacheType)
    (c' : BaselineCache cfg) : Prop where
  tags : TagTaken cfg c.tagArray addr time mf status idx r
  wb : readOnly = true → r.wb = false
  room : c.mshrs.full cfg (cfg.mshrAddr mf.addr) = false
  added : MshrTable.Added cfg c.mshrs (cfg.mshrAddr mf.addr) mf c'.mshrs
  lines : c'.tagArray.lines = r.tags.lines
  misses : MissTaken c mf { request := mf, numMiss := 0 } r.idx [] c'
  nextUid : c'.nextUid = c.nextUid

@[simp]
theorem lines_addPendingLine {ct : CacheType} (cfg : CacheConfig) (tags : TagArray ct)
    (mf : MemFetch) :
    (tags.addPendingLine cfg mf).lines = tags.lines := by
  rw [TagArray.addPendingLine]
  split <;> rfl

theorem sendReadRequest_spec (time : UInt32) (idx' : ℕ) (events : List CacheEvent)
    (readOnly wa : Bool)
    (hprobe : c.tagArray.probe cfg addr i mf.sectorMask probeMode = .ok (status, idx))
    (hroom : c.missQueue.length < cfg.missQueueSize) :
    OkOr (fun r =>
        (c.mshrs.full cfg (cfg.mshrAddr mf.addr) = true ∧ r.doMiss = false ∧ r.cache = c) ∨
          (r.doMiss = true ∧ ∃ t, ReadTaken c addr mf time status idx readOnly t r.cache ∧
            r.wb = t.wb ∧ r.evicted = t.evicted))
      c.AccessFailure (c.sendReadRequest addr idx' mf time events readOnly wa) := by
  rw [sendReadRequest]
  cases hfull : c.mshrs.full cfg (cfg.mshrAddr mf.addr) with
  | true =>
      -- no room in the table: neither of the first two branches is taken
      cases hhit : c.mshrs.probe (cfg.mshrAddr mf.addr) <;>
        exact .inl ⟨rfl, rfl, rfl⟩
  | false =>
      have hadd := (MshrTable.add_spec mf hfull).mono (fun _ h => h)
        (fun _ he => (Or.inr he : c.AccessFailure _))
      have haccess := missAccess_spec time idx' readOnly hprobe
      cases hhit : c.mshrs.probe (cfg.mshrAddr mf.addr) with
      | true =>
          apply OkOr.bind haccess
          intro t ht
          apply OkOr.bind hadd
          intro mshrs hmshrs
          refine .inr ⟨rfl, t, ?_, rfl, rfl⟩
          exact
            { tags := ht.1
              wb := ht.2
              room := hfull
              added := hmshrs
              lines := rfl
              misses := .inl ⟨MshrTable.probe_iff.mp hhit, rfl, by simp⟩
              nextUid := rfl }
      | false =>
          simp only [Bool.false_and, Bool.not_false, Bool.true_and, hroom, decide_true, if_true,
            Bool.false_eq_true, if_false]
          apply OkOr.bind haccess
          intro t ht
          apply OkOr.bind hadd
          intro mshrs hmshrs
          refine .inr ⟨rfl, t, ?_, rfl, rfl⟩
          exact
            { tags := ht.1
              wb := ht.2
              room := hfull
              added := hmshrs
              lines := by
                show (if _ then _ else _ : TagArray cfg.cacheType).lines = _
                split_ifs <;> simp
              misses := .inr ⟨fun h => by simp [MshrTable.probe_iff.mpr h] at hhit, rfl, by simp⟩
              nextUid := rfl }

theorem sendWriteBack_cache (level : DataCacheLevel) (c : BaselineCache cfg) (wb : Bool)
    (evicted : EvictedBlockInfo) (request : CacheEvent) (events : List CacheEvent) :
    ∃ n, c.nextUid ≤ n ∧ (c.sendWriteBack level wb evicted request events).2 =
      { c with
        missQueue := c.missQueue ++ writeBacks (.data level) cfg c.nextUid wb evicted
        nextUid := n } := by
  rw [sendWriteBack, writeBacks]
  split_ifs
  · exact ⟨c.nextUid + 1, Nat.le_succ _, rfl⟩
  · exact ⟨c.nextUid, le_rfl, by rw [List.append_nil]⟩

theorem useDataPort_eq (c : BaselineCache cfg) (mf : MemFetch) (outcome : RequestStatus)
    (events : List CacheEvent) :
    ∃ n, c.useDataPort mf outcome events = { c with dataPortOccupiedCycles := n } := by
  unfold useDataPort
  split
  · exact ⟨_, rfl⟩
  · split
    · exact ⟨_, rfl⟩
    · exact ⟨_, rfl⟩
  · split
    · exact ⟨_, rfl⟩
    · exact ⟨_, rfl⟩
  · exact ⟨_, rfl⟩
  · exact ⟨_, rfl⟩

end BaselineCache

end GpuCalorie.Cache
