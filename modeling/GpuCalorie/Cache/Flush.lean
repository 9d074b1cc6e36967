/-
# Flushing, invalidating and resizing a cache

`flush` and `invalidate` go over the lines of the current size, and do nothing in a cache that
is not marked as used. An access to the tags marks it, a flush and an invalidation take the mark
away, and a fill leaves it. The size changes with the associativity, which the owner may set
between any two actions.
-/

import GpuCalorie.Cache.FillIntegrity

namespace GpuCalorie.Cache

open GpuCalorie.Math TransitionSystem

/-- `set_assoc`. -/
abbrev CacheConfig.setAssoc (cfg : CacheConfig) (n : ℕ) : CacheConfig := { cfg with assoc := n }

/-- The associativity of the L1 data cache with `ADAPTIVE_VOLTA`, by what is left of the shared
memory. -/
def adaptiveAssoc (gpgpuShmemSize totalShmed maxAssoc assoc : ℕ) : ℕ :=
  if totalShmed < gpgpuShmemSize then
    if totalShmed = 0 then maxAssoc
    else if totalShmed ≤ 8192 then 15 * maxAssoc / 16
    else if totalShmed ≤ 16384 then 7 * maxAssoc / 8
    else if totalShmed ≤ 32768 then 3 * maxAssoc / 4
    else if totalShmed ≤ 65536 then maxAssoc / 2
    else maxAssoc / 4
  else assoc

theorem adaptiveAssoc_le {gpgpuShmemSize totalShmed maxAssoc assoc : ℕ} (h : assoc ≤ maxAssoc) :
    adaptiveAssoc gpgpuShmemSize totalShmed maxAssoc assoc ≤ maxAssoc := by
  rw [adaptiveAssoc]
  split_ifs <;> omega

variable {ct : CacheType}

/-! ## The tag array -/

/-- The loop over the sectors of a line. -/
def CacheBlock.clear (b : CacheBlock ct) : CacheBlock ct :=
  (List.finRange 4).foldl (fun b j => b.setStatus .invalid {j}) b

namespace TagArray

/-- `flush`. -/
def flush (numLines : ℕ) (isUsed : Bool) (tags : TagArray ct) : TagArray ct :=
  if isUsed then
    { tags with lines := fun i =>
        if i < numLines ∧ (tags.lines i).isModifiedLine =
          true then (tags.lines i).clear else tags.lines i }
  else tags

/-- `invalidate`. -/
def invalidate (numLines : ℕ) (isUsed : Bool) (tags : TagArray ct) : TagArray ct :=
  if isUsed then
    { tags with lines := fun i => if i < numLines then (tags.lines i).clear else tags.lines i }
  else tags

end TagArray

namespace BaselineCache

variable {cfg : CacheConfig}

/-- An access comes to `tag_array::access`: it is not refused, no write that evicts what it hits,
and no write that misses and does not allocate. -/
def usesTags (kind : CacheKind) (c : BaselineCache cfg) : CacheAction → Bool
  | .access mf time => match c.access kind mf time with
    | .ok r =>
      r.status ≠ .reservationFail &&
        (!mf.isWrite || if r.status = .hit then !decide (EvictsWrites cfg mf)
          else cfg.writeAllocPolicy ≠ .noWriteAllocate)
    | .error _ => false
  | .cycle _ | .fill _ _ | .nextAccess => false

/-- The cache with another associativity. -/
def setAssoc {m : ℕ} (c : BaselineCache (cfg.setAssoc m)) (n : ℕ) :
    BaselineCache (cfg.setAssoc n) where
  tagArray := c.tagArray
  mshrs := c.mshrs
  missQueue := c.missQueue
  extraMfFields := c.extraMfFields
  dataPortOccupiedCycles := c.dataPortOccupiedCycles
  fillPortOccupiedCycles := c.fillPortOccupiedCycles
  nextUid := c.nextUid

end BaselineCache

/-! ## Runs -/

/-- A cache and its owner's settings. -/
structure FlushableCache (cfg : CacheConfig) where
  assoc : ℕ
  cache : BaselineCache (cfg.setAssoc assoc)
  /-- `is_used`. -/
  isUsed : Bool := false

/-- What the owner of a cache may do besides. -/
inductive FlushAction
  | cache (a : CacheAction)
  | flush
  | invalidate
  | setAssoc (n : ℕ)
  deriving DecidableEq

namespace FlushableCache

variable {cfg : CacheConfig} (kind : CacheKind) (nset : ℕ) (s : FlushableCache cfg)

/-- `get_num_lines`. -/
def numLines : ℕ := nset * s.assoc

/-- The lines of the cache. -/
abbrev lines : ℕ → CacheBlock cfg.cacheType := s.cache.tagArray.lines

def flush : FlushableCache cfg :=
  { s with
    cache := { s.cache with tagArray := s.cache.tagArray.flush (s.numLines nset) s.isUsed }
    isUsed := false }

def invalidate : FlushableCache cfg :=
  { s with
    cache := { s.cache with tagArray := s.cache.tagArray.invalidate (s.numLines nset) s.isUsed }
    isUsed := false }

def setAssoc (n : ℕ) : FlushableCache cfg := { s with assoc := n, cache := s.cache.setAssoc n }

/-- Between invalidations a cache is used as before. -/
def Enabled : FlushAction → Prop
  | .cache a => s.cache.Enabled a
  | .flush | .invalidate | .setAssoc _ => True

instance (a : FlushAction) : Decidable (s.Enabled a) :=
  match a with
  | .cache a => inferInstanceAs (Decidable (s.cache.Enabled a))
  | .flush | .invalidate | .setAssoc _ => inferInstanceAs (Decidable True)

/-- The cache after an action. -/
def step : FlushAction → Except CacheFailure (FlushableCache cfg)
  | .cache a => do
    let c ← s.cache.step kind a
    return { s with cache := c, isUsed := s.isUsed || s.cache.usesTags kind a }
  | .flush => .ok (s.flush nset)
  | .invalidate => .ok (s.invalidate nset)
  | .setAssoc n => .ok (s.setAssoc n)

end FlushableCache

/-! ## Data in the cache -/

/-- A sector has data that a probe may hit. -/
def HoldsData (s : SectorState) : Prop := s.status = .valid ∨ s.status = .modified

instance (s : SectorState) : Decidable (HoldsData s) := inferInstanceAs (Decidable (_ ∨ _))

/-- The sectors whose data came since the last invalidation. -/
abbrev Since := Addr → Fin 4 → Bool

namespace BaselineCache

variable {cfg : CacheConfig} (c : BaselineCache cfg)

/-- A write that misses and takes its sector with its own data. -/
def WritesSectorWhole (mf : MemFetch) : Prop :=
  mf.isWrite = true ∧
    (cfg.writeAllocPolicy = .lazyFetchOnRead ∨
      (cfg.writeAllocPolicy = .fetchOnWrite ∧ mf.byteMask.card = cfg.atomSz)) ∧
    c.missQueueFull 0 = false ∧
    ∃ status ∈ [RequestStatus.miss, .sectorMiss, .hitReserved],
      (c.tagArray.outcome cfg (cfg.blockAddr mf.addr) mf.sectorMask).map Prod.fst = some status

instance (mf : MemFetch) : Decidable (c.WritesSectorWhole mf) :=
  inferInstanceAs (Decidable (_ ∧ _ ∧ _ ∧ _))

/-- An action brings the data of a sector of a block: a fill whose data is complete, or a write
that takes its sector. -/
def Brings (block : Addr) (k : Fin 4) : CacheAction → Prop
  | .access mf _ => c.WritesSectorWhole mf ∧ cfg.blockAddr mf.addr = block ∧
    Covers cfg.cacheType mf.sectorMask k
  | .fill reply _ => ∃ e ∈ (replyUid cfg reply).bind c.extraMfFields, Completes cfg e ∧
    cfg.blockAddr e.addr = block ∧ Covers cfg.cacheType e.mf.sectorMask k
  | .cycle _ | .nextAccess => False

instance (block : Addr) (k : Fin 4) (a : CacheAction) : Decidable (c.Brings block k a) :=
  match a with
  | .access _ _ => inferInstanceAs (Decidable (_ ∧ _ ∧ _))
  | .fill reply _ =>
    match h : (replyUid cfg reply).bind c.extraMfFields with
    | none => isFalse fun ⟨e, he, _⟩ => by rw [h] at he; cases he
    | some e => decidable_of_iff (Completes cfg e ∧ cfg.blockAddr e.addr = block ∧
        Covers cfg.cacheType e.mf.sectorMask k)
          ⟨fun hrest =>
            ⟨e, h, hrest⟩, fun ⟨e', he', hrest⟩ => by rw [h] at he'; cases he'; exact hrest⟩
  | .cycle _ | .nextAccess => inferInstanceAs (Decidable False)

end BaselineCache

/-- A cache, and what data came since it was invalidated last. -/
structure WatchedCache (cfg : CacheConfig) where
  state : FlushableCache cfg
  since : Since

namespace WatchedCache

variable {cfg : CacheConfig} (kind : CacheKind) (nset : ℕ) (w : WatchedCache cfg)

/-- What is known of the data after an action. -/
def see : FlushAction → Since
  | .cache a => fun block k => w.since block k || decide (w.state.cache.Brings block k a)
  | .invalidate => fun _ _ => false
  | .flush | .setAssoc _ => w.since

def step (a : FlushAction) : Except CacheFailure (WatchedCache cfg) := do
  let state ← w.state.step kind nset a
  return ⟨state, w.see a⟩

def IsNew : Prop := w.state.cache.IsEmpty ∧ w.state.isUsed = false ∧ w.since = fun _ _ => false

end WatchedCache

/-- The runs of a cache that is accessed, filled, flushed, invalidated and resized. -/
def flushSystem (kind : CacheKind) (nset : ℕ) (cfg : CacheConfig) :
    TransitionSystem (Except CacheFailure (WatchedCache cfg)) FlushAction :=
  TransitionSystem.ofExcept WatchedCache.IsNew (fun w a => w.state.Enabled a)
    (WatchedCache.step kind nset)

end GpuCalorie.Cache
