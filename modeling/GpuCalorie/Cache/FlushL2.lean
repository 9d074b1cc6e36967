/-
# Flushing the L2 at the end of a kernel

When all threads have completed, `gpgpu_sim::cycle` flushes the L2. Its loop goes over the memory
channels, and takes the sub-partition of each number, of which there may be several to a channel.
-/

import GpuCalorie.Cache.Freshness
import Mathlib.Data.List.Count

namespace GpuCalorie.Cache

/-- What `cycle` reads of the configuration. -/
structure FlushConfig where
  gpgpuFlushL1Cache : Bool
  gpgpuFlushL2Cache : Bool
  /-- `m_L2_config.disabled()` -/
  l2Disabled : Bool
  /-- `m_L2_config.get_num_lines()` -/
  l2NumLines : ℕ
  nset : ℕ
  nMem : ℕ
  nSubPartitionPerMemoryChannel : ℕ
  subPartition_pos : 0 < nSubPartitionPerMemoryChannel

/-- An index past the end of `m_memory_sub_partition`. -/
inductive FlushFailure
  | outOfRange
  deriving DecidableEq, Repr

namespace FlushConfig

variable (conf : FlushConfig)

/-- `m_n_mem_sub_partition` -/
def nMemSubPartition : ℕ := conf.nMem * conf.nSubPartitionPerMemoryChannel

/-- `all_threads_complete`, from the threads of each cluster that have not completed. -/
def allThreadsComplete (notCompleted : List ℕ) : Bool :=
  if conf.gpgpuFlushL1Cache || conf.gpgpuFlushL2Cache then notCompleted.all (· = 0) else true

/-- The L2 is to be flushed in this cycle. -/
def findsFlush (notCompleted : List ℕ) : Bool :=
  conf.gpgpuFlushL2Cache && conf.allThreadsComplete notCompleted && !conf.l2Disabled &&
    conf.l2NumLines ≠ 0

variable {cfg : CacheConfig}

/-- `memory_sub_partition::flushL2` -/
def flushL2 (c : FlushableCache cfg) : FlushableCache cfg :=
  if conf.l2Disabled then c else c.flush conf.nset

/-- The body of the loop, with the numbers of those flushed. -/
def flushOne (caches : List (FlushableCache cfg) × List ℕ) (i : ℕ) :
    Except FlushFailure (List (FlushableCache cfg) × List ℕ) :=
  match caches.1[i]? with
  | none => .error .outOfRange
  | some c => .ok (caches.1.set i (conf.flushL2 c), caches.2 ++ [i])

/-- The end of `cycle`, as far as the L2 of the sub-partitions goes. -/
def cycleFlush (notCompleted : List ℕ) (caches : List (FlushableCache cfg)) :
    Except FlushFailure (List (FlushableCache cfg) × List ℕ) :=
  if conf.findsFlush notCompleted then (List.range conf.nMem).foldlM conf.flushOne (caches, [])
  else .ok (caches, [])

end FlushConfig

/-! ## The loop -/

variable {conf : FlushConfig} {cfg : CacheConfig} {caches : List (FlushableCache cfg)}

theorem foldlM_flushOne {n : ℕ} (hn : n ≤ caches.length) :
    (List.range n).foldlM conf.flushOne (caches, []) =
      .ok ((caches.take n).map conf.flushL2 ++ caches.drop n, List.range n) := by
  induction n with
  | zero => rfl
  | succ n ih =>
    have hlength : ((caches.take n).map conf.flushL2).length = n := by
      rw [List.length_map, List.length_take, Nat.min_eq_left (by omega)]
    have hdrop : caches.drop n = caches[n] :: caches.drop (n + 1) := List.drop_eq_getElem_cons hn
    have hget : ((caches.take n).map conf.flushL2 ++ caches.drop n)[n]? = some caches[n] := by
      rw [List.getElem?_append_right hlength.le, hlength, Nat.sub_self, hdrop]
      rfl
    have hset : ((caches.take n).map conf.flushL2 ++ caches.drop n).set n
        (conf.flushL2 caches[n]) =
          (caches.take (n + 1)).map conf.flushL2 ++ caches.drop (n + 1) := by
      rw [List.set_append_right _ _ hlength.le, hlength, Nat.sub_self, hdrop, List.set_cons_zero,
        List.take_succ_eq_append_getElem hn, List.map_append, List.append_assoc]
      rfl
    rw [List.range_succ, List.foldlM_append, ih (by omega)]
    change conf.flushOne _ n >>= _ = _
    rw [FlushConfig.flushOne, hget]
    dsimp only
    rw [hset]
    rfl

/-! ## Every sub-partition -/

/-- Each sub-partition is flushed once. Then no line is modified, and what was modified is not hit.
-/
structure FlushesAll (caches caches' : List (FlushableCache cfg)) (flushed : List ℕ) : Prop where
  once : ∀ i < caches.length, flushed.count i = 1
  clean : ∀ c : FlushableCache cfg, c ∈ caches' → ∀ i k, ((c.lines i).stateAt k).status ≠ .modified
  missed : ∀ (p : ℕ) (c c' : FlushableCache cfg), caches[p]? = some c → caches'[p]? = some c' → ∀ i,
    (c.lines i).isModifiedLine = true → ∀ k, ¬ HoldsData ((c'.lines i).stateAt k)

theorem not_holdsData_flush {nset i : ℕ} {s : FlushableCache cfg} (h : s.ModifiedCovered nset)
    (hmodified : (s.lines i).isModifiedLine = true) (k : Fin 4) :
    ¬ HoldsData (((s.flush nset).lines i).stateAt k) := by
  obtain ⟨hused, hin⟩ := h i hmodified
  rw [FlushableCache.lines_flush, if_pos ⟨hused, hin, hmodified⟩]
  exact not_holdsData_clear _ k

/-- A cycle that is to flush the L2 flushes all of it exactly where each channel has one
sub-partition, and where each cache marks that it is used if it has a modified line. -/
theorem flushesAll_iff {notCompleted : List ℕ} (hfinds : conf.findsFlush notCompleted = true)
    (hlength : caches.length = conf.nMemSubPartition) :
    (∃ caches' flushed, conf.cycleFlush notCompleted caches = .ok (caches', flushed) ∧
        FlushesAll caches caches' flushed) ↔
      (conf.nMem = 0 ∨ conf.nSubPartitionPerMemoryChannel = 1) ∧
        ∀ c ∈ caches, c.ModifiedCovered conf.nset := by
  have hpos := conf.subPartition_pos
  have hle : conf.nMem ≤ caches.length := by
    rw [hlength, FlushConfig.nMemSubPartition]
    exact Nat.le_mul_of_pos_right _ hpos
  have henabled : ∀ c : FlushableCache cfg, conf.flushL2 c = c.flush conf.nset := by
    have hdisabled : ¬ conf.l2Disabled = true := by
      intro hdisabled
      simp [FlushConfig.findsFlush, hdisabled] at hfinds
    intro c
    rw [FlushConfig.flushL2, if_neg hdisabled]
  rw [FlushConfig.cycleFlush, if_pos hfinds, foldlM_flushOne hle]
  have hall : conf.nMem = caches.length ↔
      (conf.nMem = 0 ∨ conf.nSubPartitionPerMemoryChannel = 1) := by
    rw [hlength, FlushConfig.nMemSubPartition]
    constructor
    · intro heq
      obtain hzero | hmem := Nat.eq_zero_or_pos conf.nMem
      · exact .inl hzero
      · exact .inr (Nat.eq_of_mul_eq_mul_left hmem (heq.symm.trans (Nat.mul_one _).symm))
    · rintro (hzero | hone)
      · rw [hzero, Nat.zero_mul]
      · rw [hone, Nat.mul_one]
  constructor
  · rintro ⟨caches', flushed, heq, hflushes⟩
    obtain ⟨rfl, rfl⟩ : _ ∧ List.range conf.nMem = flushed :=
      Prod.mk.inj (Except.ok.inj heq)
    have hmem : conf.nMem = caches.length := by
      refine le_antisymm hle (not_lt.1 fun hlt => ?_)
      have hcount := hflushes.once conf.nMem hlt
      rw [List.count_eq_zero_of_not_mem List.not_mem_range_self] at hcount
      cases hcount
    refine ⟨hall.1 hmem, fun c hc => FlushableCache.not_isModifiedLine_flush_iff.1 fun i k => ?_⟩
    refine hflushes.clean _ ?_ i k
    rw [hmem, List.take_length, List.drop_length, List.append_nil, ← henabled]
    exact List.mem_map_of_mem hc
  · rintro ⟨hone, hcovered⟩
    have hmem := hall.2 hone
    rw [hmem, List.take_length, List.drop_length, List.append_nil]
    refine ⟨_, _, rfl, fun i hi => ?_, fun c' hc' i k => ?_, fun p c c' hc hc' i hmodified k => ?_⟩
    · exact List.count_eq_one_of_mem List.nodup_range (List.mem_range.2 hi)
    · obtain ⟨c, hc, rfl⟩ := List.mem_map.1 hc'
      rw [henabled]
      exact FlushableCache.not_isModifiedLine_flush_iff.2 (hcovered c hc) i k
    · rw [List.getElem?_map, hc] at hc'
      obtain rfl := Option.some.inj hc'
      rw [henabled]
      exact not_holdsData_flush (hcovered c (List.mem_of_getElem? hc)) hmodified k

/-! ## Two sub-partitions -/

/-- A channel with some sub-partitions, whose caches have one line. -/
def oneChannel (n : ℕ) (hpos : 0 < n) : FlushConfig where
  gpgpuFlushL1Cache := false
  gpgpuFlushL2Cache := true
  l2Disabled := false
  l2NumLines := 1
  nset := 1
  nMem := 1
  nSubPartitionPerMemoryChannel := n
  subPartition_pos := hpos

/-- A cache with a modified line. -/
def modifiedCache : FlushableCache (oneLineConfig .writeBack .noWriteAllocate) where
  assoc := 1
  cache :=
    { tagArray :=
        { lines := fun i => if i = 0 then ⟨0, 0, .line { status := .modified }⟩ else .empty _ }
      nextUid := 0 }
  isUsed := true

theorem flushesAll_oneSubPartition : ∃ caches' flushed,
    (oneChannel 1 Nat.one_pos).cycleFlush [0] [modifiedCache] = .ok (caches', flushed) ∧
      FlushesAll [modifiedCache] caches' flushed := by
  refine (flushesAll_iff (by decide) rfl).2 ⟨.inr rfl, fun c hc i hmodified => ?_⟩
  obtain rfl := List.mem_singleton.1 hc
  refine ⟨rfl, ?_⟩
  by_contra hi
  have hne : i ≠ 0 := fun hzero => hi (hzero ▸ Nat.one_pos)
  have hempty : modifiedCache.lines i = .empty _ := if_neg hne
  rw [hempty] at hmodified
  exact absurd hmodified (by decide)

/-- With two to a channel the second keeps its modified line. -/
theorem not_flushesAll_twoSubPartitions : ∃ caches',
    (oneChannel 2 Nat.two_pos).cycleFlush [0] [modifiedCache, modifiedCache] =
        .ok (caches', [0]) ∧
      (caches'[1]?.map fun c => ((c.lines 0).stateAt 0).status) = some .modified :=
  ⟨_, rfl, rfl⟩

end GpuCalorie.Cache
