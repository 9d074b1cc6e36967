/-
# Refused accesses change nothing

A data cache checks what an access will need before it changes anything. So an access that
is refused leaves the cache as it was, the queue of misses never outgrows its size, and the
last branch of `send_read_request`, where no reason for a failure is found, is not reached.
-/

import GpuCalorie.Cache.Machine

namespace GpuCalorie.Cache

open GpuCalorie.Math TransitionSystem

namespace BaselineCache

variable {cfg : CacheConfig} {kind : CacheKind} {c c' : BaselineCache cfg}

/-- What holds of a cache whose accesses are all or nothing. -/
structure AccessAtomic (level : DataCacheLevel) (c : BaselineCache cfg) : Prop where
  /-- A refused access leaves the cache as it was. -/
  unchanged : ∀ mf time r, c.dataAccess level mf.addr mf time = .ok r →
    r.status = .reservationFail → r.cache = c
  missQueue : c.missQueue.length ≤ cfg.missQueueSize
  /-- `assert(0)` in `send_read_request` is not reached. -/
  reason : ∀ mf time, c.dataAccess level mf.addr mf time ≠ .error .sendReadRequest

theorem Handled.unchanged {mf : MemFetch} {time : UInt32} {r : AccessResult cfg}
    (h : Handled kind c mf time r) (hrefused : r.status = .reservationFail) : r.cache = c := by
  rcases h with ⟨-, hcache⟩ | ⟨hstatus, -⟩
  · exact hcache
  · exact absurd hrefused hstatus

theorem AccessFailure.ne_sendReadRequest {e : CacheFailure} (h : c.AccessFailure e) :
    e ≠ .sendReadRequest := by
  rintro rfl
  rcases h with h | ⟨h, -⟩ | ⟨h, -⟩
  · simp [accessFailures, tagFailures] at h
  · cases h
  · cases h

theorem StepFailure.ne_sendReadRequest {a : CacheAction} {e : CacheFailure}
    (h : c.StepFailure a e) : e ≠ .sendReadRequest := by
  cases a with
  | access mf time => exact AccessFailure.ne_sendReadRequest h
  | cycle memportFull => exact h.elim
  | fill reply time =>
      obtain ⟨uid, r, -, hmem, -⟩ := h
      rintro rfl
      simp [fillFailures, tagFailures] at hmem
  | nextAccess =>
      rw [h.1]
      decide

theorem Accessed.length_missQueue_le {mf : MemFetch} {time : UInt32}
    (h : Accessed kind c mf time c')
    (hc : c.missQueue.length ≤ cfg.missQueueSize) : c'.missQueue.length ≤ cfg.missQueueSize := by
  cases h with
  | readHit _ _ _ _ _ _ queue => rwa [queue]
  | atomicHit _ _ _ _ _ _ _ _ _ queue => rwa [queue]
  | writeHit through _ _ _ _ _ _ _ _ queue room =>
      cases through with
      | true => exact room rfl
      | false => rwa [queue, if_neg Bool.false_ne_true, List.append_nil]
  | writeEvict _ _ _ _ _ _ _ _ room => exact room
  | writeAround _ _ _ _ room => exact room
  | fetched _ _ _ _ _ _ _ _ _ _ _ _ _ _ room => exact room
  | written _ _ _ _ _ _ _ _ _ _ _ room => exact room

theorem Stepped.length_missQueue_le {a : CacheAction} (h : Stepped kind c a c')
    (hc : c.missQueue.length ≤ cfg.missQueueSize) : c'.missQueue.length ≤ cfg.missQueueSize := by
  cases h with
  | refused => exact hc
  | accessed _ _ h => exact h.length_missQueue_le hc
  | cycled _ _ queue => exact queue.length_le.trans hc
  | partlyFilled h => rwa [h.missQueue]
  | filled _ _ h => rwa [h.missQueue]
  | drained _ _ _ _ queue _ => rwa [queue]

theorem accessAtomic_of_length {level : DataCacheLevel}
    (h : c.missQueue.length ≤ cfg.missQueueSize) : c.AccessAtomic level where
  unchanged mf time _ hr := ((dataAccess_spec level c mf time).of_ok hr).unchanged
  missQueue := h
  reason mf time he := ((dataAccess_spec level c mf time).of_error he).ne_sendReadRequest rfl

/-- In every run of a data cache, whatever its policies, accesses are all or nothing, the
queue of misses has its size, and `send_read_request` finds a reason for its failures. -/
theorem accessAtomic_of_reachable {level : DataCacheLevel}
    {x : Except CacheFailure (BaselineCache cfg)}
    (reached : (cacheSystem (.data level) cfg).Reachable x) :
    OkOr (AccessAtomic level) (· ≠ .sendReadRequest) x := by
  have hlength : OkOr (fun c : BaselineCache cfg => c.missQueue.length ≤ cfg.missQueueSize)
      (· ≠ .sendReadRequest) x := by
    apply invariant_of_reachable _ _ _ reached
    · exact fun _ => Nat.zero_le _
    · exact fun c a c' hc _ h => h.length_missQueue_le hc
    · exact fun c a e _ _ h => h.ne_sendReadRequest
  exact hlength.imp fun c => accessAtomic_of_length

/-- A cache that has a miss, a write and a write-back under way. -/
theorem accessAtomic_run :
    ∃ c, run (.data .l1) (oneLineConfig .writeBack .lazyFetchOnRead) 9
        [.access (globalRequest 1 0 false) 1, .access (globalRequest 2 0 true) 2,
          .access (globalRequest 3 128 false) 3] = some c ∧ c.AccessAtomic .l1 := by
  have hrun : (run (.data .l1) (oneLineConfig .writeBack .lazyFetchOnRead) 9
      [.access (globalRequest 1 0 false) 1, .access (globalRequest 2 0 true) 2,
        .access (globalRequest 3 128 false) 3]).isSome = true := by decide +kernel
  obtain ⟨c, hc⟩ := Option.isSome_iff_exists.mp hrun
  have hatomic : OkOr (AccessAtomic .l1) _ (.ok c) :=
    accessAtomic_of_reachable (reachable_of_run hc)
  exact ⟨c, hc, hatomic⟩

end BaselineCache

end GpuCalorie.Cache
