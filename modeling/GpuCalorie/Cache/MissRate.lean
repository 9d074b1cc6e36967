/-
# The windowed miss rate

`windowed_miss_rate` subtracts from the misses, sector misses among them, those before the last
`new_window`, and then adds all sector misses there ever were. Rates are exact rationals here.
-/

import GpuCalorie.Cache.TagArray
import GpuCalorie.Math.Transition
import Mathlib.Algebra.Order.Field.Rat
import Mathlib.Data.Rat.Cast.Order
import Mathlib.Algebra.Order.Field.Basic
import Mathlib.Data.List.TakeWhile

namespace GpuCalorie.Cache

open GpuCalorie.Math

/-- The counters of `tag_array`. -/
structure TagCounters where
  access : BitVec 32 := 0
  miss : BitVec 32 := 0
  pendingHit : BitVec 32 := 0
  resFail : BitVec 32 := 0
  sectorMiss : BitVec 32 := 0
  prevSnapshotAccess : BitVec 32 := 0
  prevSnapshotMiss : BitVec 32 := 0
  prevSnapshotPendingHit : BitVec 32 := 0
  deriving DecidableEq

namespace TagCounters

/-- What `access` counts. -/
def count (n : TagCounters) (status : RequestStatus) : TagCounters :=
  let n := { n with access := n.access + 1 }
  match status with
  | .hitReserved => { n with pendingHit := n.pendingHit + 1 }
  | .hit => n
  | .miss => { n with miss := n.miss + 1 }
  | .sectorMiss => { n with sectorMiss := n.sectorMiss + 1 }
  | .reservationFail => { n with resFail := n.resFail + 1 }

/-- `windowed_miss_rate`. -/
def windowedMissRate (n : TagCounters) : ℚ :=
  let nAccess := n.access - n.prevSnapshotAccess
  let nMiss := n.miss + n.sectorMiss - n.prevSnapshotMiss
  if nAccess ≠ 0 then ((nMiss + n.sectorMiss).toNat : ℚ) / nAccess.toNat else 0

/-- `new_window`. -/
def newWindow (n : TagCounters) : TagCounters :=
  { n with
    prevSnapshotAccess := n.access
    prevSnapshotMiss := n.miss + n.sectorMiss
    prevSnapshotPendingHit := n.pendingHit }

end TagCounters

/-- A tag array with its counters. -/
structure CountedTags (cfg : CacheConfig) where
  tags : TagArray cfg.cacheType := {}
  counters : TagCounters := {}

/-- What happens to a tag array. Fills, flushes and changes of blocks do not count, and may leave
any lines. -/
inductive TagAction (cfg : CacheConfig)
  | access (addr : Addr) (time : UInt32) (idx : ℕ) (mf : MemFetch)
  | newWindow
  | change (tags : TagArray cfg.cacheType)

/-- What of it a miss rate is about. -/
inductive TagEvent
  | access (status : RequestStatus)
  | newWindow
  deriving DecidableEq

/-- A tag array takes a step, and the log the event, the last one first. -/
def CountedTags.step {cfg : CacheConfig} (s : CountedTags cfg × List TagEvent) :
    TagAction cfg → Except CacheFailure (CountedTags cfg × List TagEvent)
  | .access addr time idx mf => do
    let r ← s.1.tags.access cfg addr time idx mf
    return (⟨r.tags, s.1.counters.count r.status⟩, .access r.status :: s.2)
  | .newWindow => .ok (⟨s.1.tags, s.1.counters.newWindow⟩, .newWindow :: s.2)
  | .change tags => .ok (⟨tags, s.1.counters⟩, s.2)

/-- The runs of a tag array. -/
def countedSystem (cfg : CacheConfig) :
    TransitionSystem (Except CacheFailure (CountedTags cfg × List TagEvent)) (TagAction cfg) :=
  TransitionSystem.ofExcept (fun s => s.1.counters = {} ∧ s.2 = [])
    (fun _ _ => True) CountedTags.step

/-! ## The rate of a log -/

namespace TagEvent

def isAccess : TagEvent → Bool
  | .access _ => true
  | .newWindow => false

def isMiss : TagEvent → Bool
  | .access .miss | .access .sectorMiss => true
  | _ => false

def isSectorMiss : TagEvent → Bool
  | .access .sectorMiss => true
  | _ => false

/-- The accesses since the last `new_window`. -/
def window (log : List TagEvent) : List TagEvent := log.takeWhile isAccess

/-- What was before, from the last `new_window` on. -/
def before (log : List TagEvent) : List TagEvent := log.dropWhile isAccess

/-- Misses and sector misses of the window by its accesses. -/
def missRate (log : List TagEvent) : ℚ :=
  if window log = [] then 0 else ((window log).countP isMiss : ℚ) / (window log).length

end TagEvent

open TagEvent

/-- What `windowed_miss_rate` should return. -/
structure RateExact (s : CountedTags cfg × List TagEvent) : Prop where
  eq : s.1.counters.windowedMissRate = missRate s.2
  nonneg : 0 ≤ s.1.counters.windowedMissRate
  le_one : s.1.counters.windowedMissRate ≤ 1
  noAccess : window s.2 = [] → s.1.counters.windowedMissRate = 0

/-- No access in the window, or no sector misses ever. In a window that the counters cannot count,
what they wrap to has the rate by chance. -/
def RateHolds (log : List TagEvent) : Prop :=
  window log = [] ∨
    ((window log).length < 2 ^ 32 ∧ 2 ^ 32 ∣ log.countP isSectorMiss) ∨
    (2 ^ 32 ≤ (window log).length ∧
      if (window log).length % 2 ^ 32 = 0 then (window log).countP isMiss = 0
      else ((window log).countP isMiss + log.countP isSectorMiss) % 2 ^ 32 * (window log).length
        = (window log).countP isMiss * ((window log).length % 2 ^ 32))

variable {cfg : CacheConfig} {log : List TagEvent} {n : TagCounters}

/-! ## The counters and the log -/

/-- The counters are those of the log. -/
structure TagCounters.Agrees (n : TagCounters) (log : List TagEvent) : Prop where
  access : n.access = .ofNat 32 (log.countP isAccess)
  misses : n.miss + n.sectorMiss = .ofNat 32 (log.countP isMiss)
  sectorMiss : n.sectorMiss = .ofNat 32 (log.countP isSectorMiss)
  prevSnapshotAccess : n.prevSnapshotAccess = .ofNat 32 ((before log).countP isAccess)
  prevSnapshotMiss : n.prevSnapshotMiss = .ofNat 32 ((before log).countP isMiss)

theorem TagCounters.Agrees.count (h : n.Agrees log) (status : RequestStatus) :
    (n.count status).Agrees (.access status :: log) := by
  have hbefore : before (.access status :: log) = before log := List.dropWhile_cons_of_pos rfl
  constructor
  · rw [List.countP_cons_of_pos rfl, BitVec.ofNat_add, ← h.access]
    cases status <;> rfl
  · cases status with
    | hit => exact h.misses
    | hitReserved => exact h.misses
    | reservationFail => exact h.misses
    | miss =>
        rw [List.countP_cons_of_pos rfl, BitVec.ofNat_add, ← h.misses]
        change n.miss + 1 + n.sectorMiss = n.miss + n.sectorMiss + 1
        rw [BitVec.add_assoc, BitVec.add_comm 1, BitVec.add_assoc]
    | sectorMiss =>
        rw [List.countP_cons_of_pos rfl, BitVec.ofNat_add, ← h.misses]
        exact (BitVec.add_assoc _ _ _).symm
  · cases status with
    | hit => exact h.sectorMiss
    | hitReserved => exact h.sectorMiss
    | reservationFail => exact h.sectorMiss
    | miss => exact h.sectorMiss
    | sectorMiss =>
        rw [List.countP_cons_of_pos rfl, BitVec.ofNat_add, ← h.sectorMiss]
        rfl
  · rw [hbefore, ← h.prevSnapshotAccess]
    cases status <;> rfl
  · rw [hbefore, ← h.prevSnapshotMiss]
    cases status <;> rfl

theorem TagCounters.Agrees.newWindow (h : n.Agrees log) : n.newWindow.Agrees (.newWindow :: log) :=
  ⟨h.access, h.misses, h.sectorMiss, h.access, h.misses⟩

theorem agrees_of_reachable {r : Except CacheFailure (CountedTags cfg × List TagEvent)}
    (reached : (countedSystem cfg).Reachable r) : OkOr (fun s => s.1.counters.Agrees s.2)
    (fun _ => True) r := by
  refine TransitionSystem.Reachable.invariant_ofExcept_all ?_ ?_ reached
  · rintro ⟨⟨tags, counters⟩, log⟩ ⟨hcounters, hlog⟩
    subst hcounters hlog
    exact ⟨rfl, rfl, rfl, rfl, rfl⟩
  · rintro ⟨⟨tags, counters⟩, log⟩ action hagrees -
    cases action with
    | access addr time idx mf =>
        refine OkOr.bind (P := fun _ => True) ?_ fun r _ => hagrees.count r.status
        exact OkOr.intro (fun _ _ => trivial) fun _ _ => trivial
    | newWindow => exact hagrees.newWindow
    | change tags => exact hagrees

/-! ## The rate -/

theorem countP_before (log : List TagEvent) (p : TagEvent → Bool) :
    log.countP p = (window log).countP p + (before log).countP p := by
  rw [← List.countP_append, window, before, List.takeWhile_append_dropWhile]

theorem countP_window (log : List TagEvent) : (window log).countP isAccess = (window log).length :=
  List.countP_eq_length.mpr fun _ h => List.mem_takeWhile_imp h

theorem misses_le (log : List TagEvent) : (window log).countP isMiss ≤ (window log).length :=
  List.countP_le_length

theorem windowedMissRate_eq (h : n.Agrees log) : n.windowedMissRate =
      if (window log).length % 2 ^ 32 ≠ 0 then
        ((((window log).countP isMiss + log.countP isSectorMiss) % 2 ^ 32 : ℕ) : ℚ)
          / ((window log).length % 2 ^ 32 : ℕ)
      else 0 := by
  have haccess : n.access - n.prevSnapshotAccess = .ofNat 32 (window log).length := by
    rw [h.access, h.prevSnapshotAccess, countP_before log, BitVec.ofNat_add, BitVec.add_sub_cancel,
      countP_window]
  have hmisses : n.miss + n.sectorMiss - n.prevSnapshotMiss =
      .ofNat 32 ((window log).countP isMiss) := by
    rw [h.misses, h.prevSnapshotMiss, countP_before log, BitVec.ofNat_add, BitVec.add_sub_cancel]
  have hzero : (BitVec.ofNat 32 (window log).length ≠ 0) ↔ (window log).length % 2 ^ 32 ≠ 0 := by
    rw [Ne, ← BitVec.toNat_inj, BitVec.toNat_ofNat]
    exact Iff.rfl
  rw [TagCounters.windowedMissRate]
  rw [haccess, hmisses, h.sectorMiss, ← BitVec.ofNat_add, BitVec.toNat_ofNat, BitVec.toNat_ofNat]
  exact if_congr hzero rfl rfl

theorem wrappedRate_eq_iff {accesses misses sectorMisses : ℕ} (hpos : 0 < accesses)
    (hle : misses ≤ accesses) :
    (if accesses % 2 ^ 32 ≠ 0 then
        (((misses + sectorMisses) % 2 ^ 32 : ℕ) / (accesses % 2 ^ 32 : ℕ) : ℚ) else 0) =
          misses / accesses ↔
      (accesses < 2 ^ 32 ∧ 2 ^ 32 ∣ sectorMisses) ∨
      (2 ^ 32 ≤ accesses ∧ if accesses % 2 ^ 32 = 0 then misses = 0
        else (misses + sectorMisses) % 2 ^ 32 * accesses = misses * (accesses % 2 ^ 32)) := by
  have haccesses : (accesses : ℚ) ≠ 0 := Nat.cast_ne_zero.mpr hpos.ne'
  by_cases hzero : accesses % 2 ^ 32 = 0
  · have hlarge : 2 ^ 32 ≤ accesses := by omega
    rw [if_neg (not_not.mpr hzero), if_pos hzero, eq_comm, div_eq_zero_iff, or_iff_left haccesses,
      Nat.cast_eq_zero,
      and_iff_right hlarge, or_iff_right (by omega)]
  · rw [if_pos hzero, if_neg hzero, div_eq_div_iff (Nat.cast_ne_zero.mpr hzero) haccesses,
      ← Nat.cast_mul,
      ← Nat.cast_mul, Nat.cast_inj]
    by_cases hlt : accesses < 2 ^ 32
    · -- the counters have not wrapped, and only the sector misses are in the way
      rw [Nat.mod_eq_of_lt hlt, Nat.mul_left_inj hpos.ne', and_iff_right hlt,
        or_iff_left (by omega)]
      omega
    · rw [and_iff_right (Nat.not_lt.mp hlt), or_iff_right (by omega)]

/-- The rate is that of the window if and only if there was no access in it, or there have been no
sector misses. -/
theorem rateExact_iff {s : CountedTags cfg × List TagEvent}
    (reached : (countedSystem cfg).Reachable (.ok s)) :
    RateExact s ↔ RateHolds s.2 := by
  have heq := windowedMissRate_eq ((agrees_of_reachable reached).of_ok rfl)
  have hcount := misses_le s.2
  by_cases hwindow : window s.2 = []
  · have hzero : s.1.counters.windowedMissRate = 0 := by
      rw [heq, hwindow]
      rfl
    refine iff_of_true ⟨?_, hzero.ge, ?_, fun _ => hzero⟩ (.inl hwindow)
    · rw [hzero, missRate, if_pos hwindow]
    · rw [hzero]
      exact zero_le_one
  · have hpos : 0 < (window s.2).length := List.length_pos_iff.mpr hwindow
    have hrate : s.1.counters.windowedMissRate = missRate s.2 ↔ RateHolds s.2 := by
      rw [heq, missRate, if_neg hwindow, wrappedRate_eq_iff hpos hcount, RateHolds,
        or_iff_right hwindow]
    constructor
    · exact fun hexact => hrate.mp hexact.eq
    · intro hholds
      have hspec := hrate.mpr hholds
      have hlength : (0 : ℚ) < (window s.2).length := Nat.cast_pos.mpr hpos
      refine ⟨hspec, ?_, ?_, fun hnone => absurd hnone hwindow⟩
      · rw [hspec, missRate, if_neg hwindow]
        exact div_nonneg (Nat.cast_nonneg _) hlength.le
      · rw [hspec, missRate, if_neg hwindow, div_le_one hlength]
        exact Nat.cast_le.mpr hcount

theorem onFill_of_streaming : false = true → AllocationPolicy.onMiss = .onFill := by
  rintro ⟨⟩

/-- A sector cache of one line. -/
def sectorLineConfig : CacheConfig where
  cacheType := .sector
  lineSz := 128
  assoc := 1
  replacementPolicy := .lru
  writePolicy := .writeBack
  allocPolicy := .onMiss
  isStreaming := false
  writeAllocPolicy := .writeAllocate
  mshrType := .assoc
  mshrEntries := 4
  mshrMaxMerge := 4
  missQueueSize := 4
  dataPortWidth := 32
  setIndex _ := 0
  sectors _ := rfl
  streaming := onFill_of_streaming
  onFill_writePolicy := nofun
  onFill_writeAllocPolicy := nofun

/-- A read of a sector of the first block. -/
def sectorRead (sector : Fin 4) : TagAction sectorLineConfig :=
  .access 0 0 0
    { uid := 0
      access :=
        { type := .globalAccR
          addr := .ofNat 64 (32 * sector)
          reqSize := 32
          write := false
          sectorMask := {sector} }
      dataSize := 32 }

/-- The state after reads of sectors. -/
def readSectors (sectors : List (Fin 4)) : Option (CountedTags sectorLineConfig × List TagEvent) :=
  TransitionSystem.execOk (fun _ _ => True) CountedTags.step ({}, []) (sectors.map sectorRead)

/-- One miss in a window of one access. -/
theorem rateExact_oneMiss :
    ∃ s, (countedSystem sectorLineConfig).Reachable (.ok s) ∧ s.2 = [.access .miss] ∧
      RateExact s := by
  have hrun : readSectors [0] = some ((readSectors [0]).get rfl) := rfl
  have reached : (countedSystem sectorLineConfig).Reachable (.ok ((readSectors [0]).get rfl)) :=
    .execOk _ (.init ⟨_, rfl, rfl, rfl⟩) hrun
  exact ⟨_, reached, rfl, (rateExact_iff reached).mpr (.inr (.inl (by decide)))⟩

/-- A miss and a sector miss, in the first window: the rate is 3 / 2. -/
theorem not_rateExact :
    ∃ s, (countedSystem sectorLineConfig).Reachable (.ok s) ∧
      s.2 = [.access .sectorMiss, .access .miss] ∧
      s.1.counters.windowedMissRate = 3 / 2 ∧ ¬ RateExact s := by
  have hrun : readSectors [0, 1] = some ((readSectors [0, 1]).get rfl) := rfl
  have hrate : ((readSectors [0, 1]).get rfl).1.counters.windowedMissRate = 3 / 2 := by
    decide +kernel
  refine ⟨_, .execOk _ (.init ⟨_, rfl, rfl, rfl⟩) hrun, rfl, hrate, fun hexact => ?_⟩
  have hle := hexact.le_one
  rw [hrate] at hle
  exact absurd hle (by decide +kernel)

end GpuCalorie.Cache
