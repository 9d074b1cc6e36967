/-
# The barriers of a core

`barrier_set_t`: the warps of every CTA, those that have reached every barrier, those that are not
done, and those that wait. The barriers of all CTAs share one set for each id, and all warps that
wait share one set. What is broadcast is recorded for every barrier of a CTA.

An assertion that fails, and a CTA that is not found, end the run with their names. Hardware warps
are numbers below the size of the bit sets, so that no access is outside of them.
-/

import GpuCalorie.Math.Transition
import Mathlib.Algebra.Group.Nat.Defs
import Mathlib.Data.Finset.Basic
import Mathlib.Data.Finset.Card
import Mathlib.Logic.Function.Basic

namespace GpuCalorie.Barrier

open GpuCalorie.Math

/-- `barrier_type` of an instruction that is a barrier. -/
inductive BarrierType
  | sync
  | arrive
  | red
  deriving DecidableEq, Repr

/-- `(unsigned)-1`, the `bar_count` of an instruction without one and no `bar_id`. -/
def noCount : ℕ := 2 ^ 32 - 1

/-- What `warp_reaches_barrier` reads of a `warp_inst_t`. -/
structure BarrierInst where
  barType : BarrierType
  barId : ℕ
  barCount : ℕ := noCount
  deriving DecidableEq, Repr

/-- The parameters of a `barrier_set_t`. -/
structure BarrierConfig where
  maxCtaPerCore : ℕ
  maxBarriersPerCta : ℕ
  warpSize : ℕ

/-- `barrier_set_t`. -/
structure BarrierSet where
  ctaToWarps : ℕ → Option (Finset ℕ) := fun _ => none
  barIdToWarps : ℕ → Finset ℕ := fun _ => ∅
  warpActive : Finset ℕ := ∅
  warpAtBarrier : Finset ℕ := ∅
  /-- The calls of `broadcast_barrier_reduction`, by CTA and barrier. -/
  broadcasts : ℕ → ℕ → List (Finset ℕ) := fun _ _ => []

inductive BarrierFailure
  /-- `cta_id < m_max_cta_per_core` -/
  | ctaId
  /-- `w == m_cta_to_warps.end()`: the CTA should not already be active. -/
  | alreadyActive
  /-- `m_cta_to_warps.size() <= m_max_cta_per_core` -/
  | tooManyCtas
  /-- `at_barrier.any() == false` -/
  | stuckAtBarrier
  /-- `active.any() == false` -/
  | stillRunning
  /-- `at_a_specific_barrier.any() == false` -/
  | stuckAtSpecificBarrier
  /-- `bar_id != (unsigned)-1` -/
  | noBarId
  /-- The CTA is not found in the barrier set. -/
  | ctaNotFound
  /-- `w->second.test(warp_id) == true` -/
  | notInCta
  deriving DecidableEq, Repr

namespace BarrierSet

variable (cfg : BarrierConfig)

/-- The number of CTAs in `m_cta_to_warps`. -/
def numCtas (s : BarrierSet) : ℕ :=
  ((List.range cfg.maxCtaPerCore).filter fun ctaId => (s.ctaToWarps ctaId).isSome).length

/-- Remove warps from the sets of the barriers below `m_max_barriers_per_cta`. -/
def clearBarriers (warps : Finset ℕ) (barIdToWarps : ℕ → Finset ℕ) (i : ℕ) : Finset ℕ :=
  if i < cfg.maxBarriersPerCta then barIdToWarps i \ warps else barIdToWarps i

/-- `allocate_barrier` -/
def allocateBarrier (ctaId : ℕ) (warps : Finset ℕ) (s : BarrierSet) :
    Except BarrierFailure BarrierSet :=
  if ¬ ctaId < cfg.maxCtaPerCore then .error .ctaId
  else if s.ctaToWarps ctaId ≠ none then .error .alreadyActive
  else
    let s := { s with ctaToWarps := Function.update s.ctaToWarps ctaId (some warps) }
    if cfg.maxCtaPerCore < s.numCtas cfg then .error .tooManyCtas
    else .ok { s with
      warpActive := s.warpActive ∪ warps
      warpAtBarrier := s.warpAtBarrier \ warps
      barIdToWarps := clearBarriers cfg warps s.barIdToWarps }

/-- `deallocate_barrier` -/
def deallocateBarrier (ctaId : ℕ) (s : BarrierSet) : Except BarrierFailure BarrierSet :=
  match s.ctaToWarps ctaId with
  | none => .ok s
  | some warps =>
    if warps ∩ s.warpAtBarrier ≠ ∅ then .error .stuckAtBarrier
    else if warps ∩ s.warpActive ≠ ∅ then .error .stillRunning
    else if ∃ i < cfg.maxBarriersPerCta, warps ∩ s.barIdToWarps i ≠ ∅ then
      .error .stuckAtSpecificBarrier
    else .ok { s with
      warpActive := s.warpActive \ warps
      warpAtBarrier := s.warpAtBarrier \ warps
      barIdToWarps := clearBarriers cfg warps s.barIdToWarps
      ctaToWarps := Function.update s.ctaToWarps ctaId none }

/-- Release the warps at a barrier. -/
def release (barId : ℕ) (atBarrier : Finset ℕ) (s : BarrierSet) : BarrierSet :=
  { s with
    barIdToWarps := Function.update s.barIdToWarps barId (s.barIdToWarps barId \ atBarrier)
    warpAtBarrier := s.warpAtBarrier \ atBarrier }

/-- `broadcast_barrier_reduction` -/
def broadcastBarrierReduction (ctaId barId : ℕ) (atBarrier : Finset ℕ) (s : BarrierSet) :
    BarrierSet :=
  { s with
    broadcasts := Function.update s.broadcasts ctaId
      (Function.update (s.broadcasts ctaId) barId (s.broadcasts ctaId barId ++ [atBarrier])) }

/-- `warp_reaches_barrier` -/
def warpReachesBarrier (ctaId warpId : ℕ) (inst : BarrierInst) (s : BarrierSet) :
    Except BarrierFailure BarrierSet :=
  if inst.barId = noCount then .error .noBarId
  else
    match s.ctaToWarps ctaId with
    | none => .error .ctaNotFound
    | some warpsInCta =>
      if warpId ∉ warpsInCta then .error .notInCta
      else
        let s := { s with
          barIdToWarps := Function.update s.barIdToWarps inst.barId
            (insert warpId (s.barIdToWarps inst.barId))
          warpAtBarrier :=
            if inst.barType = .sync ∨ inst.barType = .red then insert warpId s.warpAtBarrier
            else s.warpAtBarrier }
        let atBarrier := warpsInCta ∩ s.barIdToWarps inst.barId
        let active := warpsInCta ∩ s.warpActive
        let released :=
          if inst.barCount = noCount then atBarrier = active
          else atBarrier.card * cfg.warpSize = inst.barCount
        if released then
          let s := s.release inst.barId atBarrier
          .ok (if inst.barType = .red then
            s.broadcastBarrierReduction ctaId inst.barId atBarrier else s)
        else .ok s

/-- The CTA of a warp, by the order of the map. -/
def ctaOf (warpId : ℕ) (s : BarrierSet) : Option (ℕ × Finset ℕ) :=
  (List.range cfg.maxCtaPerCore).findSome? fun ctaId =>
    match s.ctaToWarps ctaId with
    | some warps => if warpId ∈ warps then some (ctaId, warps) else none
    | none => none

/-- The test of one barrier in `warp_exit`. -/
def testBarrier (warpsInCta active : Finset ℕ) (s : BarrierSet) (i : ℕ) : BarrierSet :=
  let atASpecificBarrier := warpsInCta ∩ s.barIdToWarps i
  if atASpecificBarrier = active then s.release i atASpecificBarrier else s

/-- `warp_exit` -/
def warpExit (warpId : ℕ) (s : BarrierSet) : Except BarrierFailure BarrierSet :=
  let s := { s with warpActive := s.warpActive.erase warpId }
  match s.ctaOf cfg warpId with
  | none => .error .ctaNotFound
  | some (_, warpsInCta) =>
    let active := warpsInCta ∩ s.warpActive
    .ok ((List.range cfg.maxBarriersPerCta).foldl (testBarrier warpsInCta active) s)

end BarrierSet

end GpuCalorie.Barrier
