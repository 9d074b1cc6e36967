/-
# Activity samples

Every `gpu_stat_sample_freq` core cycles `gpu_calorie::cycle` reads what the activity counters have
gained since they were last saved, and takes it for the activity of as many cycles. The first call
only clears a flag: it saves nothing, and so the first sample has the activity of twice the time.

Saving assigns the pointer to the statistics of the first-level caches, before it copies the
statistics themselves. From then on both snapshots are one, and the hits read as none.
-/

import GpuCalorie.Cache.Aggregation
import GpuCalorie.Power.Layout
import Mathlib.Data.BitVec

namespace GpuCalorie.Power

open Cache

/-! ## What a cache has counted -/

/-- The lower half of a counter, as an assignment to `unsigned` takes it. -/
def lowWord : BitVec 64 →+ BitVec 32 :=
  AddMonoidHom.mk' (BitVec.setWidth 32) fun a b => BitVec.setWidth_add a b (by decide)

/-- `cache_stats::get_stats`. -/
def getStats (types : List MemAccessType) (statuses : List RequestStatus) (c : CacheStats) :
    BitVec 64 :=
  types.foldl (fun total type => statuses.foldl (· + c.stats type ·) total) 0

/-- The accesses of some types less the misses, since the statistics were saved. -/
def getHits (types : List MemAccessType) (current prev : CacheStats) : BitVec 32 :=
  let accesses := [RequestStatus.hit, .miss, .hitReserved]
  lowWord (getStats types accesses current - getStats types accesses prev) -
    lowWord (getStats types [.miss] current - getStats types [.miss] prev)

def l1dReadTypes : List MemAccessType := [.globalAccR, .localAccR]

def l1dWriteTypes : List MemAccessType := [.globalAccW, .localAccW]

def l2ReadTypes : List MemAccessType :=
  [.globalAccR, .localAccR, .constAccR, .textureAccR, .instAccR]

def l2WriteTypes : List MemAccessType := [.globalAccW, .localAccW, .l1WrbkAcc]

/-- A hit of one of the types is counted. -/
def isHit (types : List MemAccessType) : StatsCall → Bool
  | .incStats type outcome => decide (type ∈ types) && (outcome == .hit || outcome == .hitReserved)
  | _ => false

/-! ## The model -/

/-- The counters of a core that the power model shares. -/
inductive CoreCounter
  | numDecodedInsn
  | alu
  | fp
  | dp
  | imul32
  | sfu
  | rf
  | shmemBankAccess
  deriving DecidableEq, Repr

inductive L1Cache
  | l1i
  | l1d
  | l1c
  | l1t
  deriving DecidableEq, Repr

/-- `stat_idx`. -/
inductive StatIdx
  | current
  | prev
  deriving DecidableEq, Repr

structure PowerConfig where
  numShader : ℕ
  numMemSubPartition : ℕ
  numMem : ℕ
  gpuStatSampleFreq : ℕ
  epa : EnergyPerAccess

variable {cfg : PowerConfig}

/-- What the power model counts. -/
inductive Source (cfg : PowerConfig)
  | core (counter : CoreCounter) (sm : Fin cfg.numShader)
  | l1 (sm : Fin cfg.numShader)
  | l2
  | dram

def EnergyPerAccess.source (epa : EnergyPerAccess) : Source cfg → ℚ
  | .core .numDecodedInsn _ => epa.decode
  | .core .alu _ => epa.alu
  | .core .fp _ => epa.fp
  | .core .dp _ => epa.dp
  | .core .imul32 _ => epa.mul32
  | .core .sfu _ => epa.sfu
  | .core .rf _ => epa.rf
  | .core .shmemBankAccess _ => epa.shd
  | .l1 _ => epa.l1
  | .l2 => epa.l2
  | .dram => epa.dram

/-- The counters, and the snapshots in `power_stat_t`. -/
structure GpuState (cfg : PowerConfig) where
  corePeriod : ℚ
  /-- `gpu_tot_sim_cycle + gpu_sim_cycle` -/
  simCycle : ℕ := 0
  /-- The static variable of `gpu_calorie::cycle`. -/
  init : Bool := true
  /-- The current array is the one that the cores count in. -/
  coreCounter : StatIdx → CoreCounter → Fin cfg.numShader → BitVec 32 := fun _ _ _ => 0
  l1Stats : Fin cfg.numShader → L1Cache → CacheStats := fun _ _ => {}
  /-- The pointers of `core_cache_stats`, to the arrays that were allocated for them. -/
  coreCacheStats : StatIdx → StatIdx := id
  coreCacheArray : StatIdx → Fin cfg.numShader → CacheStats := fun _ _ => {}
  l2Stats : Fin cfg.numMemSubPartition → CacheStats := fun _ => {}
  l2CacheStats : StatIdx → CacheStats := fun _ => {}
  dramReq : Fin cfg.numMem → BitVec 64 := fun _ => 0
  nReq : StatIdx → Fin cfg.numMem → BitVec 32 := fun _ _ => 0

/-- What is counted in an SM in a core cycle. Only the data cache has accesses of several types. -/
structure SmWork where
  events : CoreCounter → ℕ := fun _ => 0
  l1i : List RequestStatus := []
  l1d : List StatsCall := []
  l1c : List RequestStatus := []
  l1t : List RequestStatus := []

def SmWork.calls (work : SmWork) : L1Cache → List StatsCall
  | .l1i => work.l1i.map (.incStats .instAccR)
  | .l1d => work.l1d
  | .l1c => work.l1c.map (.incStats .constAccR)
  | .l1t => work.l1t.map (.incStats .textureAccR)

/-- What is counted in `gpgpu_sim::cycle`, in the clock domains that are due. -/
structure CycleWork (cfg : PowerConfig) where
  dram : Option (Fin cfg.numMem → ℕ) := none
  l2 : Option (Fin cfg.numMemSubPartition → List StatsCall) := none
  core : Option (Fin cfg.numShader → SmWork) := none

inductive Action (cfg : PowerConfig)
  /-- `init_clock_domains` for a kernel, or `dtm`. -/
  | clock (period : ℚ)
  | cycle (work : CycleWork cfg)

/-- What `power_interface::cycle` writes to its traces. -/
structure Sample (cfg : PowerConfig) where
  elapsedTime : ℚ
  count : Source cfg → BitVec 32
  power : Source cfg → ℚ

namespace GpuState

variable (s : GpuState cfg)

def coreStats (idx : StatIdx) (sm : Fin cfg.numShader) : CacheStats :=
  s.coreCacheArray (s.coreCacheStats idx) sm

/-- `power_stat_t::save_stats`. -/
def saveStats : GpuState cfg :=
  let pointers := Function.update s.coreCacheStats .prev (s.coreCacheStats .current)
  { s with
    coreCounter := Function.update s.coreCounter .prev (s.coreCounter .current)
    coreCacheStats := pointers
    coreCacheArray := Function.update s.coreCacheArray (pointers .prev)
      (s.coreCacheArray (pointers .current))
    l2CacheStats := Function.update s.l2CacheStats .prev (s.l2CacheStats .current)
    nReq := Function.update s.nReq .prev (s.nReq .current) }

/-- The getters that `power_interface::cycle` calls. -/
def count : Source cfg → BitVec 32
  | .core counter sm => s.coreCounter .current counter sm - s.coreCounter .prev counter sm
  | .l1 sm => getHits l1dWriteTypes (s.coreStats .current sm) (s.coreStats .prev sm) +
      getHits l1dReadTypes (s.coreStats .current sm) (s.coreStats .prev sm)
  | .l2 => getHits l2ReadTypes (s.l2CacheStats .current) (s.l2CacheStats .prev) +
      getHits l2WriteTypes (s.l2CacheStats .current) (s.l2CacheStats .prev)
  | .dram => ∑ i, (s.nReq .current i - s.nReq .prev i)

/-- `power_interface::cycle`. -/
def powerInterfaceCycle (elapsedTime : ℚ) : GpuState cfg × Option (Sample cfg) :=
  (s.saveStats, some
    { elapsedTime
      count := s.count
      power := fun source => (s.count source).toNat * cfg.epa.source source / elapsedTime })

/-- `gpu_calorie::cycle`. -/
def gpuCalorieCycle : GpuState cfg × Option (Sample cfg) :=
  if s.init then ({ s with init := false }, none)
  else s.powerInterfaceCycle (s.corePeriod * cfg.gpuStatSampleFreq)

/-- The DRAM clock: the requests are counted, and the counters are copied. -/
def dramCycle : Option (Fin cfg.numMem → ℕ) → GpuState cfg
  | none => s
  | some requests =>
    let dramReq := fun i => s.dramReq i + .ofNat 64 (requests i)
    { s with
      dramReq
      nReq := Function.update s.nReq .current fun i => lowWord (dramReq i) }

/-- The clock of the L2: its statistics are summed up again. -/
def l2Cycle : Option (Fin cfg.numMemSubPartition → List StatsCall) → GpuState cfg
  | none => s
  | some calls =>
    let l2Stats := fun i => (calls i).foldl StatsCall.apply (s.l2Stats i)
    { s with
      l2Stats
      l2CacheStats := Function.update s.l2CacheStats .current
        ((List.ofFn l2Stats).foldl CacheStats.addAssign (s.l2CacheStats .current).clear) }

/-- The cores in their clock, with the statistics of the caches of each. -/
def coreWork (work : Fin cfg.numShader → SmWork) : GpuState cfg :=
  let l1Stats := fun sm cache => ((work sm).calls cache).foldl StatsCall.apply (s.l1Stats sm cache)
  { s with
    simCycle := s.simCycle + 1
    coreCounter := Function.update s.coreCounter .current fun counter sm =>
      s.coreCounter .current counter sm + .ofNat 32 ((work sm).events counter)
    l1Stats
    coreCacheArray := Function.update s.coreCacheArray (s.coreCacheStats .current) fun sm =>
      ([.l1i, .l1d, .l1c, .l1t].map (l1Stats sm)).foldl CacheStats.addAssign
        (s.coreStats .current sm).clear }

/-- The core clock. -/
def coreCycle : Option (Fin cfg.numShader → SmWork) → GpuState cfg × Option (Sample cfg)
  | none => (s, none)
  | some work =>
    let s := s.coreWork work
    if s.simCycle % cfg.gpuStatSampleFreq = 0 then s.gpuCalorieCycle else (s, none)

/-- `gpgpu_sim::cycle`, with the power model enabled. -/
def step : Action cfg → GpuState cfg × Option (Sample cfg)
  | .clock period => ({ s with corePeriod := period }, none)
  | .cycle work => ((s.dramCycle work.dram).l2Cycle work.l2).coreCycle work.core

end GpuState

/-! ## What the samples are to be -/

/-- The events of a source. -/
def Action.events : Action cfg → Source cfg → ℕ
  | .clock _, _ => 0
  | .cycle work, .core counter sm => work.core.elim 0 fun core => (core sm).events counter
  | .cycle work, .l1 sm =>
    work.core.elim 0 fun core => (core sm).l1d.countP (isHit (l1dWriteTypes ++ l1dReadTypes))
  | .cycle work, .l2 =>
    work.l2.elim 0 fun calls => ∑ i, (calls i).countP (isHit (l2ReadTypes ++ l2WriteTypes))
  | .cycle work, .dram => work.dram.elim 0 fun requests => ∑ i, requests i

/-- The periods of the core clock that pass. -/
def Action.periods (corePeriod : ℚ) : Action cfg → List ℚ
  | .clock _ => []
  | .cycle work => work.core.elim [] fun _ => [corePeriod]

/-- What has happened since a sample. -/
structure Window (cfg : PowerConfig) where
  events : Source cfg → ℕ := fun _ => 0
  periods : List ℚ := []

/-- A run, with the samples and what happened before each. -/
structure Run (cfg : PowerConfig) where
  gpu : GpuState cfg
  window : Window cfg := {}
  total : Source cfg → ℕ := fun _ => 0
  samples : List (Sample cfg × Window cfg) := []

/-- The window after a step. -/
def Window.extend (w : Window cfg) (corePeriod : ℚ) (action : Action cfg) : Window cfg where
  events source := w.events source + action.events source
  periods := w.periods ++ action.periods corePeriod

def Run.step (r : Run cfg) (action : Action cfg) : Run cfg :=
  let window := r.window.extend r.gpu.corePeriod action
  let total := fun source => r.total source + action.events source
  match r.gpu.step action with
  | (gpu, none) => { gpu, window, total, samples := r.samples }
  | (gpu, some sample) => { gpu, total, samples := r.samples ++ [(sample, window)] }

def run (cfg : PowerConfig) (period : ℚ) (actions : List (Action cfg)) : Run cfg :=
  actions.foldl Run.step { gpu := { corePeriod := period } }

/-- The counts are those of the events since the previous sample and add up, and the powers are
those of the events. -/
structure Run.Telescopes (r : Run cfg) : Prop where
  count : ∀ t ∈ r.samples, ∀ source, (t.1.count source).toNat = t.2.events source
  sum : ∀ source, (r.samples.map fun t => (t.1.count source).toNat).sum +
    r.window.events source = r.total source
  power : ∀ t ∈ r.samples, ∀ source,
    t.1.power source = t.2.events source * cfg.epa.source source / t.2.periods.sum

/-- No counter goes around between two samples, there are no hits in the data caches after the
first sample, and where there are events of any energy the core has had as many periods as the
sample takes, and of the length it takes. -/
structure Run.Regular (r : Run cfg) : Prop where
  wraps : ∀ t ∈ r.samples, ∀ source, t.2.events source < 2 ^ 32
  l1 : ∀ t ∈ r.samples.tail, ∀ sm, t.2.events (.l1 sm) = 0
  time : ∀ t ∈ r.samples, t.1.elapsedTime = t.2.periods.sum ∨
    ∀ source, t.2.events source * cfg.epa.source source = 0

/-! ## Hits -/

/-- The hits of some types, as far as the power model sees them. -/
def hits (types : List MemAccessType) (c : CacheStats) : BitVec 32 :=
  lowWord (getStats types [.hit, .hitReserved] c)

theorem foldl_add_map {α : Type} (f : α → BitVec 64) (l : List α) (start : BitVec 64) :
    l.foldl (fun total x => total + f x) start = start + (l.map f).sum := by
  induction l generalizing start with
  | nil => exact (add_zero start).symm
  | cons x rest ih => rw [List.foldl_cons, ih, List.map_cons, List.sum_cons, add_assoc]

theorem getStats_eq (types : List MemAccessType) (statuses : List RequestStatus) (c : CacheStats) :
    getStats types statuses c =
      (types.map fun type => (statuses.map (c.stats type)).sum).sum := by
  simp only [getStats, foldl_add_map, zero_add]

section Hits

variable {types : List MemAccessType} {a b c : CacheStats}

theorem getHits_eq (current prev : CacheStats) :
    getHits types current prev = hits types current - hits types prev := by
  have hsplit : ∀ c, getStats types [.hit, .miss, .hitReserved] c =
      getStats types [.miss] c + getStats types [.hit, .hitReserved] c := by
    intro c
    simp only [getStats_eq, ← List.sum_map_add, List.map_cons, List.map_nil, List.sum_cons,
      List.sum_nil]
    exact congrArg List.sum (List.map_congr_left fun type _ => by ring)
  simp only [getHits, hits, hsplit, map_sub, map_add]
  ring

theorem hits_append (more : List MemAccessType) :
    hits (types ++ more) c = hits types c + hits more c := by
  rw [hits, getStats_eq, List.map_append, List.sum_append, map_add, ← getStats_eq, ← getStats_eq]
  rfl

theorem hits_add (h : c.stats = fun type status => a.stats type status + b.stats type status) :
    hits types c = hits types a + hits types b := by
  simp only [hits, getStats_eq, h, ← map_add, ← List.sum_map_add]

theorem hits_zero : hits types {} = 0 := by
  have hadd : hits types {} = hits types {} + hits types {} := hits_add rfl
  exact left_eq_add.mp hadd

theorem hits_foldl_addAssign (parts : List CacheStats) :
    hits types (parts.foldl CacheStats.addAssign c.clear) = (parts.map (hits types)).sum := by
  have htotal : hits types (CacheStats.total parts) = (parts.map (hits types)).sum := by
    induction parts with
    | nil => exact hits_zero
    | cons part rest ih =>
        rw [List.map_cons, List.sum_cons, ← ih]
        exact hits_add (funext₂ fun _ _ => List.sum_cons)
  rw [← htotal, CacheStats.foldl_addAssign]
  simp only [hits, getStats_eq, CacheStats.clear, zero_add]

theorem hits_apply
    (htypes : types = l1dWriteTypes ++ l1dReadTypes ∨ types = l2ReadTypes ++ l2WriteTypes)
    (call : StatsCall) :
    hits types (call.apply c) = hits types c + if isHit types call then 1 else 0 := by
  cases call with
  | incStats type outcome =>
      have hone : hits types (CacheStats.incStats {} type outcome) =
          if isHit types (.incStats type outcome) then 1 else 0 := by
        rcases htypes with rfl | rfl <;> cases type <;> cases outcome <;> rfl
      rw [← hone]
      refine hits_add (funext₂ fun type' status => ?_)
      simp only [StatsCall.apply, CacheStats.incStats, CacheStats.update_update_apply]
      split_ifs
      · rw [zero_add]
      · rw [add_zero]
  | incStatsPw type outcome => exact (add_zero _).symm
  | incFailStats type fail => exact (add_zero _).symm
  | clearPw => exact (add_zero _).symm

theorem hits_calls
    (htypes : types = l1dWriteTypes ++ l1dReadTypes ∨ types = l2ReadTypes ++ l2WriteTypes)
    (calls : List StatsCall) :
    hits types (calls.foldl StatsCall.apply c) =
      hits types c + (calls.countP (isHit types) : BitVec 32) := by
  induction calls generalizing c with
  | nil => exact (add_zero _).symm
  | cons call rest ih =>
      rw [List.foldl_cons, ih, hits_apply htypes, List.countP_cons, add_assoc, Nat.cast_add,
        add_comm (List.countP _ _ : BitVec 32)]
      split_ifs
      · rw [Nat.cast_one]
      · rw [Nat.cast_zero]

end Hits

theorem lowWord_ofNat (n : ℕ) : lowWord (.ofNat 64 n) = (n : BitVec 32) :=
  BitVec.eq_of_toNat_eq (by
    change (BitVec.setWidth 32 (BitVec.ofNat 64 n)).toNat = (BitVec.ofNat 32 n).toNat
    simp)

/-! ## Snapshots -/

namespace GpuState

/-- What a snapshot says of a source. -/
def level (s : GpuState cfg) (idx : StatIdx) : Source cfg → BitVec 32
  | .core counter sm => s.coreCounter idx counter sm
  | .l1 sm => hits (l1dWriteTypes ++ l1dReadTypes) (s.coreStats idx sm)
  | .l2 => hits (l2ReadTypes ++ l2WriteTypes) (s.l2CacheStats idx)
  | .dram => ∑ i, s.nReq idx i

/-- What has been counted at a source. -/
def live (s : GpuState cfg) : Source cfg → BitVec 32
  | .core counter sm => s.coreCounter .current counter sm
  | .l1 sm => ([.l1i, .l1d, .l1c, .l1t].map fun cache =>
      hits (l1dWriteTypes ++ l1dReadTypes) (s.l1Stats sm cache)).sum
  | .l2 => ∑ i, hits (l2ReadTypes ++ l2WriteTypes) (s.l2Stats i)
  | .dram => ∑ i, lowWord (s.dramReq i)

/-- The state before it is seen whether a sample is due. -/
def counted (s : GpuState cfg) : Action cfg → GpuState cfg
  | .clock period => { s with corePeriod := period }
  | .cycle work =>
    let s := (s.dramCycle work.dram).l2Cycle work.l2
    work.core.elim s s.coreWork

variable (s : GpuState cfg) (action : Action cfg)

theorem step_eq : s.step action =
    if action.periods s.corePeriod ≠ [] ∧
        (s.counted action).simCycle % cfg.gpuStatSampleFreq = 0 then
      (s.counted action).gpuCalorieCycle
    else (s.counted action, none) := by
  rcases action with _ | ⟨dram, l2, _ | core⟩
  · rfl
  · rfl
  · simp only [Action.periods, Option.elim, ne_eq, List.cons_ne_nil, not_false_iff, true_and]
    rfl

theorem count_eq (source : Source cfg) :
    s.count source = s.level .current source - s.level .prev source := by
  cases source with
  | core counter sm => rfl
  | l1 sm | l2 =>
      simp only [count, level, getHits_eq, hits_append]
      ring
  | dram => exact Finset.sum_sub_distrib ..

theorem level_saveStats (idx : StatIdx) (source : Source cfg) :
    s.saveStats.level idx source = s.level .current source := by
  cases idx <;> cases source <;> simp [saveStats, level, coreStats]

theorem live_saveStats : s.saveStats.live = s.live := by
  funext source
  cases source <;> simp [saveStats, live]

theorem coreCacheStats_counted : (s.counted action).coreCacheStats = s.coreCacheStats := by
  rcases action with _ | ⟨dram, l2, core⟩
  · rfl
  · cases dram <;> cases l2 <;> cases core <;> rfl

theorem live_counted (source : Source cfg) :
    (s.counted action).live source = s.live source + (action.events source : BitVec 32) := by
  rcases action with _ | ⟨dram, l2, core⟩
  · exact (add_zero _).symm
  cases source with
  | core counter sm =>
      cases core with
      | none => cases dram <;> cases l2 <;> exact (add_zero _).symm
      | some core => cases dram <;> cases l2 <;> rfl
  | l1 sm =>
      cases core with
      | none => cases dram <;> cases l2 <;> exact (add_zero _).symm
      | some core =>
          have hone : ∀ type (outcomes : List RequestStatus),
              type ∉ l1dWriteTypes ++ l1dReadTypes → (outcomes.map (.incStats type)).countP
                (isHit (l1dWriteTypes ++ l1dReadTypes)) = 0 := by
            intro type outcomes htype
            rw [List.countP_map, List.countP_eq_zero]
            simp [isHit, htype]
          have hlive : (s.counted (.cycle ⟨dram, l2, some core⟩)).live (.l1 sm) =
              ([.l1i, .l1d, .l1c, .l1t].map fun cache => hits (l1dWriteTypes ++ l1dReadTypes)
                (((core sm).calls cache).foldl StatsCall.apply (s.l1Stats sm cache))).sum := by
            cases dram <;> cases l2 <;> rfl
          rw [hlive]
          simp only [live, hits_calls (.inl rfl), Action.events, Option.elim, List.map_cons,
            List.map_nil, List.sum_cons, List.sum_nil, SmWork.calls,
            hone .instAccR _ (by decide), hone .constAccR _ (by decide),
            hone .textureAccR _ (by decide), Nat.cast_zero]
          ring
  | l2 =>
      cases l2 with
      | none => cases dram <;> cases core <;> exact (add_zero _).symm
      | some calls =>
          have hlive : (s.counted (.cycle ⟨dram, some calls, core⟩)).live .l2 =
              ∑ i, hits (l2ReadTypes ++ l2WriteTypes)
                ((calls i).foldl StatsCall.apply (s.l2Stats i)) := by
            cases dram <;> cases core <;> rfl
          rw [hlive]
          simp only [hits_calls (.inr rfl), Finset.sum_add_distrib, live, Action.events,
            Option.elim, Nat.cast_sum]
  | dram =>
      cases dram with
      | none => cases l2 <;> cases core <;> exact (add_zero _).symm
      | some requests =>
          have hlive : (s.counted (.cycle ⟨some requests, l2, core⟩)).live .dram =
              ∑ i, lowWord (s.dramReq i + .ofNat 64 (requests i)) := by
            cases l2 <;> cases core <;> rfl
          rw [hlive]
          simp only [map_add, lowWord_ofNat, Finset.sum_add_distrib, live, Action.events,
            Option.elim, Nat.cast_sum]

theorem coreStats_coreWork (work : Fin cfg.numShader → SmWork) (sm : Fin cfg.numShader) :
    (s.coreWork work).coreStats .current sm =
      ([.l1i, .l1d, .l1c, .l1t].map ((s.coreWork work).l1Stats sm)).foldl CacheStats.addAssign
        (s.coreStats .current sm).clear := by
  simp [coreStats, coreWork]

theorem level_counted (h : s.level .current = s.live) :
    (s.counted action).level .current = (s.counted action).live := by
  rcases action with _ | ⟨dram, l2, core⟩
  · exact h
  funext source
  cases source with
  | core counter sm => rfl
  | l1 sm =>
      cases core with
      | none => cases dram <;> cases l2 <;> exact congrFun h (.l1 sm)
      | some core =>
          show hits _ (((s.dramCycle dram).l2Cycle l2).coreWork core |>.coreStats .current sm) = _
          rw [coreStats_coreWork, hits_foldl_addAssign, List.map_map]
          rfl
  | l2 =>
      cases l2 with
      | none => cases dram <;> cases core <;> exact congrFun h .l2
      | some calls =>
          have hsum := @hits_foldl_addAssign (l2ReadTypes ++ l2WriteTypes) (s.l2CacheStats .current)
            (List.ofFn fun i => (calls i).foldl StatsCall.apply (s.l2Stats i))
          rw [List.map_ofFn, List.sum_ofFn] at hsum
          cases dram <;> cases core <;> exact hsum
  | dram =>
      cases dram with
      | none => cases l2 <;> cases core <;> exact congrFun h .dram
      | some requests => cases l2 <;> cases core <;> rfl

theorem level_prev_counted (source : Source cfg)
    (hsource : s.coreCacheStats = id ∨ ∀ sm, source ≠ .l1 sm) :
    (s.counted action).level .prev source = s.level .prev source := by
  rcases action with _ | ⟨dram, l2, core⟩
  · rfl
  cases source with
  | core counter sm => cases dram <;> cases l2 <;> cases core <;> rfl
  | l1 sm =>
      have hid := hsource.resolve_right fun h => h sm rfl
      cases dram <;> cases l2 <;> cases core <;>
        simp [counted, dramCycle, l2Cycle, coreWork, level, coreStats, hid]
  | l2 => cases dram <;> cases l2 <;> cases core <;> rfl
  | dram => cases dram <;> cases l2 <;> cases core <;> rfl

end GpuState

/-! ## Runs -/

def Source.isL1 : Source cfg → Bool
  | .l1 _ => true
  | _ => false

/-- What a sample says: the events of each source, but for the data caches after the first. -/
structure Counted (first : Bool) (t : Sample cfg × Window cfg) : Prop where
  count : ∀ source, t.1.count source =
    if !first && source.isL1 then 0 else (t.2.events source : BitVec 32)
  power : ∀ source,
    t.1.power source = (t.1.count source).toNat * cfg.epa.source source / t.1.elapsedTime

/-- The invariant: the current snapshot is up to date, and the events since the last sample are what
it is ahead of the other one, until the two are one. -/
structure Run.Inv (r : Run cfg) : Prop where
  current : r.gpu.level .current = r.gpu.live
  apart : r.samples = [] → r.gpu.coreCacheStats = id
  shared : r.samples ≠ [] → r.gpu.coreCacheStats .prev = r.gpu.coreCacheStats .current
  ahead : ∀ source, r.samples = [] ∨ source.isL1 = false →
    r.gpu.level .current source = r.gpu.level .prev source + (r.window.events source : BitVec 32)
  first : ∀ t ∈ r.samples.head?, Counted true t
  later : ∀ t ∈ r.samples.tail, Counted false t
  total : ∀ source,
    r.total source = (r.samples.map (·.2.events source)).sum + r.window.events source

namespace Run

variable {r : Run cfg}

theorem Inv.extend (h : r.Inv) (action : Action cfg) (source : Source cfg)
    (hsource : r.samples = [] ∨ source.isL1 = false) :
    (r.gpu.counted action).level .current source = (r.gpu.counted action).level .prev source +
      ((r.window.extend r.gpu.corePeriod action).events source : BitVec 32) := by
  have hprev : (r.gpu.counted action).level .prev source = r.gpu.level .prev source := by
    refine r.gpu.level_prev_counted action source (hsource.imp h.apart fun hl1 sm hsm => ?_)
    rw [hsm] at hl1
    cases hl1
  rw [r.gpu.level_counted action h.current, GpuState.live_counted, ← h.current, h.ahead source
    hsource, hprev, Window.extend, Nat.cast_add, add_assoc]

theorem Inv.sample (h : r.Inv) (action : Action cfg) (elapsedTime : ℚ) :
    Counted (decide (r.samples = []))
      ({ elapsedTime
         count := (r.gpu.counted action).count
         power := fun source =>
          ((r.gpu.counted action).count source).toNat * cfg.epa.source source / elapsedTime },
        r.window.extend r.gpu.corePeriod action) := by
  refine ⟨fun source => ?_, fun source => rfl⟩
  dsimp only
  rw [GpuState.count_eq]
  by_cases hsource : r.samples = [] ∨ source.isL1 = false
  · have hif : (!decide (r.samples = []) && source.isL1) = false := by
      rcases hsource with hnone | hl1
      · simp [hnone]
      · simp [hl1]
    rw [h.extend action source hsource, hif, add_sub_cancel_left]
    rfl
  · obtain ⟨hsome, hl1⟩ := not_or.mp hsource
    rw [Bool.not_eq_false] at hl1
    cases source with
    | l1 sm =>
        have hshared : (r.gpu.counted action).coreStats .current sm =
            (r.gpu.counted action).coreStats .prev sm := by
          rw [GpuState.coreStats, GpuState.coreStats, GpuState.coreCacheStats_counted,
            h.shared hsome]
        simp [GpuState.level, hshared, hsome, Source.isL1]
    | _ => cases hl1

theorem Inv.step (h : r.Inv) (action : Action cfg) : (r.step action).Inv := by
  have htotal : ∀ source, r.total source + action.events source =
      (r.samples.map (·.2.events source)).sum +
        (r.window.extend r.gpu.corePeriod action).events source := by
    intro source
    rw [h.total, Window.extend, add_assoc]
  -- a step without a sample
  have hnone : ∀ gpu : GpuState cfg, r.gpu.step action = (gpu, none) →
      gpu.level = (r.gpu.counted action).level → gpu.live = (r.gpu.counted action).live →
      gpu.coreCacheStats = r.gpu.coreCacheStats → (r.step action).Inv := by
    intro gpu hstep hlevel hlive hpointers
    simp only [Run.step, hstep]
    refine ⟨?_, ?_, ?_, ?_, h.first, h.later, htotal⟩
    · exact (congrFun hlevel _).trans ((r.gpu.level_counted action h.current).trans hlive.symm)
    · exact fun hsamples => hpointers.trans (h.apart hsamples)
    · exact fun hsamples => hpointers ▸ h.shared hsamples
    · intro source hsource
      rw [hlevel]
      exact h.extend action source hsource
  have hpointers := r.gpu.coreCacheStats_counted action
  by_cases hdue : action.periods r.gpu.corePeriod ≠ [] ∧
      (r.gpu.counted action).simCycle % cfg.gpuStatSampleFreq = 0
  · have hstep := (r.gpu.step_eq action).trans (if_pos hdue)
    rw [GpuState.gpuCalorieCycle] at hstep
    split_ifs at hstep with hinit
    · exact hnone _ hstep rfl rfl hpointers
    · simp only [Run.step, hstep, GpuState.powerInterfaceCycle]
      have hsample := h.sample action
        ((r.gpu.counted action).corePeriod * cfg.gpuStatSampleFreq)
      constructor
      case current =>
        funext source
        rw [GpuState.level_saveStats, GpuState.live_saveStats,
          r.gpu.level_counted action h.current]
      case apart =>
        exact fun hsamples => absurd hsamples (List.append_ne_nil_of_right_ne_nil _ nofun)
      case shared => exact fun _ => by simp [GpuState.saveStats]
      case ahead =>
        intro source _
        rw [GpuState.level_saveStats, GpuState.level_saveStats]
        exact (add_zero _).symm
      case first =>
        cases hsamples : r.samples with
        | nil =>
            rintro _ ⟨⟩
            rwa [hsamples] at hsample
        | cons t rest =>
            intro t' ht'
            exact h.first t' (by rwa [hsamples])
      case later =>
        cases hsamples : r.samples with
        | nil => exact nofun
        | cons t rest =>
            intro t' ht'
            rcases List.mem_append.mp ht' with ht' | ht'
            · exact h.later t' (by rwa [hsamples])
            · rw [List.mem_singleton.mp ht']
              rwa [hsamples] at hsample
      case total =>
        intro source
        refine (htotal source).trans ?_
        simp
  · exact hnone _ ((r.gpu.step_eq action).trans (if_neg hdue)) rfl rfl hpointers

theorem inv_run (period : ℚ) (actions : List (Action cfg)) : (run cfg period actions).Inv := by
  have hfold : ∀ r : Run cfg, r.Inv → (actions.foldl Run.step r).Inv := by
    induction actions with
    | nil => exact fun _ h => h
    | cons action rest ih => exact fun r h => ih _ (h.step action)
  have hzero : ∀ idx source, ({ corePeriod := period } : GpuState cfg).level idx source = 0 := by
    intro idx source
    cases source with
    | core counter sm => rfl
    | l1 sm | l2 => exact hits_zero
    | dram => exact Finset.sum_const_zero
  refine hfold _ ⟨funext fun source => (hzero _ source).trans ?_, fun _ => rfl,
    fun h => absurd rfl h, fun source _ => (hzero _ source).trans ?_, nofun, nofun, fun _ => rfl⟩
  · cases source with
    | core counter sm => rfl
    | l1 sm =>
        show 0 = ([.l1i, .l1d, .l1c, .l1t].map fun _ : L1Cache => hits _ {}).sum
        rw [hits_zero]
        rfl
    | l2 =>
        show 0 = ∑ _, hits _ {}
        rw [hits_zero, Finset.sum_const_zero]
    | dram => exact Finset.sum_const_zero.symm
  · exact ((add_zero _).trans (hzero _ source)).symm

theorem Inv.counted (h : r.Inv) {t : Sample cfg × Window cfg} (ht : t ∈ r.samples) :
    ∃ first, Counted first t ∧ (first = true ∨ t ∈ r.samples.tail) := by
  cases hsamples : r.samples with
  | nil => exact absurd (hsamples ▸ ht) List.not_mem_nil
  | cons t' rest =>
      rcases List.mem_cons.mp (hsamples ▸ ht) with rfl | hrest
      · exact ⟨true, h.first _ (by rw [hsamples]; rfl), .inl rfl⟩
      · exact ⟨false, h.later _ (by rwa [hsamples]), .inr hrest⟩

theorem Inv.count_eq (h : r.Inv) (hregular : r.Regular) {t : Sample cfg × Window cfg}
    (ht : t ∈ r.samples) (source : Source cfg) : (t.1.count source).toNat = t.2.events source := by
  obtain ⟨first, hcounted, hfirst⟩ := h.counted ht
  rw [hcounted.count source]
  split_ifs with hl1
  · simp only [Bool.and_eq_true, Bool.not_eq_true'] at hl1
    cases source with
    | l1 sm => exact (hregular.l1 t (hfirst.resolve_left (by simp [hl1.1])) sm).symm
    | _ => cases hl1.2
  · exact Nat.mod_eq_of_lt (hregular.wraps t ht source)

theorem Inv.telescopes (h : r.Inv) (hregular : r.Regular) : r.Telescopes := by
  have hcount := fun t (ht : t ∈ r.samples) => h.count_eq hregular ht
  refine ⟨hcount, fun source => ?_, fun t ht source => ?_⟩
  · rw [h.total source, List.map_congr_left fun t ht => hcount t ht source]
  · obtain ⟨first, hcounted, -⟩ := h.counted ht
    rw [hcounted.power, hcount t ht]
    rcases hregular.time t ht with htime | hzero
    · rw [htime]
    · rw [hzero, zero_div, zero_div]

theorem Inv.regular (h : r.Inv) (htelescopes : r.Telescopes) : r.Regular := by
  refine ⟨fun t ht source => ?_, fun t ht sm => ?_, fun t ht => ?_⟩
  · rw [← htelescopes.count t ht source]
    exact BitVec.isLt _
  · rw [← htelescopes.count t (List.mem_of_mem_tail ht), (h.later t ht).count]
    rfl
  · obtain ⟨first, hcounted, -⟩ := h.counted ht
    by_cases htime : t.1.elapsedTime = t.2.periods.sum
    · exact .inl htime
    · refine .inr fun source => by_contra fun hne => htime ?_
      have hpower := htelescopes.power t ht source
      rw [hcounted.power, htelescopes.count t ht, div_eq_mul_inv, div_eq_mul_inv] at hpower
      exact inv_injective (mul_left_cancel₀ hne hpower)

end Run

/-- In every run the samples have the counts and powers they are to have exactly if no counter goes
around between two samples, the data caches have no hits after the first sample, and samples with
activity were as long as they are taken for. -/
theorem telescopes_iff_regular (period : ℚ) (actions : List (Action cfg)) :
    (run cfg period actions).Telescopes ↔ (run cfg period actions).Regular :=
  ⟨(Run.inv_run period actions).regular, (Run.inv_run period actions).telescopes⟩

/-- Three core cycles, each of them sampled, of an SM that hits in its data cache in the last. -/
def hitAtEnd : List (Action ⟨1, 0, 0, 1, ⟨0, 0, 0, 0, 0, 0, 0, 0, 0, 0, 0⟩⟩) :=
  [.cycle { core := some fun _ => {} }, .cycle { core := some fun _ => {} },
    .cycle { core := some fun _ => { l1d := [.incStats .globalAccR .hit] } }]

/-- The hit is not in the second sample. -/
theorem not_telescopes : ¬ ∀ (cfg : PowerConfig) (period : ℚ) (actions : List (Action cfg)),
    (run cfg period actions).Telescopes := by
  intro h
  have hzero := ((Run.inv_run 1 hitAtEnd).regular (h _ 1 hitAtEnd)).l1 _ (List.mem_cons_self ..) 0
  exact absurd hzero (by decide)

end GpuCalorie.Power
