/-
# Counters of an instruction

The loads and stores of global and local memory are counted at two places, in a total that takes
in each active lane and with the source line of the instruction. `update_instr_stats` is given the
number of lanes too, and adds one.
-/

import GpuCalorie.Hardware.Isa
import GpuCalorie.Math.Outcome
import Mathlib.Data.BitVec

namespace GpuCalorie.Statistics

open GpuCalorie.Hardware

/-! ## The counters of a line -/

/-- `counters_t`. -/
inductive Counter
  | alu | fp | sp | dp | intMul32 | sin | lg | exp | rcp | sqrt | rfRd | rfWr | sfu | decode
  | icHit | icMiss | dcL1Ld | dcL1St | ld | st | tex | int | collUnt | tensor | nonRfOprnd
  | divergence | localMemRd | localMemWr | globMemRd | globMemWr | texMem | constMem
  deriving DecidableEq, Repr

/-- `ptx_file_line`. -/
structure PtxFileLine where
  st : String
  line : ℕ
  deriving DecidableEq, Repr

/-- The constructor of `ptx_file_line`. -/
def ptxFileLine (s : Option String) (l : ℕ) : PtxFileLine := ⟨s.getD "NULL_NAME", l⟩

/-- What the statistics read of a `ptx_instruction`. -/
structure PtxInstruction where
  sourceFile : String
  sourceLine : ℕ

/-- `pi_stats` of a line. -/
abbrev PiStats := Counter → BitVec 64

/-- `ptx_file_line_stats_tracker`. -/
abbrev Tracker := List (PtxFileLine × PiStats)

/-- `s_g_pc_to_insn`, where a position within an instruction has no instruction. -/
abbrev PcToInsn := List (Option PtxInstruction)

/-- `pc_to_instruction`. -/
def pcToInstruction (insns : PcToInsn) (pc : ℕ) : Option PtxInstruction := insns.getD pc none

/-- The null pointer is followed. -/
inductive StatsFailure
  | noInstruction
  deriving DecidableEq, Repr

/-- `pi_stats[stat] += 1`. -/
def PiStats.increment (stat : Counter) (stats : PiStats) : PiStats :=
  Function.update stats stat (stats stat + 1)

/-- `ptx_file_line_stats_tracker[line].pi_stats[stat] += 1`, where a new line starts from zero. -/
def Tracker.increment (line : PtxFileLine) (stat : Counter) : Tracker → Tracker
  | [] => [(line, PiStats.increment stat fun _ => 0)]
  | entry :: tracker =>
    if entry.1 = line then (entry.1, PiStats.increment stat entry.2) :: tracker
    else entry :: Tracker.increment line stat tracker

/-! ## The statistics -/

/-- The counters that the memory instructions take part in. -/
structure InstrStats where
  tracker : Tracker := []
  gpgpuNShmemInsn : BitVec 32 := 0
  gpgpuNSstarrInsn : BitVec 32 := 0
  gpgpuNConstInsn : BitVec 32 := 0
  gpgpuNParamInsn : BitVec 32 := 0
  gpgpuNTexInsn : BitVec 32 := 0
  gpgpuNStoreInsn : BitVec 32 := 0
  gpgpuNLoadInsn : BitVec 32 := 0

/-- `memory_op_t`. -/
inductive MemoryOp
  | noMemoryOp
  | memoryLoad
  | memoryStore
  deriving DecidableEq, Repr

/-- What `mem_instruction_stats` reads of a `warp_inst_t`. -/
structure MemInst where
  pc : ℕ
  op : OpType
  memoryOp : MemoryOp
  space : MemorySpace
  activeMask : Finset (Fin 32)

namespace MemInst

variable (inst : MemInst)

/-- `is_store`. -/
def isStore : Bool :=
  inst.op = .storeOp || inst.op = .tensorCoreStoreOp || inst.memoryOp = .memoryStore

/-- `active_count`. -/
def activeCount : ℕ := inst.activeMask.card

end MemInst

/-- `update_instr_stats`. -/
def updateInstrStats (insns : PcToInsn) (pc : ℕ) (stat : Counter) (_val : ℤ) (s : InstrStats) :
    Except StatsFailure InstrStats :=
  match pcToInstruction insns pc with
  | none => .error .noInstruction
  | some insn =>
    .ok { s with
      tracker := s.tracker.increment (ptxFileLine (some insn.sourceFile) insn.sourceLine) stat }

/-- `mem_instruction_stats`. -/
def memInstructionStats (insns : PcToInsn) (inst : MemInst) (s : InstrStats) :
    Except StatsFailure InstrStats :=
  let activeCount := BitVec.ofNat 32 inst.activeCount
  match inst.space with
  | .undefinedSpace | .regSpace => .ok s
  | .sharedSpace => .ok { s with gpgpuNShmemInsn := s.gpgpuNShmemInsn + activeCount }
  | .sstarrSpace => .ok { s with gpgpuNSstarrInsn := s.gpgpuNSstarrInsn + activeCount }
  | .constSpace => .ok { s with gpgpuNConstInsn := s.gpgpuNConstInsn + activeCount }
  | .paramSpaceKernel | .paramSpaceLocal =>
    .ok { s with gpgpuNParamInsn := s.gpgpuNParamInsn + activeCount }
  | .texSpace => .ok { s with gpgpuNTexInsn := s.gpgpuNTexInsn + activeCount }
  | .globalSpace | .localSpace =>
    if inst.isStore then do
      let s ← updateInstrStats insns inst.pc .st inst.activeCount s
      .ok { s with gpgpuNStoreInsn := s.gpgpuNStoreInsn + activeCount }
    else do
      let s ← updateInstrStats insns inst.pc .ld inst.activeCount s
      .ok { s with gpgpuNLoadInsn := s.gpgpuNLoadInsn + activeCount }
  | _ => .ok s

/-- A call of the simulation: that of the load-store unit, or one that counts something else. -/
inductive StatsCall
  | memory (inst : MemInst)
  | other (pc : ℕ) (stat : Counter) (val : ℤ) (hld : stat ≠ .ld) (hst : stat ≠ .st)

/-- The effect of a call. -/
def StatsCall.run (insns : PcToInsn) : StatsCall → InstrStats → Except StatsFailure InstrStats
  | .memory inst, s => memInstructionStats insns inst s
  | .other pc stat val _ _, s => updateInstrStats insns pc stat val s

/-- The calls of a run, from counters that are zero. -/
def countRun (insns : PcToInsn) (calls : List StatsCall) : Except StatsFailure InstrStats :=
  calls.foldlM (fun s call => call.run insns s) {}

/-! ## The sum over the lines -/

/-- The sum of a counter over all lines. -/
def Tracker.total (stat : Counter) (tracker : Tracker) : ℕ :=
  (tracker.map fun entry => (entry.2 stat).toNat).sum

variable {stat other : Counter} {line : PtxFileLine}

@[simp] theorem Tracker.total_cons (stats : PiStats) (tracker : Tracker) :
    Tracker.total stat ((line, stats) :: tracker) =
      (stats stat).toNat + Tracker.total stat tracker := by
  simp [Tracker.total]

theorem PiStats.increment_of_ne (hne : other ≠ stat) (stats : PiStats) :
    PiStats.increment stat stats other = stats other :=
  Function.update_of_ne hne _ _

theorem PiStats.toNat_increment {stats : PiStats} (hlt : (stats stat).toNat + 1 < 2 ^ 64) :
    (PiStats.increment stat stats stat).toNat = (stats stat).toNat + 1 := by
  have hone : (1 : BitVec 64).toNat = 1 := rfl
  rw [increment, Function.update_self, BitVec.toNat_add, hone, Nat.mod_eq_of_lt hlt]

theorem Tracker.total_increment_of_ne (hne : other ≠ stat) (tracker : Tracker) :
    (tracker.increment line stat).total other = tracker.total other := by
  induction tracker with
  | nil =>
    have hzero : PiStats.increment stat (fun _ => 0) other = 0 := PiStats.increment_of_ne hne _
    rw [increment, total_cons, hzero]
    rfl
  | cons entry tracker ih =>
    obtain ⟨key, stats⟩ := entry
    have hentry := PiStats.increment_of_ne hne stats
    rw [increment]
    split_ifs with hline
    · rw [total_cons, total_cons, hentry]
    · rw [total_cons, total_cons, ih]

theorem Tracker.total_increment {tracker : Tracker} (hlt : tracker.total stat + 1 < 2 ^ 64) :
    (tracker.increment line stat).total stat = tracker.total stat + 1 := by
  induction tracker with
  | nil =>
    have hzero : (PiStats.increment stat (fun _ => 0) stat).toNat = 0 + 1 :=
      PiStats.toNat_increment (by decide)
    rw [increment, total_cons, hzero]
    rfl
  | cons entry tracker ih =>
    obtain ⟨key, stats⟩ := entry
    rw [total_cons] at hlt
    rw [increment]
    split_ifs with hline
    · have hentry : (PiStats.increment stat stats stat).toNat = (stats stat).toNat + 1 :=
        PiStats.toNat_increment (by omega)
      rw [total_cons, total_cons, hentry]
      omega
    · rw [total_cons, total_cons, ih (by omega)]
      omega

/-! ## A call -/

/-- The counter of a memory instruction that goes with its line. -/
def memoryCounter (store : Bool) : Counter := if store then .st else .ld

/-- The total that a memory instruction is counted in. -/
def InstrStats.memoryInsn (s : InstrStats) (store : Bool) : BitVec 32 :=
  if store then s.gpgpuNStoreInsn else s.gpgpuNLoadInsn

/-- The sums over the lines are the totals. -/
def InstrStats.Agree (s : InstrStats) : Prop :=
  ∀ store, s.tracker.total (memoryCounter store) = (s.memoryInsn store).toNat

/-- The instruction loads or stores global or local memory. -/
def MemInst.Counted (inst : MemInst) : Prop :=
  inst.space = .globalSpace ∨ inst.space = .localSpace

instance (inst : MemInst) : Decidable inst.Counted := inferInstanceAs (Decidable (_ ∨ _))

/-- The call counts a load, or a store. -/
def StatsCall.counts (store : Bool) : StatsCall → Bool
  | .memory inst => decide (inst.Counted ∧ inst.isStore = store)
  | .other .. => false

/-- The instruction that a call attributes something to, if any, is there. -/
def StatsCall.Attributed (insns : PcToInsn) : StatsCall → Prop
  | .memory inst => inst.Counted → pcToInstruction insns inst.pc ≠ none
  | .other pc _ _ _ _ => pcToInstruction insns pc ≠ none

/-- A load or store of global or local memory has one active lane. -/
def StatsCall.OneLane : StatsCall → Prop
  | .memory inst => inst.Counted → inst.activeCount = 1
  | .other .. => True

/-- The active lanes of the instruction. -/
def StatsCall.lanes : StatsCall → ℕ
  | .memory inst => inst.activeCount
  | .other .. => 0

/-- What a call does to the sums and to the totals. -/
structure StatsCall.Effect (call : StatsCall) (s s' : InstrStats) : Prop where
  total_of_not : ∀ store, call.counts store = false →
    s'.tracker.total (memoryCounter store) = s.tracker.total (memoryCounter store)
  memoryInsn_of_not : ∀ store, call.counts store = false →
    s'.memoryInsn store = s.memoryInsn store
  total : ∀ store, call.counts store = true →
    s.tracker.total (memoryCounter store) + 1 < 2 ^ 64 →
      s'.tracker.total (memoryCounter store) = s.tracker.total (memoryCounter store) + 1
  memoryInsn : ∀ store, call.counts store = true →
    s'.memoryInsn store = s.memoryInsn store + BitVec.ofNat 32 call.lanes

variable {insns : PcToInsn} {inst : MemInst} {call : StatsCall} {s s' : InstrStats}

theorem updateInstrStats_ok {pc : ℕ} (stat : Counter) (val : ℤ) (s : InstrStats)
    (h : pcToInstruction insns pc ≠ none) :
    ∃ line, updateInstrStats insns pc stat val s =
      .ok { s with tracker := s.tracker.increment line stat } := by
  obtain ⟨insn, hinsn⟩ := Option.ne_none_iff_exists'.1 h
  exact ⟨ptxFileLine (some insn.sourceFile) insn.sourceLine, by rw [updateInstrStats, hinsn]⟩

theorem updateInstrStats_error {pc : ℕ} {val : ℤ} (h : pcToInstruction insns pc = none) :
    updateInstrStats insns pc stat val s = .error .noInstruction := by
  rw [updateInstrStats, h]

theorem memoryCounter_inj {store store' : Bool} (h : memoryCounter store = memoryCounter store') :
    store = store' := by
  revert h
  cases store <;> cases store' <;> decide

/-- Adds lanes to a total. -/
def InstrStats.addMemoryInsn (s : InstrStats) (store : Bool) (lanes : BitVec 32) : InstrStats :=
  if store then { s with gpgpuNStoreInsn := s.gpgpuNStoreInsn + lanes }
  else { s with gpgpuNLoadInsn := s.gpgpuNLoadInsn + lanes }

@[simp] theorem InstrStats.tracker_addMemoryInsn (store : Bool) (lanes : BitVec 32) :
    (s.addMemoryInsn store lanes).tracker = s.tracker := by
  cases store with
  | false => rfl
  | true => rfl

theorem InstrStats.memoryInsn_addMemoryInsn (store store' : Bool) (lanes : BitVec 32) :
    (s.addMemoryInsn store lanes).memoryInsn store' =
      s.memoryInsn store' + if store = store' then lanes else 0 := by
  cases store <;> cases store' <;> simp [memoryInsn, addMemoryInsn]

theorem memInstructionStats_of_counted (insns : PcToInsn) (s : InstrStats) (h : inst.Counted) :
    memInstructionStats insns inst s = (do
      let s ← updateInstrStats insns inst.pc (memoryCounter inst.isStore) inst.activeCount s
      .ok (s.addMemoryInsn inst.isStore (BitVec.ofNat 32 inst.activeCount))) := by
  obtain hspace | hspace := h
  · rw [memInstructionStats, hspace]
    cases inst.isStore with
    | false => rfl
    | true => rfl
  · rw [memInstructionStats, hspace]
    cases inst.isStore with
    | false => rfl
    | true => rfl

theorem memInstructionStats_of_not_counted (insns : PcToInsn) (s : InstrStats)
    (h : ¬ inst.Counted) :
    ∃ s', memInstructionStats insns inst s = .ok s' ∧ s'.tracker = s.tracker ∧
      ∀ store, s'.memoryInsn store = s.memoryInsn store := by
  rw [memInstructionStats]
  cases hspace : inst.space with
  | globalSpace => exact absurd (.inl hspace) h
  | localSpace => exact absurd (.inr hspace) h
  | _ => exact ⟨_, rfl, rfl, fun _ => rfl⟩

theorem StatsCall.run_ok (s : InstrStats) (h : call.Attributed insns) :
    ∃ s', call.run insns s = .ok s' ∧ call.Effect s s' := by
  cases call with
  | other pc stat val hld hst =>
    obtain ⟨line, hrun⟩ := updateInstrStats_ok stat val s h
    have hne : ∀ store, memoryCounter store ≠ stat := by
      rintro (_ | _)
      · exact Ne.symm hld
      · exact Ne.symm hst
    refine ⟨_, hrun, fun store _ => Tracker.total_increment_of_ne (hne store) _, fun _ _ => rfl,
      ?_, ?_⟩
    · intro store htrue
      cases htrue
    · intro store htrue
      cases htrue
  | memory inst =>
    have hcounts : ∀ store, (StatsCall.memory inst).counts store = true →
        inst.Counted ∧ inst.isStore = store := fun store htrue => of_decide_eq_true htrue
    by_cases hcounted : inst.Counted
    · obtain ⟨line, hrun⟩ := updateInstrStats_ok (memoryCounter inst.isStore) inst.activeCount s
        (h hcounted)
      have hnot : ∀ store, (StatsCall.memory inst).counts store = false →
          inst.isStore ≠ store :=
        fun store hfalse heq => of_decide_eq_false hfalse ⟨hcounted, heq⟩
      have hmem := memInstructionStats_of_counted insns s hcounted
      refine ⟨_, hmem.trans (by rw [hrun]; rfl), ?_, ?_, ?_, ?_⟩
      · intro store hfalse
        have hne : memoryCounter store ≠ memoryCounter inst.isStore :=
          fun heq => hnot store hfalse (memoryCounter_inj heq).symm
        rw [InstrStats.tracker_addMemoryInsn]
        exact Tracker.total_increment_of_ne hne _
      · intro store hfalse
        rw [InstrStats.memoryInsn_addMemoryInsn, if_neg (hnot store hfalse), add_zero]
        rfl
      · intro store htrue hlt
        obtain ⟨-, rfl⟩ := hcounts store htrue
        rw [InstrStats.tracker_addMemoryInsn]
        exact Tracker.total_increment hlt
      · intro store htrue
        rw [InstrStats.memoryInsn_addMemoryInsn, if_pos (hcounts store htrue).2]
        rfl
    · obtain ⟨s', hrun, htracker, hinsn⟩ :=
        memInstructionStats_of_not_counted insns s hcounted
      refine ⟨s', hrun, fun store _ => by rw [htracker], fun store _ => hinsn store, ?_, ?_⟩
      · intro store htrue
        exact absurd (hcounts store htrue).1 hcounted
      · intro store htrue
        exact absurd (hcounts store htrue).1 hcounted

theorem StatsCall.attributed_of_run (h : call.run insns s = .ok s') : call.Attributed insns := by
  cases call with
  | other pc stat val hld hst =>
    intro hnone
    have herror : updateInstrStats insns pc stat val s = .ok s' := h
    rw [updateInstrStats_error hnone] at herror
    cases herror
  | memory inst =>
    intro hcounted hnone
    have herror : memInstructionStats insns inst s = .ok s' := h
    rw [memInstructionStats_of_counted insns s hcounted, updateInstrStats_error hnone] at herror
    cases herror

/-! ## Every run -/

variable {calls : List StatsCall}

/-- The runs in which adding one is adding the lanes. -/
structure Regular (insns : PcToInsn) (calls : List StatsCall) : Prop where
  attributed : ∀ call ∈ calls, call.Attributed insns
  oneLane : ∀ call ∈ calls, call.OneLane
  /-- The totals have room. -/
  few : ∀ store, calls.countP (·.counts store) < 2 ^ 32

theorem countRun_append : countRun insns (calls ++ [call]) =
    (countRun insns calls >>= fun s => call.run insns s) := by
  rw [countRun, List.foldlM_append, countRun]
  simp only [List.foldlM_cons, List.foldlM_nil, bind_pure]

theorem countP_append (store : Bool) : (calls ++ [call]).countP (·.counts store) =
    calls.countP (·.counts store) + if call.counts store then 1 else 0 := by
  rw [List.countP_append, List.countP_singleton]

theorem Regular.of_prior {prior : List StatsCall} (h : Regular insns calls)
    (hprior : prior <+: calls) : Regular insns prior where
  attributed prev hprev := h.attributed prev (hprior.subset hprev)
  oneLane prev hprev := h.oneLane prev (hprior.subset hprev)
  few store := lt_of_le_of_lt (hprior.sublist.countP_le) (h.few store)

theorem StatsCall.lanes_eq_one (h : call.OneLane) {store : Bool}
    (hcounts : call.counts store = true) : call.lanes = 1 := by
  cases call with
  | memory inst =>
    have hcounted : inst.Counted ∧ inst.isStore = store := of_decide_eq_true hcounts
    exact h hcounted.1
  | other => cases hcounts

theorem Regular.run (h : Regular insns calls) :
    ∃ s, countRun insns calls = .ok s ∧ ∀ store,
      s.tracker.total (memoryCounter store) = calls.countP (·.counts store) ∧
        (s.memoryInsn store).toNat = calls.countP (·.counts store) := by
  induction calls using List.reverseRecOn with
  | nil =>
    refine ⟨{}, rfl, ?_⟩
    rintro (_ | _)
    · exact ⟨rfl, rfl⟩
    · exact ⟨rfl, rfl⟩
  | append_singleton calls call ih =>
    obtain ⟨s, hrun, hcount⟩ := ih (h.of_prior (List.prefix_append _ _))
    have hlast : call ∈ calls ++ [call] := List.mem_append_right _ (List.mem_singleton_self call)
    obtain ⟨s', hcall, heffect⟩ := call.run_ok s (h.attributed call hlast)
    refine ⟨s', by rw [countRun_append, hrun]; exact hcall, fun store => ?_⟩
    obtain ⟨htotal, hinsn⟩ := hcount store
    have hfew := h.few store
    rw [countP_append] at hfew ⊢
    cases hcounts : call.counts store with
    | false =>
      rw [heffect.total_of_not store hcounts, heffect.memoryInsn_of_not store hcounts]
      exact ⟨htotal, hinsn⟩
    | true =>
      rw [hcounts, if_pos rfl] at hfew
      rw [heffect.total store hcounts (by omega), heffect.memoryInsn store hcounts,
        StatsCall.lanes_eq_one (h.oneLane call hlast) hcounts, BitVec.toNat_add, hinsn, htotal,
        if_pos rfl]
      exact ⟨rfl, Nat.mod_eq_of_lt hfew⟩

theorem lanes_of_toNat_add {n : BitVec 32} {lanes : ℕ} (hlanes : lanes ≤ 32)
    (h : (n + BitVec.ofNat 32 lanes).toNat = n.toNat + 1) : lanes = 1 ∧ n.toNat + 1 < 2 ^ 32 := by
  have hn := n.isLt
  rw [BitVec.toNat_add, BitVec.toNat_ofNat] at h
  omega

theorem StatsCall.lanes_le (call : StatsCall) : call.lanes ≤ 32 := by
  cases call with
  | memory inst => exact (Finset.card_le_univ _).trans_eq (Fintype.card_fin 32)
  | other => exact Nat.zero_le _

/-- Sums and totals agree all through a run exactly where each load and store has one lane. -/
theorem statsAgree_iff :
    (∀ prior, prior <+: calls → ∃ s, countRun insns prior = .ok s ∧ s.Agree) ↔
      Regular insns calls := by
  constructor
  · intro h
    induction calls using List.reverseRecOn with
    | nil =>
      exact ⟨fun _ hmem => absurd hmem List.not_mem_nil,
        fun _ hmem => absurd hmem List.not_mem_nil, fun _ => Nat.two_pow_pos 32⟩
    | append_singleton calls call ih =>
      have hregular := ih fun prior hprior => h prior (hprior.trans (List.prefix_append _ _))
      obtain ⟨s, hrun, hcount⟩ := hregular.run
      obtain ⟨s', hrun', hagree⟩ := h _ List.prefix_rfl
      rw [countRun_append, hrun] at hrun'
      have hattributed := StatsCall.attributed_of_run hrun'
      obtain ⟨t, hcall, heffect⟩ := call.run_ok s hattributed
      obtain rfl : t = s' := Except.ok.inj (hcall.symm.trans hrun')
      -- the last call counts one, and one lane is added with it
      have hlast : ∀ store, call.counts store = true →
          call.lanes = 1 ∧ calls.countP (·.counts store) + 1 < 2 ^ 32 := by
        intro store hcounts
        obtain ⟨htotal, hinsn⟩ := hcount store
        have hfew := hregular.few store
        have heq := hagree store
        rw [heffect.total store hcounts (by omega), heffect.memoryInsn store hcounts, htotal,
          ← hinsn] at heq
        rw [← hinsn]
        exact lanes_of_toNat_add call.lanes_le heq.symm
      refine ⟨fun prev hprev => ?_, fun prev hprev => ?_, fun store => ?_⟩
      · obtain hprev | hprev := List.mem_append.1 hprev
        · exact hregular.attributed prev hprev
        · rwa [List.mem_singleton.1 hprev]
      · obtain hprev | hprev := List.mem_append.1 hprev
        · exact hregular.oneLane prev hprev
        · rw [List.mem_singleton.1 hprev]
          cases call with
          | other => trivial
          | memory inst =>
            intro hcounted
            exact (hlast inst.isStore (decide_eq_true ⟨hcounted, rfl⟩)).1
      · rw [countP_append]
        cases hcounts : call.counts store with
        | false => exact hregular.few store
        | true => exact (hlast store hcounts).2
  · intro h prior hprior
    obtain ⟨s, hrun, hcount⟩ := (h.of_prior hprior).run
    exact ⟨s, hrun, fun store => (hcount store).1.trans (hcount store).2.symm⟩

/-- A load of two lanes counts one for its line and two in all. -/
theorem not_statsAgree : ∃ s, countRun [some ⟨"kernel.ptx", 7⟩]
    [.memory ⟨0, .loadOp, .memoryLoad, .globalSpace, {0, 1}⟩] = .ok s ∧ ¬ s.Agree :=
  ⟨_, rfl, fun h => absurd (h false) (by decide)⟩

end GpuCalorie.Statistics
