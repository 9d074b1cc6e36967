/-
# Pipelined functional units

`pipelined_simd_unit`: a dispatch register that holds an instruction for its initiation
interval, a row of stages behind it, and the bitset `occupied`, which has a bit for every
cycle in which an instruction of the unit is going to complete. An instruction enters the row
at the stage from which it reaches the end of it when its latency is over.

The functions fail where the code asserts. What has been issued and what has left the unit is
recorded; nothing reads it.
-/

import GpuCalorie.Hardware.Isa
import GpuCalorie.Math.DelayLine
import GpuCalorie.Math.Loop
import GpuCalorie.Math.Transition

namespace GpuCalorie.Pipeline

open GpuCalorie.Hardware (OpType)
open GpuCalorie.Math

/-- The assertions of the units and of the registers they move instructions through. -/
inductive PipelineFailure
  /-- `move_warp` to a register that holds an instruction. -/
  | moveWarp
  /-- `get_free` without a free register. -/
  | noFreeRegister
  /-- An instruction completes and `active_insts_in_pipeline` is zero. -/
  | activeInsts
  /-- A stage that does not exist. -/
  | startStage
  /-- An instruction's latency is not less than `MAX_ALU_LATENCY`. -/
  | latency
  deriving DecidableEq, Repr

/-- `MAX_ALU_LATENCY`. -/
def maxAluLatency : ℕ := 512

/-- `std::bitset<MAX_ALU_LATENCY>`. The bits from `maxAluLatency` up are never set. -/
abbrev Bitset := ℕ → Bool

namespace Bitset

variable (b : Bitset)

/-- `operator>>=` by one. -/
def shiftRight : Bitset := fun position => b (position + 1)

/-- `test`, which throws where there is no such bit. -/
def test (position : ℕ) : Except PipelineFailure Bool :=
  if position < maxAluLatency then .ok (b position) else .error .latency

/-- `set`, which throws where there is no such bit. -/
def set (position : ℕ) : Except PipelineFailure Bitset :=
  if position < maxAluLatency then .ok (Function.update b position true) else .error .latency

end Bitset

/-- `warp_inst_t`, as far as the units look at it. -/
structure WarpInst where
  uid : ℕ
  op : OpType
  latency : ℕ
  initiationInterval : ℕ
  /-- The first cycle of the unit that finds the instruction in its dispatch register. It is
  recorded when the instruction is issued, and nothing reads it. -/
  dispatchCycle : ℕ := 0
  deriving DecidableEq, Repr

/-- A `register_set`. An empty `warp_inst_t` is `none`. -/
abbrev RegisterSet := List (Option WarpInst)

/-- `register_set::move_in`: the first free register takes the instruction. -/
def RegisterSet.moveIn : RegisterSet → WarpInst → Except PipelineFailure RegisterSet
  | [], _ => .error .noFreeRegister
  | none :: regs, inst => .ok (some inst :: regs)
  | some other :: regs, inst => do
    let regs ← RegisterSet.moveIn regs inst
    return some other :: regs

/-- The classes derived from `pipelined_simd_unit`. -/
inductive UnitKind
  | sfu
  | dp
  | tensorCore
  | int
  | sp
  | specialized (supportedOp : Fin 8)
  deriving DecidableEq, Repr

/-- The `switch` in the `can_issue` of the class. -/
def UnitKind.accepts : UnitKind → OpType → Bool
  | .sfu, op => op = .sfuOp ∨ op = .aluSfuOp ∨ op = .dpOp
  | .dp, op => op = .dpOp
  | .tensorCore, op => op = .tensorCoreOp
  | .int, op =>
    op ∉ [.sfuOp, .loadOp, .tensorCoreLoadOp, .storeOp, .tensorCoreStoreOp, .memoryBarrierOp, .spOp,
      .dpOp]
  | .sp, op =>
    op ∉ [.sfuOp, .loadOp, .tensorCoreLoadOp, .storeOp, .tensorCoreStoreOp, .memoryBarrierOp, .dpOp]
  | .specialized supportedOp, op => op = .specializedUnitOp supportedOp

/-- A unit's class and the number of its stages, of which there is at least one. -/
structure SimdUnitConfig where
  kind : UnitKind
  pipelineDepth : ℕ
  depth_pos : 0 < pipelineDepth

/-- Latency and initiation interval are in range for a unit. -/
def SimdUnitConfig.InRange (cfg : SimdUnitConfig) (inst : WarpInst) : Prop :=
  0 < inst.initiationInterval ∧ inst.initiationInterval ≤ inst.latency ∧
    inst.latency < maxAluLatency ∧ inst.latency - inst.initiationInterval < cfg.pipelineDepth

instance (cfg : SimdUnitConfig) (inst : WarpInst) : Decidable (cfg.InRange inst) :=
  inferInstanceAs (Decidable (_ ∧ _ ∧ _ ∧ _))

/-- `pipelined_simd_unit`. The instruction in the dispatch register stands with its `cycles`. -/
structure SimdUnit where
  dispatchReg : Option (WarpInst × ℕ) := none
  occupied : Bitset := fun _ => false
  pipelineReg : DelayLine WarpInst := fun _ => none
  activeInstsInPipeline : ℕ := 0
  /-- The instructions that were issued to the unit. -/
  issued : List WarpInst := []
  /-- The instructions that have left the unit, and the cycles in which they did. -/
  left : List (WarpInst × ℕ) := []

namespace SimdUnit

variable (cfg : SimdUnitConfig) (s : SimdUnit) (exWb : RegisterSet) (now : ℕ)

/-- The first part of `cycle`: the last stage gives its instruction to the result port. -/
def complete : Except PipelineFailure (SimdUnit × RegisterSet) :=
  match s.pipelineReg 0 with
  | none => .ok (s, exWb)
  | some inst => do
    let exWb ← exWb.moveIn inst
    if s.activeInstsInPipeline = 0 then .error .activeInsts
    else return (
      { s with
        pipelineReg := Function.update s.pipelineReg 0 none
        activeInstsInPipeline := s.activeInstsInPipeline - 1
        left := s.left ++ [(inst, now)] }, exWb)

/-- `move_warp` from a stage to the one before it. -/
def moveStage (stage : ℕ) (regs : DelayLine WarpInst) :
    Except PipelineFailure (DelayLine WarpInst) :=
  if (regs stage).isSome then .error .moveWarp
  else .ok (Function.update (Function.update regs stage (regs (stage + 1))) (stage + 1) none)

/-- The loop of `cycle`. -/
def advance : Except PipelineFailure SimdUnit :=
  if s.activeInstsInPipeline = 0 then .ok s
  else do
    let regs ← countUp moveStage (cfg.pipelineDepth - 1) s.pipelineReg
    return { s with pipelineReg := regs }

/-- The last part of `cycle`: the dispatch register gives its instruction to a stage when
`dispatch_delay` has counted to zero. -/
def dispatch : Except PipelineFailure SimdUnit :=
  match s.dispatchReg with
  | none => .ok s
  | some (inst, cycles) =>
    if 0 < cycles - 1 then .ok { s with dispatchReg := some (inst, cycles - 1) }
    else
      let startStage := inst.latency - inst.initiationInterval
      if inst.latency < inst.initiationInterval ∨
        cfg.pipelineDepth ≤ startStage then .error .startStage
      else if (s.pipelineReg startStage).isSome then .error .moveWarp
      else .ok { s with
        dispatchReg := none
        pipelineReg := s.pipelineReg.load startStage inst
        activeInstsInPipeline := s.activeInstsInPipeline + 1 }

/-- `cycle`. -/
def cycle : Except PipelineFailure (SimdUnit × RegisterSet) := do
  let (s, exWb) ← s.complete exWb now
  let s ← s.advance cfg
  let s ← s.dispatch cfg
  return ({ s with occupied := s.occupied.shiftRight }, exWb)

/-- `can_issue`. -/
def canIssue (inst : WarpInst) : Except PipelineFailure Bool :=
  if cfg.kind.accepts inst.op ∧ s.dispatchReg = none then do
    let busy ← s.occupied.test inst.latency
    return !busy
  else .ok false

/-- `issue`. -/
def issue (inst : WarpInst) : Except PipelineFailure SimdUnit :=
  if s.dispatchReg.isSome then .error .moveWarp
  else do
    let occupied ← s.occupied.set inst.latency
    let inst := { inst with dispatchCycle := now + 1 }
    return { s with
      dispatchReg := some (inst, inst.initiationInterval)
      occupied := occupied
      issued := s.issued ++ [inst] }

end SimdUnit

end GpuCalorie.Pipeline

/-!
## The functional units of a core

`shader_core_ctx::execute` lets every unit do its cycle, and then issues the instruction that
is ready at the unit's port if the unit can take it and a result bus is free in the cycle in
which the instruction is going to complete. `writeback` empties the EX_WB registers before.

What is ready at the ports is given cycle by cycle: `executeSystem` has the runs for all
sequences of instructions that are in range for the units they are offered to. The load-store
unit, which reserves no result bus and does not use the EX_WB registers, is left out.
-/

namespace GpuCalorie.Pipeline

open GpuCalorie.Math

/-- The units of a core and the width of its EX_WB stage. -/
structure ExecuteConfig where
  numFunctionUnits : ℕ
  unit : ℕ → SimdUnitConfig
  /-- `num_result_bus`, which is `pipe_widths[EX_WB]`. -/
  numResultBus : ℕ

/-- The part of `shader_core_ctx` that executes instructions. -/
structure ShaderCore where
  units : ℕ → SimdUnit
  resultBus : ℕ → Bitset
  exWb : RegisterSet
  now : ℕ

namespace ShaderCore

variable (cfg : ExecuteConfig) (s : ShaderCore)

/-- `test_res_bus`. It is called for instructions that `can_issue` has tested the same bit of
`occupied` for, so that there is such a bit. -/
def testResBus (latency : ℕ) : Option ℕ :=
  (List.range cfg.numResultBus).find? fun i => !s.resultBus i latency

/-- `writeback` clears the EX_WB registers one after the other until none is ready. -/
def writeback : ShaderCore :=
  { s with exWb := s.exWb.map fun _ => none }

/-- The first loop of `execute`. -/
def shiftResultBus : ShaderCore :=
  { s with resultBus := fun i => (s.resultBus i).shiftRight }

/-- The second part of the body of `execute`: the unit takes the instruction that is ready. -/
def issueTo (offers : ℕ → Option WarpInst) (n : ℕ) : Except PipelineFailure ShaderCore :=
  match offers n with
  | none => .ok s
  | some inst => do
    let canIssue ← (s.units n).canIssue (cfg.unit n) inst
    if canIssue then
      match s.testResBus cfg inst.latency with
      | none => return s
      | some resbus =>
        let bus ← (s.resultBus resbus).set inst.latency
        let unit ← (s.units n).issue s.now inst
        return { s with
          resultBus := Function.update s.resultBus resbus bus
          units := Function.update s.units n unit }
    else return s

/-- The body of `execute`. -/
def executeUnit (offers : ℕ → Option WarpInst) (n : ℕ) (s : ShaderCore) :
    Except PipelineFailure ShaderCore := do
  let (unit, exWb) ← (s.units n).cycle (cfg.unit n) s.exWb s.now
  issueTo cfg { s with units := Function.update s.units n unit, exWb := exWb } offers n

/-- `execute`. -/
def execute (offers : ℕ → Option WarpInst) : Except PipelineFailure ShaderCore :=
  countUp (executeUnit cfg offers) cfg.numFunctionUnits s.shiftResultBus

/-- `cycle`, as far as the units take part in it. -/
def cycle (offers : ℕ → Option WarpInst) : Except PipelineFailure ShaderCore := do
  let s ← s.writeback.execute cfg offers
  return { s with now := s.now + 1 }

/-- The instructions that are offered are in range. -/
def Enabled (_ : ShaderCore) (offers : ℕ → Option WarpInst) : Prop :=
  ∀ n < cfg.numFunctionUnits, ∀ inst ∈ offers n, (cfg.unit n).InRange inst

instance (s : ShaderCore) (offers : ℕ → Option WarpInst) : Decidable (s.Enabled cfg offers) :=
  inferInstanceAs (Decidable (∀ n < _, ∀ inst ∈ offers n, _))

/-- A core whose units are empty. -/
def created : ShaderCore where
  units _ := {}
  resultBus _ _ := false
  exWb := List.replicate cfg.numResultBus none
  now := 0

end ShaderCore

/-- The runs of a core's units. -/
def executeSystem (cfg : ExecuteConfig) :
    TransitionSystem (Except PipelineFailure ShaderCore) (ℕ → Option WarpInst) :=
  .ofExcept (· = ShaderCore.created cfg) (ShaderCore.Enabled cfg) (ShaderCore.cycle cfg)

end GpuCalorie.Pipeline
