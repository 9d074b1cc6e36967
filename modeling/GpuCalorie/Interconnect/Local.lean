/-
# The local interconnect

`LocalInterconnect` has a router for each subnet. With two subnets, cores push into the first
one and memory nodes into the second one. `Pop` takes the subnet from the node it is called
for, also where there is one subnet only.

`interconnectSystem` has all runs in which packets are pushed where `HasBuffer` holds.
-/

import GpuCalorie.Interconnect.Router
import GpuCalorie.Math.Transition

namespace GpuCalorie.Interconnect

open GpuCalorie.Math

/-- `LocalInterconnect`, with what has been pushed and popped so far, which nothing reads. -/
structure LocalInterconnect (α : Type) where
  net : ℕ → XbarRouter α
  pushed : List (Packet α) := []
  /-- The packets that were popped, and the nodes they were popped for. -/
  popped : List (ℕ × Packet α) := []

namespace LocalInterconnect

variable {α : Type} (cfg : InctConfig) (s : LocalInterconnect α)

/-- The subnet `Push` uses. -/
def pushSubnet (inputDeviceID : ℕ) : ℕ :=
  if cfg.subnets = 1 then 0 else if inputDeviceID < cfg.nShader then 0 else 1

/-- The subnet `Pop` uses. -/
def popSubnet (outputDeviceID : ℕ) : ℕ :=
  if outputDeviceID < cfg.nShader then 1 else 0

/-- `Push`. -/
def push (inputDeviceID outputDeviceID : ℕ) (data : α) : Except InctFailure (LocalInterconnect α) :=
  let subnet := pushSubnet cfg inputDeviceID
  if cfg.subnets ≤ subnet then .error .subnetIndex
  else if (s.net subnet).hasBufferIn cfg inputDeviceID 1 = false then .error .hasBuffer
  else do
    let router ← (s.net subnet).push cfg inputDeviceID outputDeviceID data
    return { s with
      net := Function.update s.net subnet router
      pushed := s.pushed ++ [⟨data, outputDeviceID, inputDeviceID⟩] }

/-- `Pop`. -/
def pop (outputDeviceID : ℕ) : Except InctFailure (Option (Packet α) × LocalInterconnect α) :=
  let subnet := popSubnet cfg outputDeviceID
  if cfg.subnets ≤ subnet then .error .subnetIndex
  else do
    let (packet, router) ← (s.net subnet).pop cfg outputDeviceID
    return (packet,
      { s with
        net := Function.update s.net subnet router
        popped := s.popped ++ packet.toList.map fun packet => (outputDeviceID, packet) })

/-- The loop of `Advance`. -/
def advanceSubnet (subnet : ℕ) (s : LocalInterconnect α) :
    Except InctFailure (LocalInterconnect α) := do
  let router ← (s.net subnet).advance cfg
  return { s with net := Function.update s.net subnet router }

/-- `Advance`. -/
def advance : Except InctFailure (LocalInterconnect α) :=
  countUp (advanceSubnet cfg) cfg.subnets s

/-- `HasBuffer`. -/
def hasBuffer (deviceID : ℕ) : Bool :=
  if 1 < cfg.subnets ∧ cfg.nShader ≤ deviceID then (s.net 1).hasBufferIn cfg deviceID 1
  else (s.net 0).hasBufferIn cfg deviceID 1

theorem hasBuffer_eq (deviceID : ℕ) :
    s.hasBuffer cfg deviceID = (s.net (pushSubnet cfg deviceID)).hasBufferIn cfg deviceID 1 := by
  rw [hasBuffer, pushSubnet]
  rcases cfg.subnets_cases with hone | htwo
  · simp [hone]
  · by_cases hshader : deviceID < cfg.nShader
    · simp [htwo, hshader]
    · simp [htwo, hshader, Nat.not_lt.mp hshader]

theorem pushSubnet_lt (inputDeviceID : ℕ) : pushSubnet cfg inputDeviceID < cfg.subnets := by
  rw [pushSubnet]
  rcases cfg.subnets_cases with hone | htwo
  · simp [hone]
  · rw [htwo]
    split_ifs <;> decide

/-! ## Runs -/

/-- The calls of an interconnect. -/
inductive Call (α : Type)
  | push (inputDeviceID outputDeviceID : ℕ) (data : α)
  | advance
  | pop (outputDeviceID : ℕ)

/-- Packets go from nodes to nodes, and are pushed where there is room. -/
def Enabled : Call α → Prop
  | .push inputDeviceID outputDeviceID _ =>
    inputDeviceID < cfg.totalNodes ∧ outputDeviceID < cfg.totalNodes ∧
      s.hasBuffer cfg inputDeviceID = true
  | .advance => True
  | .pop outputDeviceID => outputDeviceID < cfg.totalNodes

instance (s : LocalInterconnect α) (call : Call α) : Decidable (s.Enabled cfg call) :=
  match call with
  | .push _ _ _ => inferInstanceAs (Decidable (_ ∧ _ ∧ _))
  | .advance => .isTrue trivial
  | .pop _ => inferInstanceAs (Decidable (_ < _))

/-- The interconnect after a call. -/
def step : Call α → Except InctFailure (LocalInterconnect α)
  | .push inputDeviceID outputDeviceID data => s.push cfg inputDeviceID outputDeviceID data
  | .advance => s.advance cfg
  | .pop outputDeviceID => do
    let (_, s) ← s.pop cfg outputDeviceID
    return s

/-- `CreateInterconnect`. -/
def created : LocalInterconnect α := { net := fun _ => { grantCyclesCount := cfg.grantCycles } }

end LocalInterconnect

/-- The runs of an interconnect. -/
def interconnectSystem (α : Type) (cfg : InctConfig) :
    TransitionSystem (Except InctFailure (LocalInterconnect α)) (LocalInterconnect.Call α) :=
  .ofExcept (· = LocalInterconnect.created cfg) (LocalInterconnect.Enabled cfg)
    (LocalInterconnect.step cfg)

end GpuCalorie.Interconnect
