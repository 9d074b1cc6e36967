/-
# A crossbar router

`xbar_router` has a queue for each node on either side. `Advance` takes packets from input
queues and puts them into the output queues of their destinations, by one of two arbiters.
Both only do transfers: `Forwards` counts them, and all that is said of an arbiter is that it
transfers, and that it transfers something when it can.
-/

import GpuCalorie.Math.Loop
import GpuCalorie.Math.RoundRobin
import Mathlib.Algebra.BigOperators.Group.Finset.Basic
import Mathlib.Data.List.Basic
import Mathlib.Logic.Function.Basic

namespace GpuCalorie.Interconnect

open GpuCalorie.Math

/-- `Arbiteration_type`. -/
inductive ArbitrationType
  | naiveRR
  | iSLIP
  deriving DecidableEq, Repr

/-- `inct_config`, with the numbers of nodes of `CreateInterconnect`. There are one or two
subnets. -/
structure InctConfig where
  nShader : ℕ
  nMem : ℕ
  inBufferLimit : ℕ
  outBufferLimit : ℕ
  subnets : ℕ
  arbiterAlgo : ArbitrationType
  grantCycles : UInt32
  subnets_cases : subnets = 1 ∨ subnets = 2

/-- `total_nodes`. -/
def InctConfig.totalNodes (cfg : InctConfig) : ℕ := cfg.nShader + cfg.nMem

/-- The assertions of the interconnect, and its uses of an index that is out of range. -/
inductive InctFailure
  /-- `input_deviceID < total_nodes` -/
  | inputDevice
  /-- `ouput_deviceID < total_nodes` -/
  | outputDevice
  /-- `net[subnet]->Has_Buffer_In(input_deviceID, 1)` -/
  | hasBuffer
  /-- There is no such output buffer. -/
  | bufferIndex
  /-- There is no such subnet. -/
  | subnetIndex
  deriving DecidableEq, Repr

/-- `Packet`. -/
structure Packet (α : Type) where
  data : α
  outputDeviceID : ℕ
  /-- The node that pushed it, which nothing reads. -/
  inputDeviceID : ℕ
  deriving DecidableEq

/-- `xbar_router`, without statistics. -/
structure XbarRouter (α : Type) where
  inBuffers : ℕ → List (Packet α) := fun _ => []
  outBuffers : ℕ → List (Packet α) := fun _ => []
  nextNode : ℕ → ℕ := fun _ => 0
  nextNodeId : ℕ := 0
  grantCyclesCount : UInt32

namespace XbarRouter

variable {α : Type} (cfg : InctConfig) (r : XbarRouter α)

/-- `Push`. -/
def push (inputDeviceID outputDeviceID : ℕ) (data : α) : Except InctFailure (XbarRouter α) :=
  if cfg.totalNodes ≤ inputDeviceID then .error .inputDevice
  else
    .ok { r with
      inBuffers := Function.update r.inBuffers inputDeviceID
        (r.inBuffers inputDeviceID ++ [⟨data, outputDeviceID, inputDeviceID⟩]) }

/-- `Pop`. -/
def pop (outputDeviceID : ℕ) : Except InctFailure (Option (Packet α) × XbarRouter α) :=
  if cfg.totalNodes ≤ outputDeviceID then .error .outputDevice
  else
    match r.outBuffers outputDeviceID with
    | [] => .ok (none, r)
    | packet :: rest =>
      .ok (some packet,
        { r with outBuffers := Function.update r.outBuffers outputDeviceID rest })

/-- `Has_Buffer_In`. -/
def hasBufferIn (inputDeviceID size : ℕ) : Bool :=
  (r.inBuffers inputDeviceID).length + size ≤ cfg.inBufferLimit

/-- `Has_Buffer_Out`. -/
def hasBufferOut (outputDeviceID size : ℕ) : Bool :=
  (r.outBuffers outputDeviceID).length + size ≤ cfg.outBufferLimit

/-- The first packet of an input buffer moves to the output buffer of its destination. -/
def transfer (node : ℕ) (packet : Packet α) (rest : List (Packet α)) : XbarRouter α :=
  { r with
    outBuffers := Function.update r.outBuffers packet.outputDeviceID
      (r.outBuffers packet.outputDeviceID ++ [packet])
    inBuffers := Function.update r.inBuffers node rest }

@[simp]
theorem inBuffers_transfer (node : ℕ) (packet : Packet α) (rest : List (Packet α)) :
    (r.transfer node packet rest).inBuffers = Function.update r.inBuffers node rest := rfl

@[simp]
theorem outBuffers_transfer (node : ℕ) (packet : Packet α) (rest : List (Packet α)) :
    (r.transfer node packet rest).outBuffers =
      Function.update r.outBuffers packet.outputDeviceID
        (r.outBuffers packet.outputDeviceID ++ [packet]) := rfl

/-! ## The arbiters -/

/-- A round of the loop of `RR_Advance`, with the flags `issued`. -/
def rrRound (start i : ℕ) (s : XbarRouter α × (ℕ → Bool)) :
    Except InctFailure (XbarRouter α × (ℕ → Bool)) :=
  let node := (i + start) % cfg.totalNodes
  match s.1.inBuffers node with
  | [] => .ok s
  | packet :: rest =>
    if cfg.totalNodes ≤ packet.outputDeviceID then .error .bufferIndex
    else if s.1.hasBufferOut cfg packet.outputDeviceID 1 && !s.2 packet.outputDeviceID then
      .ok (s.1.transfer node packet rest, Function.update s.2 packet.outputDeviceID true)
    else .ok s

/-- `RR_Advance`. -/
def rrAdvance : Except InctFailure (XbarRouter α) := do
  let (r', _) ← countUp (rrRound cfg r.nextNodeId) cfg.totalNodes (r, fun _ => false)
  return { r' with nextNodeId := (r.nextNodeId + 1) % cfg.totalNodes }

/-- The node an output takes a packet from in `iSLIP_Advance`: the first one, from its pointer
on, whose first packet is for it. -/
def islipGrant (output : ℕ) : Option ℕ :=
  ((List.range cfg.totalNodes).map fun j => (j + r.nextNode output) % cfg.totalNodes).find?
    fun node => (r.inBuffers node).head?.any fun packet => packet.outputDeviceID = output

/-- A round of the loop over the outputs in `iSLIP_Advance`. -/
def islipRound (r : XbarRouter α) (output : ℕ) : XbarRouter α :=
  if r.hasBufferOut cfg output 1 then
    match r.islipGrant cfg output with
    | none => r
    | some node =>
      match r.inBuffers node with
      | [] => r
      | packet :: rest =>
        let r := r.transfer node packet rest
        if r.grantCyclesCount = 1 then
          { r with nextNode := Function.update r.nextNode output ((node + 1) % cfg.totalNodes) }
        else r
  else r

/-- `iSLIP_Advance`. -/
def islipAdvance : XbarRouter α :=
  let active := (List.range cfg.totalNodes).any fun node => !(r.inBuffers node).isEmpty
  let r := (List.range cfg.totalNodes).foldl (islipRound cfg) r
  if active then
    { r with
      grantCyclesCount :=
        if r.grantCyclesCount = 1 then cfg.grantCycles else r.grantCyclesCount - 1 }
  else r

/-- `Advance`. -/
def advance : Except InctFailure (XbarRouter α) :=
  match cfg.arbiterAlgo with
  | .naiveRR => r.rrAdvance cfg
  | .iSLIP => .ok (r.islipAdvance cfg)

/-! ## Transfers -/

variable {cfg r} {r' r'' : XbarRouter α} {n : ℕ}

/-- One state of the buffers comes from another one by a number of transfers. -/
inductive Forwards (cfg : InctConfig) (r : XbarRouter α) : ℕ → XbarRouter α → Prop
  | refl : Forwards cfg r 0 r
  | transfer {n node : ℕ} {r' : XbarRouter α} {packet : Packet α} {rest : List (Packet α)}
      (prior : Forwards cfg r n r') (first : r'.inBuffers node = packet :: rest)
      (node_lt : node < cfg.totalNodes) (output_lt : packet.outputDeviceID < cfg.totalNodes)
      (room : r'.hasBufferOut cfg packet.outputDeviceID 1 = true) :
      Forwards cfg r (n + 1) (r'.transfer node packet rest)
  | pointers {n : ℕ} {r' r'' : XbarRouter α} (prior : Forwards cfg r n r')
      (inBuffers : r''.inBuffers = r'.inBuffers) (outBuffers : r''.outBuffers = r'.outBuffers) :
      Forwards cfg r n r''

theorem Forwards.buffers_of_zero (h : Forwards cfg r n r') (hn : n = 0) :
    r'.inBuffers = r.inBuffers ∧ r'.outBuffers = r.outBuffers := by
  induction h with
  | refl => exact ⟨rfl, rfl⟩
  | transfer => exact absurd hn (Nat.succ_ne_zero _)
  | pointers _ hin hout ih => exact ⟨hin.trans (ih hn).1, hout.trans (ih hn).2⟩

/-- The first packet of a node cannot be transferred. -/
def Blocked (cfg : InctConfig) (r : XbarRouter α) (node : ℕ) : Prop :=
  ∀ packet ∈ (r.inBuffers node).head?, r.hasBufferOut cfg packet.outputDeviceID 1 = false

/-- Destinations of packets that wait are nodes. -/
def OutputsExist (cfg : InctConfig) (r : XbarRouter α) : Prop :=
  ∀ node, ∀ packet ∈ r.inBuffers node, packet.outputDeviceID < cfg.totalNodes

theorem OutputsExist.forwards (h : r.OutputsExist cfg) (hr : Forwards cfg r n r') :
    r'.OutputsExist cfg := by
  induction hr with
  | refl => exact h
  | @transfer n node r' packet rest _ first _ _ _ ih =>
      intro other p hp
      by_cases hnode : other = node
      · rw [hnode] at hp
        have hrest : p ∈ rest := by simpa [XbarRouter.transfer] using hp
        exact ih node p (by rw [first]; exact List.mem_cons_of_mem packet hrest)
      · exact ih other p (by simpa [XbarRouter.transfer, hnode] using hp)
  | pointers _ hin _ ih =>
      intro node p hp
      rw [hin] at hp
      exact ih node p hp

theorem exists_rotation {total node : ℕ} (start : ℕ) (hnode : node < total) :
    ∃ i < total, (i + start) % total = node := by
  have hpos : 0 < total := Nat.zero_lt_of_lt hnode
  refine ⟨(node + (total - start % total)) % total, Nat.mod_lt _ hpos, ?_⟩
  have hstart := Nat.mod_lt start hpos
  have hsum : node + (total - start % total) + start = node + total * (1 + start / total) := by
    have hdiv := Nat.div_add_mod start total
    rw [Nat.mul_add, Nat.mul_one]
    omega
  rw [Nat.mod_add_mod, hsum, Nat.add_mul_mod_self_left, Nat.mod_eq_of_lt hnode]

/-! ## What the arbiters do -/

theorem rrRound_spec (houtputs : r.OutputsExist cfg) (start : ℕ) {i : ℕ}
    {s : XbarRouter α × (ℕ → Bool)}
    (hi : i < cfg.totalNodes) (hs : Forwards cfg r n s.1) :
    ∃ t, rrRound cfg start i s = .ok t ∧
      ((t = s ∧ (n = 0 → s.2 = (fun _ => false) → r.Blocked cfg ((i + start) % cfg.totalNodes))) ∨
        Forwards cfg r (n + 1) t.1) := by
  have hnode : (i + start) % cfg.totalNodes < cfg.totalNodes := Nat.mod_lt _ (Nat.zero_lt_of_lt hi)
  rw [rrRound]
  cases hfirst : s.1.inBuffers ((i + start) % cfg.totalNodes) with
  | nil =>
      refine ⟨s, rfl, .inl ⟨rfl, fun hn _ packet hmem => ?_⟩⟩
      rw [← (hs.buffers_of_zero hn).1, hfirst] at hmem
      exact nomatch hmem
  | cons packet rest =>
      have houtput : packet.outputDeviceID < cfg.totalNodes :=
        houtputs.forwards hs _ packet (by rw [hfirst]; exact List.mem_cons_self)
      simp only [Nat.not_le.mpr houtput, if_false]
      by_cases hroom : (s.1.hasBufferOut cfg packet.outputDeviceID 1 &&
        !s.2 packet.outputDeviceID) = true
      · rw [if_pos hroom]
        exact ⟨_, rfl, .inr (hs.transfer hfirst hnode houtput (Bool.and_eq_true_iff.mp hroom).1)⟩
      · rw [if_neg hroom]
        refine ⟨s, rfl, .inl ⟨rfl, fun hn hissued packet' hmem => ?_⟩⟩
        obtain ⟨hin, hout⟩ := hs.buffers_of_zero hn
        rw [← hin, hfirst] at hmem
        cases hmem
        rw [hissued] at hroom
        have hfull : s.1.hasBufferOut cfg packet.outputDeviceID 1 = false := by simpa using hroom
        rwa [hasBufferOut, hout] at hfull

theorem rrAdvance_spec (houtputs : r.OutputsExist cfg) :
    ∃ r' n, r.rrAdvance cfg = .ok r' ∧ Forwards cfg r n r' ∧
      (n = 0 → ∀ node < cfg.totalNodes, r.Blocked cfg node) := by
  -- the flags are set by transfers only
  let I (k : ℕ) (s : XbarRouter α × (ℕ → Bool)) : Prop :=
    ∃ n, Forwards cfg r n s.1 ∧ (n = 0 → s.2 = (fun _ => false) ∧
      ∀ i < k, r.Blocked cfg ((i + r.nextNodeId) % cfg.totalNodes))
  have hround : ∀ k < cfg.totalNodes, ∀ s, I k s →
      ∃ t, rrRound cfg r.nextNodeId k s = .ok t ∧ I (k + 1) t := by
    rintro k hk s ⟨n, hforwards, hzero⟩
    obtain ⟨t, ht, ⟨rfl, hblocked⟩ | hmore⟩ := rrRound_spec houtputs r.nextNodeId hk hforwards
    · refine ⟨t, ht, n, hforwards, fun hn => ⟨(hzero hn).1, fun i hi => ?_⟩⟩
      rcases Nat.lt_succ_iff_lt_or_eq.mp hi with hlt | rfl
      · exact (hzero hn).2 i hlt
      · exact hblocked hn (hzero hn).1
    · exact ⟨t, ht, n + 1, hmore, fun hn => absurd hn (Nat.succ_ne_zero n)⟩
  obtain ⟨t, ht, n, hforwards, hzero⟩ := countUp_ok cfg.totalNodes hround
    (show I 0 (r, fun _ => false) from ⟨0, .refl, fun _ => ⟨rfl, nofun⟩⟩)
  refine ⟨{ t.1 with nextNodeId := (r.nextNodeId + 1) % cfg.totalNodes }, n, ?_,
    hforwards.pointers rfl rfl, fun hn node hnode => ?_⟩
  · rw [rrAdvance, ht]
    rfl
  · obtain ⟨i, hi, rfl⟩ := exists_rotation r.nextNodeId hnode
    exact (hzero hn).2 i hi

theorem islipGrant_some {output node : ℕ} (h : r.islipGrant cfg output = some node) :
    node < cfg.totalNodes ∧ ∃ packet ∈ (r.inBuffers node).head?,
      packet.outputDeviceID = output := by
  have hmem := List.mem_of_find?_eq_some h
  have hhead := List.find?_some h
  obtain ⟨j, hj, rfl⟩ := List.mem_map.mp hmem
  refine ⟨Nat.mod_lt _ (Nat.zero_lt_of_lt (List.mem_range.mp hj)), ?_⟩
  obtain ⟨packet, hpacket, houtput⟩ := (Option.any_eq_true _ _).mp hhead
  exact ⟨packet, hpacket, of_decide_eq_true houtput⟩

theorem islipGrant_none {output node : ℕ} (h : r.islipGrant cfg output = none)
    (hnode : node < cfg.totalNodes) :
    ∀ packet ∈ (r.inBuffers node).head?, packet.outputDeviceID ≠ output := by
  intro packet hpacket houtput
  obtain ⟨j, hj, hrotation⟩ := exists_rotation (r.nextNode output) hnode
  have hno := List.find?_eq_none.mp h node
    (List.mem_map.mpr ⟨j, List.mem_range.mpr hj, hrotation⟩)
  apply hno
  rw [Option.mem_def.mp hpacket]
  exact decide_eq_true houtput

theorem islipRound_spec {output : ℕ} (houtput : output < cfg.totalNodes)
    (hr : Forwards cfg r n r') :
    ((islipRound cfg r' output = r' ∧ (n = 0 → r.hasBufferOut cfg output 1 = true →
        ∀ node < cfg.totalNodes, ∀ packet ∈ (r.inBuffers node).head?,
          packet.outputDeviceID ≠ output)) ∨
      Forwards cfg r (n + 1) (islipRound cfg r' output)) := by
  rw [islipRound]
  by_cases hroom : r'.hasBufferOut cfg output 1 = true
  · rw [if_pos hroom]
    cases hgrant : r'.islipGrant cfg output with
    | none =>
        refine .inl ⟨rfl, fun hn _ node hnode => ?_⟩
        rw [← (hr.buffers_of_zero hn).1]
        exact islipGrant_none hgrant hnode
    | some node =>
        obtain ⟨hnode, packet, hpacket, rfl⟩ := islipGrant_some hgrant
        cases hfirst : r'.inBuffers node with
        | nil =>
            rw [hfirst] at hpacket
            exact nomatch hpacket
        | cons first rest =>
            rw [hfirst] at hpacket
            cases hpacket
            have hmoved := hr.transfer hfirst hnode houtput hroom
            right
            simp only [hfirst]
            split
            · exact hmoved.pointers rfl rfl
            · exact hmoved
  · rw [if_neg hroom]
    refine .inl ⟨rfl, fun hn hyes => absurd ?_ hroom⟩
    rw [hasBufferOut, (hr.buffers_of_zero hn).2]
    exact hyes

theorem islipAdvance_spec (houtputs : r.OutputsExist cfg) :
    ∃ n, Forwards cfg r n (r.islipAdvance cfg) ∧
      (n = 0 → ∀ node < cfg.totalNodes, r.Blocked cfg node) := by
  have hrounds : ∀ outputs : List ℕ, (∀ output ∈ outputs, output < cfg.totalNodes) →
      ∀ r' n, Forwards cfg r n r' → ∃ m, n ≤ m ∧
        Forwards cfg r m (outputs.foldl (islipRound cfg) r') ∧
        (m = 0 → ∀ output ∈ outputs, r.hasBufferOut cfg output 1 = true →
          ∀ node < cfg.totalNodes, ∀ packet ∈ (r.inBuffers node).head?,
            packet.outputDeviceID ≠ output) := by
    intro outputs
    induction outputs with
    | nil => exact fun _ r' n hr => ⟨n, le_rfl, hr, fun _ _ hmem => absurd hmem List.not_mem_nil⟩
    | cons output rest ih =>
        intro hlt r' n hr
        have hrest : ∀ o ∈ rest, o < cfg.totalNodes := fun o ho => hlt o (List.mem_cons_of_mem _ ho)
        rw [List.foldl_cons]
        rcases islipRound_spec (hlt output List.mem_cons_self) hr with ⟨heq, hnone⟩ | hmore
        · rw [heq]
          obtain ⟨m, hle, hforwards, hzero⟩ := ih hrest r' n hr
          refine ⟨m, hle, hforwards, fun hm o ho => ?_⟩
          rcases List.mem_cons.mp ho with rfl | ho
          · exact hnone (Nat.le_zero.mp (hm ▸ hle))
          · exact hzero hm o ho
        · obtain ⟨m, hle, hforwards, -⟩ := ih hrest _ (n + 1) hmore
          exact ⟨m, (Nat.le_succ n).trans hle, hforwards, fun hm => by omega⟩
  obtain ⟨m, -, hforwards, hzero⟩ := hrounds (List.range cfg.totalNodes)
    (fun _ => List.mem_range.mp) r 0 .refl
  refine ⟨m, ?_, fun hm node hnode packet hpacket => ?_⟩
  · rw [islipAdvance]
    split
    · exact hforwards.pointers rfl rfl
    · exact hforwards
  · have hlt := houtputs node packet (List.mem_of_mem_head? hpacket)
    by_contra hroom
    exact hzero hm packet.outputDeviceID (List.mem_range.mpr hlt) (by simpa using hroom) node hnode
      packet hpacket rfl

theorem advance_spec (houtputs : r.OutputsExist cfg) :
    ∃ r' n, r.advance cfg = .ok r' ∧ Forwards cfg r n r' ∧
      (n = 0 → ∀ node < cfg.totalNodes, r.Blocked cfg node) := by
  rw [advance]
  cases cfg.arbiterAlgo with
  | naiveRR => exact rrAdvance_spec houtputs
  | iSLIP =>
      obtain ⟨n, hforwards, hzero⟩ := islipAdvance_spec houtputs
      exact ⟨_, n, rfl, hforwards, hzero⟩

/-! ## Turns -/

/-- The router when `iSLIP_Advance` comes to an output. -/
def atOutput (cfg : InctConfig) (r : XbarRouter α) (output : ℕ) : XbarRouter α :=
  (List.range output).foldl (islipRound cfg) r

/-- The node whose packet goes to an output in `iSLIP_Advance`. -/
def islipServed (cfg : InctConfig) (r : XbarRouter α) (output : ℕ) : Option ℕ :=
  if (atOutput cfg r output).hasBufferOut cfg output 1 then
    (atOutput cfg r output).islipGrant cfg output
  else none

/-- What happens to a router: `iSLIP_Advance`, and any change of its buffers. -/
inductive IslipAction (α : Type)
  | advance
  | buffers (inBuffers outBuffers : ℕ → List (Packet α))

/-- A router whose pointers move with each grant. -/
def MovingRouter (α : Type) : Type := { r : XbarRouter α // r.grantCyclesCount = 1 }

theorem islipRound_keeps (cfg : InctConfig) (r : XbarRouter α) (output : ℕ) :
    (islipRound cfg r output).grantCyclesCount = r.grantCyclesCount ∧
      ∀ o ≠ output, (islipRound cfg r output).nextNode o = r.nextNode o := by
  rw [islipRound]
  split_ifs
  · cases r.islipGrant cfg output with
    | none => exact ⟨rfl, fun _ _ => rfl⟩
    | some node =>
        cases hfirst : r.inBuffers node with
        | nil => simp [hfirst]
        | cons packet rest =>
            simp only [hfirst]
            split_ifs
            · exact ⟨rfl, fun _ ho => Function.update_of_ne ho _ _⟩
            · exact ⟨rfl, fun _ _ => rfl⟩
  · exact ⟨rfl, fun _ _ => rfl⟩

theorem foldl_islipRound_keeps (cfg : InctConfig) {output : ℕ} {outputs : List ℕ}
    (hnot : output ∉ outputs)
    (r : XbarRouter α) : (outputs.foldl (islipRound cfg) r).grantCyclesCount = r.grantCyclesCount ∧
      (outputs.foldl (islipRound cfg) r).nextNode output = r.nextNode output := by
  induction outputs generalizing r with
  | nil => exact ⟨rfl, rfl⟩
  | cons o outputs ih =>
      obtain ⟨hne, hnot⟩ := not_or.mp (mt List.mem_cons.mpr hnot)
      obtain ⟨hcount, hnext⟩ := ih hnot (islipRound cfg r o)
      have hround := islipRound_keeps cfg r o
      exact ⟨hcount.trans hround.1, hnext.trans (hround.2 output hne)⟩

theorem nextNode_islipRound (hone : r.grantCyclesCount = 1) (output : ℕ) :
    (islipRound cfg r output).nextNode output =
      match if r.hasBufferOut cfg output 1 then r.islipGrant cfg output else none with
      | none => r.nextNode output
      | some node => (node + 1) % cfg.totalNodes := by
  rw [islipRound]
  split_ifs
  · cases hgrant : r.islipGrant cfg output with
    | none => rfl
    | some node =>
        obtain ⟨-, packet, hpacket, -⟩ := islipGrant_some hgrant
        cases hfirst : r.inBuffers node with
        | nil =>
            rw [hfirst] at hpacket
            cases hpacket
        | cons first rest =>
            have hone' : (r.transfer node first rest).grantCyclesCount = 1 := hone
            simp only [hfirst, if_pos hone', Function.update_self]
  · rfl

theorem islipAdvance_keeps {output : ℕ} (hgrant : cfg.grantCycles = 1)
    (hone : r.grantCyclesCount = 1) (houtput : output < cfg.totalNodes) :
    (r.islipAdvance cfg).grantCyclesCount = 1 ∧ (r.islipAdvance cfg).nextNode output =
      match islipServed cfg r output with
      | none => r.nextNode output
      | some node => (node + 1) % cfg.totalNodes := by
  obtain ⟨k, hk⟩ : ∃ k, cfg.totalNodes = output + (k + 1) :=
    ⟨cfg.totalNodes - output - 1, by omega⟩
  have hsplit : List.range cfg.totalNodes =
      List.range output ++ output :: (List.range k).map (output + Nat.succ ·) := by
    rw [hk, List.range_add, List.range_succ_eq_map, List.map_cons, List.map_map]
    rfl
  have hnodup := hsplit ▸ List.nodup_range (n := cfg.totalNodes)
  have hbefore := foldl_islipRound_keeps cfg (fun hmem =>
    absurd (List.mem_range.mp hmem) (Nat.lt_irrefl output)) r
  have hafter := foldl_islipRound_keeps cfg
    (List.nodup_cons.mp (List.nodup_append.mp hnodup).2.1).1
    (islipRound cfg (atOutput cfg r output) output)
  have hround := islipRound_keeps cfg (atOutput cfg r output) output
  have hcount : (atOutput cfg r output).grantCyclesCount = 1 := hbefore.1.trans hone
  have hlast : ((List.range cfg.totalNodes).foldl (islipRound cfg) r).grantCyclesCount = 1 ∧
      ((List.range cfg.totalNodes).foldl (islipRound cfg) r).nextNode output =
        match islipServed cfg r output with
        | none => r.nextNode output
        | some node => (node + 1) % cfg.totalNodes := by
    rw [hsplit, List.foldl_append, List.foldl_cons]
    refine ⟨(hafter.1.trans hround.1).trans hcount, hafter.2.trans ?_⟩
    rw [nextNode_islipRound hcount, islipServed]
    cases hserved : if (atOutput cfg r output).hasBufferOut cfg output 1 then
        (atOutput cfg r output).islipGrant cfg output else none with
    | none => exact hbefore.2
    | some node => rfl
  rw [islipAdvance]
  split_ifs with hactive hcount'
  · exact ⟨hgrant, hlast.2⟩
  · exact absurd hlast.1 hcount'
  · exact hlast

/-- The arbiter of an output. A node may be served when its first packet is for the output. -/
def islipTurns (cfg : InctConfig) (hgrant : cfg.grantCycles = 1) (output : ℕ)
    (houtput : output < cfg.totalNodes) : RoundRobin.Arbiter (MovingRouter α) (IslipAction α) where
  step
    | r, .advance =>
        some ⟨r.1.islipAdvance cfg, (islipAdvance_keeps hgrant r.2 houtput).1⟩
    | r, .buffers inBuffers outBuffers =>
        some ⟨{ r.1 with inBuffers := inBuffers, outBuffers := outBuffers }, r.2⟩
  pointer r := r.1.nextNode output
  served
    | r, .advance => islipServed cfg r.1 output
    | _, .buffers _ _ => none
  may
    | r, .advance, node => ((atOutput cfg r.1 output).inBuffers node).head?.any
        (fun packet => packet.outputDeviceID = output) = true
    | _, .buffers _ _, _ => False

theorem islipTurns_fair {output : ℕ} (hgrant : cfg.grantCycles = 1)
    (houtput : output < cfg.totalNodes) :
    (islipTurns cfg hgrant output houtput : RoundRobin.Arbiter (MovingRouter α) _).Fair
      cfg.totalNodes := by
  constructor
  case serves =>
    intro r action r' node hstep hserved
    cases action with
    | buffers inBuffers outBuffers => cases hserved
    | advance =>
        cases hstep
        have hnext := (islipAdvance_keeps hgrant r.2 houtput).2
        change islipServed cfg r.1 output = some node at hserved
        rw [hserved] at hnext
        rw [islipServed] at hserved
        split_ifs at hserved
        have hserves := RoundRobin.serves_of_find hserved
        rw [atOutput, (foldl_islipRound_keeps cfg (fun hmem =>
          absurd (List.mem_range.mp hmem) (Nat.lt_irrefl output)) r.1).2] at hserves
        exact ⟨hserves, (congrArg (· % _) hnext).trans (Nat.mod_mod _ _)⟩
  case keeps =>
    intro r action r' hstep hserved
    cases action with
    | buffers inBuffers outBuffers =>
        cases hstep
        rfl
    | advance =>
        cases hstep
        have hnext := (islipAdvance_keeps hgrant r.2 houtput).2
        change islipServed cfg r.1 output = none at hserved
        rwa [hserved] at hnext

/-- While the first packet of a node is for an output whenever that takes a packet, and is not
taken, the output takes no two packets from another node. -/
theorem islip_overtaken_once {output node : ℕ} (hgrant : cfg.grantCycles = 1)
    (houtput : output < cfg.totalNodes) (hnode : node < cfg.totalNodes) (r : MovingRouter α)
    (actions : List (IslipAction α))
    (hwaits : (islipTurns cfg hgrant output houtput).Waits node r actions)
    (hnot : node ∉ (islipTurns cfg hgrant output houtput).servedIn r actions) :
    ((islipTurns cfg hgrant output houtput).servedIn r actions).Nodup ∧
      ((islipTurns cfg hgrant output houtput).servedIn r actions).length < cfg.totalNodes :=
  ⟨RoundRobin.Arbiter.nodup_servedIn (islipTurns_fair hgrant houtput) hnode hwaits hnot,
    RoundRobin.Arbiter.length_servedIn_lt (islipTurns_fair hgrant houtput) hnode hwaits hnot⟩

instance (hgrant : cfg.grantCycles = 1) (output : ℕ) (houtput : output < cfg.totalNodes)
    (r : MovingRouter α) (action : IslipAction α) (node : ℕ) :
    Decidable ((islipTurns cfg hgrant output houtput).may r action node) :=
  match action with
  | .advance => inferInstanceAs (Decidable (_ = true))
  | .buffers _ _ => isFalse id

/-- Three nodes. -/
def threeNodes (subnets : ℕ) (h : subnets = 1 ∨ subnets = 2) : InctConfig where
  nShader := 2
  nMem := 1
  inBufferLimit := 8
  outBufferLimit := 8
  subnets := subnets
  arbiterAlgo := .iSLIP
  grantCycles := 1
  subnets_cases := h

/-- All nodes have packets for the last one. -/
def contended : MovingRouter Unit :=
  ⟨{ inBuffers := fun node => [⟨(), 2, node⟩, ⟨(), 2, node⟩], grantCyclesCount := 1 }, rfl⟩

/-- The last node takes a packet from each of the first two. -/
theorem islip_overtaken_once_run :
    (islipTurns (threeNodes 1 (.inl rfl)) (by decide) 2 (by decide)).servedIn contended
      [.advance, .advance] = [0, 1] ∧ [0, 1].Nodup ∧ [0, 1].length < 3 := by
  have hserved : (islipTurns (threeNodes 1 (.inl rfl)) (by decide) 2 (by decide)).servedIn
      contended [.advance, .advance] = [0, 1] := by decide
  have h := @islip_overtaken_once Unit (threeNodes 1 (.inl rfl)) 2 2 (by decide) (by decide)
    (by decide) contended [.advance, .advance] (by decide) (by rw [hserved]; decide)
  rw [hserved] at h
  exact ⟨hserved, h⟩

end XbarRouter

end GpuCalorie.Interconnect
