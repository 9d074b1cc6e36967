/-
# Delivery of packets

Where every packet is pushed into the subnet it will be popped from, the packets between two
nodes are popped in the order they were pushed, and those that were not popped are under
way in the two buffers on their route, in order. With room in the output buffers, advancing
and popping delivers all of them.
-/

import GpuCalorie.Interconnect.Local
import Mathlib.Algebra.BigOperators.Ring.Finset
import Mathlib.Algebra.Order.BigOperators.Group.Finset

namespace GpuCalorie.Interconnect

open GpuCalorie.Math

variable {α : Type}

/-- The packets from one node to another one. -/
def between (input output : ℕ) (packets : List (Packet α)) : List (Packet α) :=
  packets.filter fun packet => packet.inputDeviceID = input ∧ packet.outputDeviceID = output

@[simp]
theorem between_append (input output : ℕ) (first second : List (Packet α)) :
    between input output (first ++ second) = between input output first ++
      between input output second :=
  List.filter_append ..

theorem between_cons (input output : ℕ) (packet : Packet α) (rest : List (Packet α)) :
    between input output (packet :: rest) = between input output [packet] ++
      between input output rest :=
  between_append input output [packet] rest

theorem between_singleton_of_ne {input output : ℕ} {packet : Packet α}
    (h : packet.inputDeviceID ≠ input ∨ packet.outputDeviceID ≠ output) :
    between input output [packet] = [] := by
  have hboth : ¬ (packet.inputDeviceID = input ∧ packet.outputDeviceID = output) :=
    fun hboth => h.elim (· hboth.1) (· hboth.2)
  rw [between, List.filter_singleton, decide_eq_false hboth]
  rfl

theorem sum_length_update {total node : ℕ} (buffers : ℕ → List (Packet α)) (hnode : node < total)
    (buffer : List (Packet α)) :
    ∑ i ∈ Finset.range total, (Function.update buffers node buffer i).length +
      (buffers node).length =
      ∑ i ∈ Finset.range total, (buffers i).length + buffer.length := by
  have hmem := Finset.mem_range.mpr hnode
  have hothers : ∑ i ∈ (Finset.range total).erase node,
    (Function.update buffers node buffer i).length =
      ∑ i ∈ (Finset.range total).erase node, (buffers i).length :=
    Finset.sum_congr rfl fun i hi => by rw [Function.update_of_ne (Finset.ne_of_mem_erase hi)]
  rw [← Finset.add_sum_erase _ _ hmem, ← Finset.add_sum_erase _ (fun i => (buffers i).length) hmem,
    Function.update_self, hothers]
  omega

namespace XbarRouter

variable {cfg : InctConfig} {r r' : XbarRouter α} {subnet n : ℕ}

/-- The packets from one node to another one that are in a router. -/
def underway (r : XbarRouter α) (input output : ℕ) : List (Packet α) :=
  between input output (r.outBuffers output ++ r.inBuffers input)

/-- How much is left to do: a packet is to be transferred, and then popped. -/
def load (cfg : InctConfig) (r : XbarRouter α) : ℕ :=
  ∑ node ∈ Finset.range cfg.totalNodes, (2 * (r.inBuffers node).length + (r.outBuffers node).length)

/-- Packets are where they belong, and no buffer has more than it may. -/
structure Invariant (cfg : InctConfig) (subnet : ℕ) (r : XbarRouter α) : Prop where
  source : ∀ node, ∀ packet ∈ r.inBuffers node, packet.inputDeviceID = node
  source_lt : ∀ node, r.inBuffers node ≠ [] → node < cfg.totalNodes
  outputs : r.OutputsExist cfg
  inSubnet : ∀ node, ∀ packet ∈ r.inBuffers node,
    LocalInterconnect.popSubnet cfg packet.outputDeviceID = subnet ∧ subnet < cfg.subnets
  target : ∀ node, ∀ packet ∈ r.outBuffers node, packet.outputDeviceID = node ∧
    node < cfg.totalNodes ∧ LocalInterconnect.popSubnet cfg node = subnet ∧ subnet < cfg.subnets
  inBuffers : ∀ node, (r.inBuffers node).length ≤ cfg.inBufferLimit
  outBuffers : ∀ node, (r.outBuffers node).length ≤ cfg.outBufferLimit

section Transfer

variable {node : ℕ} {packet : Packet α} {rest : List (Packet α)}

theorem underway_transfer (hfirst : r.inBuffers node = packet :: rest)
    (hsource : packet.inputDeviceID = node) (input output : ℕ) :
    (r.transfer node packet rest).underway input output = r.underway input output := by
  rw [underway, underway, inBuffers_transfer, outBuffers_transfer]
  by_cases hinput : input = node
  · subst hinput
    by_cases houtput : output = packet.outputDeviceID
    · rw [houtput, Function.update_self, Function.update_self, hfirst, List.append_assoc,
        List.singleton_append]
    · rw [Function.update_of_ne houtput, Function.update_self, hfirst, between_append,
        between_append,
        between_cons, between_singleton_of_ne (.inr (Ne.symm houtput)), List.nil_append]
  · by_cases houtput : output = packet.outputDeviceID
    · have hother : packet.inputDeviceID ≠ input := by rw [hsource]; exact Ne.symm hinput
      rw [houtput, Function.update_self, Function.update_of_ne hinput, between_append,
        between_append,
        between_append, between_singleton_of_ne (.inl hother), List.append_nil]
    · rw [Function.update_of_ne houtput, Function.update_of_ne hinput]

theorem load_transfer (hfirst : r.inBuffers node = packet :: rest) (hnode : node < cfg.totalNodes)
    (houtput : packet.outputDeviceID < cfg.totalNodes) :
    (r.transfer node packet rest).load cfg + 1 = r.load cfg := by
  have hin := sum_length_update r.inBuffers hnode rest
  have hout :=
    sum_length_update r.outBuffers houtput (r.outBuffers packet.outputDeviceID ++ [packet])
  rw [hfirst, List.length_cons] at hin
  rw [List.length_append, List.length_singleton] at hout
  rw [load, load, inBuffers_transfer, outBuffers_transfer, Finset.sum_add_distrib,
    Finset.sum_add_distrib, ← Finset.mul_sum, ← Finset.mul_sum]
  omega

theorem Invariant.transfer (h : r.Invariant cfg subnet) (hfirst : r.inBuffers node = packet :: rest)
    (houtput : packet.outputDeviceID < cfg.totalNodes)
    (hroom : r.hasBufferOut cfg packet.outputDeviceID 1 = true) :
    (r.transfer node packet rest).Invariant cfg subnet := by
  have hmem : ∀ other, ∀ p ∈ (r.transfer node packet rest).inBuffers other,
      p ∈ r.inBuffers other := by
    intro other p hp
    by_cases hother : other = node
    · rw [hother, inBuffers_transfer, Function.update_self] at hp
      rw [hother, hfirst]
      exact List.mem_cons_of_mem packet hp
    · rwa [inBuffers_transfer, Function.update_of_ne hother] at hp
  exact
    { source := fun other p hp => h.source other p (hmem other p hp)
      source_lt := fun other hne => by
        obtain ⟨p, hp⟩ := List.exists_mem_of_ne_nil _ hne
        exact h.source_lt other (List.ne_nil_of_mem (hmem other p hp))
      outputs := fun other p hp => h.outputs other p (hmem other p hp)
      inSubnet := fun other p hp => h.inSubnet other p (hmem other p hp)
      target := fun output p hp => by
        by_cases heq : output = packet.outputDeviceID
        · rw [heq, outBuffers_transfer, Function.update_self, List.mem_append,
            List.mem_singleton] at hp
          rcases hp with hold | rfl
          · rw [heq]
            exact h.target _ p hold
          · rw [heq]
            exact ⟨rfl, houtput, h.inSubnet node p (by rw [hfirst]; exact List.mem_cons_self)⟩
        · rw [outBuffers_transfer, Function.update_of_ne heq] at hp
          exact h.target output p hp
      inBuffers := fun other => by
        by_cases hother : other = node
        · have hlength := h.inBuffers node
          rw [hfirst, List.length_cons] at hlength
          rw [hother, inBuffers_transfer, Function.update_self]
          omega
        · rw [inBuffers_transfer, Function.update_of_ne hother]
          exact h.inBuffers other
      outBuffers := fun output => by
        by_cases heq : output = packet.outputDeviceID
        · rw [heq, outBuffers_transfer, Function.update_self, List.length_append]
          exact of_decide_eq_true hroom
        · rw [outBuffers_transfer, Function.update_of_ne heq]
          exact h.outBuffers output }

end Transfer

section Push

variable {packet : Packet α}

theorem underway_push (r : XbarRouter α) (packet : Packet α) (input output : ℕ) :
    underway { r with
        inBuffers := Function.update r.inBuffers packet.inputDeviceID
          (r.inBuffers packet.inputDeviceID ++ [packet]) } input output =
      r.underway input output ++ between input output [packet] := by
  rw [underway, underway]
  dsimp only
  by_cases hinput : input = packet.inputDeviceID
  · rw [hinput, Function.update_self, ← List.append_assoc, between_append]
  · rw [Function.update_of_ne hinput, between_singleton_of_ne (.inl (Ne.symm hinput)),
      List.append_nil]

theorem Invariant.push (h : r.Invariant cfg subnet) (hinput : packet.inputDeviceID < cfg.totalNodes)
    (houtput : packet.outputDeviceID < cfg.totalNodes)
    (hsubnet : LocalInterconnect.popSubnet cfg packet.outputDeviceID = subnet ∧
    subnet < cfg.subnets)
    (hroom : (r.inBuffers packet.inputDeviceID).length + 1 ≤ cfg.inBufferLimit) :
    Invariant cfg subnet { r with
      inBuffers := Function.update r.inBuffers packet.inputDeviceID
        (r.inBuffers packet.inputDeviceID ++ [packet]) } := by
  have hmem : ∀ node, ∀ p ∈ Function.update r.inBuffers packet.inputDeviceID
      (r.inBuffers packet.inputDeviceID ++ [packet]) node,
      p ∈ r.inBuffers node ∨ (node = packet.inputDeviceID ∧ p = packet) := by
    intro node p hp
    by_cases hnode : node = packet.inputDeviceID
    · rw [hnode, Function.update_self, List.mem_append, List.mem_singleton] at hp
      rw [hnode]
      exact hp.imp_right fun heq => ⟨rfl, heq⟩
    · rw [Function.update_of_ne hnode] at hp
      exact .inl hp
  exact
    { source := fun node p hp => (hmem node p hp).elim (h.source node p)
        fun hnew => by rw [hnew.2, hnew.1]
      source_lt := fun node hne => by
        obtain ⟨p, hp⟩ := List.exists_mem_of_ne_nil _ hne
        exact (hmem node p hp).elim (fun hp => h.source_lt node (List.ne_nil_of_mem hp))
          fun hnew => by rw [hnew.1]; exact hinput
      outputs := fun node p hp => (hmem node p hp).elim (h.outputs node p)
        fun hnew => by rw [hnew.2]; exact houtput
      inSubnet := fun node p hp => (hmem node p hp).elim (h.inSubnet node p)
        fun hnew => by rw [hnew.2]; exact hsubnet
      target := h.target
      inBuffers := fun node => by
        dsimp only
        by_cases hnode : node = packet.inputDeviceID
        · rw [hnode, Function.update_self, List.length_append]
          exact hroom
        · rw [Function.update_of_ne hnode]
          exact h.inBuffers node
      outBuffers := h.outBuffers }

end Push

section Pop

variable {output : ℕ} {packet : Packet α} {rest : List (Packet α)}

theorem underway_pop (hfirst : r.outBuffers output = packet :: rest)
    (htarget : packet.outputDeviceID = output) (i o : ℕ) :
    r.underway i o = between i o [packet] ++
      underway { r with outBuffers := Function.update r.outBuffers output rest } i o := by
  rw [underway, underway]
  dsimp only
  by_cases ho : o = output
  · rw [ho, hfirst, Function.update_self, List.cons_append, between_cons]
  · have hne : packet.outputDeviceID ≠ o := by rw [htarget]; exact Ne.symm ho
    rw [Function.update_of_ne ho, between_singleton_of_ne (.inr hne), List.nil_append]

theorem Invariant.pop (h : r.Invariant cfg subnet) (hfirst : r.outBuffers output = packet :: rest) :
    Invariant cfg subnet { r with outBuffers := Function.update r.outBuffers output rest } where
  source := h.source
  source_lt := h.source_lt
  outputs := h.outputs
  inSubnet := h.inSubnet
  target node p hp := by
    by_cases hnode : node = output
    · rw [hnode] at hp ⊢
      dsimp only at hp
      rw [Function.update_self] at hp
      exact h.target output p (by rw [hfirst]; exact List.mem_cons_of_mem packet hp)
    · dsimp only at hp
      rw [Function.update_of_ne hnode] at hp
      exact h.target node p hp
  inBuffers := h.inBuffers
  outBuffers node := by
    dsimp only
    by_cases hnode : node = output
    · have hlength := h.outBuffers output
      rw [hfirst, List.length_cons] at hlength
      rw [hnode, Function.update_self]
      omega
    · rw [Function.update_of_ne hnode]
      exact h.outBuffers node

theorem load_pop (hfirst : r.outBuffers output = packet :: rest)
    (houtput : output < cfg.totalNodes) :
    load cfg { r with outBuffers := Function.update r.outBuffers output rest } + 1 =
      r.load cfg := by
  have hout := sum_length_update r.outBuffers houtput rest
  rw [hfirst, List.length_cons] at hout
  rw [load, load]
  dsimp only
  rw [Finset.sum_add_distrib, Finset.sum_add_distrib]
  omega

end Pop

variable (h : r.Invariant cfg subnet)
include h

theorem Invariant.of_buffers (hin : r'.inBuffers = r.inBuffers)
    (hout : r'.outBuffers = r.outBuffers) : r'.Invariant cfg subnet where
  source := by rw [hin]; exact h.source
  source_lt := by rw [hin]; exact h.source_lt
  outputs := by rw [OutputsExist, hin]; exact h.outputs
  inSubnet := by rw [hin]; exact h.inSubnet
  target := by rw [hout]; exact h.target
  inBuffers := by rw [hin]; exact h.inBuffers
  outBuffers := by rw [hout]; exact h.outBuffers

theorem Invariant.forwards (hr : Forwards cfg r n r') :
    r'.Invariant cfg subnet ∧ (∀ input output, r'.underway input output = r.underway input output) ∧
      r'.load cfg + n = r.load cfg := by
  induction hr with
  | refl => exact ⟨h, fun _ _ => rfl, rfl⟩
  | @transfer n node r' packet rest _ first node_lt output_lt room ih =>
      obtain ⟨hinvariant, hunderway, hload⟩ := ih
      have hsource := hinvariant.source node packet (by rw [first]; exact List.mem_cons_self)
      refine ⟨hinvariant.transfer first output_lt room, fun input output => ?_, ?_⟩
      · rw [underway_transfer first hsource, hunderway]
      · have htransfer := load_transfer first node_lt output_lt
        omega
  | pointers _ hin hout ih =>
      obtain ⟨hinvariant, hunderway, hload⟩ := ih
      refine ⟨hinvariant.of_buffers hin hout, fun input output => ?_, ?_⟩
      · rw [underway, hin, hout]
        exact hunderway input output
      · rw [load, hin, hout]
        exact hload

theorem Invariant.underway_eq_nil (hload : r.load cfg = 0)
    (input output : ℕ) : r.underway input output = [] := by
  have hnode : ∀ node < cfg.totalNodes, r.inBuffers node = [] ∧ r.outBuffers node = [] := by
    intro node hnode
    have hzero := Finset.sum_eq_zero_iff.mp hload node (Finset.mem_range.mpr hnode)
    exact ⟨List.length_eq_zero_iff.mp (by omega), List.length_eq_zero_iff.mp (by omega)⟩
  have hin : r.inBuffers input = [] := by
    by_contra hne
    exact hne (hnode input (h.source_lt input hne)).1
  have hout : r.outBuffers output = [] := by
    by_contra hne
    obtain ⟨packet, hpacket⟩ := List.exists_mem_of_ne_nil _ hne
    exact hne (hnode output (h.target output packet hpacket).2.1).2
  rw [underway, hin, hout]
  rfl

theorem Invariant.underway_eq_nil_of_le (hle : cfg.subnets ≤ subnet)
    (input output : ℕ) : r.underway input output = [] := by
  have hin : r.inBuffers input = [] := by
    by_contra hne
    obtain ⟨packet, hpacket⟩ := List.exists_mem_of_ne_nil _ hne
    exact hle.not_gt (h.inSubnet input packet hpacket).2
  have hout : r.outBuffers output = [] := by
    by_contra hne
    obtain ⟨packet, hpacket⟩ := List.exists_mem_of_ne_nil _ hne
    exact hle.not_gt (h.target output packet hpacket).2.2.2
  rw [underway, hin, hout]
  rfl

end XbarRouter

namespace LocalInterconnect

variable {cfg : InctConfig} {s t : LocalInterconnect α}

/-- The packets from one node to another one that are under way. -/
def underway (cfg : InctConfig) (s : LocalInterconnect α) (input output : ℕ) : List (Packet α) :=
  (s.net (popSubnet cfg output)).underway input output

/-- What is delivered, and what is still to be delivered. -/
structure Delivers (cfg : InctConfig) (s : LocalInterconnect α) : Prop where
  /-- Packets are popped for their destination. -/
  node : ∀ entry ∈ s.popped, entry.2.outputDeviceID = entry.1
  /-- Of the packets between two nodes the first ones were popped, and the rest is under way,
  all in the order they were pushed. -/
  order : ∀ input output, between input output s.pushed =
    between input output (s.popped.map Prod.snd) ++ s.underway cfg input output
  inBuffers : ∀ subnet node, ((s.net subnet).inBuffers node).length ≤ cfg.inBufferLimit
  outBuffers : ∀ subnet node, ((s.net subnet).outBuffers node).length ≤ cfg.outBufferLimit

/-- A call that uses a subnet there is, and for a push the one its packet will be popped from. -/
def Connects (cfg : InctConfig) : Call α → Prop
  | .push inputDeviceID outputDeviceID _ =>
      pushSubnet cfg inputDeviceID = popSubnet cfg outputDeviceID
  | .advance => True
  | .pop outputDeviceID => popSubnet cfg outputDeviceID < cfg.subnets

instance (cfg : InctConfig) (call : Call α) : Decidable (Connects cfg call) :=
  match call with
  | .push _ _ _ => inferInstanceAs (Decidable (_ = _))
  | .advance => .isTrue trivial
  | .pop _ => inferInstanceAs (Decidable (_ < _))

/-- Some calls, none of which is a push, deliver all that has been pushed. -/
def Drains (cfg : InctConfig) (s : LocalInterconnect α) : Prop :=
  ∃ calls t, (∀ call ∈ calls, Connects cfg call) ∧
    TransitionSystem.execOk (Enabled cfg) (step cfg) s calls = some t ∧ t.pushed = s.pushed ∧
      ∀ input output, between input output t.pushed = between input output (t.popped.map Prod.snd)

/-- The invariant of runs all of whose calls connect. -/
structure Invariant (cfg : InctConfig) (s : LocalInterconnect α) : Prop where
  routers : ∀ subnet, (s.net subnet).Invariant cfg subnet
  node : ∀ entry ∈ s.popped, entry.2.outputDeviceID = entry.1
  order : ∀ input output, between input output s.pushed =
    between input output (s.popped.map Prod.snd) ++ s.underway cfg input output

theorem Invariant.delivers (h : s.Invariant cfg) : s.Delivers cfg where
  node := h.node
  order := h.order
  inBuffers subnet := (h.routers subnet).inBuffers
  outBuffers subnet := (h.routers subnet).outBuffers

theorem Invariant.created : (created cfg : LocalInterconnect α).Invariant cfg where
  routers _ :=
    { source := fun _ _ hmem => absurd hmem List.not_mem_nil
      source_lt := fun _ hne => absurd rfl hne
      outputs := fun _ _ hmem => absurd hmem List.not_mem_nil
      inSubnet := fun _ _ hmem => absurd hmem List.not_mem_nil
      target := fun _ _ hmem => absurd hmem List.not_mem_nil
      inBuffers := fun _ => Nat.zero_le _
      outBuffers := fun _ => Nat.zero_le _ }
  node _ hmem := absurd hmem List.not_mem_nil
  order _ _ := rfl

/-! ## Pushes -/

theorem Invariant.push (h : s.Invariant cfg) {input output : ℕ} {data : α}
    (henabled : s.Enabled cfg (.push input output data))
    (hconnects : Connects cfg (.push input output data)) :
    OkOr (Invariant cfg) (fun _ => False) (s.push cfg input output data) := by
  obtain ⟨hinput, houtput, hroom⟩ := henabled
  rw [hasBuffer_eq] at hroom
  rw [LocalInterconnect.push, if_neg (Nat.not_le.mpr (pushSubnet_lt cfg input)), hroom,
    if_neg (by decide), XbarRouter.push, if_neg (Nat.not_le.mpr hinput)]
  have hsubnet : pushSubnet cfg input = popSubnet cfg output := hconnects
  rw [hsubnet] at hroom ⊢
  let packet : Packet α := ⟨data, output, input⟩
  let router := s.net (popSubnet cfg output)
  have hlength : (router.inBuffers input).length + 1 ≤ cfg.inBufferLimit := of_decide_eq_true hroom
  have hrouter := (h.routers (popSubnet cfg output)).push
    (show packet.inputDeviceID < _ from hinput) houtput
    ⟨rfl, hsubnet ▸ pushSubnet_lt cfg input⟩ hlength
  show Invariant cfg { s with
    net := Function.update s.net (popSubnet cfg output)
      { router with inBuffers :=
        Function.update router.inBuffers input (router.inBuffers input ++ [packet]) }
    pushed := s.pushed ++ [packet] }
  refine ⟨fun subnet => ?_, h.node, fun i o => ?_⟩
  · by_cases heq : subnet = popSubnet cfg output
    · rw [heq]
      simpa using hrouter
    · simpa [Function.update_of_ne heq] using h.routers subnet
  · rw [between_append, h.order, List.append_assoc, LocalInterconnect.underway,
      LocalInterconnect.underway]
    dsimp only
    by_cases heq : popSubnet cfg o = popSubnet cfg output
    · rw [heq, Function.update_self]
      exact congrArg _ (router.underway_push packet i o).symm
    · have hne : output ≠ o := fun hout => heq (by rw [hout])
      rw [Function.update_of_ne heq, between_singleton_of_ne (.inr hne), List.append_nil]
/-! ## Pops and advances -/

/-- How much is left to do. -/
def load (cfg : InctConfig) (s : LocalInterconnect α) : ℕ :=
  ∑ subnet ∈ Finset.range cfg.subnets, (s.net subnet).load cfg

section

variable (h : s.Invariant cfg)
include h

theorem Invariant.pop {output : ℕ} (henabled : output < cfg.totalNodes)
    (hconnects : popSubnet cfg output < cfg.subnets) :
    ∃ t, s.step cfg (.pop output) = .ok t ∧ t.Invariant cfg ∧ t.pushed = s.pushed ∧
      ((s.net (popSubnet cfg output)).outBuffers output ≠ [] → t.load cfg < s.load cfg) := by
  have hrouter := h.routers (popSubnet cfg output)
  rw [step, LocalInterconnect.pop, if_neg (Nat.not_le.mpr hconnects), XbarRouter.pop,
    if_neg (Nat.not_le.mpr henabled)]
  cases hfirst : (s.net (popSubnet cfg output)).outBuffers output with
  | nil =>
      refine ⟨_, rfl, ?_, rfl, fun hne => absurd rfl hne⟩
      refine ⟨fun subnet => ?_, ?_, fun i o => ?_⟩
      · simpa using h.routers subnet
      · simpa using h.node
      · simpa [underway] using h.order i o
  | cons packet rest =>
      have htarget := (hrouter.target output packet (by rw [hfirst]; exact List.mem_cons_self)).1
      refine ⟨_, rfl, ⟨fun subnet => ?_, ?_, fun i o => ?_⟩, rfl, fun _ => ?_⟩
      · show XbarRouter.Invariant cfg subnet (Function.update s.net (popSubnet cfg output) _ subnet)
        by_cases heq : subnet = popSubnet cfg output
        · rw [heq, Function.update_self]
          exact hrouter.pop hfirst
        · rw [Function.update_of_ne heq]
          exact h.routers subnet
      · intro entry hentry
        have hentry' : entry ∈ s.popped ++ [(output, packet)] := hentry
        rcases List.mem_append.mp hentry' with hold | hnew
        · exact h.node entry hold
        · rw [List.mem_singleton.mp hnew]
          exact htarget
      · show between i o s.pushed = between i o ((s.popped ++ [(output, packet)]).map Prod.snd) ++
          (Function.update s.net (popSubnet cfg output) _ (popSubnet cfg o)).underway i o
        rw [h.order, List.map_append, between_append, List.append_assoc, underway]
        by_cases heq : popSubnet cfg o = popSubnet cfg output
        · rw [heq, Function.update_self, XbarRouter.underway_pop hfirst htarget]
          rfl
        · have hne : packet.outputDeviceID ≠ o := fun hout => heq (by rw [← hout, htarget])
          rw [Function.update_of_ne heq, List.map_singleton, between_singleton_of_ne (.inr hne),
            List.nil_append]
      · have hmem := Finset.mem_range.mpr hconnects
        refine Finset.sum_lt_sum (fun subnet _ => ?_) ⟨popSubnet cfg output, hmem, ?_⟩
        · by_cases heq : subnet = popSubnet cfg output
          · rw [heq]
            dsimp only
            rw [Function.update_self]
            exact Nat.le_of_succ_le (XbarRouter.load_pop hfirst henabled).le
          · dsimp only
            rw [Function.update_of_ne heq]
        · dsimp only
          rw [Function.update_self]
          exact (XbarRouter.load_pop hfirst henabled).le

theorem Invariant.advance : ∃ t, s.advance cfg = .ok t ∧ t.Invariant cfg ∧ t.pushed = s.pushed ∧
      ((∃ subnet < cfg.subnets, ∃ node < cfg.totalNodes, ¬ (s.net subnet).Blocked cfg node) →
        t.load cfg < s.load cfg) := by
  let I (k : ℕ) (t : LocalInterconnect α) : Prop :=
    (∀ subnet < k, ∃ n, XbarRouter.Forwards cfg (s.net subnet) n (t.net subnet) ∧
      (n = 0 → ∀ node < cfg.totalNodes, (s.net subnet).Blocked cfg node)) ∧
    (∀ subnet, k ≤ subnet → t.net subnet = s.net subnet) ∧ t.pushed = s.pushed ∧ t.popped = s.popped
  have hround : ∀ k < cfg.subnets, ∀ t, I k t → ∃ t', advanceSubnet cfg k t = .ok t' ∧
      I (k + 1) t' := by
    rintro k - t ⟨hdone, hleft, hpushed, hpopped⟩
    obtain ⟨router, n, hadvance, hforwards⟩ := XbarRouter.advance_spec (h.routers k).outputs
    refine ⟨{ t with net := Function.update t.net k router }, ?_, fun subnet hsubnet => ?_,
      fun subnet hsubnet => ?_, hpushed, hpopped⟩
    · rw [advanceSubnet, hleft k le_rfl, hadvance]
      rfl
    · dsimp only
      rcases Nat.lt_succ_iff_lt_or_eq.mp hsubnet with hlt | rfl
      · rw [Function.update_of_ne hlt.ne]
        exact hdone subnet hlt
      · rw [Function.update_self]
        exact ⟨n, hforwards⟩
    · dsimp only
      have hne : subnet ≠ k := (Nat.lt_of_succ_le hsubnet).ne'
      rw [Function.update_of_ne hne]
      exact hleft subnet (Nat.le_of_succ_le hsubnet)
  obtain ⟨t, ht, hdone, hleft, hpushed, hpopped⟩ := countUp_ok cfg.subnets hround
    (show I 0 s from ⟨nofun, fun _ _ => rfl, rfl, rfl⟩)
  have hnet : ∀ subnet, (t.net subnet).Invariant cfg subnet ∧
      (∀ i o, (t.net subnet).underway i o = (s.net subnet).underway i o) ∧
        (t.net subnet).load cfg ≤ (s.net subnet).load cfg := by
    intro subnet
    by_cases hlt : subnet < cfg.subnets
    · obtain ⟨n, hforwards, -⟩ := hdone subnet hlt
      obtain ⟨hinvariant, hunderway, hload⟩ := (h.routers subnet).forwards hforwards
      exact ⟨hinvariant, hunderway, Nat.le.intro hload⟩
    · rw [hleft subnet (Nat.not_lt.mp hlt)]
      exact ⟨h.routers subnet, fun _ _ => rfl, le_rfl⟩
  refine ⟨t, ht, ⟨fun subnet => (hnet subnet).1, by rw [hpopped]; exact h.node, fun i o => ?_⟩,
    hpushed, ?_⟩
  · rw [hpushed, hpopped, h.order, underway, underway, (hnet _).2.1]
  · rintro ⟨subnet, hlt, node, hnode, hmoves⟩
    refine Finset.sum_lt_sum (fun i _ => (hnet i).2.2) ⟨subnet, Finset.mem_range.mpr hlt, ?_⟩
    obtain ⟨n, hforwards, hzero⟩ := hdone subnet hlt
    have hload := ((h.routers subnet).forwards hforwards).2.2
    have hpos : n ≠ 0 := fun hn => hmoves (hzero hn node hnode)
    omega

theorem Invariant.exists_call (hlimit : 0 < cfg.outBufferLimit) (hload : s.load cfg ≠ 0) :
    ∃ call t, Connects cfg call ∧ s.Enabled cfg call ∧ s.step cfg call = .ok t ∧ t.Invariant cfg ∧
      t.pushed = s.pushed ∧ t.load cfg < s.load cfg := by
  by_cases hout : ∃ subnet < cfg.subnets, ∃ node, (s.net subnet).outBuffers node ≠ []
  · obtain ⟨subnet, hsubnet, node, hne⟩ := hout
    obtain ⟨packet, hpacket⟩ := List.exists_mem_of_ne_nil _ hne
    obtain ⟨-, hnode, rfl, -⟩ := (h.routers subnet).target node packet hpacket
    obtain ⟨t, ht, hinvariant, hpushed, hless⟩ := h.pop hnode hsubnet
    exact ⟨.pop node, t, hsubnet, hnode, ht, hinvariant, hpushed, hless hne⟩
  · obtain ⟨t, ht, hinvariant, hpushed, hless⟩ := h.advance
    refine ⟨.advance, t, trivial, trivial, ht, hinvariant, hpushed, hless ?_⟩
    obtain ⟨subnet, hsubnet, hpos⟩ := Finset.exists_ne_zero_of_sum_ne_zero hload
    obtain ⟨node, hnode, hpos⟩ := Finset.exists_ne_zero_of_sum_ne_zero hpos
    have hsubnet := Finset.mem_range.mp hsubnet
    have hempty : ∀ node, (s.net subnet).outBuffers node = [] := fun node => by
      by_contra hne
      exact hout ⟨subnet, hsubnet, node, hne⟩
    refine ⟨subnet, hsubnet, node, Finset.mem_range.mp hnode, fun hblocked => hpos ?_⟩
    cases hfirst : (s.net subnet).inBuffers node with
    | nil => simp [hempty node]
    | cons packet rest =>
        have hfull := hblocked packet (by rw [hfirst]; rfl)
        rw [XbarRouter.hasBufferOut, hempty, List.length_nil, Nat.zero_add] at hfull
        exact absurd hlimit (of_decide_eq_false hfull)

theorem Invariant.drains (hlimit : 0 < cfg.outBufferLimit) : s.Drains cfg := by
  induction hn : s.load cfg using Nat.strong_induction_on generalizing s with
  | _ n ih =>
    by_cases hload : s.load cfg = 0
    · refine ⟨[], s, fun _ hmem => absurd hmem List.not_mem_nil, rfl, rfl, fun input output => ?_⟩
      rw [h.order, List.append_right_eq_self, underway]
      by_cases hsubnet : popSubnet cfg output < cfg.subnets
      · exact (h.routers _).underway_eq_nil
          (Finset.sum_eq_zero_iff.mp hload _ (Finset.mem_range.mpr hsubnet)) input output
      · exact (h.routers _).underway_eq_nil_of_le (Nat.not_lt.mp hsubnet) input output
    · obtain ⟨call, t, hconnects, henabled, hstep, hinvariant, hpushed, hless⟩ :=
        h.exists_call hlimit hload
      obtain ⟨calls, last, hcalls, hexec, hlast, horder⟩ :=
        ih (t.load cfg) (hn ▸ hless) hinvariant rfl
      refine ⟨call :: calls, last, ?_, ?_, hlast.trans hpushed, horder⟩
      · rintro c hc
        rcases List.mem_cons.mp hc with rfl | hc
        · exact hconnects
        · exact hcalls c hc
      · rw [TransitionSystem.execOk, if_pos henabled, hstep]
        exact hexec

end

/-! ## Runs -/

/-- In every run all of whose calls connect nothing fails, packets are delivered in order, and
all of them can be delivered. -/
theorem delivers_of_reachable {r : Except InctFailure (LocalInterconnect α)}
    (reached : ((interconnectSystem α cfg).restrict
      (TransitionSystem.onOk fun _ => Connects cfg)).Reachable r) :
    OkOr (fun s => s.Delivers cfg ∧ (0 < cfg.outBufferLimit → s.Drains cfg))
      (fun _ => False) r := by
  have hinvariant : OkOr (Invariant cfg) (fun _ => False) r := by
    refine reached.invariant_ofExcept ?_ ?_
    · rintro _ rfl
      exact .created
    · intro s call h hconnects henabled
      cases call with
      | push input output data => exact h.push henabled hconnects
      | advance =>
          obtain ⟨t, ht, hinvariant, -⟩ := h.advance
          rw [step, ht]
          exact hinvariant
      | pop output =>
          obtain ⟨t, ht, hinvariant, -⟩ := h.pop henabled hconnects
          rw [ht]
          exact hinvariant
  exact hinvariant.imp fun s h => ⟨h.delivers, h.drains⟩

/-- A core and a memory node. -/
def pairConfig (subnets : ℕ) (h : subnets = 1 ∨ subnets = 2) : InctConfig where
  nShader := 1
  nMem := 1
  inBufferLimit := 2
  outBufferLimit := 2
  subnets := subnets
  arbiterAlgo := .iSLIP
  grantCycles := 1
  subnets_cases := h

theorem one_subnet : 1 = 1 ∨ 1 = 2 := .inl rfl

abbrev onePair : InctConfig := pairConfig 1 one_subnet

abbrev twoPair : InctConfig := pairConfig 2 (.inr rfl)

/-- Two requests and a reply, with two subnets. -/
theorem delivers_twoPair :
    ∃ s : LocalInterconnect ℕ, s.popped = [(1, ⟨10, 1, 0⟩)] ∧ s.Delivers twoPair ∧
      s.Drains twoPair := by
  have hrun : ((TransitionSystem.execOk (fun s call =>
    Connects twoPair call ∧ Enabled twoPair s call)
      (step twoPair) (created twoPair)
      [.push 0 1 10, .push 0 1 11, .push 1 0 12, .advance, .pop 1]).any fun s =>
        decide (s.popped = [(1, ⟨10, 1, 0⟩)])) = true := by decide
  obtain ⟨s, hs, hpopped⟩ := (Option.any_eq_true _ _).mp hrun
  have hreached : ((interconnectSystem ℕ twoPair).restrict
      (TransitionSystem.onOk fun _ => Connects twoPair)).Reachable (.ok s) :=
    .execOk_restrict _ (.init ⟨_, rfl, rfl⟩) hs
  have hdelivers := (delivers_of_reachable hreached).of_ok rfl
  exact ⟨s, of_decide_eq_true hpopped, hdelivers.1, hdelivers.2 (by decide)⟩

/-- With one subnet a reply to a core is pushed into the only subnet there is, but is looked
for in a second one. -/
theorem subnetIndex_onePair :
    ∃ r, (interconnectSystem ℕ onePair).Reachable r ∧
      ¬ OkOr (Delivers onePair) (fun _ => False) r := by
  have hrun : (TransitionSystem.execOk (Enabled onePair) (step onePair) (created onePair)
      [.push 1 0 10, .advance]).isSome = true := by decide
  obtain ⟨s, hs⟩ := Option.isSome_iff_exists.mp hrun
  have hreached : (interconnectSystem ℕ onePair).Reachable (.ok s) :=
    .execOk _ (.init ⟨_, rfl, rfl⟩) hs
  have hnode : 0 < onePair.totalNodes := by decide
  have henabled : s.Enabled onePair (.pop 0) := hnode
  exact ⟨.error .subnetIndex, hreached.step ⟨s, rfl, henabled, rfl⟩, id⟩

end LocalInterconnect

end GpuCalorie.Interconnect
