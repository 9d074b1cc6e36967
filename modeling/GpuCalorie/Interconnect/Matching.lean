/-
# The packets of a cycle

A cycle of a router should be a matching: a grant takes the first packet of a node to its
output, no node has two grants, and an output with room waits only for a node that was granted to
another one. The round-robin arbiter visits each node once and meets this. The other arbiter
visits the outputs one after the other and looks at the buffers as they are by then, so that a
node may be granted to a second output with its next packet.
-/

import GpuCalorie.Interconnect.Router
import GpuCalorie.Math.Outcome
import Mathlib.Data.Int.ModEq
import Mathlib.Data.Nat.Find

namespace GpuCalorie.Interconnect

open GpuCalorie.Math

namespace XbarRouter

variable {α : Type} (cfg : InctConfig) (r : XbarRouter α)

/-- The first packet of a node is for the output. -/
def HeadFor (node output : ℕ) : Prop :=
  ∃ packet ∈ (r.inBuffers node).head?, packet.outputDeviceID = output

instance (node output : ℕ) : Decidable (r.HeadFor node output) :=
  inferInstanceAs (Decidable (∃ packet ∈ _, _))

/-- What the buffers are after the grants of a cycle, by output. -/
structure Transferred (r' : XbarRouter α) (grant : ℕ → Option ℕ) : Prop where
  head : ∀ output node, grant output = some node → r.HeadFor node output
  granted : ∀ output node, grant output = some node →
    r'.inBuffers node = (r.inBuffers node).tail
  kept : ∀ node, (∀ output, grant output ≠ some node) → r'.inBuffers node = r.inBuffers node
  outBuffers : ∀ output, r'.outBuffers output =
    r.outBuffers output ++ ((grant output).bind fun node => (r.inBuffers node).head?).toList

/-- A cycle is a matching. -/
structure Matching (r' : XbarRouter α) (grant : ℕ → Option ℕ) : Prop extends
    Transferred r r' grant where
  nodes : ∀ output node, grant output = some node →
    output < cfg.totalNodes ∧ node < cfg.totalNodes
  once : ∀ output output' node, grant output = some node → grant output' = some node →
    output = output'
  room : ∀ output node, grant output = some node → r.hasBufferOut cfg output 1 = true
  waits : ∀ output < cfg.totalNodes, r.hasBufferOut cfg output 1 = true → grant output = none →
    ∀ node < cfg.totalNodes, r.HeadFor node output ∨ r'.HeadFor node output →
      ∃ other, other ≠ output ∧ grant other = some node

/-- The first packets are for nodes. -/
def FrontsExist : Prop :=
  ∀ node < cfg.totalNodes, ∀ packet ∈ (r.inBuffers node).head?,
    packet.outputDeviceID < cfg.totalNodes

/-- Counting from the pointer of the output, the node is the first one with a packet for it. -/
def FirstFor (output node : ℕ) : Prop :=
  ∃ j < cfg.totalNodes, (j + r.nextNode output) % cfg.totalNodes = node ∧ r.HeadFor node output ∧
    ∀ i < j, ¬ r.HeadFor ((i + r.nextNode output) % cfg.totalNodes) output

/-- A node is the first one for an earlier output with room, its second packet is for this output,
and counting from the pointer of this one no node before it has a first packet for it. -/
def TakesAgainAt (second : ℕ) : Prop :=
  ∃ first < second, r.hasBufferOut cfg first 1 = true ∧ ∃ node, r.FirstFor cfg first node ∧
    (∃ packet ∈ (r.inBuffers node).tail.head?, packet.outputDeviceID = second) ∧
    ∃ j < cfg.totalNodes, (j + r.nextNode second) % cfg.totalNodes = node ∧
      ∀ i < j, ¬ r.HeadFor ((i + r.nextNode second) % cfg.totalNodes) second

/-- An output with room is granted a node that was granted before. -/
def TakesAgain : Prop :=
  ∃ second < cfg.totalNodes, r.hasBufferOut cfg second 1 = true ∧ r.TakesAgainAt cfg second

/-- The states of which a cycle is a matching. -/
def CanMatch : Prop :=
  match cfg.arbiterAlgo with
  | .naiveRR => r.FrontsExist cfg
  | .iSLIP => ¬ r.TakesAgain cfg

variable {cfg r} {r' s : XbarRouter α} {grant : ℕ → Option ℕ} {output node k : ℕ}

/-! ## Grants -/

theorem HeadFor.unique {output' : ℕ} (h : r.HeadFor node output) (h' : r.HeadFor node output') :
    output = output' := by
  obtain ⟨packet, hpacket, rfl⟩ := h
  obtain ⟨packet', hpacket', rfl⟩ := h'
  rw [Option.mem_unique hpacket hpacket']

theorem headFor_congr (h : s.inBuffers node = r.inBuffers node) :
    s.HeadFor node output ↔ r.HeadFor node output := by
  rw [HeadFor, HeadFor, h]

namespace Transferred

theorem refl : Transferred r r fun _ => none where
  head _ _ h := nomatch h
  granted _ _ h := nomatch h
  kept _ _ := rfl
  outBuffers _ := (List.append_nil _).symm

variable (h : r.Transferred s grant)
include h

theorem once {output' : ℕ} (hgrant : grant output = some node)
    (hgrant' : grant output' = some node) : output = output' :=
  (h.head output node hgrant).unique (h.head output' node hgrant')

theorem transfer {packet : Packet α} {rest : List (Packet α)}
    (hnone : grant packet.outputDeviceID = none) (hfree : ∀ output, grant output ≠ some node)
    (hfirst : s.inBuffers node = packet :: rest)
    (hin : r'.inBuffers = (s.transfer node packet rest).inBuffers)
    (hout : r'.outBuffers = (s.transfer node packet rest).outBuffers) :
    r.Transferred r' (Function.update grant packet.outputDeviceID (some node)) := by
  have hold : r.inBuffers node = packet :: rest := (h.kept node hfree).symm.trans hfirst
  have hcases : ∀ {output other : ℕ},
      Function.update grant packet.outputDeviceID (some node) output = some other →
      (output = packet.outputDeviceID ∧ other = node) ∨
        (output ≠ packet.outputDeviceID ∧ other ≠ node ∧ grant output = some other) := by
    intro output other hgrant
    rcases eq_or_ne output packet.outputDeviceID with rfl | hne
    · rw [Function.update_self] at hgrant
      exact .inl ⟨rfl, (Option.some.inj hgrant).symm⟩
    · rw [Function.update_of_ne hne] at hgrant
      exact .inr ⟨hne, fun heq => hfree output (heq ▸ hgrant), hgrant⟩
  constructor
  case head =>
    intro output other hgrant
    rcases hcases hgrant with ⟨rfl, rfl⟩ | ⟨-, -, hgrant⟩
    · exact ⟨packet, by rw [hold]; rfl, rfl⟩
    · exact h.head output other hgrant
  case granted =>
    intro output other hgrant
    rw [hin, inBuffers_transfer]
    rcases hcases hgrant with ⟨-, rfl⟩ | ⟨-, hne, hgrant⟩
    · rw [Function.update_self, hold]
      rfl
    · rw [Function.update_of_ne hne]
      exact h.granted output other hgrant
  case kept =>
    intro other hother
    have hne : other ≠ node := by
      rintro rfl
      exact hother packet.outputDeviceID (Function.update_self ..)
    rw [hin, inBuffers_transfer, Function.update_of_ne hne]
    refine h.kept other fun output hgrant => hother output ?_
    have houtput : output ≠ packet.outputDeviceID := by
      rintro rfl
      rw [hnone] at hgrant
      cases hgrant
    rwa [Function.update_of_ne houtput]
  case outBuffers =>
    intro output
    rw [hout, outBuffers_transfer]
    rcases eq_or_ne output packet.outputDeviceID with rfl | hne
    · have hbefore := h.outBuffers packet.outputDeviceID
      rw [hnone] at hbefore
      rw [Function.update_self, Function.update_self, hbefore, Option.bind_some, hold]
      simp
    · rw [Function.update_of_ne hne, Function.update_of_ne hne]
      exact h.outBuffers output

theorem congr (hin : r'.inBuffers = s.inBuffers)
    (hout : r'.outBuffers = s.outBuffers) : r.Transferred r' grant where
  head := h.head
  granted := hin ▸ h.granted
  kept := hin ▸ h.kept
  outBuffers := hout ▸ h.outBuffers

theorem matching (hnodes : ∀ output node, grant output = some node →
      output < cfg.totalNodes ∧ node < cfg.totalNodes)
    (hroom : ∀ output node, grant output = some node → r.hasBufferOut cfg output 1 = true)
    (hserved : ∀ output < cfg.totalNodes, r.hasBufferOut cfg output 1 = true →
      ∀ node < cfg.totalNodes, r.HeadFor node output → grant output ≠ none) :
    r.Matching cfg s grant where
  toTransferred := h
  nodes := hnodes
  once _ _ _ hgrant hgrant' := h.once hgrant hgrant'
  room := hroom
  waits output houtput hyes hnone node hnode hhead := by
    by_contra hother
    have hfree : ∀ other, grant other ≠ some node := by
      intro other hgrant
      refine hother ⟨other, fun heq => ?_, hgrant⟩
      rw [heq, hnone] at hgrant
      cases hgrant
    have hhead : r.HeadFor node output :=
      hhead.elim id (headFor_congr (h.kept node hfree)).mp
    exact hserved output houtput hyes node hnode hhead hnone

end Transferred

theorem Matching.length_le (h : r.Matching cfg r' grant) (node : ℕ) :
    (r.inBuffers node).length ≤ (r'.inBuffers node).length + 1 := by
  by_cases hgranted : ∃ output, grant output = some node
  · obtain ⟨output, hgrant⟩ := hgranted
    rw [h.granted output node hgrant, List.length_tail]
    omega
  · rw [h.kept node fun output hgrant => hgranted ⟨output, hgrant⟩]
    exact Nat.le_succ _

/-! ## The round-robin arbiter -/

theorem rotation_injective {total start i j : ℕ} (hi : i < total) (hj : j < total)
    (h : (i + start) % total = (j + start) % total) : i = j := by
  have hmod : i ≡ j [MOD total] := Nat.ModEq.add_right_cancel' start h
  rwa [Nat.ModEq, Nat.mod_eq_of_lt hi, Nat.mod_eq_of_lt hj] at hmod

/-- The grants of `RR_Advance` after a number of rounds, with the flags `issued`. -/
structure Rounds (cfg : InctConfig) (r : XbarRouter α) (k : ℕ) (s : XbarRouter α × (ℕ → Bool))
    (grant : ℕ → Option ℕ) : Prop where
  transferred : r.Transferred s.1 grant
  issued : ∀ output, s.2 output = true ↔ grant output ≠ none
  visited : ∀ output node, grant output = some node → output < cfg.totalNodes ∧
    r.hasBufferOut cfg output 1 = true ∧ ∃ i < k, (i + r.nextNodeId) % cfg.totalNodes = node
  served : ∀ i < k, ∀ output < cfg.totalNodes,
    r.HeadFor ((i + r.nextNodeId) % cfg.totalNodes) output →
      r.hasBufferOut cfg output 1 = true → grant output ≠ none

theorem rrRound_rounds {s : XbarRouter α × (ℕ → Bool)} (hk : k < cfg.totalNodes)
    (h : Rounds cfg r k s grant) :
    OkOr (fun t => ∃ grant', Rounds cfg r (k + 1) t grant' ∧
        ∀ packet ∈ (r.inBuffers ((k + r.nextNodeId) % cfg.totalNodes)).head?,
          packet.outputDeviceID < cfg.totalNodes)
      (fun _ => ∃ packet ∈ (r.inBuffers ((k + r.nextNodeId) % cfg.totalNodes)).head?,
        cfg.totalNodes ≤ packet.outputDeviceID)
      (rrRound cfg r.nextNodeId k s) := by
  let node := (k + r.nextNodeId) % cfg.totalNodes
  have hfree : ∀ output, grant output ≠ some node := by
    intro output hgrant
    obtain ⟨-, -, i, hi, heq⟩ := h.visited output node hgrant
    exact Nat.ne_of_lt hi (rotation_injective (hi.trans hk) hk heq)
  have hbuffer : s.1.inBuffers node = r.inBuffers node := h.transferred.kept node hfree
  -- a round that takes nothing keeps the grants
  have hkeep : (∀ output < cfg.totalNodes, r.HeadFor node output →
      r.hasBufferOut cfg output 1 = true → grant output ≠ none) → Rounds cfg r (k + 1) s grant := by
    intro hserved
    refine ⟨h.transferred, h.issued, fun output node hgrant => ?_, fun i hi output houtput => ?_⟩
    · obtain ⟨houtput, hroom, i, hi, heq⟩ := h.visited output node hgrant
      exact ⟨houtput, hroom, i, Nat.lt_succ_of_lt hi, heq⟩
    · rcases Nat.lt_succ_iff_lt_or_eq.mp hi with hi | rfl
      · exact h.served i hi output houtput
      · exact hserved output houtput
  rw [rrRound]
  cases hfirst : s.1.inBuffers node with
  | nil =>
      rw [hbuffer] at hfirst
      refine ⟨grant, hkeep ?_, ?_⟩
      · rintro output - ⟨packet, hpacket, -⟩
        rw [hfirst] at hpacket
        cases hpacket
      · intro packet hpacket
        rw [hfirst] at hpacket
        cases hpacket
  | cons packet rest =>
      have hold : r.inBuffers node = packet :: rest := hbuffer ▸ hfirst
      have honly : ∀ other ∈ (r.inBuffers node).head?, other = packet := by
        intro other hother
        rw [hold] at hother
        exact (Option.some.inj hother).symm
      dsimp only
      refine .ite (fun hbad => ⟨packet, by rw [hold]; rfl, hbad⟩) fun hgood => ?_
      have hlt : packet.outputDeviceID < cfg.totalNodes := Nat.not_le.mp hgood
      have hexists : ∀ other ∈ (r.inBuffers node).head?,
          other.outputDeviceID < cfg.totalNodes := fun other hother => honly other hother ▸ hlt
      have hout : grant packet.outputDeviceID = none →
          s.1.outBuffers packet.outputDeviceID = r.outBuffers packet.outputDeviceID := by
        intro hnone
        rw [h.transferred.outBuffers, hnone]
        exact List.append_nil _
      have hissued : s.2 packet.outputDeviceID = false ↔ grant packet.outputDeviceID = none := by
        rw [← Bool.not_eq_true, h.issued, not_not]
      refine .ite (fun htake => ?_) fun hleave => ⟨grant, hkeep ?_, hexists⟩
      · obtain ⟨hroom, hnot⟩ := Bool.and_eq_true_iff.mp htake
        have hnone := hissued.mp (by simpa using hnot)
        rw [hasBufferOut, hout hnone] at hroom
        refine ⟨Function.update grant packet.outputDeviceID (some node), ?_, hexists⟩
        constructor
        case transferred => exact h.transferred.transfer hnone hfree hfirst rfl rfl
        case issued =>
          intro output
          rcases eq_or_ne output packet.outputDeviceID with rfl | hne
          · simp
          · dsimp only
            rw [Function.update_of_ne hne, Function.update_of_ne hne]
            exact h.issued output
        case visited =>
          intro output other hgrant
          rcases eq_or_ne output packet.outputDeviceID with rfl | hne
          · rw [Function.update_self] at hgrant
            exact ⟨hlt, hroom, k, Nat.lt_succ_self k, Option.some.inj hgrant⟩
          · rw [Function.update_of_ne hne] at hgrant
            obtain ⟨houtput, hyes, i, hi, heq⟩ := h.visited output other hgrant
            exact ⟨houtput, hyes, i, Nat.lt_succ_of_lt hi, heq⟩
        case served =>
          intro i hi output houtput hhead hyes
          rcases eq_or_ne output packet.outputDeviceID with rfl | hne
          · simp
          · rw [Function.update_of_ne hne]
            rcases Nat.lt_succ_iff_lt_or_eq.mp hi with hi | rfl
            · exact h.served i hi output houtput hhead hyes
            · obtain ⟨other, hother, heq⟩ := hhead
              rw [honly other hother] at heq
              exact absurd heq.symm hne
      · rintro output - ⟨other, hother, rfl⟩ hyes hnone
        rw [honly other hother] at hyes hnone
        refine hleave (Bool.and_eq_true_iff.mpr ⟨?_, by simpa using hissued.mpr hnone⟩)
        rw [hasBufferOut, hout hnone]
        exact hyes

theorem rrRounds (hk : k ≤ cfg.totalNodes) :
    OkOr (fun s => (∃ grant, Rounds cfg r k s grant) ∧
        ∀ i < k, ∀ packet ∈ (r.inBuffers ((i + r.nextNodeId) % cfg.totalNodes)).head?,
          packet.outputDeviceID < cfg.totalNodes)
      (fun _ => ¬ r.FrontsExist cfg)
      (countUp (rrRound cfg r.nextNodeId) k (r, fun _ => false)) := by
  induction k with
  | zero =>
      refine ⟨⟨fun _ => none, .refl, fun output => ?_, nofun, nofun⟩, nofun⟩
      simp
  | succ k ih =>
      rw [countUp]
      refine (ih (Nat.le_of_succ_le hk)).bind ?_
      rintro s ⟨⟨grant, hs⟩, hexist⟩
      refine (rrRound_rounds hk hs).mono ?_ ?_
      · rintro t ⟨grant', ht, hexists⟩
        refine ⟨⟨grant', ht⟩, fun i hi => ?_⟩
        rcases Nat.lt_succ_iff_lt_or_eq.mp hi with hi | rfl
        · exact hexist i hi
        · exact hexists
      · rintro _ ⟨packet, hpacket, hbad⟩ hfronts
        have hnode : (k + r.nextNodeId) % cfg.totalNodes < cfg.totalNodes :=
          Nat.mod_lt _ (Nat.zero_lt_of_lt hk)
        exact Nat.not_le.mpr (hfronts _ hnode packet hpacket) hbad

theorem rrAdvance_matching_iff :
    (∃ r' grant, r.rrAdvance cfg = .ok r' ∧ r.Matching cfg r' grant) ↔ r.FrontsExist cfg := by
  have hrounds := rrRounds (r := r) (Nat.le_refl cfg.totalNodes)
  constructor
  · rintro ⟨r', grant, hok, -⟩
    rw [rrAdvance] at hok
    obtain ⟨s, hs, -⟩ := bind_eq_ok.mp hok
    intro node hnode
    obtain ⟨i, hi, rfl⟩ := exists_rotation r.nextNodeId hnode
    exact (hrounds.of_ok hs).2 i hi
  · intro hfronts
    cases hs : countUp (rrRound cfg r.nextNodeId) cfg.totalNodes (r, fun _ => false) with
    | error failure => exact absurd hfronts (hrounds.of_error hs)
    | ok s =>
        obtain ⟨⟨grant, h⟩, -⟩ := hrounds.of_ok hs
        let next := { s.1 with nextNodeId := (r.nextNodeId + 1) % cfg.totalNodes }
        have hnext : r.Transferred next grant := h.transferred.congr rfl rfl
        refine ⟨next, grant, ?_, hnext.matching ?_ ?_ ?_⟩
        · rw [rrAdvance, hs]
          rfl
        · intro output node hgrant
          obtain ⟨houtput, -, i, hi, rfl⟩ := h.visited output node hgrant
          exact ⟨houtput, Nat.mod_lt _ (Nat.zero_lt_of_lt hi)⟩
        · exact fun output node hgrant => (h.visited output node hgrant).2.1
        · intro output houtput hroom node hnode hhead
          obtain ⟨i, hi, rfl⟩ := exists_rotation r.nextNodeId hnode
          exact h.served i hi output houtput hhead hroom

/-! ## The arbiter that visits the outputs -/

theorem islipGrant_eq_some_iff :
    r.islipGrant cfg output = some node ↔ r.FirstFor cfg output node := by
  have hhead : ∀ other, ((r.inBuffers other).head?.any fun packet =>
      packet.outputDeviceID = output) = true ↔ r.HeadFor other output := by
    intro other
    rw [HeadFor, Option.any_eq_true]
    simp
  rw [islipGrant, List.find?_map, Option.map_eq_some_iff]
  constructor
  · rintro ⟨j, hfind, rfl⟩
    obtain ⟨hj, hmem, hbefore⟩ := List.find?_range_eq_some.mp hfind
    refine ⟨j, List.mem_range.mp hmem, rfl, (hhead _).mp hj, fun i hi hi' => ?_⟩
    have hno := hbefore i hi
    rw [Function.comp_apply, (hhead _).mpr hi'] at hno
    cases hno
  · rintro ⟨j, hj, rfl, hnode, hbefore⟩
    refine ⟨j, List.find?_range_eq_some.mpr
      ⟨(hhead _).mpr hnode, List.mem_range.mpr hj, ?_⟩, rfl⟩
    intro i hi
    rw [Bool.not_eq_true', Function.comp_apply, ← Bool.not_eq_true, hhead]
    exact hbefore i hi

theorem islipRound_of_firstFor (hroom : s.hasBufferOut cfg output 1 = true)
    (h : s.FirstFor cfg output node) :
    ∃ packet rest, s.inBuffers node = packet :: rest ∧ packet.outputDeviceID = output ∧
      (islipRound cfg s output).inBuffers = (s.transfer node packet rest).inBuffers ∧
      (islipRound cfg s output).outBuffers = (s.transfer node packet rest).outBuffers ∧
      ∀ other, other ≠ output → (islipRound cfg s output).nextNode other = s.nextNode other := by
  have hgrant := islipGrant_eq_some_iff.mpr h
  obtain ⟨j, hj, -, ⟨packet, hpacket, houtput⟩, -⟩ := h
  cases hfirst : s.inBuffers node with
  | nil =>
      rw [hfirst] at hpacket
      cases hpacket
  | cons head rest =>
      rw [hfirst] at hpacket
      cases hpacket
      refine ⟨packet, rest, rfl, houtput, ?_⟩
      rw [islipRound, if_pos hroom, hgrant]
      dsimp only
      rw [hfirst]
      dsimp only
      split_ifs
      · exact ⟨rfl, rfl, fun other hne => Function.update_of_ne hne _ _⟩
      · exact ⟨rfl, rfl, fun other _ => rfl⟩

theorem islipRound_of_full (hfull : ¬ s.hasBufferOut cfg output 1 = true) :
    islipRound cfg s output = s := by
  rw [islipRound, if_neg hfull]

theorem islipRound_of_none (hnone : ∀ node, ¬ s.FirstFor cfg output node) :
    islipRound cfg s output = s := by
  have hgrant : s.islipGrant cfg output = none := by
    rw [Option.eq_none_iff_forall_not_mem]
    exact fun node hnode => hnone node (islipGrant_eq_some_iff.mp hnode)
  rw [islipRound]
  split_ifs
  · rw [hgrant]
  · rfl

theorem exists_firstFor {j : ℕ} (hj : j < cfg.totalNodes)
    (hhead : s.HeadFor ((j + s.nextNode output) % cfg.totalNodes) output) :
    ∃ i ≤ j, s.FirstFor cfg output ((i + s.nextNode output) % cfg.totalNodes) := by
  classical
  have hex : ∃ i, s.HeadFor ((i + s.nextNode output) % cfg.totalNodes) output := ⟨j, hhead⟩
  have hle : Nat.find hex ≤ j := Nat.find_min' hex hhead
  exact ⟨Nat.find hex, hle, Nat.find hex, hle.trans_lt hj, rfl, Nat.find_spec hex,
    fun i hi => Nat.find_min hex hi⟩

/-- The state after the rounds for the first outputs. -/
def islipRounds (cfg : InctConfig) (r : XbarRouter α) (k : ℕ) : XbarRouter α :=
  (List.range k).foldl (islipRound cfg) r

theorem islipRounds_succ : r.islipRounds cfg (k + 1) = islipRound cfg (r.islipRounds cfg k) k := by
  rw [islipRounds, List.range_succ, List.foldl_append]
  rfl

theorem islipAdvance_buffers :
    (r.islipAdvance cfg).inBuffers = (r.islipRounds cfg cfg.totalNodes).inBuffers ∧
    (r.islipAdvance cfg).outBuffers = (r.islipRounds cfg cfg.totalNodes).outBuffers := by
  rw [islipAdvance]
  split_ifs <;> exact ⟨rfl, rfl⟩

theorem length_islipRound_le :
    ((islipRound cfg s output).inBuffers node).length ≤ (s.inBuffers node).length := by
  by_cases hfull : s.hasBufferOut cfg output 1 = true
  case neg => rw [islipRound_of_full hfull]
  by_cases hgrant : ∃ other, s.FirstFor cfg output other
  case neg => rw [islipRound_of_none (not_exists.mp hgrant)]
  obtain ⟨other, hother⟩ := hgrant
  obtain ⟨packet, rest, hfirst, -, hin, -⟩ := islipRound_of_firstFor hfull hother
  rw [hin, inBuffers_transfer]
  rcases eq_or_ne node other with rfl | hne
  · rw [Function.update_self, hfirst]
    exact Nat.le_succ _
  · rw [Function.update_of_ne hne]

theorem length_islipRounds_le {n : ℕ} (hle : k ≤ n) :
    ((r.islipRounds cfg n).inBuffers node).length ≤
      ((r.islipRounds cfg k).inBuffers node).length := by
  induction n, hle using Nat.le_induction with
  | base => exact Nat.le_refl _
  | succ n hle ih =>
      rw [islipRounds_succ]
      exact length_islipRound_le.trans ih

/-- The grants for the first outputs, while no node was granted twice: an output with room has
that for the node which was the first one at the start of the cycle. -/
structure Granted (cfg : InctConfig) (r : XbarRouter α) (k : ℕ) (s : XbarRouter α)
    (grant : ℕ → Option ℕ) : Prop where
  transferred : r.Transferred s grant
  grant_iff : ∀ output node, grant output = some node ↔
    output < k ∧ r.hasBufferOut cfg output 1 = true ∧ r.FirstFor cfg output node
  pointers : ∀ output, k ≤ output → s.nextNode output = r.nextNode output

section

variable (h : Granted cfg r k s grant)
include h

theorem Granted.headFor (hhead : s.HeadFor node k) :
    r.HeadFor node k ∨ ∃ first < k, grant first = some node ∧
      ∃ packet ∈ (r.inBuffers node).tail.head?, packet.outputDeviceID = k := by
  by_cases hgranted : ∃ output, grant output = some node
  · obtain ⟨output, hgrant⟩ := hgranted
    obtain ⟨packet, hpacket, houtput⟩ := hhead
    rw [h.transferred.granted output node hgrant] at hpacket
    have hlt := ((h.grant_iff output node).mp hgrant).1
    exact .inr ⟨output, hlt, hgrant, packet, hpacket, houtput⟩
  · have hkept := h.transferred.kept node fun output hgrant => hgranted ⟨output, hgrant⟩
    exact .inl ((headFor_congr hkept).mp hhead)

theorem Granted.headFor_of (hhead : r.HeadFor node k) :
    s.HeadFor node k ∧ ∀ output, grant output ≠ some node := by
  have hfree : ∀ output, grant output ≠ some node := by
    intro output hgrant
    have hlt := ((h.grant_iff output node).mp hgrant).1
    exact Nat.ne_of_lt hlt ((h.transferred.head output node hgrant).unique hhead)
  exact ⟨(headFor_congr (h.transferred.kept node hfree)).mpr hhead, hfree⟩

theorem Granted.firstFor_iff (hno : ¬ r.TakesAgainAt cfg k) :
    s.FirstFor cfg k node ↔ r.FirstFor cfg k node := by
  have hpointer := h.pointers k (Nat.le_refl k)
  constructor
  · rintro ⟨j, hj, rfl, hhead, hbefore⟩
    rw [hpointer] at hhead hbefore ⊢
    have hbefore' : ∀ i < j, ¬ r.HeadFor ((i + r.nextNode k) % cfg.totalNodes) k :=
      fun i hi hold => hbefore i hi (h.headFor_of hold).1
    rcases h.headFor hhead with hold | ⟨first, hfirst, hgrant, hsecond⟩
    · exact ⟨j, hj, rfl, hold, hbefore'⟩
    · obtain ⟨-, hyes, hfor⟩ := (h.grant_iff first _).mp hgrant
      exact absurd ⟨first, hfirst, hyes, _, hfor, hsecond, j, hj, rfl, hbefore'⟩ hno
  · rintro ⟨j, hj, rfl, hold, hbefore⟩
    refine ⟨j, hj, by rw [hpointer], (h.headFor_of hold).1, fun i hi hhead => ?_⟩
    rw [hpointer] at hhead
    rcases h.headFor hhead with hold' | ⟨first, hfirst, hgrant, hsecond⟩
    · exact hbefore i hi hold'
    · obtain ⟨-, hyes, hfor⟩ := (h.grant_iff first _).mp hgrant
      exact hno ⟨first, hfirst, hyes, _, hfor, hsecond, i, hi.trans hj, rfl,
        fun i' hi' => hbefore i' (hi'.trans hi)⟩

omit h in
theorem FirstFor.unique {node' : ℕ} (h : r.FirstFor cfg output node)
    (h' : r.FirstFor cfg output node') : node = node' := by
  have hgrant := (islipGrant_eq_some_iff.mpr h).symm.trans (islipGrant_eq_some_iff.mpr h')
  exact Option.some.inj hgrant

theorem Granted.room_iff : s.hasBufferOut cfg k 1 = true ↔ r.hasBufferOut cfg k 1 = true := by
  have hnone : grant k = none := by
    rw [Option.eq_none_iff_forall_not_mem]
    exact fun node hgrant => Nat.lt_irrefl k ((h.grant_iff k node).mp hgrant).1
  rw [hasBufferOut, hasBufferOut, h.transferred.outBuffers, hnone]
  simp

theorem Granted.round (hfirst : r.hasBufferOut cfg k 1 = true →
      ∀ node, s.FirstFor cfg k node ↔ r.FirstFor cfg k node) :
    ∃ grant', Granted cfg r (k + 1) (islipRound cfg s k) grant' := by
  by_cases hroom : r.hasBufferOut cfg k 1 = true
  case neg =>
    rw [islipRound_of_full (fun hyes => hroom (h.room_iff.mp hyes))]
    refine ⟨grant, h.transferred, fun output node => ?_, fun output hle => ?_⟩
    · rw [h.grant_iff, Nat.lt_succ_iff_lt_or_eq]
      constructor
      · exact fun ⟨hlt, hrest⟩ => ⟨.inl hlt, hrest⟩
      · rintro ⟨hlt | rfl, hyes, hfor⟩
        · exact ⟨hlt, hyes, hfor⟩
        · exact absurd hyes hroom
    · exact h.pointers output (Nat.le_of_succ_le hle)
  have hfirst := hfirst hroom
  by_cases hex : ∃ node, r.FirstFor cfg k node
  case neg =>
    rw [islipRound_of_none fun node hnode => hex ⟨node, (hfirst node).mp hnode⟩]
    refine ⟨grant, h.transferred, fun output node => ?_, fun output hle => ?_⟩
    · rw [h.grant_iff, Nat.lt_succ_iff_lt_or_eq]
      constructor
      · exact fun ⟨hlt, hrest⟩ => ⟨.inl hlt, hrest⟩
      · rintro ⟨hlt | rfl, hyes, hfor⟩
        · exact ⟨hlt, hyes, hfor⟩
        · exact absurd ⟨node, hfor⟩ hex
    · exact h.pointers output (Nat.le_of_succ_le hle)
  obtain ⟨node, hnode⟩ := hex
  obtain ⟨packet, rest, hbuffer, hk, hin, hout, hpointers⟩ :=
    islipRound_of_firstFor (h.room_iff.mpr hroom) ((hfirst node).mpr hnode)
  have hfree : ∀ output, grant output ≠ some node := by
    obtain ⟨-, -, -, hhead, -⟩ := hnode
    exact (h.headFor_of hhead).2
  have hnone : grant packet.outputDeviceID = none := by
    rw [hk, Option.eq_none_iff_forall_not_mem]
    exact fun other hgrant => Nat.lt_irrefl k ((h.grant_iff k other).mp hgrant).1
  have hnext := h.transferred.transfer hnone hfree hbuffer hin hout
  rw [hk] at hnext
  refine ⟨_, hnext, fun output other => ?_, fun output hle => ?_⟩
  · rcases eq_or_ne output k with rfl | hne
    · rw [Function.update_self, Option.some.injEq]
      constructor
      · rintro rfl
        exact ⟨Nat.lt_succ_self _, hroom, hnode⟩
      · rintro ⟨-, -, hother⟩
        exact hnode.unique hother
    · rw [Function.update_of_ne hne, h.grant_iff, Nat.lt_succ_iff_lt_or_eq, or_iff_left hne]
  · rw [hpointers output (Nat.ne_of_gt hle)]
    exact h.pointers output (Nat.le_of_succ_le hle)

omit h in
theorem islipRounds_granted (hno : ∀ second < k, r.hasBufferOut cfg second 1 = true →
    ¬ r.TakesAgainAt cfg second) :
    ∃ grant, Granted cfg r k (r.islipRounds cfg k) grant := by
  induction k with
  | zero =>
      refine ⟨fun _ => none, .refl, fun output node => ?_, fun _ _ => rfl⟩
      simp
  | succ k ih =>
      obtain ⟨grant, h⟩ := ih fun second hlt => hno second (Nat.lt_succ_of_lt hlt)
      rw [islipRounds_succ]
      exact h.round fun hroom node => h.firstFor_iff (hno k (Nat.lt_succ_self k) hroom)

theorem Granted.length_of_takesAgain
    (hroom : r.hasBufferOut cfg k 1 = true) (hagain : r.TakesAgainAt cfg k) :
    ∃ node, ((islipRound cfg s k).inBuffers node).length + 2 = (r.inBuffers node).length := by
  obtain ⟨first, hlt, hyes, node, hfor, hsecond, j, hj, rfl, hbefore⟩ := hagain
  have hpointer := h.pointers k (Nat.le_refl k)
  have hgrant : grant first = some _ := (h.grant_iff first _).mpr ⟨hlt, hyes, hfor⟩
  have hhead : s.HeadFor ((j + r.nextNode k) % cfg.totalNodes) k := by
    obtain ⟨packet, hpacket, houtput⟩ := hsecond
    exact ⟨packet, by rwa [h.transferred.granted first _ hgrant], houtput⟩
  rw [← hpointer] at hhead
  obtain ⟨i, hi, hnode⟩ := exists_firstFor hj hhead
  rw [hpointer] at hhead hnode
  -- what comes first is a node that was granted
  have hagain : ∃ output, grant output = some ((i + r.nextNode k) % cfg.totalNodes) := by
    have hold : ¬ r.HeadFor ((i + r.nextNode k) % cfg.totalNodes) k := by
      rcases Nat.lt_or_eq_of_le hi with hi | rfl
      · exact hbefore i hi
      · exact fun hold => (h.headFor_of hold).2 first hgrant
    obtain ⟨-, -, -, hnow, -⟩ := hnode
    rcases h.headFor hnow with hyes | ⟨output, -, hgrant, -⟩
    · exact absurd hyes hold
    · exact ⟨output, hgrant⟩
  obtain ⟨output, hgranted⟩ := hagain
  obtain ⟨packet, rest, hbuffer, -, hin, -⟩ :=
    islipRound_of_firstFor (h.room_iff.mpr hroom) hnode
  refine ⟨(i + r.nextNode k) % cfg.totalNodes, ?_⟩
  rw [hin, inBuffers_transfer, Function.update_self]
  have htail := h.transferred.granted output _ hgranted
  rw [hbuffer] at htail
  have hlength := congrArg List.length htail
  rw [List.length_cons, List.length_tail] at hlength
  omega

end

theorem islipAdvance_matching_iff :
    (∃ grant, r.Matching cfg (r.islipAdvance cfg) grant) ↔ ¬ r.TakesAgain cfg := by
  classical
  constructor
  · rintro ⟨grant, hmatching⟩ hagain
    have hleast := Nat.find_spec hagain
    obtain ⟨hlt, hroom, htakes⟩ := hleast
    have hgrants : ∃ grant, Granted cfg r (Nat.find hagain)
        (r.islipRounds cfg (Nat.find hagain)) grant :=
      islipRounds_granted fun second hsecond hyes htakes =>
        Nat.find_min hagain hsecond ⟨hsecond.trans hlt, hyes, htakes⟩
    obtain ⟨grants, h⟩ := hgrants
    obtain ⟨node, hlength⟩ := h.length_of_takesAgain hroom htakes
    rw [← islipRounds_succ] at hlength
    have hle : ((r.islipRounds cfg cfg.totalNodes).inBuffers node).length ≤
        ((r.islipRounds cfg (Nat.find hagain + 1)).inBuffers node).length :=
      length_islipRounds_le (Nat.succ_le_of_lt hlt)
    have hmost := hmatching.length_le node
    rw [islipAdvance_buffers.1] at hmost
    omega
  · intro hno
    have hgrants : ∃ grant, Granted cfg r cfg.totalNodes
        (r.islipRounds cfg cfg.totalNodes) grant :=
      islipRounds_granted fun second hlt hroom htakes => hno ⟨second, hlt, hroom, htakes⟩
    obtain ⟨grant, h⟩ := hgrants
    have hnext := h.transferred.congr islipAdvance_buffers.1 islipAdvance_buffers.2
    refine ⟨grant, hnext.matching ?_ ?_ ?_⟩
    · intro output node hgrant
      obtain ⟨hlt, -, j, hj, rfl, -⟩ := (h.grant_iff output node).mp hgrant
      exact ⟨hlt, Nat.mod_lt _ (Nat.zero_lt_of_lt hj)⟩
    · exact fun output node hgrant => ((h.grant_iff output node).mp hgrant).2.1
    · intro output houtput hroom node hnode hhead hnone
      obtain ⟨j, hj, rfl⟩ := exists_rotation (r.nextNode output) hnode
      obtain ⟨i, -, hfor⟩ := exists_firstFor hj hhead
      rw [(h.grant_iff output _).mpr ⟨houtput, hroom, hfor⟩] at hnone
      cases hnone

/-! ## A cycle -/

/-- One call of `RR_Advance` or `iSLIP_Advance` is a matching that leaves no output waiting
without a reason: with the round-robin arbiter whenever the first packets are for nodes, and with
the other one unless a node is granted twice. -/
theorem advance_matching_iff :
    (∃ r' grant, r.advance cfg = .ok r' ∧ r.Matching cfg r' grant) ↔ r.CanMatch cfg := by
  rw [advance, CanMatch]
  cases cfg.arbiterAlgo with
  | naiveRR => exact rrAdvance_matching_iff
  | iSLIP =>
      refine Iff.trans ?_ islipAdvance_matching_iff
      constructor
      · rintro ⟨r', grant, hok, h⟩
        cases hok
        exact ⟨grant, h⟩
      · rintro ⟨grant, h⟩
        exact ⟨_, grant, rfl, h⟩

/-- Two nodes of a router with the arbiter that visits the outputs. -/
def islipConfig : InctConfig where
  nShader := 1
  nMem := 1
  inBufferLimit := 2
  outBufferLimit := 2
  subnets := 1
  arbiterAlgo := .iSLIP
  grantCycles := 1
  subnets_cases := .inl rfl

/-- The first node has a packet for either. -/
def twoPackets : XbarRouter Unit where
  inBuffers node := if node = 0 then [⟨(), 0, 0⟩, ⟨(), 1, 0⟩] else []
  grantCyclesCount := 1

/-- Both packets of the node leave in one cycle. -/
theorem not_advance_matching :
    ¬ ∀ (cfg : InctConfig) (r : XbarRouter Unit), r.OutputsExist cfg →
      ∃ r' grant, r.advance cfg = .ok r' ∧ r.Matching cfg r' grant := by
  intro hall
  have hexist : twoPackets.OutputsExist islipConfig := by
    intro node packet hpacket
    show packet.outputDeviceID < 2
    by_cases hnode : node = 0
    · simp only [twoPackets, hnode, if_true, List.mem_cons, List.not_mem_nil, or_false] at hpacket
      rcases hpacket with rfl | rfl <;> decide
    · simp only [twoPackets, hnode, if_false, List.not_mem_nil] at hpacket
  obtain ⟨r', grant, hok, h⟩ := hall islipConfig twoPackets hexist
  have hlength := h.length_le 0
  cases hok
  revert hlength
  decide

end XbarRouter

end GpuCalorie.Interconnect
