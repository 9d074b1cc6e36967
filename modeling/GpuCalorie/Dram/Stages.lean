/-
# Where a request is

A request of a channel waits in `mrqq`, is queued in the scheduler, or is being served. A
request that is served stays with its bank as long as bursts remain to be issued, and has
an entry in the pipeline for every burst that was issued and has not drained: the bank and
the pipeline hold it at the same time if it needs more than one burst. Requests that have
been deleted are nowhere.

`Stage` says so exactly, by how often a request occurs in each of the places.
-/

import GpuCalorie.Dram.Channel
import GpuCalorie.Dram.FrfcfsQueue

namespace GpuCalorie.Dram

open GpuCalorie.Math

/-- How often a request occurs in a list. -/
abbrev copies (n : ℕ) (requests : List DramReq) : ℕ :=
  requests.countP fun req => req.id == n

variable {req : DramReq}

theorem copies_pos_of_mem {requests : List DramReq} (h : req ∈ requests) :
    0 < copies req.id requests :=
  List.countP_pos_iff.mpr ⟨req, h, beq_self_eq_true req.id⟩

theorem copies_without_self (req : DramReq) (requests : List DramReq) :
    copies req.id (without req requests) = 0 := by
  apply List.countP_eq_zero.mpr
  intro other hother
  have hne : (other.id != req.id) = true := (List.mem_filter.mp hother).2
  simpa using hne

theorem copies_without_of_ne {n : ℕ} (hne : n ≠ req.id)
    (requests : List DramReq) : copies n (without req requests) = copies n requests := by
  rw [copies, without, List.countP_filter]
  apply List.countP_congr
  intro other _
  by_cases hn : other.id = n
  · simp [hn, hne]
  · simp [hn]

/-- How often a request occurs in each of the places of a channel. -/
@[ext]
structure Whereabouts where
  mrqq : ℕ
  queues : MemoryMode → ℕ → ℕ
  slot : ℕ → Bool
  rwq : ℕ

namespace Whereabouts

def nowhere : Whereabouts where
  mrqq := 0
  queues _ _ := 0
  slot _ := false
  rwq := 0

def waiting : Whereabouts :=
  { nowhere with mrqq := 1 }

def queued (mode : MemoryMode) (b : ℕ) : Whereabouts :=
  { nowhere with queues := fun mode' b' => if mode' = mode ∧ b' = b then 1 else 0 }

/-- Held by a bank, or not any more, with a number of bursts in the pipeline. -/
def serving (b : ℕ) (held : Bool) (bursts : ℕ) : Whereabouts :=
  { nowhere with slot := fun b' => decide (b' = b) && held, rwq := bursts }

end Whereabouts

/-- Where a request is, by its object on the heap. Of the bursts it needs some were sent,
and some of these have drained; a bank lets go of it when the bursts sent suffice, and it
is deleted when those drained do. -/
inductive Stage (cfg : DramConfig) : Option DramObject → Whereabouts → Prop
  | deleted : Stage cfg none .nowhere
  | waiting (fetch : DramFetch) : Stage cfg (some ⟨fetch, 0, 0⟩) .waiting
  | queued (fetch : DramFetch) (mode : MemoryMode) (b : ℕ) :
      Stage cfg (some ⟨fetch, 0, 0⟩) (.queued mode b)
  | serving (fetch : DramFetch) (sent drained : ℕ) (hle : drained ≤ sent)
      (hopen : drained = 0 ∨ drained * cfg.dramAtomSize < fetch.dataSize)
      (hlast : sent ≤ 1 ∨ (sent - 1) * cfg.dramAtomSize < fetch.dataSize) :
      Stage cfg (some ⟨fetch, sent * cfg.dramAtomSize, drained * cfg.dramAtomSize⟩)
        (.serving fetch.bk (decide (sent = 0 ∨ sent * cfg.dramAtomSize < fetch.dataSize))
          (sent - drained))

namespace Stage

variable {cfg : DramConfig} {o : Option DramObject} {w : Whereabouts}

theorem start (fetch : DramFetch) : Stage cfg (some ⟨fetch, 0, 0⟩) (.serving fetch.bk true 0) := by
  have h : Stage cfg _ _ := .serving fetch 0 0 le_rfl (.inl rfl) (.inl (Nat.zero_le 1))
  simpa using h

variable (h : Stage cfg o w)
include h

theorem of_mrqq (hpos : 0 < w.mrqq) : ∃ fetch, o = some ⟨fetch, 0, 0⟩ ∧ w = .waiting := by
  cases h with
  | waiting fetch => exact ⟨fetch, rfl, rfl⟩
  | deleted => exact absurd hpos (Nat.lt_irrefl 0)
  | queued fetch mode b => exact absurd hpos (Nat.lt_irrefl 0)
  | serving fetch sent drained => exact absurd hpos (Nat.lt_irrefl 0)

theorem of_queues {mode : MemoryMode} {b : ℕ} (hpos : 0 < w.queues mode b) :
    ∃ fetch, o = some ⟨fetch, 0, 0⟩ ∧ w = .queued mode b := by
  cases h with
  | queued fetch mode' b' =>
      simp only [Whereabouts.queued] at hpos
      split_ifs at hpos with hhere
      · exact ⟨fetch, rfl, by rw [hhere.1, hhere.2]⟩
      · exact absurd hpos (Nat.lt_irrefl 0)
  | deleted => exact absurd hpos (Nat.lt_irrefl 0)
  | waiting fetch => exact absurd hpos (Nat.lt_irrefl 0)
  | serving fetch sent drained => exact absurd hpos (Nat.lt_irrefl 0)

theorem of_slot {b : ℕ} (hheld : w.slot b = true) :
    ∃ fetch sent drained, o = some ⟨fetch, sent * cfg.dramAtomSize, drained * cfg.dramAtomSize⟩ ∧
      w = .serving b true (sent - drained) ∧ b = fetch.bk ∧ drained ≤ sent ∧
      (drained = 0 ∨ drained * cfg.dramAtomSize < fetch.dataSize) ∧
      (sent = 0 ∨ sent * cfg.dramAtomSize < fetch.dataSize) := by
  cases h with
  | serving fetch sent drained hle hopen hlast =>
      simp only [Whereabouts.serving, Bool.and_eq_true, decide_eq_true_eq] at hheld
      refine ⟨fetch, sent, drained, rfl, ?_, hheld.1, hle, hopen, hheld.2⟩
      rw [decide_eq_true hheld.2, hheld.1]
  | deleted => exact absurd hheld Bool.false_ne_true
  | waiting fetch => exact absurd hheld Bool.false_ne_true
  | queued fetch mode b => exact absurd hheld Bool.false_ne_true

theorem of_rwq (hpos : 0 < w.rwq) :
    ∃ fetch sent drained, o = some ⟨fetch, sent * cfg.dramAtomSize, drained * cfg.dramAtomSize⟩ ∧
      w = .serving fetch.bk (decide (sent = 0 ∨ sent * cfg.dramAtomSize < fetch.dataSize))
        (sent - drained) ∧ drained < sent ∧
      (sent ≤ 1 ∨ (sent - 1) * cfg.dramAtomSize < fetch.dataSize) := by
  cases h with
  | serving fetch sent drained hle hopen hlast =>
      have hmore : 0 < sent - drained := hpos
      exact ⟨fetch, sent, drained, rfl, rfl, by omega, hlast⟩
  | deleted => exact absurd hpos (Nat.lt_irrefl 0)
  | waiting fetch => exact absurd hpos (Nat.lt_irrefl 0)
  | queued fetch mode b => exact absurd hpos (Nat.lt_irrefl 0)

omit h in
theorem eq_nowhere (h : Stage cfg none w) : w = .nowhere := by
  cases h
  rfl

theorem nowhere_of_none (ho : o = none) : w = .nowhere := by
  rw [ho] at h
  exact h.eq_nowhere

theorem bursts_mul {obj : DramObject} (ho : o = some obj) :
    w.rwq * cfg.dramAtomSize = obj.txbytes - obj.dqbytes := by
  cases h with
  | deleted => cases ho
  | waiting fetch =>
      cases ho
      exact Nat.zero_mul _
  | queued fetch mode b =>
      cases ho
      exact Nat.zero_mul _
  | serving fetch sent drained =>
      cases ho
      exact Nat.sub_mul sent drained cfg.dramAtomSize

end Stage

/-! ## The places of a channel -/

namespace Channel

/-- How often a request occurs in the places of a channel. -/
def whereabouts (s : Channel) (n : ℕ) : Whereabouts where
  mrqq := copies n s.mrqq.contents
  queues mode b := copies n (s.sched.bank mode b).queue
  slot b := (s.bk b).mrq.any fun req => req.id == n
  rwq := copies n s.rwq.contents

/-- A request is in one of the places. -/
inductive Holds (s : Channel) (req : DramReq) : Prop
  | mrqq (h : req ∈ s.mrqq.contents)
  | queue (mode : MemoryMode) (b : ℕ) (h : req ∈ (s.sched.bank mode b).queue)
  | slot (b : ℕ) (h : (s.bk b).mrq = some req)
  | rwq (h : req ∈ s.rwq.contents)

/-- Every request is where its object says, and carries the fetch its object is for. -/
structure InOrder (cfg : DramConfig) (s : Channel) : Prop where
  stage : ∀ n, Stage cfg (s.heap n) (s.whereabouts n)
  agrees : ∀ req, s.Holds req → ∀ obj, s.heap req.id = some obj → obj.fetch = req.data
  fresh : ∀ n, s.nextId ≤ n → s.heap n = none
  sched : s.sched.Ok cfg
  mrqq : s.mrqq.NoDelays

variable {cfg : DramConfig} {s next : Channel}

theorem slot_whereabouts {b : ℕ} (h : (s.bk b).mrq = some req) :
    (s.whereabouts req.id).slot b = true := by
  simp [whereabouts, h]

theorem InOrder.allocated (h : s.InOrder cfg) (hheld : s.Holds req) :
    ∃ obj, s.heap req.id = some obj ∧ obj.fetch = req.data := by
  have hstage := h.stage req.id
  have hsome : ∃ obj, s.heap req.id = some obj := by
    cases hheld with
    | mrqq hmem =>
        obtain ⟨fetch, ho, _⟩ := hstage.of_mrqq (copies_pos_of_mem hmem)
        exact ⟨_, ho⟩
    | queue mode b hmem =>
        obtain ⟨fetch, ho, _⟩ := hstage.of_queues (copies_pos_of_mem hmem)
        exact ⟨_, ho⟩
    | slot b hslot =>
        obtain ⟨fetch, sent, drained, ho, _⟩ := hstage.of_slot (slot_whereabouts hslot)
        exact ⟨_, ho⟩
    | rwq hmem =>
        obtain ⟨fetch, sent, drained, ho, _⟩ := hstage.of_rwq (copies_pos_of_mem hmem)
        exact ⟨_, ho⟩
  obtain ⟨obj, hobj⟩ := hsome
  exact ⟨obj, hobj, h.agrees req hheld obj hobj⟩

theorem InOrder.deref (h : s.InOrder cfg) (hheld : s.Holds req) :
    ∃ obj, s.deref req = .ok obj ∧ s.heap req.id = some obj ∧ obj.fetch = req.data := by
  obtain ⟨obj, hobj, hfetch⟩ := h.allocated hheld
  exact ⟨obj, by rw [Channel.deref, hobj], hobj, hfetch⟩

/-- Nothing moves. -/
structure SamePlaces (s next : Channel) : Prop where
  mrqq : next.mrqq = s.mrqq
  queues : ∀ mode b, (next.sched.bank mode b).queue = (s.sched.bank mode b).queue
  slot : ∀ b, (next.bk b).mrq = (s.bk b).mrq
  rwq : next.rwq.contents = s.rwq.contents
  heap : next.heap = s.heap
  nextId : next.nextId = s.nextId

theorem SamePlaces.whereabouts (h : SamePlaces s next) (n : ℕ) :
    next.whereabouts n = s.whereabouts n := by
  simp only [Channel.whereabouts, h.mrqq, h.queues, h.slot, h.rwq]

theorem SamePlaces.holds (h : SamePlaces s next) (hheld : next.Holds req) : s.Holds req := by
  cases hheld with
  | mrqq hmem => exact .mrqq (h.mrqq ▸ hmem)
  | queue mode b hmem => exact .queue mode b (h.queues mode b ▸ hmem)
  | slot b hslot => exact .slot b ((h.slot b).symm.trans hslot)
  | rwq hmem => exact .rwq (h.rwq ▸ hmem)

theorem InOrder.same (h : s.InOrder cfg) (hsame : SamePlaces s next) (hsched : next.sched.Ok cfg) :
    next.InOrder cfg where
  stage n := by
    rw [hsame.whereabouts, hsame.heap]
    exact h.stage n
  agrees req hheld obj hobj := h.agrees req (hsame.holds hheld) obj (hsame.heap ▸ hobj)
  fresh n hn := by
    rw [hsame.heap]
    exact h.fresh n (hsame.nextId ▸ hn)
  sched := hsched
  mrqq := by
    rw [hsame.mrqq]
    exact h.mrqq

/-- One request moves, and no other. -/
structure Moves (s next : Channel) (n : ℕ) : Prop where
  heap : ∀ m, m ≠ n → next.heap m = s.heap m
  whereabouts : ∀ m, m ≠ n → next.whereabouts m = s.whereabouts m
  fetch : ∀ obj', next.heap n = some obj' → ∃ obj, s.heap n = some obj ∧ obj.fetch = obj'.fetch
  holds : ∀ req, next.Holds req → s.Holds req
  nextId : next.nextId = s.nextId

theorem InOrder.move (h : s.InOrder cfg) {n : ℕ} (hmove : Moves s next n)
    (hstage : Stage cfg (next.heap n) (next.whereabouts n)) (hsched : next.sched.Ok cfg)
    (hmrqq : next.mrqq.NoDelays) : next.InOrder cfg where
  stage m := by
    by_cases hm : m = n
    · rw [hm]
      exact hstage
    · rw [hmove.heap m hm, hmove.whereabouts m hm]
      exact h.stage m
  agrees req hheld obj hobj := by
    by_cases hreq : req.id = n
    · rw [hreq] at hobj
      obtain ⟨old, hold, hfetch⟩ := hmove.fetch obj hobj
      rw [← hfetch]
      exact h.agrees req (hmove.holds req hheld) old (hreq ▸ hold)
    · rw [hmove.heap _ hreq] at hobj
      exact h.agrees req (hmove.holds req hheld) obj hobj
  fresh m hm := by
    rw [hmove.nextId] at hm
    by_cases heq : m = n
    · cases hobj : next.heap m with
      | none => rfl
      | some obj =>
          obtain ⟨old, hold, _⟩ := hmove.fetch obj (heq ▸ hobj)
          rw [← heq, h.fresh m hm] at hold
          cases hold
    · rw [hmove.heap m heq]
      exact h.fresh m hm
  sched := hsched
  mrqq := hmrqq

end Channel

end GpuCalorie.Dram
