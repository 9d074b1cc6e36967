/-
# Credits are neither lost nor returned twice

The requests that are out are those in the latency queue, in the channel and in its return
queue. Sending one borrows a credit, and each of the ways in which one comes back returns
it: a reply of the channel or of the simple model, and a write-back that is done in either.
So at any time a credit is out for every request that is, whichever cycles a unit takes and
however long.
-/

import GpuCalorie.Dram.Conservation
import GpuCalorie.MemoryPartition.Unit

namespace GpuCalorie.MemoryPartition

open Dram GpuCalorie.Math

/-! ## Fronts of queues -/

section Fronts

variable {α : Type} {q q' : FifoPipeline α} {a : α}

theorem contents_of_top (h : q.top = some a) :
    ∃ rest, q.entries = some a :: rest ∧ q.contents = a :: rest.reduceOption := by
  unfold FifoPipeline.top at h
  cases hentries : q.entries with
  | nil =>
      rw [hentries] at h
      cases h
  | cons head rest =>
      rw [hentries] at h
      cases head with
      | none => cases h
      | some b =>
          cases h
          refine ⟨rest, rfl, ?_⟩
          rw [FifoPipeline.contents, hentries]
          rfl

theorem pop_of_top (h : q.top = some a) {data : Option α} (hpop : q.pop = .ok (data, q')) :
    q.contents = a :: q'.contents := by
  obtain ⟨rest, hentries, hcontents⟩ := contents_of_top h
  have hsplit := FifoPipeline.contents_pop hpop
  have hdata : data = some a := by
    unfold FifoPipeline.pop at hpop
    simp only [hentries] at hpop
    split_ifs at hpop with hshort
    · cases hpush : FifoPipeline.push { q with entries := rest } none with
      | error e => simp [hpush, bind, Except.bind] at hpop
      | ok next =>
          rw [hpush] at hpop
          cases hpop
          rfl
    · cases hpop
      rfl
  rw [hdata] at hsplit
  exact hsplit

theorem pop_of_top_none (h : q.top = none) {data : Option α} (hpop : q.pop = .ok (data, q')) :
    q'.contents = q.contents := by
  have hsplit := FifoPipeline.contents_pop hpop
  have hdata : data = none := by
    unfold FifoPipeline.top at h
    unfold FifoPipeline.pop at hpop
    cases hentries : q.entries with
    | nil =>
        rw [hentries] at hpop
        cases hpop
        rfl
    | cons head rest =>
        rw [hentries] at h
        have hnone : head = none := h
        simp only [hentries] at hpop
        split_ifs at hpop with hshort
        · cases hpush : FifoPipeline.push { q with entries := rest } none with
          | error e => simp [hpush, bind, Except.bind] at hpop
          | ok next =>
              rw [hpush] at hpop
              cases hpop
              exact hnone
        · cases hpop
          exact hnone
  rw [hdata] at hsplit
  exact hsplit.symm

end Fronts

namespace PartitionUnit

/-! ## The requests that are out -/

/-- The requests in the latency queue, the channel and its return queue. -/
def outstanding (s : PartitionUnit) : Multiset DramFetch :=
  (s.dramLatencyQueue.map DramDelay.req : List DramFetch) + s.dram.live +
    (s.dram.returnq.contents : Multiset DramFetch)

/-- A request is of a sub-partition of the unit, by its number in the unit. -/
abbrev OfSub (cfg : PartitionConfig) (id p : ℕ) (data : DramFetch) : Prop :=
  data.subPartition = id * cfg.nSub + p

/-- How many of some requests are of a sub-partition. -/
def countOf (cfg : PartitionConfig) (id : ℕ) (requests : Multiset DramFetch) (p : ℕ) : ℕ :=
  requests.countP (OfSub cfg id p)

/-- Any failure but those of the credits. -/
def CreditSafe (failure : PartitionFailure) : Prop :=
  ∀ e, failure ≠ .credit e

/-- Requests are where they belong, and the credits are balanced. -/
structure InOrder (cfg : PartitionConfig) (s : PartitionUnit) : Prop where
  dram : s.dram.InOrder cfg.dram
  queued : ∀ p, p < cfg.nSub → ∀ data ∈ (s.subPartition p).l2DramQueue.contents,
    OfSub cfg s.id p data
  owned : ∀ data ∈ s.outstanding, ∃ p, p < cfg.nSub ∧ OfSub cfg s.id p data
  replies : ∀ data ∈ s.dram.returnq.contents, data.isWriteBack = false
  balanced : s.arbitration.Balanced cfg.nSub (countOf cfg s.id s.outstanding)

variable {cfg : PartitionConfig} {s next : PartitionUnit} {id p : ℕ} {data : DramFetch}
  {requests : Multiset DramFetch} {left : Multiset DramFetch}

theorem countOf_cons_self (h : OfSub cfg id p data) :
    countOf cfg id (data ::ₘ requests) p = countOf cfg id requests p + 1 :=
  Multiset.countP_cons_of_pos _ h

theorem countOf_cons_of_ne (h : OfSub cfg id p data) {i : ℕ} (hi : i ≠ p) :
    countOf cfg id (data ::ₘ requests) i = countOf cfg id requests i := by
  apply Multiset.countP_cons_of_neg
  intro hother
  have heq : id * cfg.nSub + i = id * cfg.nSub + p := hother.symm.trans h
  exact hi (Nat.add_left_cancel heq)

theorem localId_spec (cfg : PartitionConfig) (s : PartitionUnit) (data : DramFetch) :
    OkOr (fun spid => spid < cfg.nSub ∧ OfSub cfg s.id spid data) CreditSafe
      (s.localId cfg data.subPartition) := by
  apply OkOr.ite
  · intro h
    have hid : data.subPartition = s.id * cfg.nSub + (data.subPartition - s.id * cfg.nSub) := by
      omega
    exact ⟨h.2, hid⟩
  · intro _ credit he
    cases he

theorem okOr_pipeline {α : Type} {x : Except PipelineFailure α} {P : α → Prop}
    (h : ∀ a, x = .ok a → P a) : OkOr P CreditSafe (x.mapError .pipeline) := by
  refine OkOr.mapError (.intro h fun e _ credit he => ?_)
  cases he

theorem okOr_dram {α : Type} {x : Except DramFailure α} {P : α → Prop}
    (h : OkOr P DramFailure.Tolerated x) : OkOr P CreditSafe (x.mapError .dram) := by
  refine OkOr.mapError (h.mono (fun _ ha => ha) fun _ _ credit he => ?_)
  cases he

/-! ## Steps -/

theorem InOrder.setSubPartition (h : s.InOrder cfg) {sub : SubPartition}
    (hsub : ∀ data ∈ sub.l2DramQueue.contents, OfSub cfg s.id p data) :
    (s.setSubPartition p sub).InOrder cfg := by
  refine ⟨h.dram, fun i hi data hdata => ?_, h.owned, h.replies, h.balanced⟩
  have hdata : data ∈ (Function.update s.subPartition p sub i).l2DramQueue.contents := hdata
  by_cases hip : i = p
  · rw [hip, Function.update_self] at hdata
    exact hip ▸ hsub data hdata
  · rw [Function.update_of_ne hip] at hdata
    exact h.queued i hi data hdata

/-- A step that neither borrows nor returns, and moves requests that are out only. -/
structure Quiet (cfg : PartitionConfig) (s next : PartitionUnit) : Prop where
  inOrder : next.InOrder cfg
  id : next.id = s.id
  outstanding : next.outstanding = s.outstanding

theorem InOrder.quiet_refl (h : s.InOrder cfg) : Quiet cfg s s :=
  ⟨h, rfl, rfl⟩

theorem InOrder.quiet (h : s.InOrder cfg) (hid : next.id = s.id)
    (harb : next.arbitration = s.arbitration) (hout : next.outstanding = s.outstanding)
    (hdram : next.dram.InOrder cfg.dram)
    (hqueued : ∀ p, p < cfg.nSub → ∀ data ∈ (next.subPartition p).l2DramQueue.contents,
      OfSub cfg next.id p data)
    (hreplies : ∀ data ∈ next.dram.returnq.contents, data.isWriteBack = false) :
    Quiet cfg s next where
  inOrder := by
    refine ⟨hdram, hqueued, ?_, hreplies, ?_⟩
    · rw [hout, hid]
      exact h.owned
    · rw [hout, hid, harb]
      exact h.balanced
  id := hid
  outstanding := hout

/-- A request comes back: it was out, and its credit is returned. -/
structure Returned (cfg : PartitionConfig) (s : PartitionUnit)
    (r : List DramFetch × PartitionUnit) : Prop where
  inOrder : r.2.InOrder cfg
  id : r.2.id = s.id
  outstanding : s.outstanding = (r.1 : Multiset DramFetch) + r.2.outstanding

theorem Quiet.returned (h : Quiet cfg s next) : Returned cfg s ([], next) :=
  ⟨h.inOrder, h.id, h.outstanding.symm.trans (zero_add _).symm⟩

theorem returnCredit_spec
    (h : s.arbitration.Balanced cfg.nSub (countOf cfg s.id (data ::ₘ left))) (hp : p < cfg.nSub)
    (hdata : OfSub cfg s.id p data) :
    ∃ arbitration, s.arbitration.returnCredit p = .ok arbitration ∧
      arbitration.Balanced cfg.nSub (countOf cfg s.id left) :=
  h.giveBack hp (countOf_cons_self hdata) fun _ hi => (countOf_cons_of_ne hdata hi).symm

theorem InOrder.returned (h : s.InOrder cfg) (hout : s.outstanding = data ::ₘ next.outstanding)
    (hid : next.id = s.id) (hdram : next.dram.InOrder cfg.dram)
    (hqueued : ∀ p, p < cfg.nSub → ∀ data ∈ (next.subPartition p).l2DramQueue.contents,
      OfSub cfg next.id p data)
    (hreplies : ∀ data ∈ next.dram.returnq.contents, data.isWriteBack = false)
    (hbalanced : next.arbitration.Balanced cfg.nSub (countOf cfg s.id next.outstanding)) :
    Returned cfg s ([data], next) where
  inOrder := by
    refine ⟨hdram, hqueued, fun other hother => ?_, hreplies, ?_⟩
    · rw [hid]
      apply h.owned
      rw [hout]
      exact Multiset.mem_cons_of_mem hother
    · rw [hid]
      exact hbalanced
  id := hid
  outstanding := by
    rw [hout]
    exact (Multiset.singleton_add _ _).symm

/-- Only the credits and the queues to the L2 have changed, and the credits fit. -/
structure Credited (cfg : PartitionConfig) (s : PartitionUnit) (left : Multiset DramFetch)
    (next : PartitionUnit) : Prop where
  id : next.id = s.id
  dram : next.dram = s.dram
  latencyQueue : next.dramLatencyQueue = s.dramLatencyQueue
  queue : ∀ p, (next.subPartition p).l2DramQueue = (s.subPartition p).l2DramQueue
  balanced : next.arbitration.Balanced cfg.nSub (countOf cfg s.id left)

theorem credited
    (h : s.arbitration.Balanced cfg.nSub (countOf cfg s.id (data ::ₘ left))) (hp : p < cfg.nSub)
    (hdata : OfSub cfg s.id p data) :
    OkOr (Credited cfg s left) CreditSafe (s.returnCredit p) := by
  obtain ⟨arbitration, hreturned, hbalanced⟩ := returnCredit_spec h hp hdata
  unfold PartitionUnit.returnCredit
  rw [hreturned]
  exact ⟨rfl, rfl, rfl, fun _ => rfl, hbalanced⟩

theorem setDone_spec (h : s.arbitration.Balanced cfg.nSub (countOf cfg s.id (data ::ₘ left)))
    (hback : data.isWriteBack = true) :
    OkOr (Credited cfg s left) CreditSafe (s.setDone cfg data) := by
  apply (localId_spec cfg s data).bind
  intro spid hspid
  obtain ⟨hp, hdata⟩ := hspid
  rw [if_pos hback]
  exact credited h hp hdata

theorem reply_spec
    (h : s.arbitration.Balanced cfg.nSub (countOf cfg s.id (data ::ₘ left))) (hp : p < cfg.nSub)
    (hdata : OfSub cfg s.id p data) :
    OkOr (Credited cfg s left) CreditSafe (s.reply p data) := by
  apply (okOr_pipeline (P := fun _ => True) fun _ _ => trivial).bind
  intro queue _
  have hqueue : ∀ i, ((s.setSubPartition p
      { s.subPartition p with dramL2Queue := queue }).subPartition i).l2DramQueue =
        (s.subPartition i).l2DramQueue := by
    intro i
    by_cases hi : i = p <;> simp [setSubPartition, hi]
  obtain ⟨arbitration, hreturned, hbalanced⟩ := returnCredit_spec h hp hdata
  unfold PartitionUnit.returnCredit
  show OkOr _ _ (do
    let arbitration ← (s.arbitration.returnCredit p).mapError PartitionFailure.credit
    pure { s.setSubPartition p { s.subPartition p with dramL2Queue := queue } with
      arbitration := arbitration })
  rw [hreturned]
  exact ⟨rfl, rfl, rfl, hqueue, hbalanced⟩

theorem InOrder.simpleReturn (h : s.InOrder cfg) (now : ℕ) :
    OkOr (Returned cfg s) CreditSafe (simpleReturn cfg now s) := by
  unfold PartitionUnit.simpleReturn
  cases hqueue : s.dramLatencyQueue with
  | nil => exact h.quiet_refl.returned
  | cons front rest =>
      have hout : s.outstanding = front.req ::ₘ ((rest.map DramDelay.req : List DramFetch) +
          s.dram.live + (s.dram.returnq.contents : Multiset DramFetch)) := by
        rw [PartitionUnit.outstanding, hqueue, List.map_cons, ← Multiset.cons_coe,
          Multiset.cons_add, Multiset.cons_add]
      have hpopped : ∀ next, Credited cfg s ((rest.map DramDelay.req : List DramFetch) +
          s.dram.live + (s.dram.returnq.contents : Multiset DramFetch)) next →
          Returned cfg s ([front.req], { next with dramLatencyQueue := rest }) := by
        intro next hnext
        have hleft : PartitionUnit.outstanding { next with dramLatencyQueue := rest } =
            (rest.map DramDelay.req : List DramFetch) + s.dram.live +
              (s.dram.returnq.contents : Multiset DramFetch) := by
          simp only [PartitionUnit.outstanding, hnext.dram]
        apply h.returned
        · rw [hleft]
          exact hout
        · exact hnext.id
        · show next.dram.InOrder cfg.dram
          rw [hnext.dram]
          exact h.dram
        · intro p hp data hdata
          show OfSub cfg next.id p data
          rw [hnext.id]
          exact h.queued p hp data (hnext.queue p ▸ hdata)
        · intro data hdata
          have hdata : data ∈ next.dram.returnq.contents := hdata
          exact h.replies data (hnext.dram ▸ hdata)
        · rw [hleft]
          exact hnext.balanced
      apply OkOr.ite
      · exact fun _ => h.quiet_refl.returned
      · intro _
        apply OkOr.ite
        · exact fun hback => (setDone_spec (hout ▸ h.balanced) hback).bind hpopped
        · intro _
          apply (localId_spec cfg s front.req).bind
          intro spid hspid
          apply OkOr.ite
          · exact fun _ => h.quiet_refl.returned
          · exact fun _ => (reply_spec (hout ▸ h.balanced) hspid.1 hspid.2).bind hpopped

theorem InOrder.dramReturn (h : s.InOrder cfg) :
    OkOr (Returned cfg s) CreditSafe (dramReturn cfg s) := by
  unfold PartitionUnit.dramReturn
  cases htop : s.dram.returnq.top with
  | none =>
      apply (okOr_dram h.dram.returnQueuePop).bind
      intro r hr
      obtain ⟨hdram, hlive, hpop⟩ := hr
      have hsame := pop_of_top_none htop hpop
      apply Quiet.returned
      refine h.quiet rfl rfl ?_ hdram h.queued ?_
      · simp only [PartitionUnit.outstanding, hlive, hsame]
      · intro data hdata
        have hdata : data ∈ r.2.returnq.contents := hdata
        exact h.replies data (hsame ▸ hdata)
  | some mf =>
      obtain ⟨rest, _, hcontents⟩ := contents_of_top htop
      have hout : s.outstanding = mf ::ₘ ((s.dramLatencyQueue.map DramDelay.req : List DramFetch) +
          s.dram.live + (rest.reduceOption : Multiset DramFetch)) := by
        rw [PartitionUnit.outstanding, hcontents, ← Multiset.cons_coe, Multiset.add_cons]
      apply (localId_spec cfg s mf).bind
      intro spid hspid
      apply OkOr.ite
      · exact fun _ => h.quiet_refl.returned
      · intro _
        apply OkOr.ite
        · intro hback
          have hreply : mf.isWriteBack = false :=
            h.replies mf (hcontents ▸ List.mem_cons_self)
          simp [DramFetch.isWriteBack, hback] at hreply
        · intro _
          apply (reply_spec (hout ▸ h.balanced) hspid.1 hspid.2).bind
          intro next hnext
          rw [hnext.dram]
          apply (okOr_dram h.dram.returnQueuePop).bind
          intro r hr
          obtain ⟨hdram, hlive, hpop⟩ := hr
          have hleft : r.2.returnq.contents = rest.reduceOption := by
            have hsplit := pop_of_top htop hpop
            rw [hcontents] at hsplit
            exact (List.cons.inj hsplit).2.symm
          have houtNext : PartitionUnit.outstanding { next with dram := r.2 } =
              (s.dramLatencyQueue.map DramDelay.req : List DramFetch) + s.dram.live +
                (rest.reduceOption : Multiset DramFetch) := by
            simp only [PartitionUnit.outstanding, hnext.latencyQueue, hlive, hleft]
          apply h.returned
          · rw [houtNext]
            exact hout
          · exact hnext.id
          · exact hdram
          · intro p hp data hdata
            show OfSub cfg next.id p data
            rw [hnext.id]
            exact h.queued p hp data (hnext.queue p ▸ hdata)
          · intro data hdata
            have hdata : data ∈ r.2.returnq.contents := hdata
            apply h.replies
            rw [hcontents, ← hleft]
            exact List.mem_cons_of_mem mf hdata
          · rw [houtNext]
            exact hnext.balanced

theorem InOrder.channelCycle (h : s.InOrder cfg) :
    OkOr (Returned cfg s) CreditSafe (channelCycle cfg s) := by
  apply (okOr_dram h.dram.cycle).bind
  intro result hresult
  obtain ⟨dram, completed, commands⟩ := result
  cases completed with
  | none =>
      have hkept : Channel.Kept cfg.dram s.dram dram := hresult
      apply Quiet.returned
      refine h.quiet rfl rfl ?_ hkept.inOrder h.queued ?_
      · simp only [PartitionUnit.outstanding, hkept.live, hkept.returnq]
      · intro data hdata
        have hdata : data ∈ dram.returnq.contents := hdata
        exact h.replies data (hkept.returnq ▸ hdata)
  | some completion =>
      obtain ⟨hinOrder, hlive, hreturnq, _⟩ := hresult
      have hinOrder : dram.InOrder cfg.dram := hinOrder
      have hlive : s.dram.live = completion.fetch ::ₘ dram.live := hlive
      have hreturnq : dram.returnq.contents = s.dram.returnq.contents ++
          (if completion.fetch.isWriteBack then [] else [completion.fetch]) := hreturnq
      set cycled : PartitionUnit := { s with dram := dram } with hcycled
      cases hback : completion.fetch.isWriteBack with
      | false =>
          have hsame : dram.returnq.contents = s.dram.returnq.contents ++ [completion.fetch] := by
            simpa [hback] using hreturnq
          simp only [Option.map_some, Option.filter, hback]
          apply Quiet.returned
          refine h.quiet rfl rfl ?_ hinOrder h.queued ?_
          · show (s.dramLatencyQueue.map DramDelay.req : List DramFetch) + dram.live +
                (dram.returnq.contents : Multiset DramFetch) = s.outstanding
            rw [PartitionUnit.outstanding, hlive, hsame, ← Multiset.coe_add,
              ← Multiset.singleton_add completion.fetch dram.live]
            show _ + (_ + ({completion.fetch} : Multiset DramFetch)) = _
            ac_rfl
          · intro data hdata
            have hdata : data ∈ dram.returnq.contents := hdata
            rw [hsame, List.mem_append, List.mem_singleton] at hdata
            cases hdata with
            | inl hold => exact h.replies data hold
            | inr hnew => exact hnew ▸ hback
      | true =>
          have hsame : dram.returnq.contents = s.dram.returnq.contents := by
            simpa [hback] using hreturnq
          have hout : s.outstanding = completion.fetch ::ₘ cycled.outstanding := by
            simp only [PartitionUnit.outstanding, hcycled, hlive, hsame, Multiset.add_cons,
              Multiset.cons_add]
          simp only [Option.map_some, Option.filter, hback, if_true]
          apply (setDone_spec (s := cycled) (hout ▸ h.balanced) hback).bind
          intro next hnext
          have houtNext : next.outstanding = cycled.outstanding := by
            simp only [PartitionUnit.outstanding, hnext.dram, hnext.latencyQueue]
          apply h.returned
          · rw [houtNext]
            exact hout
          · exact hnext.id
          · rw [hnext.dram]
            exact hinOrder
          · intro p hp data hdata
            rw [hnext.id]
            exact h.queued p hp data (hnext.queue p ▸ hdata)
          · intro data hdata
            rw [hnext.dram] at hdata
            have hdata : data ∈ dram.returnq.contents := hdata
            exact h.replies data (hsame ▸ hdata)
          · rw [houtNext]
            exact hnext.balanced

/-- A request is sent, and a credit borrowed for it. -/
structure Borrowed (cfg : PartitionConfig) (s : PartitionUnit)
    (r : List DramFetch × PartitionUnit) : Prop where
  inOrder : r.2.InOrder cfg
  id : r.2.id = s.id
  outstanding : r.2.outstanding = (r.1 : Multiset DramFetch) + s.outstanding

theorem InOrder.borrowed_refl (h : s.InOrder cfg) : Borrowed cfg s ([], s) :=
  ⟨h, rfl, (zero_add _).symm⟩

theorem InOrder.arbitrate (h : s.InOrder cfg) (now last : ℕ) {places : List ℕ}
    (hplaces : ∀ p ∈ places, p < cfg.nSub) :
    OkOr (Borrowed cfg s) CreditSafe (arbitrate cfg now last places s) := by
  induction places with
  | nil => exact h.borrowed_refl
  | cons p rest ih =>
      have hpos : 0 < cfg.nSub := Nat.zero_lt_of_lt (hplaces p List.mem_cons_self)
      have hspid : (p + last + 1) % cfg.nSub < cfg.nSub := Nat.mod_lt _ hpos
      unfold PartitionUnit.arbitrate
      generalize (p + last + 1) % cfg.nSub = spid at hspid ⊢
      apply OkOr.ite
      · intro hissue
        have hcredits : s.arbitration.hasCredits spid = true := by
          simp only [canIssueToDram, Bool.and_eq_true] at hissue
          exact hissue.2.1
        cases htop : (s.subPartition spid).l2DramQueue.top with
        | none =>
            intro e he
            cases he
        | some mf =>
            apply OkOr.ite
            · exact fun _ => h.borrowed_refl
            · intro _
              apply (okOr_pipeline (P := fun r => (s.subPartition spid).l2DramQueue.pop = .ok r)
                fun r hr => hr).bind
              intro r hpop
              obtain ⟨data, queue⟩ := r
              have hcontents := pop_of_top htop hpop
              have hdata : OfSub cfg s.id spid mf :=
                h.queued spid hspid mf (hcontents ▸ List.mem_cons_self)
              obtain ⟨arbitration, hborrowed, hbalanced⟩ := h.balanced.borrow hspid hcredits
                (countOf_cons_self hdata)
                fun i hi => countOf_cons_of_ne hdata hi
              rw [hborrowed]
              set next : PartitionUnit := { s.setSubPartition spid
                  { s.subPartition spid with l2DramQueue := queue } with
                dramLatencyQueue := s.dramLatencyQueue ++ [⟨now + cfg.dramLatency, mf⟩]
                arbitration := arbitration } with hnext
              have hout : next.outstanding = mf ::ₘ s.outstanding := by
                show ((s.dramLatencyQueue ++ [(⟨now + cfg.dramLatency, mf⟩ : DramDelay)]).map
                  DramDelay.req : List DramFetch) + s.dram.live +
                    (s.dram.returnq.contents : Multiset DramFetch) = _
                rw [PartitionUnit.outstanding, List.map_append, ← Multiset.coe_add,
                  ← Multiset.singleton_add mf]
                show _ + ({mf} : Multiset DramFetch) + _ + _ = _
                ac_rfl
              have hsub : (s.setSubPartition spid
                  { s.subPartition spid with l2DramQueue := queue }).InOrder cfg :=
                h.setSubPartition fun other hother =>
                  h.queued spid hspid other (hcontents ▸ List.mem_cons_of_mem mf hother)
              refine ⟨⟨h.dram, hsub.queued, fun other hother => ?_, h.replies, ?_⟩, rfl, hout⟩
              · rw [hout] at hother
                cases Multiset.mem_cons.mp hother with
                | inl heq => exact ⟨spid, hspid, heq ▸ hdata⟩
                | inr hold => exact h.owned other hold
              · rw [hout]
                exact hbalanced
      · exact fun _ => ih fun i hi => hplaces i (List.mem_cons_of_mem p hi)

theorem InOrder.issueToDram (h : s.InOrder cfg) (now : ℕ) :
    OkOr (Borrowed cfg s) CreditSafe (issueToDram cfg now s) :=
  h.arbitrate now _ fun _ hp => List.mem_range.mp hp

theorem InOrder.pushToDram (h : s.InOrder cfg) (now : ℕ) :
    OkOr (Quiet cfg s) CreditSafe (pushToDram cfg now s) := by
  unfold PartitionUnit.pushToDram
  cases hqueue : s.dramLatencyQueue with
  | nil => exact h.quiet_refl
  | cons front rest =>
      apply OkOr.ite
      · intro _
        apply (okOr_dram (h.dram.push front.req)).bind
        intro dram hdram
        obtain ⟨hinOrder, hlive, hreturnq⟩ := hdram
        refine h.quiet rfl rfl ?_ hinOrder h.queued ?_
        · simp only [PartitionUnit.outstanding, hlive, hreturnq, hqueue, List.map_cons,
            ← Multiset.cons_coe, Multiset.cons_add, Multiset.add_cons]
        · intro data hdata
          have hdata : data ∈ dram.returnq.contents := hdata
          exact h.replies data (hreturnq ▸ hdata)
      · exact fun _ => h.quiet_refl

/-! ## Cycles and runs -/

/-- What a cycle of either kind does to the requests that are out. -/
structure Cycled (cfg : PartitionConfig) (s : PartitionUnit) (r : Traffic × PartitionUnit) :
    Prop where
  inOrder : r.2.InOrder cfg
  id : r.2.id = s.id
  outstanding : (r.1.borrowed : Multiset DramFetch) + s.outstanding =
    (r.1.returned : Multiset DramFetch) + r.2.outstanding

theorem InOrder.simpleDramModelCycle (h : s.InOrder cfg) (now : ℕ) :
    OkOr (Cycled cfg s) CreditSafe (simpleDramModelCycle cfg now s) := by
  apply (h.simpleReturn now).bind
  intro r hr
  obtain ⟨returned, s₁⟩ := r
  apply (hr.inOrder.issueToDram now).bind
  intro t ht
  obtain ⟨borrowed, s₂⟩ := t
  refine ⟨ht.inOrder, ht.id.trans hr.id, ?_⟩
  show (borrowed : Multiset DramFetch) + s.outstanding =
    (returned : Multiset DramFetch) + s₂.outstanding
  rw [hr.outstanding, ht.outstanding]
  exact add_left_comm _ _ _

theorem InOrder.dramCycle (h : s.InOrder cfg) (now : ℕ) :
    OkOr (Cycled cfg s) CreditSafe (dramCycle cfg now s) := by
  apply h.dramReturn.bind
  intro r hr
  obtain ⟨replied, s₁⟩ := r
  apply hr.inOrder.channelCycle.bind
  intro c hc
  obtain ⟨done, s₂⟩ := c
  apply (hc.inOrder.issueToDram now).bind
  intro t ht
  obtain ⟨borrowed, s₃⟩ := t
  apply (ht.inOrder.pushToDram now).bind
  intro s₄ hs₄
  refine ⟨hs₄.inOrder, hs₄.id.trans (ht.id.trans (hc.id.trans hr.id)), ?_⟩
  show (borrowed : Multiset DramFetch) + s.outstanding =
    ((replied ++ done : List DramFetch) : Multiset DramFetch) + s₄.outstanding
  have hfirst : s.outstanding = (replied : Multiset DramFetch) + s₁.outstanding := hr.outstanding
  have hsecond : s₁.outstanding = (done : Multiset DramFetch) + s₂.outstanding := hc.outstanding
  have hthird : s₃.outstanding = (borrowed : Multiset DramFetch) + s₂.outstanding := ht.outstanding
  rw [hs₄.outstanding, hthird, hfirst, hsecond, ← Multiset.coe_add]
  ac_rfl

/-- The credits that are out fit the requests that are, and every request for which one was
borrowed is out or had it returned. -/
structure Log.Accounted (cfg : PartitionConfig) (log : Log) : Prop where
  own : ∀ p, p < cfg.nSub → log.unit.arbitration.privateCredit p = 0 ∨
    log.unit.arbitration.privateCredit p = 1
  shared : log.unit.arbitration.sharedCredit = ∑ p ∈ Finset.range cfg.nSub,
    ((countOf cfg log.unit.id log.unit.outstanding p : ℤ) - log.unit.arbitration.privateCredit p)
  bounded : log.unit.arbitration.sharedCreditLimit = 0 ∨
    log.unit.arbitration.sharedCredit ≤ log.unit.arbitration.sharedCreditLimit
  once : (log.traffic.borrowed : Multiset DramFetch) =
    log.unit.outstanding + (log.traffic.returned : Multiset DramFetch)

/-- The requests are in order, and those credits were borrowed for are accounted for. -/
structure Log.InOrder (cfg : PartitionConfig) (log : Log) : Prop where
  unit : log.unit.InOrder cfg
  once : (log.traffic.borrowed : Multiset DramFetch) =
    log.unit.outstanding + (log.traffic.returned : Multiset DramFetch)

theorem Log.InOrder.cycle {log : Log} (h : log.InOrder cfg) {r : Traffic × PartitionUnit}
    (hr : Cycled cfg log.unit r) : (log.add r).InOrder cfg where
  unit := hr.inOrder
  once := by
    show ((r.1.borrowed ++ log.traffic.borrowed : List DramFetch) : Multiset DramFetch) =
      r.2.outstanding + ((r.1.returned ++ log.traffic.returned : List DramFetch) :
        Multiset DramFetch)
    rw [← Multiset.coe_add, ← Multiset.coe_add, h.once, ← add_assoc, hr.outstanding]
    ac_rfl

theorem Log.InOrder.step {log : Log} (h : log.InOrder cfg) {a : Action} (ha : Enabled cfg log a) :
    OkOr (Log.InOrder cfg) CreditSafe (Log.step cfg log a) := by
  cases a with
  | dramCycle now => exact (h.unit.dramCycle now).bind fun r hr => h.cycle hr
  | simpleDramModelCycle now =>
      exact (h.unit.simpleDramModelCycle now).bind fun r hr => h.cycle hr
  | l2Push p data =>
      apply (okOr_pipeline (P := fun q => q.contents =
        (log.unit.subPartition p).l2DramQueue.contents ++ [data])
        fun q hq => FifoPipeline.contents_push hq).bind
      intro queue hqueue
      refine ⟨h.unit.setSubPartition fun other hother => ?_, h.once⟩
      have hother : other ∈ queue.contents := hother
      rw [hqueue, List.mem_append, List.mem_singleton] at hother
      cases hother with
      | inl hold => exact h.unit.queued p ha.1 other hold
      | inr hnew => exact hnew ▸ ha.2
  | l2Pop p =>
      apply (okOr_pipeline (P := fun _ => True) fun _ _ => trivial).bind
      intro r _
      exact ⟨h.unit.setSubPartition (h.unit.queued p ha), h.once⟩

theorem inOrder_new {id : ℕ} (h : PartitionUnit.new cfg id = .ok s) :
    s.InOrder cfg ∧ s.outstanding = 0 := by
  have hresult : ∀ {ε α : Type} (x : Except ε α) (f : ε → PartitionFailure),
      OkOr (fun a => x = .ok a) (fun _ => True) (x.mapError f) := fun x f =>
    OkOr.mapError (.intro (fun a ha => ha) fun _ _ => trivial)
  have hnew : OkOr (fun s => s.InOrder cfg ∧ s.outstanding = 0) (fun _ => True)
      (PartitionUnit.new cfg id) := by
    apply (hresult _ _).bind
    intro arbitration harb
    apply (hresult _ _).bind
    intro dram hdram
    obtain ⟨hinOrder, hlive, hreturnq⟩ := Channel.InOrder.new hdram
    apply (hresult _ _).bind
    intro l2DramQueue hqueue
    have hqueue : l2DramQueue.contents = [] := FifoPipeline.contents_refill hqueue
    apply (hresult _ _).bind
    intro dramL2Queue _
    set unit : PartitionUnit := ⟨id, fun _ => ⟨l2DramQueue, dramL2Queue⟩, dram, arbitration, []⟩
      with hunit
    have hout : unit.outstanding = 0 := by
      simp [PartitionUnit.outstanding, hunit, hlive, hreturnq]
    have hcount : countOf cfg unit.id unit.outstanding = fun _ => 0 := by
      rw [hout]
      rfl
    refine ⟨⟨hinOrder, fun p _ data hdata => ?_, fun data hdata => ?_, fun data hdata => ?_, ?_⟩,
      hout⟩
    · have hdata : data ∈ l2DramQueue.contents := hdata
      rw [hqueue] at hdata
      exact absurd hdata List.not_mem_nil
    · rw [hout] at hdata
      exact absurd hdata (Multiset.notMem_zero data)
    · have hdata : data ∈ dram.returnq.contents := hdata
      rw [hreturnq] at hdata
      exact absurd hdata List.not_mem_nil
    · rw [hcount]
      exact Arbitration.balanced_new harb
  exact hnew.of_ok h

/-- Two sub-partitions on a channel with two banks. -/
def twoSubPartitions : PartitionConfig where
  dram := twoBanks
  nSub := 2
  dramLatency := 0
  l2DramQueueSize := 8
  dramL2QueueSize := 8

/-- A read of one sub-partition and a write-back of the other, to different banks. -/
def oneRead : DramFetch := ⟨0, 0, 1, false, .globalAccR, 32, 0, 3⟩

def oneWriteBack : DramFetch := ⟨1, 0, 0, true, .l2WrbkAcc, 32, 1, 3⟩

end PartitionUnit

end GpuCalorie.MemoryPartition
