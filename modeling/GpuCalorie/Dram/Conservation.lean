/-
# Requests are conserved

What a channel does keeps every request in its stage or moves it on: from `mrqq` to the
scheduler or to its bank, from the scheduler to its bank, and from there burst by burst
through the pipeline, until it is complete and deleted. Nothing else changes the number of
its copies anywhere, so in every run each request that was pushed is in exactly one stage or
has been completed, and no deleted request is ever accessed.
-/

import GpuCalorie.Dram.Stages
import Mathlib.Data.Multiset.Range
import Mathlib.Data.Multiset.Filter

namespace GpuCalorie.Dram

open GpuCalorie.Math

/-- The failures of a channel on any stream of requests: full queues, and requests for
another channel or for no bank. -/
def DramFailure.Tolerated : DramFailure → Prop
  | .sched failure => failure = .queueFull
  | .useAfterFree => False
  | .nullPointer => False
  | _ => True

theorem okOr_pipeline {α : Type} {x : Except PipelineFailure α} {P : α → Prop}
    (h : ∀ a, x = .ok a → P a) : OkOr P DramFailure.Tolerated (x.mapError .pipeline) :=
  OkOr.mapError (.intro h fun _ _ => trivial)

theorem filterMap_congr {α β : Type} {f g : α → Option β} {elements : Multiset α}
    (h : ∀ a ∈ elements, f a = g a) : elements.filterMap f = elements.filterMap g := by
  induction elements using Quotient.inductionOn with
  | h l => exact congrArg Multiset.ofList (List.filterMap_congr h)

namespace Channel

/-! ## The fetches that are allocated -/

/-- The fetches of the requests on the heap. -/
def live (s : Channel) : Multiset DramFetch :=
  (Multiset.range s.nextId).filterMap fun n => (s.heap n).map DramObject.fetch

variable {cfg : DramConfig} {s next : Channel} {req : DramReq}

theorem live_congr (hid : next.nextId = s.nextId)
    (hfetch : ∀ n, (next.heap n).map DramObject.fetch = (s.heap n).map DramObject.fetch) :
    next.live = s.live := by
  rw [live, live, hid]
  exact congrArg (fun f => Multiset.filterMap f _) (funext hfetch)

theorem live_push (hid : next.nextId = s.nextId + 1) {obj : DramObject}
    (hnew : next.heap s.nextId = some obj) (hold : ∀ n, n ≠ s.nextId → next.heap n = s.heap n) :
    next.live = obj.fetch ::ₘ s.live := by
  rw [live, live, hid, Multiset.range_succ,
    Multiset.filterMap_cons_some (b := obj.fetch) _ _ _ (by rw [hnew]; rfl)]
  congr 1
  apply filterMap_congr
  intro n hn
  rw [hold n (Multiset.mem_range.mp hn).ne]

theorem live_delete {n : ℕ} (hn : n < s.nextId) (hid : next.nextId = s.nextId) {obj : DramObject}
    (hgone : next.heap n = none) (hwas : s.heap n = some obj)
    (hrest : ∀ m, m ≠ n → next.heap m = s.heap m) : s.live = obj.fetch ::ₘ next.live := by
  obtain ⟨rest, hrange⟩ := Multiset.exists_cons_of_mem (Multiset.mem_range.mpr hn)
  have hnodup : n ∉ rest := by
    have hall := Multiset.nodup_range s.nextId
    rw [hrange] at hall
    exact (Multiset.nodup_cons.mp hall).1
  rw [live, live, hid, hrange, Multiset.filterMap_cons_some (b := obj.fetch) _ _ _
    (by rw [hwas]; rfl),
    Multiset.filterMap_cons_none _ _ (by rw [hgone]; rfl)]
  congr 1
  apply filterMap_congr
  intro m hm
  rw [hrest m fun heq => hnodup (heq ▸ hm)]

/-! ## Waiting and being scheduled -/

/-- The requests are in order, and none was added or completed. -/
structure Kept (cfg : DramConfig) (s next : Channel) : Prop where
  inOrder : next.InOrder cfg
  live : next.live = s.live
  returnq : next.returnq = s.returnq

theorem Kept.trans {last : Channel} (h : Kept cfg s next) (h' : Kept cfg next last) :
    Kept cfg s last :=
  ⟨h'.inOrder, h'.live.trans h.live, h'.returnq.trans h.returnq⟩

theorem InOrder.kept_refl (h : s.InOrder cfg) : Kept cfg s s :=
  ⟨h, rfl, rfl⟩

theorem InOrder.kept_same (h : s.InOrder cfg) (hsame : SamePlaces s next)
    (hsched : next.sched.Ok cfg) (hreturnq : next.returnq = s.returnq) : Kept cfg s next where
  inOrder := h.same hsame hsched
  live := live_congr hsame.nextId fun n => by rw [hsame.heap]
  returnq := hreturnq

theorem InOrder.push (h : s.InOrder cfg) (data : DramFetch) :
    OkOr (fun next => next.InOrder cfg ∧ next.live = data ::ₘ s.live ∧ next.returnq = s.returnq)
      DramFailure.Tolerated (s.push data) := by
  apply OkOr.ite
  · exact fun _ => trivial
  · intro _
    apply (okOr_pipeline (P := fun q => q.contents = s.mrqq.contents ++ [⟨s.nextId, data⟩] ∧
      q.NoDelays) fun q hq => ⟨FifoPipeline.contents_push hq, h.mrqq.push hq⟩).bind
    intro q hq
    obtain ⟨hcontents, hdelays⟩ := hq
    have hnone : s.heap s.nextId = none := h.fresh s.nextId le_rfl
    have hnowhere : s.whereabouts s.nextId = .nowhere := (h.stage s.nextId).nowhere_of_none hnone
    have hcopies : ∀ n, copies n q.contents =
        (s.whereabouts n).mrqq + if n = s.nextId then 1 else 0 := by
      intro n
      rw [hcontents, copies, List.countP_append]
      by_cases hn : n = s.nextId
      · subst hn
        simp [Channel.whereabouts]
      · simp [Channel.whereabouts, hn, Ne.symm hn]
    set next : Channel := { s with
      mrqq := q
      heap := Function.update s.heap s.nextId (some ⟨data, 0, 0⟩)
      nextId := s.nextId + 1 } with hnext
    have hnew : next.heap s.nextId = some ⟨data, 0, 0⟩ := Function.update_self ..
    have hold : ∀ n, n ≠ s.nextId → next.heap n = s.heap n := fun n hn =>
      Function.update_of_ne hn ..
    have hwhere : ∀ n, next.whereabouts n =
        { s.whereabouts n with mrqq :=
          (s.whereabouts n).mrqq + if n = s.nextId then 1 else 0 } := by
      intro n
      rw [← hcopies]
      rfl
    refine ⟨⟨fun n => ?_, ?_, fun n hn => ?_, h.sched, hdelays⟩, live_push rfl hnew hold, rfl⟩
    · by_cases hn : n = s.nextId
      · rw [hn, hwhere, hnew, hnowhere, if_pos rfl]
        exact .waiting data
      · rw [hwhere, hold n hn, if_neg hn]
        exact h.stage n
    · intro req hheld obj hobj
      have hcase : s.Holds req ∨ req = ⟨s.nextId, data⟩ := by
        cases hheld with
        | mrqq hmem =>
            have hin : req ∈ q.contents := hmem
            rw [hcontents, List.mem_append, List.mem_singleton] at hin
            exact hin.imp_left .mrqq
        | queue mode b hmem => exact .inl (.queue mode b hmem)
        | slot b hslot => exact .inl (.slot b hslot)
        | rwq hmem => exact .inl (.rwq hmem)
      cases hcase with
      | inl hprior =>
          obtain ⟨old, hsome, hfetch⟩ := h.allocated hprior
          have hne : req.id ≠ s.nextId := fun heq => by
            rw [heq, hnone] at hsome
            cases hsome
          rw [hold req.id hne] at hobj
          exact h.agrees req hprior obj hobj
      | inr heq =>
          rw [heq, hnew] at hobj
          cases hobj
          rw [heq]
    · have hle : s.nextId + 1 ≤ n := hn
      rw [hold n (by omega)]
      exact h.fresh n (by omega)

theorem pop_of_not_isEmpty {q : FifoPipeline DramReq} (h : q.NoDelays) (hfull : q.isEmpty = false)
    {data : Option DramReq} {rest : FifoPipeline DramReq} (hpop : q.pop = .ok (data, rest)) :
    ∃ req, data = some req ∧ q.top = some req ∧ q.contents = req :: rest.contents ∧
      rest.NoDelays := by
  have hcontents := FifoPipeline.contents_pop hpop
  have htop := h.top_eq
  cases hentries : q.entries with
  | nil => simp [FifoPipeline.isEmpty, hentries] at hfull
  | cons head tail =>
      cases head with
      | none => exact absurd (by simp [hentries]) h.2
      | some req =>
          have hdata : data = some req := by
            unfold FifoPipeline.pop at hpop
            have hmin : ¬ (q.minLen ≠ 0 ∧ tail.length < q.minLen) := fun hshort => hshort.1 h.1
            simp only [hentries, if_neg hmin] at hpop
            cases hpop
            rfl
          subst hdata
          refine ⟨req, rfl, ?_, hcontents, h.pop hpop⟩
          rw [htop, hcontents]
          rfl

theorem top_of_not_isEmpty {q : FifoPipeline DramReq} (h : q.NoDelays) (hfull : q.isEmpty = false) :
    ∃ req, q.top = some req ∧ req ∈ q.contents := by
  have htop := h.top_eq
  cases hentries : q.entries with
  | nil => simp [FifoPipeline.isEmpty, hentries] at hfull
  | cons head tail =>
      cases head with
      | none => exact absurd (by simp [hentries]) h.2
      | some req =>
          have hcontents : q.contents = req :: tail.reduceOption := by
            rw [FifoPipeline.contents, hentries]
            rfl
          refine ⟨req, ?_, ?_⟩
          · rw [htop, hcontents]
            rfl
          · rw [hcontents]
            exact List.mem_cons_self

theorem mrq_setMrq (s : Channel) (b i : ℕ) (mrq : Option DramReq) :
    ((s.setMrq b mrq).bk i).mrq = if i = b then mrq else (s.bk i).mrq := by
  by_cases hi : i = b
  · simp [setMrq, setBank, hi]
  · simp [setMrq, setBank, hi]

theorem whereabouts_setMrq (s : Channel) (b n : ℕ) (mrq : Option DramReq) :
    (s.setMrq b mrq).whereabouts n = { s.whereabouts n with
      slot := fun i =>
        if i = b then mrq.any (fun req => req.id == n) else (s.whereabouts n).slot i } := by
  have hslot : ((s.setMrq b mrq).whereabouts n).slot = fun i =>
      if i = b then mrq.any (fun req => req.id == n) else (s.whereabouts n).slot i := by
    funext i
    simp only [whereabouts, mrq_setMrq]
    split_ifs <;> rfl
  rw [← hslot]
  rfl

theorem holds_setMrq {b : ℕ} {mrq : Option DramReq}
    (h : (s.setMrq b mrq).Holds req) : s.Holds req ∨ mrq = some req := by
  cases h with
  | mrqq hmem => exact .inl (.mrqq hmem)
  | queue mode b hmem => exact .inl (.queue mode b hmem)
  | rwq hmem => exact .inl (.rwq hmem)
  | slot i hslot =>
      rw [mrq_setMrq] at hslot
      split_ifs at hslot with hi
      · exact .inr hslot
      · exact .inl (.slot i hslot)

section

variable (h : s.InOrder cfg)
include h

theorem InOrder.handOver {taken : Channel}
    (hheld : s.Holds req) {fetch : DramFetch} (hheap : s.heap req.id = some ⟨fetch, 0, 0⟩)
    (hself : taken.whereabouts req.id = .nowhere)
    (hother : ∀ n, n ≠ req.id → taken.whereabouts n = s.whereabouts n)
    (hholds : ∀ other, taken.Holds other → s.Holds other) (hsame : taken.heap = s.heap)
    (hid : taken.nextId = s.nextId) (hreturnq : taken.returnq = s.returnq)
    (hfree : (taken.bk req.bk).mrq = none) (hsched : taken.sched.Ok cfg)
    (hmrqq : taken.mrqq.NoDelays) : Kept cfg s (taken.setMrq req.bk (some req)) := by
  have hfetch : fetch = req.data := h.agrees req hheld _ hheap
  have hnext : (taken.setMrq req.bk (some req)).heap = s.heap := hsame
  have hmove : Moves s (taken.setMrq req.bk (some req)) req.id := by
    refine ⟨fun n _ => congrFun hnext n, fun n hn => ?_, fun obj hobj => ?_, fun other hother => ?_,
      hid⟩
    · have hslot : (fun i => if i = req.bk then (some req).any (fun other => other.id == n)
          else (taken.whereabouts n).slot i) = (taken.whereabouts n).slot := by
        funext i
        split_ifs with hi
        · rw [hi]
          simp [Channel.whereabouts, hfree, Ne.symm hn]
        · rfl
      rw [whereabouts_setMrq, hslot, hother n hn]
    · rw [hnext] at hobj
      exact ⟨obj, hobj, rfl⟩
    · cases holds_setMrq hother with
      | inl htaken => exact hholds other htaken
      | inr heq => exact Option.some.inj heq ▸ hheld
  refine ⟨h.move hmove ?_ hsched hmrqq, live_congr hid fun n => by rw [hnext], hreturnq⟩
  have hw : (taken.setMrq req.bk (some req)).whereabouts req.id = .serving fetch.bk true 0 := by
    have hslot : (fun i => if i = req.bk then (some req).any (fun other => other.id == req.id)
        else Whereabouts.nowhere.slot i) = fun i => decide (i = fetch.bk) && true := by
      funext i
      by_cases hi : i = req.bk <;> simp [hi, hfetch, Whereabouts.nowhere]
    rw [whereabouts_setMrq, hself, hslot]
    rfl
  rw [hw, hnext, hheap]
  exact .start fetch

theorem InOrder.schedulerFifo : OkOr (Kept cfg s) DramFailure.Tolerated (schedulerFifo cfg s) := by
  apply OkOr.ite
  · exact fun _ => h.kept_refl
  · intro hfull
    have hfull : s.mrqq.isEmpty = false := by simpa using hfull
    obtain ⟨head, htop, hmem⟩ := top_of_not_isEmpty h.mrqq hfull
    obtain ⟨obj, hderef, _⟩ := h.deref (.mrqq hmem)
    rw [htop]
    simp only [hderef]
    apply OkOr.ite
    · exact fun _ => trivial
    · intro _
      apply OkOr.ite
      · exact fun _ => h.kept_refl
      · intro hfree
        have hfree : (s.bk head.bk).mrq = none := by simpa using hfree
        apply (okOr_pipeline (P := fun r => ∃ req, r.1 = some req ∧ s.mrqq.top = some req ∧
          s.mrqq.contents = req :: r.2.contents ∧ r.2.NoDelays)
          fun r hr => pop_of_not_isEmpty h.mrqq hfull hr).bind
        intro r hr
        obtain ⟨mrq, rest⟩ := r
        obtain ⟨req, rfl, hreq, hcontents, hrest⟩ := hr
        obtain rfl : head = req := Option.some.inj (htop.symm.trans hreq)
        obtain ⟨fetch, hheap, hwaiting⟩ := (h.stage head.id).of_mrqq (copies_pos_of_mem hmem)
        set taken : Channel := { s with mrqq := rest } with htaken
        have hwhere : ∀ n, taken.whereabouts n =
            { s.whereabouts n with mrqq := copies n rest.contents } := fun n => rfl
        have hcopies : ∀ n, (s.whereabouts n).mrqq =
            copies n rest.contents + if n = head.id then 1 else 0 := by
          intro n
          simp only [Channel.whereabouts]
          rw [hcontents, copies, List.countP_cons]
          by_cases hn : n = head.id
          · simp [hn]
          · simp [hn, Ne.symm hn]
        have hself : taken.whereabouts head.id = .nowhere := by
          have hone := hcopies head.id
          rw [hwaiting, if_pos rfl] at hone
          rw [hwhere, hwaiting, ← Nat.succ.inj hone]
          rfl
        have hother : ∀ n, n ≠ head.id → taken.whereabouts n = s.whereabouts n := by
          intro n hn
          have hsame := hcopies n
          rw [if_neg hn] at hsame
          rw [hwhere, ← Nat.add_zero (copies n rest.contents), ← hsame]
        apply h.handOver (.mrqq hmem) hheap hself hother _ rfl rfl rfl hfree h.sched hrest
        intro other hother
        cases hother with
        | mrqq hmem => exact .mrqq (hcontents ▸ List.mem_cons_of_mem head hmem)
        | queue mode b hmem => exact .queue mode b hmem
        | slot b hslot => exact .slot b hslot
        | rwq hmem => exact .rwq hmem

theorem InOrder.accept {rest : FifoPipeline DramReq}
    (hcontents : s.mrqq.contents = req :: rest.contents) (hrest : rest.NoDelays)
    (hbk : req.bk < cfg.nbk) :
    OkOr (fun sched => Kept cfg s { s with mrqq := rest, sched := sched }) DramFailure.Tolerated
      ((s.sched.addReq cfg req).mapError .sched) := by
  have hmem : req ∈ s.mrqq.contents := by
    rw [hcontents]
    exact List.mem_cons_self
  obtain ⟨fetch, hheap, hwaiting⟩ := (h.stage req.id).of_mrqq (copies_pos_of_mem hmem)
  have hfresh : s.sched.Fresh req := by
    intro mode b other hother heq
    have hpos : 0 < (s.whereabouts req.id).queues mode b := heq ▸ copies_pos_of_mem hother
    rw [hwaiting] at hpos
    exact Nat.lt_irrefl 0 hpos
  apply OkOr.mapError
  cases h.sched.addReq hfresh hbk with
  | inl hfull =>
      rw [hfull]
      rfl
  | inr hadded =>
      obtain ⟨sched, hsched, hok, _, hqueue⟩ := hadded
      rw [hsched]
      set next : Channel := { s with mrqq := rest, sched := sched } with hnext
      have hmrqq : ∀ n, (s.whereabouts n).mrqq =
          copies n rest.contents + if n = req.id then 1 else 0 := by
        intro n
        simp only [Channel.whereabouts]
        rw [hcontents, copies, List.countP_cons]
        by_cases hn : n = req.id
        · simp [hn]
        · simp [hn, Ne.symm hn]
      have hqueues : ∀ n mode b, copies n (sched.bank mode b).queue =
        (s.whereabouts n).queues mode b +
          if n = req.id ∧ mode = Frfcfs.modeOf cfg req ∧ b = req.bk then 1 else 0 := by
        intro n mode b
        rw [hqueue]
        by_cases hhere : mode = Frfcfs.modeOf cfg req ∧ b = req.bk
        · rw [if_pos hhere, copies, List.countP_cons]
          by_cases hn : n = req.id
          · simp [hn, hhere, Channel.whereabouts]
          · simp [hn, Ne.symm hn, Channel.whereabouts]
        · rw [if_neg hhere, if_neg fun hall => hhere hall.2]
          rfl
      have hwhere : ∀ n, next.whereabouts n = { s.whereabouts n with
          mrqq := copies n rest.contents
          queues := fun mode b => (s.whereabouts n).queues mode b +
            if n = req.id ∧ mode = Frfcfs.modeOf cfg req ∧ b = req.bk then 1 else 0 } := by
        intro n
        simp only [← hqueues]
        rfl
      have hholds : ∀ other, next.Holds other → s.Holds other := by
        intro other hother
        cases hother with
        | mrqq hin => exact .mrqq (hcontents ▸ List.mem_cons_of_mem req hin)
        | slot b hslot => exact .slot b hslot
        | rwq hin => exact .rwq hin
        | queue mode b hin =>
            have hin : other ∈ (sched.bank mode b).queue := hin
            rw [hqueue] at hin
            split_ifs at hin with hhere
            · cases List.mem_cons.mp hin with
              | inl heq => exact .mrqq (heq ▸ hmem)
              | inr hold => exact .queue mode b hold
            · exact .queue mode b hin
      have hmove : Moves s next req.id := by
        refine ⟨fun n _ => rfl, fun n hn => ?_, fun obj hobj => ⟨obj, hobj, rfl⟩, hholds, rfl⟩
        have hsame := hmrqq n
        rw [if_neg hn, Nat.add_zero] at hsame
        rw [hwhere, ← hsame]
        simp only [hn, false_and, if_false, Nat.add_zero]
      refine ⟨h.move hmove ?_ hok hrest, live_congr rfl fun n => rfl, rfl⟩
      have hone := hmrqq req.id
      rw [hwaiting, if_pos rfl] at hone
      have hqueued : next.whereabouts req.id = .queued (Frfcfs.modeOf cfg req) req.bk := by
        rw [hwhere, hwaiting, ← Nat.succ.inj hone]
        simp [Whereabouts.queued, Whereabouts.waiting, Whereabouts.nowhere]
      show Stage cfg (s.heap req.id) (next.whereabouts req.id)
      rw [hqueued, hheap]
      exact .queued fetch _ _

theorem InOrder.acceptAll (rounds : ℕ) :
    OkOr (Kept cfg s) DramFailure.Tolerated (acceptAll cfg s rounds) := by
  induction rounds generalizing s with
  | zero => exact h.kept_refl
  | succ rounds ih =>
      apply OkOr.ite
      · exact fun _ => h.kept_refl
      · intro hfull
        have hfull : s.mrqq.isEmpty = false := by simpa using hfull
        apply (okOr_pipeline (P := fun r => ∃ req, r.1 = some req ∧ s.mrqq.top = some req ∧
          s.mrqq.contents = req :: r.2.contents ∧ r.2.NoDelays)
          fun r hr => pop_of_not_isEmpty h.mrqq hfull hr).bind
        intro r hr
        obtain ⟨mrq, rest⟩ := r
        obtain ⟨req, rfl, _, hcontents, hrest⟩ := hr
        have hmem : req ∈ s.mrqq.contents := by
          rw [hcontents]
          exact List.mem_cons_self
        obtain ⟨obj, hderef, _⟩ := h.deref (.mrqq hmem)
        simp only [hderef]
        apply OkOr.ite
        · exact fun _ => trivial
        · intro hbk
          apply (h.accept hcontents hrest (not_le.mp hbk)).bind
          intro sched hkept
          exact (ih hkept.inOrder).imp fun last hlast => hkept.trans hlast

theorem InOrder.scheduled_some {sched : Frfcfs} (hok : sched.Ok cfg)
    {mode : MemoryMode} (hmem : req ∈ (s.sched.bank mode req.bk).queue)
    (hqueue : ∀ m b, (sched.bank m b).queue = if m = mode ∧ b = req.bk
      then without req (s.sched.bank m b).queue else (s.sched.bank m b).queue)
    (hfree : (s.bk req.bk).mrq = none) (prio : ℕ) :
    Kept cfg s (({ s with sched := sched, prio := prio } : Channel).setMrq req.bk (some req)) := by
  obtain ⟨fetch, hheap, hqueued⟩ := (h.stage req.id).of_queues (copies_pos_of_mem hmem)
  set taken : Channel := { s with sched := sched, prio := prio } with htaken
  have hqueues : ∀ n m b, copies n (sched.bank m b).queue =
      if n = req.id ∧ m = mode ∧ b = req.bk then 0 else (s.whereabouts n).queues m b := by
    intro n m b
    rw [hqueue]
    by_cases hhere : m = mode ∧ b = req.bk
    · rw [if_pos hhere]
      by_cases hn : n = req.id
      · rw [if_pos ⟨hn, hhere⟩, hn]
        exact copies_without_self ..
      · rw [if_neg fun hall => hn hall.1]
        exact copies_without_of_ne hn _
    · rw [if_neg hhere, if_neg fun hall => hhere hall.2]
      rfl
  have hwhere : ∀ n, taken.whereabouts n = { s.whereabouts n with
      queues := fun m b =>
        if n = req.id ∧ m = mode ∧ b = req.bk then 0 else (s.whereabouts n).queues m b } := by
    intro n
    simp only [← hqueues]
    rfl
  have hself : taken.whereabouts req.id = .nowhere := by
    rw [hwhere, hqueued]
    simp only [Whereabouts.queued, Whereabouts.nowhere, true_and]
    congr 1
    funext m b
    split_ifs <;> rfl
  have hother : ∀ n, n ≠ req.id → taken.whereabouts n = s.whereabouts n := by
    intro n hn
    rw [hwhere]
    simp only [hn, false_and, if_false]
  apply h.handOver (.queue mode req.bk hmem) hheap hself hother _ rfl rfl rfl hfree hok h.mrqq
  intro other hheld
  cases hheld with
  | mrqq hin => exact .mrqq hin
  | slot b hslot => exact .slot b hslot
  | rwq hin => exact .rwq hin
  | queue m b hin =>
      have hin : other ∈ (sched.bank m b).queue := hin
      rw [hqueue] at hin
      split_ifs at hin
      · exact .queue m b (List.mem_filter.mp hin).1
      · exact .queue m b hin

theorem InOrder.fillBank (places : List ℕ) :
    OkOr (Kept cfg s) DramFailure.Tolerated (fillBank cfg places s) := by
  induction places generalizing s with
  | nil => exact h.kept_refl
  | cons i rest ih =>
      apply OkOr.ite
      · exact fun _ => ih h
      · intro hfree
        have hfree : (s.bk ((i + s.prio) % cfg.nbk)).mrq = none := by simpa using hfree
        obtain ⟨result, sched, hsched, hok, hspec⟩ :=
          h.sched.schedule ((i + s.prio) % cfg.nbk) (s.bk ((i + s.prio) % cfg.nbk)).currRow
        rw [hsched]
        cases result with
        | none =>
            have hkept : Kept cfg s { s with sched := sched } :=
              h.kept_same ⟨rfl, hspec.queue, fun _ => rfl, rfl, rfl, rfl⟩ hok rfl
            exact (ih hkept.inOrder).imp fun last hlast => hkept.trans hlast
        | some req =>
            have hmem := hspec.mem req rfl
            have hbk := (h.sched.homed _ _ req hmem).2.1
            have hqueue : ∀ m b, (sched.bank m b).queue =
                if m = s.sched.nextMode cfg ∧ b = (i + s.prio) % cfg.nbk
                then without req (s.sched.bank m b).queue else (s.sched.bank m b).queue :=
              hspec.queue
            rw [← hbk] at hmem hqueue hfree
            obtain ⟨obj, hderef, _⟩ := h.deref (.queue _ _ hmem)
            have hderef : Channel.deref s req = .ok obj := hderef
            show OkOr _ _ (do
              let _ ← s.deref req
              pure (({ s with sched := sched, prio := (s.prio + 1) % cfg.nbk } : Channel).setMrq
                ((i + s.prio) % cfg.nbk) (some req)))
            rw [hderef, ← hbk]
            exact h.scheduled_some hok hmem hqueue hfree _

theorem InOrder.scheduler : OkOr (Kept cfg s) DramFailure.Tolerated (scheduler cfg s) := by
  unfold Channel.scheduler
  cases cfg.schedulerType with
  | fifo => exact h.schedulerFifo
  | frfcfs =>
      apply (h.acceptAll _).bind
      intro next hkept
      exact (hkept.inOrder.fillBank _).imp fun last hlast => hkept.trans hlast

end

/-! ## Bursts -/

/-- What leaves the pipeline is complete and deleted, or has a burst less to wait for. -/
def Drained (cfg : DramConfig) (s : Channel) (r : Option Completion × Channel) : Prop :=
  match r.1 with
  | none => Kept cfg s r.2
  | some completion =>
      r.2.InOrder cfg ∧ s.live = completion.fetch ::ₘ r.2.live ∧
        r.2.returnq.contents = s.returnq.contents ++
          (if completion.fetch.isWriteBack then [] else [completion.fetch]) ∧
        completion.fetch.dataSize ≤ completion.bytes

theorem InOrder.drain (h : s.InOrder cfg) :
    OkOr (Drained cfg s) DramFailure.Tolerated (drain cfg s) := by
  apply OkOr.ite
  · exact fun _ => h.kept_refl
  · intro _
    apply (okOr_pipeline (P := fun r => s.rwq.contents = r.1.toList ++ r.2.contents)
      fun r hr => FifoPipeline.contents_pop hr).bind
    intro r hcontents
    obtain ⟨cmd | cmd, rwq⟩ := r
    · have hsame : rwq.contents = s.rwq.contents := hcontents.symm
      exact h.kept_same ⟨rfl, fun _ _ => rfl, fun _ => rfl, hsame, rfl, rfl⟩ h.sched rfl
    · have hcontents : s.rwq.contents = cmd :: rwq.contents := hcontents
      have hmem : cmd ∈ s.rwq.contents := by
        rw [hcontents]
        exact List.mem_cons_self
      obtain ⟨obj, hderef, hheap, _⟩ := h.deref (.rwq hmem)
      obtain ⟨fetch, sent, drained, hobj, hserving, hless, hlast⟩ :=
        (h.stage cmd.id).of_rwq (copies_pos_of_mem hmem)
      obtain rfl : obj = _ := Option.some.inj (hheap.symm.trans hobj)
      simp only [hderef]
      have hcopies : ∀ n, (s.whereabouts n).rwq =
          copies n rwq.contents + if n = cmd.id then 1 else 0 := by
        intro n
        simp only [Channel.whereabouts]
        rw [hcontents, copies, List.countP_cons]
        by_cases hn : n = cmd.id
        · simp [hn]
        · simp [hn, Ne.symm hn]
      have hleft : copies cmd.id rwq.contents = sent - (drained + 1) := by
        have hone := hcopies cmd.id
        rw [hserving, if_pos rfl] at hone
        have hone : sent - drained = copies cmd.id rwq.contents + 1 := hone
        omega
      have hdq : drained * cfg.dramAtomSize + cfg.dramAtomSize = (drained + 1) * cfg.dramAtomSize :=
        (Nat.succ_mul ..).symm
      -- the request after the burst has left, whatever becomes of its object
      have hmove : ∀ next : Channel, next.mrqq = s.mrqq → next.sched = s.sched → next.bk = s.bk →
          next.rwq = rwq → next.nextId = s.nextId →
          (∀ n, n ≠ cmd.id → next.heap n = s.heap n) →
          (∀ obj, next.heap cmd.id = some obj → obj.fetch = fetch) → Moves s next cmd.id ∧
            next.whereabouts cmd.id = { s.whereabouts cmd.id with rwq :=
              sent - (drained + 1) } := by
        intro next hmrqq hsched hbk hrwq hid hheap' hfetch
        have hwhere : ∀ n, next.whereabouts n =
            { s.whereabouts n with rwq := copies n rwq.contents } := fun n => by
          simp only [Channel.whereabouts, hmrqq, hsched, hbk, hrwq]
        refine ⟨⟨hheap', fun n hn => ?_, fun obj hobj => ⟨_, hheap, (hfetch obj hobj).symm⟩,
          fun other hother => ?_, hid⟩, ?_⟩
        · have hsame := hcopies n
          rw [if_neg hn, Nat.add_zero] at hsame
          rw [hwhere, ← hsame]
        · cases hother with
          | mrqq hin => exact .mrqq (hmrqq ▸ hin)
          | queue mode b hin => exact .queue mode b (hsched ▸ hin)
          | slot b hslot => exact .slot b (hbk ▸ hslot)
          | rwq hin => exact .rwq (hcontents ▸ List.mem_cons_of_mem cmd (hrwq ▸ hin))
        · rw [hwhere, hleft]
      apply OkOr.ite
      · intro hcomplete
        have hcomplete : fetch.dataSize ≤ (drained + 1) * cfg.dramAtomSize := hdq ▸ hcomplete
        -- the burst that completes the request is the last one
        have hall : sent = drained + 1 := by
          by_contra hmore
          have hle : (drained + 1) * cfg.dramAtomSize ≤ (sent - 1) * cfg.dramAtomSize :=
            Nat.mul_le_mul_right _ (by omega)
          have hless : (sent - 1) * cfg.dramAtomSize < fetch.dataSize := by
            cases hlast with
            | inl hone => omega
            | inr hless => exact hless
          omega
        have hfree : decide (sent = 0 ∨ sent * cfg.dramAtomSize < fetch.dataSize) = false := by
          rw [hall]
          exact decide_eq_false fun hheld => by
            cases hheld with
            | inl hzero => exact absurd hzero (Nat.succ_ne_zero drained)
            | inr hless => exact absurd hcomplete (not_le.mpr hless)
        have hdeliver : OkOr (fun returnq => returnq.contents = s.returnq.contents ++
            (if fetch.isWriteBack then [] else [fetch])) DramFailure.Tolerated
              (deliver s fetch) := by
          apply OkOr.ite
          · intro hback
            rw [if_pos hback]
            exact (List.append_nil _).symm
          · intro hback
            rw [if_neg hback]
            exact okOr_pipeline fun q hq => FifoPipeline.contents_push hq
        apply hdeliver.bind
        intro returnq hreturnq
        set next : Channel := { s with
          rwq := rwq
          returnq := returnq
          heap := Function.update s.heap cmd.id none } with hnext
        have hgone : next.heap cmd.id = none := Function.update_self ..
        have hrest : ∀ n, n ≠ cmd.id → next.heap n = s.heap n := fun n hn =>
          Function.update_of_ne hn ..
        have hid : cmd.id < s.nextId := by
          by_contra hlarge
          rw [h.fresh cmd.id (not_lt.mp hlarge)] at hheap
          cases hheap
        obtain ⟨hmoves, hwhere⟩ := hmove next rfl rfl rfl rfl rfl hrest fun obj hobj => by
          rw [hgone] at hobj
          cases hobj
        have hlive : s.live = fetch ::ₘ next.live :=
          live_delete hid (show next.nextId = s.nextId from rfl) hgone hheap hrest
        refine ⟨h.move hmoves ?_ h.sched h.mrqq, hlive, hreturnq, hdq.symm ▸ hcomplete⟩
        rw [hwhere, hserving, hgone, hfree, hall, Nat.sub_self]
        have hnowhere : Whereabouts.serving fetch.bk false 0 = .nowhere := by
          simp [Whereabouts.serving, Whereabouts.nowhere]
        show Stage cfg none (Whereabouts.serving fetch.bk false 0)
        rw [hnowhere]
        exact .deleted
      · intro hopen
        rw [hdq] at hopen
        set next : Channel := { s with
          rwq := rwq
          heap := Function.update s.heap cmd.id (some ⟨fetch, sent * cfg.dramAtomSize,
            drained * cfg.dramAtomSize + cfg.dramAtomSize⟩) } with hnext
        have hnew : next.heap cmd.id = some ⟨fetch, sent * cfg.dramAtomSize,
            (drained + 1) * cfg.dramAtomSize⟩ := by
          rw [← hdq]
          exact Function.update_self ..
        have hrest : ∀ n, n ≠ cmd.id → next.heap n = s.heap n := fun n hn =>
          Function.update_of_ne hn ..
        obtain ⟨hmoves, hwhere⟩ := hmove next rfl rfl rfl rfl rfl hrest fun obj hobj => by
          rw [hnew] at hobj
          cases hobj
          rfl
        refine ⟨h.move hmoves ?_ h.sched h.mrqq, live_congr rfl fun n => ?_, rfl⟩
        · rw [hwhere, hserving, hnew]
          exact .serving fetch sent (drained + 1) hless (.inr (not_le.mp hopen)) hlast
        · by_cases hn : n = cmd.id
          · rw [hn, hnew, hheap]
            rfl
          · rw [hrest n hn]

theorem turnaround_contents (cfg : DramConfig) (s : Channel) (mrq : DramReq) :
    OkOr (fun rwq => rwq.contents = s.rwq.contents) DramFailure.Tolerated
      (turnaround cfg s mrq) := by
  apply OkOr.ite
  · exact fun _ => rfl
  · exact fun _ => okOr_pipeline fun q hq => FifoPipeline.contents_setMinLength hq

theorem InOrder.sendBurst (h : s.InOrder cfg) {j : ℕ} {mrq : DramReq}
    (hslot : (s.bk j).mrq = some mrq) :
    OkOr (Kept cfg s) DramFailure.Tolerated (sendBurst cfg s j mrq) := by
  obtain ⟨obj, hderef, hheap, hdata⟩ := h.deref (.slot j hslot)
  obtain ⟨fetch, sent, drained, hobj, hserving, hj, hle, hopen, hheld⟩ :=
    (h.stage mrq.id).of_slot (slot_whereabouts hslot)
  obtain rfl : obj = _ := Option.some.inj (hheap.symm.trans hobj)
  have hdata : fetch = mrq.data := hdata
  have htx : sent * cfg.dramAtomSize + cfg.dramAtomSize = (sent + 1) * cfg.dramAtomSize :=
    (Nat.succ_mul ..).symm
  unfold Channel.sendBurst
  simp only [hderef]
  apply (turnaround_contents cfg s mrq).bind
  intro turned hturned
  apply (okOr_pipeline (P := fun q => q.contents = s.rwq.contents ++ [mrq])
    fun q hq => hturned ▸ FifoPipeline.contents_push hq).bind
  intro rwq hrwq
  set sending : Channel := { s with
    rwWrite := mrq.isWrite
    rwq := rwq
    heap := Function.update s.heap mrq.id (some ⟨fetch, sent * cfg.dramAtomSize + cfg.dramAtomSize,
      drained * cfg.dramAtomSize⟩) } with hsending
  set held : Option DramReq :=
    if sent * cfg.dramAtomSize + cfg.dramAtomSize < mrq.nbytes then some mrq else none with hheldDef
  have hnew : (sending.setMrq j held).heap mrq.id = some ⟨fetch, (sent + 1) * cfg.dramAtomSize,
      drained * cfg.dramAtomSize⟩ := by
    rw [← htx]
    exact Function.update_self ..
  have hrest : ∀ n, n ≠ mrq.id → (sending.setMrq j held).heap n = s.heap n := fun n hn =>
    Function.update_of_ne hn ..
  have hcopies : ∀ n, copies n rwq.contents =
      (s.whereabouts n).rwq + if n = mrq.id then 1 else 0 := by
    intro n
    rw [hrwq, copies, List.countP_append]
    by_cases hn : n = mrq.id
    · simp [hn, Channel.whereabouts]
    · simp [hn, Ne.symm hn, Channel.whereabouts]
  have hwhere : ∀ n, (sending.setMrq j held).whereabouts n = { s.whereabouts n with
      rwq := (s.whereabouts n).rwq + if n = mrq.id then 1 else 0
      slot := fun i =>
        if i = j then held.any (fun req => req.id == n) else (s.whereabouts n).slot i } := by
    intro n
    rw [whereabouts_setMrq, ← hcopies]
    rfl
  have hheldEq : held = some mrq ∨ held = none := by
    rw [hheldDef]
    split_ifs
    · exact .inl rfl
    · exact .inr rfl
  have hmove : Moves s (sending.setMrq j held) mrq.id := by
    refine ⟨hrest, fun n hn => ?_, fun obj hobj => ⟨_, hheap, ?_⟩, fun other hother => ?_, rfl⟩
    · have hslotEq : (fun i => if i = j then held.any (fun req => req.id == n)
          else (s.whereabouts n).slot i) = (s.whereabouts n).slot := by
        funext i
        split_ifs with hi
        · rw [hi]
          have hbefore : (s.whereabouts n).slot j = false := by
            simp [Channel.whereabouts, hslot, Ne.symm hn]
          cases hheldEq with
          | inl hsome => simp [hsome, hbefore, Ne.symm hn]
          | inr hnone => simp [hnone, hbefore]
        · rfl
      rw [hwhere, hslotEq, if_neg hn, Nat.add_zero]
    · rw [hnew] at hobj
      cases hobj
      rfl
    · cases holds_setMrq hother with
      | inr heq =>
          cases hheldEq with
          | inl hsome => exact .slot j (hslot.trans (hsome.symm.trans heq))
          | inr hnone =>
              rw [hnone] at heq
              cases heq
      | inl hin =>
          cases hin with
          | mrqq hin => exact .mrqq hin
          | queue mode b hin => exact .queue mode b hin
          | slot b hin => exact .slot b hin
          | rwq hin =>
              have hin : other ∈ rwq.contents := hin
              rw [hrwq, List.mem_append, List.mem_singleton] at hin
              cases hin with
              | inl hold => exact .rwq hold
              | inr heq => exact .slot j (heq ▸ hslot)
  refine ⟨h.move hmove ?_ h.sched h.mrqq, live_congr rfl fun n => ?_, rfl⟩
  · have hslotEq : (fun i => if i = j then held.any (fun req => req.id == mrq.id)
        else decide (i = j) && true) = fun i => decide (i = fetch.bk) &&
          decide (sent + 1 = 0 ∨ (sent + 1) * cfg.dramAtomSize < fetch.dataSize) := by
      have hbytes : mrq.nbytes = fetch.dataSize := by rw [hdata]
      funext i
      rw [← hj]
      by_cases hi : i = j
      · simp only [hheldDef, htx, hbytes, hi, if_true, decide_true, Bool.true_and,
          Nat.succ_ne_zero, false_or]
        split_ifs with hmore
        · simp [hmore]
        · simp [hmore]
      · simp [hi]
    have hbursts : sent - drained + 1 = sent + 1 - drained := by omega
    rw [hwhere, hserving, hnew, if_pos rfl]
    show Stage cfg _ { Whereabouts.nowhere with
      rwq := sent - drained + 1
      slot := fun i => if i = j then held.any (fun req => req.id == mrq.id)
        else decide (i = j) && true }
    rw [hslotEq, hbursts]
    refine .serving fetch (sent + 1) drained (by omega) hopen ?_
    cases hheld with
    | inl hzero => exact .inl (by omega)
    | inr hmore => exact .inr hmore
  · by_cases hn : n = mrq.id
    · rw [hn, hnew, hheap]
      rfl
    · rw [hrest n hn]

theorem samePlaces_startRead (cfg : DramConfig) (s : Channel) (j : ℕ) :
    SamePlaces s (startRead cfg s j) := by
  refine ⟨rfl, fun _ _ => rfl, fun b => ?_, rfl, rfl, rfl⟩
  by_cases hb : b = j <;> simp [startRead, hb]

theorem samePlaces_startWrite (cfg : DramConfig) (s : Channel) (j : ℕ) :
    SamePlaces s (startWrite cfg s j) := by
  refine ⟨rfl, fun _ _ => rfl, fun b => ?_, rfl, rfl, rfl⟩
  by_cases hb : b = j <;> simp [startWrite, hb]

theorem InOrder.issueColCommand (h : s.InOrder cfg) (j : ℕ) :
    OkOr (fun r => Kept cfg s r.2) DramFailure.Tolerated (issueColCommand cfg s j) := by
  unfold Channel.issueColCommand
  cases hslot : (s.bk j).mrq with
  | none => exact h.kept_refl
  | some mrq =>
      obtain ⟨obj, hderef, _⟩ := h.deref (.slot j hslot)
      simp only [hderef]
      apply OkOr.ite
      · intro _
        apply (h.sendBurst hslot).bind
        intro next hkept
        exact hkept.trans (hkept.inOrder.kept_same
          (samePlaces_startRead ..) hkept.inOrder.sched rfl)
      · intro _
        apply OkOr.ite
        · intro _
          apply (h.sendBurst hslot).bind
          intro next hkept
          exact hkept.trans
            (hkept.inOrder.kept_same (samePlaces_startWrite ..) hkept.inOrder.sched rfl)
        · exact fun _ => h.kept_refl

theorem samePlaces_activateRow (cfg : DramConfig) (s : Channel) (j row : ℕ) :
    SamePlaces s (activateRow cfg s j row) := by
  refine ⟨rfl, fun _ _ => rfl, fun b => ?_, rfl, rfl, rfl⟩
  by_cases hb : b = j <;> simp [activateRow, hb]

theorem samePlaces_prechargeBank (cfg : DramConfig) (s : Channel) (j : ℕ) :
    SamePlaces s (prechargeBank cfg s j) := by
  refine ⟨rfl, fun _ _ => rfl, fun b => ?_, rfl, rfl, rfl⟩
  by_cases hb : b = j <;> simp [prechargeBank, hb]

theorem InOrder.issueRowCommand (h : s.InOrder cfg) (j : ℕ) :
    OkOr (fun r => Kept cfg s r.2) DramFailure.Tolerated (issueRowCommand cfg s j) := by
  unfold Channel.issueRowCommand
  cases hslot : (s.bk j).mrq with
  | none => exact h.kept_refl
  | some mrq =>
      obtain ⟨obj, hderef, _⟩ := h.deref (.slot j hslot)
      simp only [hderef]
      apply OkOr.ite
      · exact fun _ => h.kept_same (samePlaces_activateRow ..) h.sched rfl
      · intro _
        apply OkOr.ite
        · exact fun _ => h.kept_same (samePlaces_prechargeBank ..) h.sched rfl
        · exact fun _ => h.kept_refl

/-! ## Cycles and runs -/

theorem InOrder.countDown (h : s.InOrder cfg) : Kept cfg s (countDown cfg s) := by
  refine h.kept_same ⟨rfl, fun _ _ => rfl, fun b => ?_, rfl, rfl, rfl⟩ h.sched rfl
  by_cases hb : b < cfg.nbk <;> simp [Channel.countDown, Bank.countDown, hb]

theorem InOrder.cycle (h : s.InOrder cfg) :
    OkOr (fun r => Drained cfg s (r.completed, r.dram)) DramFailure.Tolerated (cycle cfg s) := by
  apply h.drain.bind
  intro r hr
  obtain ⟨completed, drained⟩ := r
  have hinOrder : drained.InOrder cfg := by
    cases completed with
    | none => exact hr.inOrder
    | some completion => exact hr.1
  apply (hinOrder.scheduler).bind
  intro scheduled hscheduled
  have hcommands : OkOr (fun t => Kept cfg scheduled t.dram) DramFailure.Tolerated
      (issueCommands cfg scheduled) := by
    apply issueCommands_keeps (P := fun next _ => Kept cfg scheduled next)
    · intro next _ j hkept
      exact (hkept.inOrder.issueColCommand j).imp fun r hr => hkept.trans hr
    · intro next _ j hkept
      exact (hkept.inOrder.issueRowCommand j).imp fun r hr => hkept.trans hr
    · exact hscheduled.inOrder.kept_refl
  apply hcommands.bind
  intro t ht
  have hkept : Kept cfg drained (Channel.countDown cfg t.dram) :=
    (hscheduled.trans ht).trans ht.inOrder.countDown
  cases completed with
  | none =>
      have hdrained : Kept cfg s drained := hr
      exact hdrained.trans hkept
  | some completion =>
      obtain ⟨_, hlive, hreturnq, hbytes⟩ := hr
      exact ⟨hkept.inOrder, hlive.trans (by rw [hkept.live]), by rw [hkept.returnq, hreturnq],
        hbytes⟩

theorem InOrder.returnQueuePop (h : s.InOrder cfg) :
    OkOr (fun r => r.2.InOrder cfg ∧ r.2.live = s.live ∧ s.returnq.pop = .ok (r.1, r.2.returnq))
      DramFailure.Tolerated s.returnQueuePop := by
  apply (okOr_pipeline (P := fun r => s.returnq.pop = .ok r) fun r hr => hr).bind
  intro r hr
  exact ⟨h.same ⟨rfl, fun _ _ => rfl, fun _ => rfl, rfl, rfl, rfl⟩ h.sched, rfl, hr⟩

/-- Every request that was pushed is in order on the heap or completed, and every completed
one was transferred in full and is in the return queue or was handed back. -/
structure Log.Conserved (cfg : DramConfig) (log : Log) : Prop where
  inOrder : log.dram.InOrder cfg
  bursts : ∀ n obj, log.dram.heap n = some obj →
    copies n log.dram.rwq.contents * cfg.dramAtomSize = obj.txbytes - obj.dqbytes
  pushed : (log.pushed : Multiset DramFetch) =
    log.dram.live + (log.completed.map Completion.fetch : List DramFetch)
  completed : ((log.completed.map Completion.fetch : List DramFetch) : Multiset DramFetch) =
    log.dram.returnq.contents + (log.handed : Multiset DramFetch)
  transferred : ∀ completion ∈ log.completed, completion.fetch.dataSize ≤ completion.bytes

theorem InOrder.bursts (h : s.InOrder cfg) (n : ℕ) (obj : DramObject) (hobj : s.heap n = some obj) :
    copies n s.rwq.contents * cfg.dramAtomSize = obj.txbytes - obj.dqbytes :=
  (h.stage n).bursts_mul hobj

theorem Log.Conserved.kept {log : Log} (h : log.Conserved cfg) (hkept : Kept cfg log.dram next)
    (now : ℕ) (commands : List (ℕ × Command)) :
    Log.Conserved cfg { log with dram := next, now := now, commands := commands } where
  inOrder := hkept.inOrder
  bursts := hkept.inOrder.bursts
  pushed := by
    show (log.pushed : Multiset DramFetch) = next.live + _
    rw [hkept.live]
    exact h.pushed
  completed := by
    show _ = (next.returnq.contents : Multiset DramFetch) + (log.handed : Multiset DramFetch)
    rw [hkept.returnq]
    exact h.completed
  transferred := h.transferred

theorem Log.Conserved.step {log : Log} (h : log.Conserved cfg) (a : Action) :
    OkOr (Log.Conserved cfg) DramFailure.Tolerated (Log.step cfg log a) := by
  cases a with
  | push data =>
      apply (h.inOrder.push data).bind
      intro next hnext
      obtain ⟨hinOrder, hlive, hreturnq⟩ := hnext
      refine ⟨hinOrder, hinOrder.bursts, ?_, ?_, h.transferred⟩
      · show ((data :: log.pushed : List DramFetch) : Multiset DramFetch) = next.live + _
        rw [hlive, ← Multiset.cons_coe, h.pushed, Multiset.cons_add]
      · show _ = (next.returnq.contents : Multiset DramFetch) + (log.handed : Multiset DramFetch)
        rw [hreturnq]
        exact h.completed
  | returnQueuePop =>
      apply h.inOrder.returnQueuePop.bind
      intro r hr
      obtain ⟨data, next⟩ := r
      obtain ⟨hinOrder, hlive, hpop⟩ := hr
      have hcontents := FifoPipeline.contents_pop hpop
      refine ⟨hinOrder, hinOrder.bursts, ?_, ?_, h.transferred⟩
      · show (log.pushed : Multiset DramFetch) = next.live + _
        rw [hlive]
        exact h.pushed
      · show _ = (next.returnq.contents : Multiset DramFetch) +
          ((data.toList ++ log.handed : List DramFetch) : Multiset DramFetch)
        rw [h.completed, hcontents, ← Multiset.coe_add, ← Multiset.coe_add, add_left_comm,
          add_assoc]
  | cycle =>
      apply h.inOrder.cycle.bind
      intro r hr
      obtain ⟨dram, completed, commands⟩ := r
      cases completed with
      | none =>
          have hkept : Kept cfg log.dram dram := hr
          exact h.kept hkept _ _
      | some completion =>
          obtain ⟨hinOrder, hlive, hreturnq, hbytes⟩ := hr
          refine ⟨hinOrder, hinOrder.bursts, ?_, ?_, ?_⟩
          · show (log.pushed : Multiset DramFetch) = dram.live +
              ((completion.fetch :: log.completed.map Completion.fetch : List DramFetch) :
                Multiset DramFetch)
            rw [h.pushed, hlive, ← Multiset.cons_coe, Multiset.cons_add, Multiset.add_cons]
          · show ((completion.fetch :: log.completed.map Completion.fetch : List DramFetch) :
                Multiset DramFetch) = (dram.returnq.contents : Multiset DramFetch) +
              ((((some completion.fetch).filter DramFetch.isWriteBack).toList ++ log.handed :
                List DramFetch) : Multiset DramFetch)
            rw [hreturnq, ← Multiset.cons_coe, h.completed, ← Multiset.coe_add, ← Multiset.coe_add]
            cases hback : completion.fetch.isWriteBack with
            | true =>
                simp only [Option.filter, hback, if_true]
                show _ = (log.dram.returnq.contents : Multiset DramFetch) + 0 +
                  ({completion.fetch} + (log.handed : Multiset DramFetch))
                rw [add_zero, Multiset.singleton_add, Multiset.add_cons]
            | false =>
                simp only [Option.filter, hback]
                show _ = (log.dram.returnq.contents : Multiset DramFetch) + {completion.fetch} +
                  (0 + (log.handed : Multiset DramFetch))
                rw [zero_add, add_assoc, Multiset.singleton_add, Multiset.add_cons]
          · intro other hother
            cases List.mem_cons.mp hother with
            | inl heq => exact heq ▸ hbytes
            | inr hold => exact h.transferred other hold

theorem InOrder.new {id : ℕ} (h : Channel.new cfg id = .ok s) :
    s.InOrder cfg ∧ s.live = 0 ∧ s.returnq.contents = [] := by
  unfold Channel.new at h
  cases hrwq : (FifoPipeline.new cfg.cl (cfg.cl + 1) :
    Except PipelineFailure (FifoPipeline DramReq)) with
  | error e =>
      rw [hrwq] at h
      cases h
  | ok rwq =>
      have hcontents : rwq.contents = [] := FifoPipeline.contents_refill hrwq
      rw [hrwq] at h
      cases h
      refine ⟨⟨fun n => ?_, fun req hheld => ?_, fun _ _ => rfl, Frfcfs.ok_new cfg,
        ⟨rfl, List.not_mem_nil⟩⟩, rfl, rfl⟩
      · have hqueues : ∀ mode b, (Frfcfs.new.bank mode b).queue = [] := by
          intro mode b
          cases mode <;> rfl
        have hdeleted : ∀ w : Whereabouts, w = .nowhere → Stage cfg none w := by
          intro w hw
          rw [hw]
          exact .deleted
        apply hdeleted
        simp only [Channel.whereabouts, hcontents, hqueues]
        rfl
      · cases hheld with
        | mrqq hmem => exact absurd hmem List.not_mem_nil
        | queue mode b hmem => cases mode <;> exact absurd hmem List.not_mem_nil
        | slot b hslot => cases hslot
        | rwq hmem => exact absurd (hcontents ▸ hmem) List.not_mem_nil

/-- In every run the requests are conserved, and no failure is an access to a deleted one. -/
theorem conserved_of_reachable {r : Except DramFailure Log}
    (reached : (dramSystem cfg).Reachable r) :
    OkOr (Log.Conserved cfg) DramFailure.Tolerated r := by
  apply reached.invariant_ofExcept_all
  · intro log hlog
    obtain ⟨id, dram, hnew, heq⟩ := hlog
    obtain ⟨hinOrder, hlive, hreturnq⟩ := InOrder.new hnew
    rw [heq]
    refine ⟨hinOrder, hinOrder.bursts, ?_, ?_, fun _ h => absurd h List.not_mem_nil⟩
    · show (0 : Multiset DramFetch) = dram.live + 0
      rw [hlive, add_zero]
    · show (0 : Multiset DramFetch) = (dram.returnq.contents : Multiset DramFetch) + 0
      rw [hreturnq]
      rfl
  · exact fun log a h _ => h.step a

/-- A read of two bursts, up to its completion. -/
theorem conserved_of_reachable_longRead :
    ∃ log, (dramSystem twoBanks).Reachable (.ok log) ∧ log.completed = [⟨longRead, 64⟩] ∧
      log.Conserved twoBanks := by
  have hrun : (replay twoBanks 0 (.push longRead :: List.replicate 10 .cycle)).map Log.completed =
      some [⟨longRead, 64⟩] := by decide
  obtain ⟨log, hlog, hcompleted⟩ := Option.map_eq_some_iff.mp hrun
  have hreached : (dramSystem twoBanks).Reachable (.ok log) := reachable_of_replay hlog
  have hconserved : OkOr (Log.Conserved twoBanks) DramFailure.Tolerated
      (.ok log : Except DramFailure Log) := conserved_of_reachable hreached
  exact ⟨log, hreached, hcompleted, hconserved⟩

/-- After the first of its two bursts a read is held by its bank and in the pipeline. -/
theorem not_onePlace_longRead :
    ∃ log, (dramSystem twoBanks).Reachable (.ok log) ∧ ∃ b req,
      (log.dram.bk b).mrq = some req ∧ req ∈ log.dram.rwq.contents := by
  have hrun : (replay twoBanks 0 (.push longRead :: List.replicate 3 .cycle)).map (fun log =>
      ((log.dram.bk 0).mrq, log.dram.rwq.contents)) =
        some (some ⟨0, longRead⟩, [⟨0, longRead⟩]) := by
    decide
  obtain ⟨log, hlog, hplaces⟩ := Option.map_eq_some_iff.mp hrun
  obtain ⟨hslot, hrwq⟩ := Prod.mk.inj hplaces
  exact ⟨log, reachable_of_replay hlog, 0, ⟨0, longRead⟩, hslot, hrwq ▸ List.mem_cons_self⟩

end Channel

end GpuCalorie.Dram
