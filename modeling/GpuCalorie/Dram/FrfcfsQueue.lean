/-
# The queues of the FR-FCFS scheduler

The bins of a bank are its queue sorted by row, and the row served last has requests;
both survive adding a request and taking one. So serving a bank never fails: it takes one
of the requests of the queue, or finds the queue empty.

For the whole scheduler the counters are the numbers of queued requests, and every
request is in the queue of its bank and kind.
-/

import GpuCalorie.Dram.Frfcfs
import Mathlib.Algebra.Order.BigOperators.Group.Finset

namespace GpuCalorie.Dram

open GpuCalorie.Math

/-! ## Lists of requests -/

/-- Different entries of a queue are different objects. -/
abbrev Distinct (requests : List DramReq) : Prop :=
  (requests.map DramReq.id).Nodup

/-- The requests of a row, in the order of the queue. -/
abbrev ofRow (row : ℕ) (requests : List DramReq) : List DramReq :=
  requests.filter fun req => req.row == row

/-- The requests but one. -/
abbrev without (req : DramReq) (requests : List DramReq) : List DramReq :=
  requests.filter fun other => other.id != req.id

variable {requests : List DramReq} {req : DramReq}

theorem eraseP_eq_without (hdistinct : Distinct requests) (req : DramReq) :
    requests.eraseP (fun other => other.id == req.id) = without req requests := by
  induction requests with
  | nil => rfl
  | cons head rest ih =>
      rw [Distinct, List.map_cons, List.nodup_cons] at hdistinct
      by_cases hhead : head.id = req.id
      · have hrest : without req rest = rest := by
          apply List.filter_eq_self.mpr
          intro other hother
          have hne : other.id ≠ head.id := fun heq =>
            hdistinct.1 (heq ▸ List.mem_map_of_mem hother)
          simpa [← hhead] using hne
        rw [List.eraseP_cons_of_pos (by simp [hhead]), without,
          List.filter_cons_of_neg (by simp [hhead])]
        exact hrest.symm
      · rw [List.eraseP_cons_of_neg (by simp [hhead]), without,
          List.filter_cons_of_pos (by simp [hhead]), ih hdistinct.2]

theorem without_getLast (hdistinct : Distinct requests) (hlast : requests.getLast? = some req) :
    without req requests = requests.dropLast := by
  obtain ⟨front, hfront⟩ := List.getLast?_eq_some_iff.mp hlast
  rw [Distinct, hfront, List.map_append, List.nodup_append] at hdistinct
  rw [hfront, List.dropLast_concat, without, List.filter_append]
  have hself : without req front = front := by
    apply List.filter_eq_self.mpr
    intro other hother
    have hne : other.id ≠ req.id :=
      hdistinct.2.2 _ (List.mem_map_of_mem hother) _ (by simp)
    simpa using hne
  have hgone : [req].filter (fun other => other.id != req.id) = [] := by simp
  rw [hgone, List.append_nil]
  exact hself

theorem ofRow_without_of_ne {row : ℕ}
    (hdistinct : Distinct requests) (hmem : req ∈ requests) (hne : req.row ≠ row) :
    ofRow row (without req requests) = ofRow row requests := by
  rw [ofRow, without, List.filter_filter]
  apply List.filter_congr
  intro other hother
  by_cases hrow : other.row = row
  · have hid : other.id ≠ req.id := fun heq => by
      have hsame : other = req := List.inj_on_of_nodup_map hdistinct hother hmem heq
      exact hne (hsame ▸ hrow)
    simp [hrow, hid]
  · simp [hrow]

theorem ofRow_without (req : DramReq) (row : ℕ) :
    ofRow row (without req requests) = without req (ofRow row requests) := by
  rw [ofRow, without, without, List.filter_filter, List.filter_filter]
  apply List.filter_congr
  intro other _
  exact Bool.and_comm ..

theorem Distinct.filter (h : Distinct requests) (p : DramReq → Bool) :
    Distinct (requests.filter p) :=
  h.sublist (List.Sublist.map _ List.filter_sublist)

theorem length_without (hdistinct : Distinct requests)
    (hmem : req ∈ requests) : (without req requests).length + 1 = requests.length := by
  rw [← eraseP_eq_without hdistinct]
  have hfound : (requests.eraseP fun other => other.id == req.id).length = requests.length - 1 :=
    List.length_eraseP_of_mem hmem (by simp)
  have hpos : 0 < requests.length := List.length_pos_of_mem hmem
  omega

/-! ## One bank -/

/-- The bins are the queue sorted by row, and the row served last has requests. -/
structure BankQueue.Sorted (q : BankQueue) : Prop where
  distinct : Distinct q.queue
  bins : ∀ row, q.bins row = if ofRow row q.queue = [] then none else some (ofRow row q.queue)
  lastRow : ∀ row, q.lastRow = some row → ofRow row q.queue ≠ []

namespace BankQueue

variable {q : BankQueue}

theorem sorted_empty : BankQueue.empty.Sorted where
  distinct := List.nodup_nil
  bins row := by simp [empty]
  lastRow row h := by simp [empty] at h

namespace Sorted

theorem getD_bins (h : q.Sorted) (row : ℕ) : (q.bins row).getD [] = ofRow row q.queue := by
  rw [h.bins]
  split_ifs with hempty
  · exact hempty.symm
  · rfl

theorem addReq (h : q.Sorted) (hfresh : ∀ other ∈ q.queue, other.id ≠ req.id) :
    (q.addReq req).Sorted := by
  constructor
  · show ((req :: q.queue).map DramReq.id).Nodup
    rw [List.map_cons, List.nodup_cons]
    refine ⟨fun hmem => ?_, h.distinct⟩
    obtain ⟨other, hother, heq⟩ := List.mem_map.mp hmem
    exact hfresh other hother heq
  · intro row
    show Function.update q.bins req.row (some (req :: (q.bins req.row).getD [])) row = _
    by_cases hrow : row = req.row
    · subst hrow
      rw [Function.update_self, h.getD_bins]
      have hfront : ofRow req.row (req :: q.queue) = req :: ofRow req.row q.queue :=
        List.filter_cons_of_pos (by simp)
      show _ = if ofRow req.row (req :: q.queue) = [] then none else _
      rw [hfront, if_neg (by simp)]
      exact congrArg some hfront.symm
    · rw [Function.update_of_ne hrow, h.bins]
      have hsame : ofRow row (req :: q.queue) = ofRow row q.queue :=
        List.filter_cons_of_neg (by simpa using Ne.symm hrow)
      show _ = if ofRow row (req :: q.queue) = [] then none else some (ofRow row (req :: q.queue))
      rw [hsame]
  · intro row hlast hnil
    apply h.lastRow row hlast
    have hsub : ofRow row q.queue ⊆ ofRow row (req :: q.queue) := fun other hother =>
      List.mem_filter.mpr
        ⟨List.mem_cons_of_mem _ (List.mem_filter.mp hother).1, (List.mem_filter.mp hother).2⟩
    exact List.subset_nil.mp (hnil ▸ hsub)

theorem take (h : q.Sorted) {row : ℕ} (hrow : ofRow row q.queue ≠ []) :
    ∃ req next, q.take row = .ok (req, next) ∧ req ∈ q.queue ∧
      next.queue = without req q.queue ∧ next.Sorted := by
  obtain ⟨req, hlast⟩ : ∃ req, (ofRow row q.queue).getLast? = some req :=
    ⟨_, List.getLast?_eq_some_getLast hrow⟩
  have hmemRow : req ∈ ofRow row q.queue := List.mem_of_getLast? hlast
  have hmem : req ∈ q.queue := (List.mem_filter.mp hmemRow).1
  have hreqRow : req.row = row := by simpa using (List.mem_filter.mp hmemRow).2
  have hleft : ofRow row (without req q.queue) = (ofRow row q.queue).dropLast := by
    rw [ofRow_without, without_getLast (h.distinct.filter _) hlast]
  have hqueue : (q.remove row req).queue = without req q.queue := eraseP_eq_without h.distinct req
  refine ⟨req, q.remove row req, ?_, hmem, hqueue, ?_, ?_, ?_⟩
  · rw [BankQueue.take, h.getD_bins, hlast]
  · rw [hqueue]
    exact h.distinct.filter _
  · intro other
    rw [hqueue]
    simp only [remove, h.getD_bins]
    by_cases hother : other = row
    · subst hother
      rw [Function.update_self, hleft]
    · rw [Function.update_of_ne hother, h.bins,
        ofRow_without_of_ne h.distinct hmem (hreqRow ▸ Ne.symm hother)]
  · intro other hlastRow hnil
    rw [hqueue] at hnil
    simp only [remove, h.getD_bins] at hlastRow
    split_ifs at hlastRow with hbin
    cases hlastRow
    exact hbin (hleft ▸ hnil)

theorem schedule (h : q.Sorted) (currRow : ℕ) :
    (q.queue = [] ∧ q.schedule currRow = .ok none) ∨
      ∃ req next, q.schedule currRow = .ok (some (req, next)) ∧ req ∈ q.queue ∧
        next.queue = without req q.queue ∧ next.Sorted := by
  have htake : ∀ row, q.selectRow currRow = .ok (some row) → ofRow row q.queue ≠ [] →
      ∃ req next, q.schedule currRow = .ok (some (req, next)) ∧ req ∈ q.queue ∧
        next.queue = without req q.queue ∧ next.Sorted := by
    intro row hselect hrow
    obtain ⟨req, next, htaken, hrest⟩ := h.take hrow
    refine ⟨req, next, ?_, hrest⟩
    simp only [BankQueue.schedule, hselect, htaken, bind, Except.bind]
    rfl
  cases hlast : q.lastRow with
  | some row => exact .inr (htake row (by rw [selectRow, hlast]) (h.lastRow row hlast))
  | none =>
      cases holdest : q.queue.getLast? with
      | none =>
          have hselect : q.selectRow currRow = .ok none := by rw [selectRow, hlast, holdest]
          refine .inl ⟨List.getLast?_eq_none_iff.mp holdest, ?_⟩
          simp only [BankQueue.schedule, hselect, bind, Except.bind]
          rfl
      | some oldest =>
          have hoccupied : ∀ row, (q.bins row).isSome ↔ ofRow row q.queue ≠ [] := by
            intro row
            rw [h.bins]
            split_ifs with hempty <;> simp [hempty]
          by_cases hcurr : (q.bins currRow).isSome
          · exact .inr (htake currRow (by rw [selectRow, hlast, holdest]; exact if_pos hcurr)
              ((hoccupied currRow).mp hcurr))
          · have hrow : ofRow oldest.row q.queue ≠ [] :=
              List.ne_nil_of_mem (List.mem_filter.mpr ⟨List.mem_of_getLast? holdest, by simp⟩)
            have hbin : (q.bins oldest.row).isSome := (hoccupied oldest.row).mpr hrow
            refine .inr (htake oldest.row ?_ hrow)
            rw [selectRow, hlast, holdest]
            show (if (q.bins currRow).isSome then _ else _) = _
            rw [if_neg hcurr, if_pos hbin]

end Sorted

end BankQueue

/-! ## The scheduler -/

theorem sum_add_of_ne {n b : ℕ} {f g : ℕ → ℕ} (hb : b < n) (hrest : ∀ i, i ≠ b → f i = g i) :
    ∑ i ∈ Finset.range n, f i + g b = ∑ i ∈ Finset.range n, g i + f b := by
  have hmem : b ∈ Finset.range n := Finset.mem_range.mpr hb
  have hsame : ∑ i ∈ (Finset.range n).erase b, f i = ∑ i ∈ (Finset.range n).erase b, g i :=
    Finset.sum_congr rfl fun i hi => hrest i (Finset.ne_of_mem_erase hi)
  rw [← Finset.add_sum_erase _ f hmem, ← Finset.add_sum_erase _ g hmem, hsame]
  omega

/-- The queues are sorted, every request is where it belongs, and the counters count. -/
structure Frfcfs.Ok (cfg : DramConfig) (s : Frfcfs) : Prop where
  sorted : ∀ mode b, (s.bank mode b).Sorted
  homed : ∀ mode b, ∀ req ∈ (s.bank mode b).queue,
    modeOf cfg req = mode ∧ req.bk = b ∧ b < cfg.nbk
  counted : ∀ mode, s.pending mode = ∑ b ∈ Finset.range cfg.nbk, (s.bank mode b).queue.length
  reading : cfg.seperateWriteQueueEnabled = false → s.mode = .read

namespace Frfcfs

variable {cfg : DramConfig} {s : Frfcfs}

section Fields

variable (s) (m m' : MemoryMode) (b b' : ℕ) (q : BankQueue) (n : ℕ)

@[simp]
theorem bank_setPending : (s.setPending m n).bank m' b = s.bank m' b := by
  cases m <;> cases m' <;> rfl

@[simp]
theorem pending_setBank : (s.setBank m b q).pending m' = s.pending m' := by
  cases m <;> cases m' <;> rfl

@[simp]
theorem mode_setPending : (s.setPending m n).mode = s.mode := by
  cases m <;> rfl

@[simp]
theorem mode_setBank : (s.setBank m b q).mode = s.mode := by
  cases m <;> rfl

theorem pending_setPending : (s.setPending m n).pending m' = if m' =
    m then n else s.pending m' := by
  cases m <;> cases m' <;> rfl

theorem bank_setBank :
    (s.setBank m b q).bank m' b' = if m' = m ∧ b' = b then q else s.bank m' b' := by
  by_cases hb : b' = b
  · subst hb
    cases m <;> cases m' <;> simp [bank, setBank]
  · cases m <;> cases m' <;> simp [bank, setBank, hb]

@[simp]
theorem bank_withMode : Frfcfs.bank { s with mode := m } m' b = s.bank m' b := by
  cases m' <;> rfl

@[simp]
theorem pending_withMode : Frfcfs.pending { s with mode := m } m' = s.pending m' := by
  cases m' <;> rfl

end Fields

theorem ok_new (cfg : DramConfig) : Frfcfs.new.Ok cfg where
  sorted mode b := by
    cases mode <;> exact BankQueue.sorted_empty
  homed mode b req h := by
    cases mode <;> exact absurd h List.not_mem_nil
  counted mode := by
    cases mode <;> simp [new, bank, pending, BankQueue.empty]
  reading _ := rfl

theorem Ok.change (h : s.Ok cfg) {next : Frfcfs} {m : MemoryMode} {b n : ℕ} {q : BankQueue}
    (hb : b < cfg.nbk)
    (hbank : ∀ mode i, next.bank mode i = if mode = m ∧ i = b then q else s.bank mode i)
    (hpending : ∀ mode, next.pending mode = if mode = m then n else s.pending mode)
    (hsorted : q.Sorted) (hhomed : ∀ req ∈ q.queue, modeOf cfg req = m ∧ req.bk = b)
    (hcount : n + (s.bank m b).queue.length = s.pending m + q.queue.length)
    (hreading : cfg.seperateWriteQueueEnabled = false → next.mode = .read) : next.Ok cfg := by
  constructor
  · intro mode i
    rw [hbank]
    split_ifs
    · exact hsorted
    · exact h.sorted mode i
  · intro mode i req hreq
    rw [hbank] at hreq
    split_ifs at hreq with hhere
    · obtain ⟨hmode, hbk⟩ := hhomed req hreq
      exact ⟨hmode.trans hhere.1.symm, hbk.trans hhere.2.symm, hhere.2 ▸ hb⟩
    · exact h.homed mode i req hreq
  · intro mode
    rw [hpending]
    split_ifs with hmode
    · subst hmode
      have hsum := sum_add_of_ne (f := fun i => (next.bank mode i).queue.length)
        (g := fun i => (s.bank mode i).queue.length) hb fun i hi => by
          rw [hbank, if_neg fun hcase => hi hcase.2]
      have hhere : (next.bank mode b).queue.length = q.queue.length := by
        rw [hbank, if_pos ⟨rfl, rfl⟩]
      have hold := h.counted mode
      simp only [hhere] at hsum
      omega
    · rw [h.counted]
      apply Finset.sum_congr rfl
      intro i _
      rw [hbank, if_neg fun hcase => hmode hcase.1]
  · exact hreading

theorem Ok.addReq (h : s.Ok cfg) (hfresh : s.Fresh req) (hbk : req.bk < cfg.nbk) :
    s.addReq cfg req = .error .queueFull ∨
      ∃ next, s.addReq cfg req = .ok next ∧ next.Ok cfg ∧ next.mode = s.mode ∧
        ∀ mode b, (next.bank mode b).queue =
          if mode = modeOf cfg req ∧ b = req.bk then req :: (s.bank mode b).queue
          else (s.bank mode b).queue := by
  by_cases hroom : s.pending (modeOf cfg req) < queueSize cfg (modeOf cfg req)
  · have hbank : ∀ mode b,
        ((s.setPending (modeOf cfg req) (s.pending (modeOf cfg req) + 1)).setBank (modeOf cfg req)
          req.bk ((s.bank (modeOf cfg req) req.bk).addReq req)).bank mode b =
        if mode = modeOf cfg req ∧ b = req.bk then (s.bank (modeOf cfg req) req.bk).addReq req
        else s.bank mode b := by
      intro mode b
      rw [bank_setBank, bank_setPending]
    refine .inr ⟨_, by rw [Frfcfs.addReq, if_pos hroom], ?_, ?_, ?_⟩
    · apply h.change hbk hbank (n := s.pending (modeOf cfg req) + 1)
      · intro mode
        rw [pending_setBank, pending_setPending]
      · exact (h.sorted _ _).addReq fun other hother => hfresh _ _ other hother
      · intro other hother
        cases List.mem_cons.mp hother with
        | inl heq => exact ⟨congrArg _ heq, congrArg DramReq.bk heq⟩
        | inr hmem => exact ⟨(h.homed _ _ other hmem).1, (h.homed _ _ other hmem).2.1⟩
      · show _ = _ + (req :: (s.bank (modeOf cfg req) req.bk).queue).length
        rw [List.length_cons]
        omega
      · intro hsep
        rw [mode_setBank, mode_setPending]
        exact h.reading hsep
    · rw [mode_setBank, mode_setPending]
    · intro mode b
      rw [hbank]
      split_ifs with hhere
      · rw [hhere.1, hhere.2]
        rfl
      · rfl
  · exact .inl (by rw [Frfcfs.addReq, if_neg hroom])

/-- What `schedule` does: it updates the mode, and takes a request of the bank it is called
for from the queue of that mode if there is one. -/
structure Scheduled (cfg : DramConfig) (s : Frfcfs) (b : ℕ) (result : Option DramReq)
    (next : Frfcfs) : Prop where
  mode_eq : next.mode = s.nextMode cfg
  found : result = none ↔ (s.bank (s.nextMode cfg) b).queue = []
  mem : ∀ req ∈ result, req ∈ (s.bank (s.nextMode cfg) b).queue
  queue : ∀ mode i, (next.bank mode i).queue =
    match result with
    | none => (s.bank mode i).queue
    | some req =>
        if mode = s.nextMode cfg ∧ i = b then without req (s.bank mode i).queue
        else (s.bank mode i).queue
  pending : ∀ mode, next.pending mode + (if result.isSome ∧ mode = s.nextMode cfg then 1 else 0) =
    s.pending mode

theorem Ok.schedule (h : s.Ok cfg) (b currRow : ℕ) :
    ∃ result next, s.schedule cfg b currRow = .ok (result, next) ∧ next.Ok cfg ∧
      Scheduled cfg s b result next := by
  set m := s.nextMode cfg with hm
  have hreading : cfg.seperateWriteQueueEnabled = false → m = .read := fun hsep => by
    have hsame : m = s.mode := by simp [hm, nextMode, switch, hsep]
    exact hsame.trans (h.reading hsep)
  cases (h.sorted m b).schedule currRow with
  | inl hnone =>
      obtain ⟨hempty, hsched⟩ := hnone
      refine ⟨none, { s with mode := m }, ?_, ⟨?_, ?_, ?_, hreading⟩, rfl, ?_, ?_, ?_, ?_⟩
      · simp only [Frfcfs.schedule, ← hm, bank_withMode, hsched, bind, Except.bind]
        rfl
      · intro mode i
        rw [bank_withMode]
        exact h.sorted mode i
      · intro mode i req hreq
        rw [bank_withMode] at hreq
        exact h.homed mode i req hreq
      · intro mode
        simp only [bank_withMode, pending_withMode]
        exact h.counted mode
      · exact ⟨fun _ => hempty, fun _ => rfl⟩
      · exact fun req hreq => absurd hreq (Option.not_mem_none req)
      · intro mode i
        rw [bank_withMode]
      · intro mode
        rw [pending_withMode]
        simp
  | inr hsome =>
      obtain ⟨req, q, hsched, hmem, hqueue, hsorted⟩ := hsome
      obtain ⟨hmode, hbk, hb⟩ := h.homed m b req hmem
      have hlength : q.queue.length + 1 = (s.bank m b).queue.length := by
        rw [hqueue]
        exact length_without (h.sorted m b).distinct hmem
      have hpos : s.pending m ≠ 0 := by
        rw [h.counted]
        have hle : (s.bank m b).queue.length ≤ ∑ i ∈ Finset.range cfg.nbk,
            (s.bank m i).queue.length :=
          Finset.single_le_sum (f := fun i => (s.bank m i).queue.length)
            (fun i _ => Nat.zero_le _) (Finset.mem_range.mpr hb)
        omega
      set next := (Frfcfs.setBank { s with mode := m } m b q).setPending m (s.pending m - 1)
        with hnext
      have hbank : ∀ mode i, next.bank mode i = if mode = m ∧ i = b then q else s.bank mode i := by
        intro mode i
        rw [hnext, bank_setPending, bank_setBank, bank_withMode]
      have hpending : ∀ mode,
          next.pending mode = if mode = m then s.pending m - 1 else s.pending mode := by
        intro mode
        simp only [hnext, pending_setPending, pending_setBank, pending_withMode]
      have hmodeNext : next.mode = m := by
        rw [hnext, mode_setPending, mode_setBank]
      refine ⟨some req, next, ?_, ?_, hmodeNext, ?_, ?_, ?_, ?_⟩
      · simp only [Frfcfs.schedule, ← hm, bank_withMode, hsched, bind, Except.bind, hmode,
          pending_setBank, pending_withMode, if_neg hpos]
        rfl
      · apply h.change hb hbank hpending hsorted
        · intro other hother
          rw [hqueue] at hother
          have hold := h.homed m b other (List.mem_filter.mp hother).1
          exact ⟨hold.1, hold.2.1⟩
        · omega
        · exact fun hsep => hmodeNext.trans (hreading hsep)
      · exact ⟨(nomatch ·), fun hempty => absurd hmem (hempty ▸ List.not_mem_nil)⟩
      · exact fun other hother => Option.mem_some_iff.mp hother ▸ hmem
      · intro mode i
        rw [hbank]
        split_ifs with hhere
        · rw [hqueue, hhere.1, hhere.2]
        · rfl
      · intro mode
        rw [hpending]
        by_cases hcase : mode = m
        · rw [if_pos hcase, if_pos ⟨rfl, hcase⟩, hcase]
          omega
        · rw [if_neg hcase, if_neg fun hboth => hcase hboth.2]
          rfl

theorem ok_of_reachable {r : Except SchedFailure Frfcfs}
    (reached : (frfcfsSystem cfg).Reachable r) :
    OkOr (Ok cfg) (· = .queueFull) r := by
  apply reached.invariant_ofExcept_all (fun s hs => hs ▸ ok_new cfg)
  intro s a h henabled
  cases a with
  | addReq req =>
      cases h.addReq henabled.1 henabled.2 with
      | inl hfull =>
          show OkOr _ _ (s.addReq cfg req)
          rw [hfull]
          rfl
      | inr hok =>
          obtain ⟨next, hnext, hok, _⟩ := hok
          show OkOr _ _ (s.addReq cfg req)
          rw [hnext]
          exact hok
  | schedule b currRow =>
      obtain ⟨result, next, hnext, hok, _⟩ := h.schedule b currRow
      show OkOr _ _ (do pure (← s.schedule cfg b currRow).2)
      rw [hnext]
      exact hok

end Frfcfs

end GpuCalorie.Dram
