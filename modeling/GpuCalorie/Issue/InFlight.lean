/-
# The instructions in flight and the registers they hold

What is in flight is either a whole instruction, at one place from issue to writeback, or an
access of a load that has not been reported. `InFlight` says how the scoreboard and the
counts of pending writes describe it: the reserved registers are those of what is in flight,
no two instructions hold the same one, and a register of a load counts the accesses that are
due. Every step of the back end keeps it, and none of its assertions fails.
-/

import GpuCalorie.Issue.BackEnd
import GpuCalorie.Math.Reservations
import Mathlib.Data.List.Nodup
import Mathlib.Data.List.Perm.Lattice

namespace GpuCalorie.Issue

open GpuCalorie.Hardware GpuCalorie.Math

namespace BackEnd

variable (b : BackEnd)

/-- The instruction in the dispatch register. -/
def dispatched : List WarpInst :=
  (b.dispatchReg.map Prod.fst).toList

/-- A load from shared memory that writes back. -/
def sharedWb : List WarpInst :=
  b.nextWb.toList.filter fun d => d.space = .sharedSpace

/-- The instructions that are whole, at their places. -/
def stages : List WarpInst :=
  b.pipeline ++ b.dispatched ++ b.smem ++ b.sharedWb

/-- The accesses of a load that are not sent. -/
def queued : List WarpInst :=
  match b.dispatchReg with
  | some (d, n) => if d.countsAccesses then List.replicate n d else []
  | none => []

/-- A load of which an answer writes back. -/
def loadWb : List WarpInst :=
  b.nextWb.toList.filter fun d => ¬ d.space = .sharedSpace

/-- The loads of the accesses that were sent and are due, or would be if they were not lost. -/
def answers : List WarpInst :=
  b.l1LatencyQueue ++ b.outstanding ++ b.loadWb ++ b.lost

/-- The loads of all accesses that are due. -/
def due : List WarpInst :=
  b.queued ++ b.answers

/-- Instructions hold the registers they write. -/
def ledger : Ledger WarpInst (ℕ × ℕ) where
  held := b.stages
  due := b.due
  table reg := reg.2 ∈ b.regTable reg.1
  pending reg := b.pendingWrites reg.1 reg.2

/-- The scoreboard and the counts describe what is in flight. -/
structure InFlight : Prop where
  sound : b.ledger.Sound WarpInst.Writes
  nodup : ∀ d, b.ledger.Has d → d.inst.dests.Nodup
  stages : b.stages.Nodup
  late : ∀ d ∈ b.due, d ∈ b.stages → d ∈ b.dispatched
  counts : ∀ d ∈ b.due, d.countsAccesses = true
  smem : ∀ d ∈ b.smem, d.space = .sharedSpace
  issued : ∀ d, b.ledger.Has d → d ∈ b.issued
  dispatch : ∀ d n, b.dispatchReg = some (d, n) → isMemOp d.inst.op = true ∧ n ≤ d.accessqCount

/-- What is in the dispatch register between two steps: a load with accesses due has some that
were not sent, so have instructions with accesses, and one that uses a perfect constant cache
has them all. -/
structure Waiting (perfectInstConstCache : Bool) : Prop where
  left : ∀ d n, b.dispatchReg = some (d, n) → d ∈ b.due → 0 < n
  unsent : ∀ d, b.dispatchReg = some (d, 0) → d.accessqCount = 0
  whole : ∀ d n, b.dispatchReg = some (d, n) → perfectInstConstCache = true →
    d.space = .constSpace ∨ d.space = .paramSpaceKernel → n = d.accessqCount

end BackEnd

open BackEnd

variable {b b' : BackEnd} {d e : WarpInst} {k n w r : ℕ} {table : RegTable}
  {pending : PendingWrites} {regs : List ℕ} {dec : Option ℕ} {perfect : Bool}

theorem BackEnd.Waiting.mono (h : b.Waiting perfect)
    (hreg : b'.dispatchReg = b.dispatchReg) (hdue : ∀ d ∈ b'.due, d ∈ b.due) :
    b'.Waiting perfect where
  left d n heq hd := h.left d n (hreg ▸ heq) (hdue d hd)
  unsent d heq := h.unsent d (hreg ▸ heq)
  whole d n heq := h.whole d n (hreg ▸ heq)

/-! ## Loops over registers -/

theorem changePending_eq {change : ℕ → ℕ} (hnodup : regs.Nodup) :
    changePending change pending w regs =
      fun w' r' => if w' = w ∧ r' ∈ regs then change (pending w' r') else pending w' r' := by
  induction regs generalizing pending with
  | nil => simp [changePending]
  | cons r regs ih =>
      obtain ⟨hr, hregs⟩ := List.nodup_cons.mp hnodup
      have hrest := @ih (Function.update pending w
        (Function.update (pending w) r (change (pending w r)))) hregs
      rw [changePending, List.foldl_cons]
      refine hrest.trans ?_
      funext w' r'
      rcases eq_or_ne w' w with rfl | hw
      · rw [Function.update_self]
        rcases eq_or_ne r' r with rfl | hne
        · simp [hr]
        · simp [hne]
      · simp [hw]

/-- What `settle` does: all counts go down by one, and the registers whose count was one are
released. -/
structure Settled (w : ℕ) (regs : List ℕ) (table : RegTable) (pending : PendingWrites)
    (result : RegTable × PendingWrites × ℕ) : Prop where
  freed : ∀ w' r', r' ∈ result.1 w' ↔
    r' ∈ table w' ∧ ¬ (w' = w ∧ r' ∈ regs ∧ pending w' r' = 1)
  counted : ∀ w' r', result.2.1 w' r' = pending w' r' - if w' = w ∧ r' ∈ regs then 1 else 0
  released : result.2.2 = (regs.filter fun r => pending w r = 1).length

theorem settle_ok (hnodup : regs.Nodup) (hpending : ∀ r ∈ regs, pending w r ≠ 0) :
    ∃ result, settle w regs table pending = .ok result ∧ Settled w regs table pending result := by
  induction regs generalizing table pending with
  | nil => exact ⟨_, rfl, by simp, by simp, rfl⟩
  | cons r regs ih =>
      obtain ⟨hr, hregs⟩ := List.nodup_cons.mp hnodup
      have hne : pending w r ≠ 0 := hpending r List.mem_cons_self
      let next := Function.update pending w (Function.update (pending w) r (pending w r - 1))
      have hnext : ∀ w' r', next w' r' = if w' = w ∧ r' = r then pending w' r' - 1
          else pending w' r' := by
        intro w' r'
        rcases eq_or_ne w' w with rfl | hw
        · rcases eq_or_ne r' r with rfl | hne
          · simp [next]
          · simp [next, hne]
        · simp [next, hw]
      have hother : ∀ w' r', ¬ (w' = w ∧ r' = r) → next w' r' = pending w' r' ∧
          (w' = w ∧ r' ∈ r :: regs ↔ w' = w ∧ r' ∈ regs) := by
        intro w' r' hother
        rw [hnext, if_neg hother, List.mem_cons]
        rw [not_and] at hother
        exact ⟨rfl, and_congr_right fun hw => or_iff_right (hother hw)⟩
      have hsame : ∀ r' ∈ regs, next w r' = pending w r' := by
        intro r' hr'
        refine (hother w r' ?_).1
        rintro ⟨-, rfl⟩
        exact hr hr'
      have hrest : ∀ r' ∈ regs, next w r' ≠ 0 := by
        intro r' hr'
        rw [hsame r' hr']
        exact hpending r' (List.mem_cons_of_mem _ hr')
      have hfilter : (regs.filter fun r => next w r = 1) = regs.filter fun r => pending w r = 1 :=
        List.filter_congr fun r' hr' => by rw [hsame r' hr']
      have hzero : next w r = 0 ↔ pending w r = 1 := by
        rw [hnext, if_pos ⟨rfl, rfl⟩]
        omega
      have hcounted : ∀ {pending' : PendingWrites},
          (∀ w' r', pending' w' r' = next w' r' - if w' = w ∧ r' ∈ regs then 1 else 0) →
          ∀ w' r', pending' w' r' = pending w' r' - if w' = w ∧ r' ∈ r :: regs then 1 else 0 := by
        intro pending' h w' r'
        rw [h]
        by_cases heq : w' = w ∧ r' = r
        · obtain ⟨rfl, rfl⟩ := heq
          simp [hnext, hr]
        · rw [(hother w' r' heq).1, if_congr (hother w' r' heq).2 rfl rfl]
      have hunfold : settle w (r :: regs) table pending =
          if next w r = 0 then
            settle w regs (releaseRegister table w r) next >>= fun rest =>
              .ok (rest.1, rest.2.1, rest.2.2 + 1)
          else settle w regs table next := by
        rw [settle, if_neg hne]
        rfl
      rw [hunfold]
      by_cases hlast : pending w r = 1
      case pos =>
        obtain ⟨⟨table', pending', m⟩, hok, hsettled⟩ :=
          @ih (releaseRegister table w r) next hregs hrest
        refine ⟨(table', pending', m + 1), ?_, ?_, hcounted hsettled.counted, ?_⟩
        · rw [if_pos (hzero.mpr hlast), hok]
          rfl
        · intro w' r'
          refine (hsettled.freed w' r').trans ?_
          rw [mem_releaseRegister]
          by_cases heq : w' = w ∧ r' = r
          · obtain ⟨rfl, rfl⟩ := heq
            simp [hlast]
          · rw [(hother w' r' heq).1]
            have hiff := (hother w' r' heq).2
            simp only [← and_assoc, hiff]
            refine and_congr_left fun _ => and_iff_left ?_
            exact fun h => heq ⟨h.1.symm, h.2⟩
        · have hm := hsettled.released
          rw [hfilter] at hm
          simpa [List.filter_cons, hlast] using hm
      case neg =>
        obtain ⟨⟨table', pending', m⟩, hok, hsettled⟩ := @ih table next hregs hrest
        refine ⟨(table', pending', m), ?_, ?_, hcounted hsettled.counted, ?_⟩
        · rw [if_neg fun h => hlast (hzero.mp h), hok]
        · intro w' r'
          refine (hsettled.freed w' r').trans ?_
          by_cases heq : w' = w ∧ r' = r
          · obtain ⟨rfl, rfl⟩ := heq
            simp [hr, hlast]
          · rw [(hother w' r' heq).1]
            have hiff := (hother w' r' heq).2
            simp only [← and_assoc, hiff]
        · have hm := hsettled.released
          rw [hfilter] at hm
          simpa [List.filter_cons, hlast] using hm

/-! ## Places -/

theorem perm_eraseIdx {α : Type*} {l : List α} {a : α} (h : l[k]? = some a) :
    l.Perm (a :: l.eraseIdx k) := by
  obtain ⟨hk, rfl⟩ := List.getElem?_eq_some_iff.mp h
  exact (List.getElem_cons_eraseIdx_perm hk).symm

theorem mem_stages : d ∈ b.stages ↔
    d ∈ b.pipeline ∨ d ∈ b.dispatched ∨ d ∈ b.smem ∨ d ∈ b.sharedWb := by
  simp only [stages, List.mem_append, or_assoc]

theorem mem_answers : d ∈ b.answers ↔
    d ∈ b.l1LatencyQueue ∨ d ∈ b.outstanding ∨ d ∈ b.loadWb ∨ d ∈ b.lost := by
  simp only [answers, List.mem_append, or_assoc]

namespace BackEnd.InFlight

section

variable (h : b.InFlight)
include h

theorem next (hsound : b'.ledger.Sound WarpInst.Writes)
    (hhas : ∀ d, b'.ledger.Has d → b.ledger.Has d) (hstages : b'.stages.Nodup)
    (hlate : ∀ d ∈ b'.due, d ∈ b'.stages → d ∈ b'.dispatched)
    (hcounts : ∀ d ∈ b'.due, d.countsAccesses = true)
    (hsmem : ∀ d ∈ b'.smem, d.space = .sharedSpace) (hissued : b'.issued = b.issued)
    (hdispatch : ∀ d n, b'.dispatchReg = some (d, n) →
      isMemOp d.inst.op = true ∧ n ≤ d.accessqCount) : b'.InFlight where
  sound := hsound
  nodup d hd := h.nodup d (hhas d hd)
  stages := hstages
  late := hlate
  counts := hcounts
  smem := hsmem
  issued d hd := hissued ▸ h.issued d (hhas d hd)
  dispatch := hdispatch

theorem pendingWrites_ne_zero (hd : d ∈ b.due) (hr : r ∈ d.inst.dests) :
    b.pendingWrites d.warpId r ≠ 0 := by
  have hiff := h.sound.pending_eq_zero_iff (k := (d.warpId, r)) (.inr hd) ⟨rfl, hr⟩
  exact fun hzero => hiff.mp hzero hd

/-! ## Issue -/

theorem issue (hnew : d ∉ b.issued) : OkOr BackEnd.InFlight (· = .reservedTwice) (b.issue d) := by
  cases htable : reserveRegisters b.regTable d with
  | error failure =>
      rw [BackEnd.issue, htable]
      exact reserveRegisters_error htable
  | ok table =>
      rw [BackEnd.issue, htable]
      obtain ⟨hnodup, hfree⟩ := reserveRegisters_iff.mp ⟨table, htable⟩
      let b' : BackEnd :=
        { b with regTable := table, pipeline := b.pipeline ++ [d], issued := b.issued ++ [d] }
      have hperm : b'.stages.Perm (d :: b.stages) := by
        show (b.pipeline ++ [d] ++ b.dispatched ++ b.smem ++ b.sharedWb).Perm _
        simp only [BackEnd.stages, List.append_assoc]
        exact List.perm_middle
      have hhas : ∀ e, b'.ledger.Has e ↔ b.ledger.Has e ∨ e = d := by
        intro e
        show e ∈ b'.stages ∨ e ∈ b.due ↔ (e ∈ b.stages ∨ e ∈ b.due) ∨ e = d
        rw [hperm.mem_iff, List.mem_cons]
        tauto
      have hnone : ¬ b.ledger.Has d := fun hd => hnew (h.issued d hd)
      show b'.InFlight
      constructor
      case sound =>
        refine h.sound.acquire (a := d) ?_ hhas (List.Perm.refl _) ?_ fun _ => rfl
        · rintro ⟨w, r⟩ ⟨rfl, hr⟩
          exact hfree r hr
        · rintro ⟨w, r⟩
          exact mem_reserveRegisters htable
      case nodup =>
        intro e he
        rcases (hhas e).mp he with he | rfl
        · exact h.nodup e he
        · exact hnodup
      case stages =>
        refine hperm.nodup_iff.mpr (List.nodup_cons.mpr ⟨fun hd => hnone (.inl hd), h.stages⟩)
      case late =>
        intro e he hstage
        rcases List.mem_cons.mp (hperm.mem_iff.mp hstage) with rfl | hstage
        · exact absurd (.inr he) hnone
        · exact h.late e he hstage
      case counts => exact h.counts
      case smem => exact h.smem
      case issued =>
        intro e he
        rcases (hhas e).mp he with he | rfl
        · exact List.mem_append_left _ (h.issued e he)
        · exact List.mem_append_right _ List.mem_cons_self
      case dispatch => exact h.dispatch

/-! ## Whole instructions -/

theorem release (hperm : b.stages.Perm (d :: b'.stages)) (hdue : b'.due = b.due)
    (hnone : d ∉ b.due) (htable : b'.regTable = releaseRegisters b.regTable d)
    (hpending : b'.pendingWrites = b.pendingWrites)
    (hdispatched : ∀ e ∈ b.dispatched, e ≠ d → e ∈ b'.dispatched) (hsmem : b'.smem ⊆ b.smem)
    (hissued : b'.issued = b.issued)
    (hdispatch : ∀ d n, b'.dispatchReg = some (d, n) → b.dispatchReg = some (d, n)) :
    b'.InFlight := by
  obtain ⟨hd, hstages⟩ := List.nodup_cons.mp (hperm.nodup_iff.mp h.stages)
  have hhas : ∀ e, b.ledger.Has e ↔ b'.ledger.Has e ∨ e = d := by
    intro e
    show e ∈ b.stages ∨ e ∈ b.due ↔ (e ∈ b'.stages ∨ e ∈ b'.due) ∨ e = d
    rw [hperm.mem_iff, List.mem_cons, hdue]
    tauto
  have hgone : ¬ b'.ledger.Has d := by
    rintro (hstage | hdue')
    · exact hd hstage
    · exact hnone (hdue ▸ hdue')
  refine h.next ?_ (fun e he => (hhas e).mpr (.inl he)) hstages ?_ ?_ ?_ hissued ?_
  · refine h.sound.release hhas hgone (.of_eq hdue) ?_ ?_
    · rintro ⟨w, r⟩
      show r ∈ b'.regTable w ↔ _
      rw [htable]
      exact mem_releaseRegisters
    · rintro ⟨w, r⟩
      exact congrFun (congrFun hpending w) r
  · intro e he hstage
    rw [hdue] at he
    have hold := h.late e he (hperm.mem_iff.mpr (List.mem_cons_of_mem _ hstage))
    exact hdispatched e hold fun heq => hnone (heq ▸ he)
  · exact hdue ▸ h.counts
  · exact fun e he => h.smem e (hsmem he)
  · exact fun e n he => h.dispatch e n (hdispatch e n he)

theorem move (hstages : b'.stages.Perm b.stages) (hdue : b'.due.Perm b.due)
    (htable : b'.regTable = b.regTable) (hpending : b'.pendingWrites = b.pendingWrites)
    (hlate : ∀ e ∈ b.due, e ∈ b.dispatched → e ∈ b'.dispatched)
    (hsmem : ∀ e ∈ b'.smem, e.space = .sharedSpace) (hissued : b'.issued = b.issued)
    (hdispatch : ∀ d n, b'.dispatchReg = some (d, n) →
      isMemOp d.inst.op = true ∧ n ≤ d.accessqCount) : b'.InFlight := by
  have hhas : ∀ e, b'.ledger.Has e ↔ b.ledger.Has e :=
    fun e => or_congr hstages.mem_iff hdue.mem_iff
  refine h.next ?_ (fun e => (hhas e).mp) (hstages.nodup_iff.mpr h.stages) ?_ ?_ hsmem hissued
    hdispatch
  · refine h.sound.congr hhas hdue ?_ ?_
    · rintro ⟨w, r⟩
      show r ∈ b'.regTable w ↔ _
      rw [htable]
      rfl
    · rintro ⟨w, r⟩
      exact congrFun (congrFun hpending w) r
  · intro e he hstage
    have he := hdue.mem_iff.mp he
    exact hlate e he (h.late e he (hstages.mem_iff.mp hstage))
  · exact fun e he => h.counts e (hdue.mem_iff.mp he)

omit h in
theorem stages_eraseIdx_pipeline (hk : b.pipeline[k]? = some d) :
    b.stages.Perm (d :: (b.pipeline.eraseIdx k ++ b.dispatched ++ b.smem ++ b.sharedWb)) :=
  (((perm_eraseIdx hk).append_right _).append_right _).append_right _

theorem notMem_dispatched (hd : d ∈ b.pipeline ++ b.smem ++ b.sharedWb) : d ∉ b.dispatched := by
  have hperm : b.stages.Perm (b.dispatched ++ (b.pipeline ++ b.smem ++ b.sharedWb)) := by
    simp only [BackEnd.stages, List.append_assoc]
    exact List.perm_append_comm_assoc _ _ _
  have hdisjoint := (List.nodup_append'.mp (hperm.nodup_iff.mp h.stages)).2.2
  exact fun hdispatched => hdisjoint hdispatched hd

theorem notMem_due (hd : d ∈ b.pipeline ++ b.smem ++ b.sharedWb) : d ∉ b.due := by
  intro hdue
  have hstage : d ∈ b.stages := by
    simp only [List.mem_append] at hd
    rw [mem_stages]
    tauto
  exact h.notMem_dispatched hd (h.late d hdue hstage)

theorem writeback : (b.writeback k).1.InFlight := by
  rw [BackEnd.writeback]
  cases hk : b.pipeline[k]? with
  | none => exact h
  | some d =>
      dsimp only
      split_ifs with hop
      · exact h
      · have hmem : d ∈ b.pipeline := List.mem_of_getElem? hk
        exact h.release (stages_eraseIdx_pipeline hk) rfl
          (h.notMem_due (List.mem_append_left _ (List.mem_append_left _ hmem))) rfl rfl
          (fun e he _ => he) (List.Subset.refl _) rfl fun _ _ hdispatch => hdispatch

theorem ldstIssue : (b.ldstIssue k).1.InFlight := by
  rw [BackEnd.ldstIssue]
  cases hk : b.pipeline[k]? with
  | none => exact h
  | some d =>
      cases hreg : b.dispatchReg with
      | some other => exact h
      | none =>
          dsimp only
          by_cases hop : isMemOp d.inst.op = true
          case neg =>
            rw [if_neg hop]
            exact h
          rw [if_pos hop]
          have hqueued : b.queued = [] := by rw [queued, hreg]
          have hdispatched : b.dispatched = [] := by rw [dispatched, hreg]; rfl
          have hnone : ∀ e, e ∉ b.dispatched := fun e he => List.not_mem_nil (hdispatched ▸ he)
          have hperm : (b.pipeline.eraseIdx k ++ [d] ++ b.smem ++ b.sharedWb).Perm b.stages := by
            refine List.Perm.trans ?_ (stages_eraseIdx_pipeline hk).symm
            rw [hdispatched, List.append_nil]
            simp only [List.append_assoc]
            exact List.perm_middle
          have hdispatch : ∀ e n, some (d, d.accessqCount) = some (e, n) →
              isMemOp e.inst.op = true ∧ n ≤ e.accessqCount := by
            intro e n heq
            cases heq
            exact ⟨hop, Nat.le_refl _⟩
          by_cases hcounts : d.countsAccesses = true
          case neg =>
            rw [if_neg hcounts]
            let b' : BackEnd := { b with
              pipeline := b.pipeline.eraseIdx k
              dispatchReg := some (d, d.accessqCount) }
            have hdue : b'.due = b.due := by
              have hq : b'.queued = [] := if_neg hcounts
              rw [due, hq, due, hqueued]
              rfl
            show b'.InFlight
            exact h.move hperm (.of_eq hdue) rfl rfl (fun e _ he => absurd he (hnone e)) h.smem rfl
              hdispatch
          rw [if_pos hcounts]
          let b' : BackEnd := { b with
            pipeline := b.pipeline.eraseIdx k
            dispatchReg := some (d, d.accessqCount)
            pendingWrites :=
              changePending (· + d.accessqCount) b.pendingWrites d.warpId d.inst.dests }
          have hdue : b'.due = List.replicate d.accessqCount d ++ b.due := by
            have hq : b'.queued = List.replicate d.accessqCount d := if_pos hcounts
            rw [due, hq, due, hqueued]
            rfl
          have hd : d ∈ b.stages := hperm.mem_iff.mp (by simp)
          have hstages : ∀ e, e ∈ b'.stages ↔ e ∈ b.stages := fun e => hperm.mem_iff
          have hhas : ∀ e, b'.ledger.Has e ↔ b.ledger.Has e := by
            intro e
            show e ∈ b'.stages ∨ e ∈ b'.due ↔ e ∈ b.stages ∨ e ∈ b.due
            rw [hstages, hdue, List.mem_append]
            constructor
            · rintro (he | he | he)
              · exact .inl he
              · exact .inl (List.eq_of_mem_replicate he ▸ hd)
              · exact .inr he
            · exact Or.imp_right .inr
          show b'.InFlight
          refine h.next ?_ (fun e => (hhas e).mp) (hperm.nodup_iff.mpr h.stages) ?_ ?_ h.smem rfl
            hdispatch
          · refine h.sound.charge d.accessqCount hhas (.of_eq hdue) (fun _ => Iff.rfl) ?_
            rintro ⟨w, r⟩
            show b'.pendingWrites w r = b.pendingWrites w r + _
            have hiff : w = d.warpId ∧ r ∈ d.inst.dests ↔ d.Writes (w, r) :=
              and_congr_left fun _ => eq_comm
            show changePending (· + d.accessqCount) b.pendingWrites d.warpId d.inst.dests w r = _
            rw [changePending_eq (h.nodup d (.inl hd))]
            dsimp only
            rw [if_congr hiff rfl rfl]
            split_ifs
            · rfl
            · exact (Nat.add_zero _).symm
          · intro e he hstage
            rw [hdue] at he
            rcases List.mem_append.mp he with he | he
            · rw [List.eq_of_mem_replicate he]
              exact List.mem_singleton_self d
            · exact absurd (h.late e he ((hstages e).mp hstage)) (hnone e)
          · intro e he
            rw [hdue] at he
            rcases List.mem_append.mp he with he | he
            · rw [List.eq_of_mem_replicate he]
              exact hcounts
            · exact h.counts e he

/-! ## The accesses of the instruction in the dispatch register -/

theorem countsAccesses_of_dispatch (hreg : b.dispatchReg = some (d, n))
    (hn : 0 < n) : d.countsAccesses = d.inst.isLoad := by
  have hpos : 0 < d.accessqCount := Nat.lt_of_lt_of_le hn (h.dispatch d n hreg).2
  have hspace : d.space ≠ .sharedSpace := by
    intro hshared
    have huses := (d.accessqCount_pos.mp hpos).2.2.1
    rw [hshared] at huses
    cases huses
  simp [WarpInst.countsAccesses, hspace]

end

section

variable (hreg : b.dispatchReg = some (d, n))
include hreg

theorem mem_stages_of_dispatch : d ∈ b.stages := by
  rw [mem_stages, dispatched, hreg]
  exact .inr (.inl (List.mem_singleton_self d))

theorem due_of_dispatch (hcounts : d.countsAccesses = true) :
    b.due = List.replicate n d ++ b.answers := by
  rw [due, queued, hreg]
  exact congrArg (· ++ b.answers) (if_pos hcounts)

theorem due_of_dispatch_uncounted (hcounts : ¬ d.countsAccesses = true) : b.due = b.answers := by
  rw [due, queued, hreg]
  exact congrArg (· ++ b.answers) (if_neg hcounts)

end

variable (h : b.InFlight)
include h

theorem changePending_decrement (hd : d ∈ b.due) :
    changePending decrement b.pendingWrites d.warpId d.inst.dests =
      fun w r => b.pendingWrites w r - if d.Writes (w, r) then 1 else 0 := by
  rw [changePending_eq (h.nodup d (.inr hd))]
  funext w r
  by_cases hwrites : d.Writes (w, r)
  · obtain ⟨rfl, hr⟩ := hwrites
    have hne := h.pendingWrites_ne_zero hd hr
    rw [if_pos ⟨rfl, hr⟩, if_pos ⟨rfl, hr⟩, decrement, if_neg hne]
  · rw [if_neg hwrites, if_neg fun hw => hwrites ⟨hw.1.symm, hw.2⟩, Nat.sub_zero]

theorem hitDispatch (hreg : b.dispatchReg = some (d, n)) {m : ℕ} (hm : m ≤ n)
    (hreg' : b'.dispatchReg = some (d, m)) (hdue : b.due.Perm (d :: b'.due))
    (hstages : b'.stages = b.stages) (htable : b'.regTable = b.regTable)
    (hpending : b'.pendingWrites =
      changePending decrement b.pendingWrites d.warpId d.inst.dests)
    (hsmem : b'.smem = b.smem) (hissued : b'.issued = b.issued) : b'.InFlight := by
  have hd : d ∈ b.due := hdue.mem_iff.mpr List.mem_cons_self
  have hstage : d ∈ b.stages := mem_stages_of_dispatch hreg
  have hsub : ∀ e, e ∈ b'.due → e ∈ b.due :=
    fun e he => hdue.mem_iff.mpr (List.mem_cons_of_mem _ he)
  have hdispatched : b'.dispatched = b.dispatched := by
    rw [dispatched, dispatched, hreg, hreg']
    rfl
  refine h.next ?_ ?_ (hstages ▸ h.stages) ?_ ?_ (hsmem ▸ h.smem) hissued ?_
  · refine h.sound.settle (a := d) ?_ hdue ?_ ?_
    · intro e
      show e ∈ b'.stages ↔ _
      rw [hstages]
      rfl
    · rintro ⟨w, r⟩
      exact congrFun (congrFun (hpending.trans (h.changePending_decrement hd)) w) r
    · rintro ⟨w, r⟩
      show r ∈ b'.regTable w ↔ _
      rw [htable]
      refine (and_iff_left ?_).symm
      rintro ⟨-, -, hgone⟩
      exact hgone (show d ∈ b'.stages from hstages ▸ hstage)
  · rintro e (he | he)
    · have he : e ∈ b'.stages := he
      exact .inl (show e ∈ b.stages from hstages ▸ he)
    · exact .inr (hsub e he)
  · intro e he hstage
    rw [hdispatched]
    exact h.late e (hsub e he) (hstages ▸ hstage)
  · exact fun e he => h.counts e (hsub e he)
  · intro e k heq
    rw [hreg'] at heq
    cases heq
    obtain ⟨hop, hle⟩ := h.dispatch d n hreg
    exact ⟨hop, hm.trans hle⟩

theorem sendAccess (outcome : AccessOutcome) : (b.sendAccess outcome).InFlight := by
  rw [BackEnd.sendAccess]
  rcases hreg : b.dispatchReg with _ | ⟨d, _ | n⟩
  · exact h
  · exact h
  have hle := (h.dispatch d _ hreg).2
  have hmem := (h.dispatch d _ hreg).1
  have hcounts := h.countsAccesses_of_dispatch hreg (Nat.succ_pos n)
  have hdispatch : ∀ e m, some (d, n) = some (e, m) →
      isMemOp e.inst.op = true ∧ m ≤ e.accessqCount := by
    intro e m heq
    cases heq
    exact ⟨hmem, Nat.le_of_succ_le hle⟩
  have hstages : ({ b with dispatchReg := some (d, n) } : BackEnd).stages = b.stages := by
    rw [BackEnd.stages, BackEnd.stages, dispatched, dispatched, hreg]
    rfl
  have hlate : ∀ e ∈ b.due, e ∈ b.dispatched →
      e ∈ ({ b with dispatchReg := some (d, n) } : BackEnd).dispatched := by
    intro e _ he
    rw [dispatched, hreg] at he
    exact he
  by_cases hload : d.inst.isLoad = true
  case neg =>
    dsimp only
    rw [if_neg hload]
    rw [← hcounts] at hload
    have hdue : ({ b with dispatchReg := some (d, n) } : BackEnd).due = b.due :=
      (due_of_dispatch_uncounted rfl hload).trans (due_of_dispatch_uncounted hreg hload).symm
    exact h.move (.of_eq hstages) (.of_eq hdue) rfl rfl hlate h.smem rfl hdispatch
  dsimp only
  rw [if_pos hload]
  rw [← hcounts] at hload
  have hdue : b.due = d :: (List.replicate n d ++ b.answers) := by
    rw [due_of_dispatch hreg hload, List.replicate_succ]
    rfl
  have hbehind : (b.answers ++ [d]).Perm (d :: b.answers) :=
    List.perm_append_singleton d b.answers
  cases outcome with
  | hit =>
      let b' : BackEnd := { b with
        dispatchReg := some (d, n)
        pendingWrites := changePending decrement b.pendingWrites d.warpId d.inst.dests }
      have hdue' : b'.due = List.replicate n d ++ b.answers := due_of_dispatch rfl hload
      show b'.InFlight
      refine h.hitDispatch hreg (Nat.le_succ n) rfl ?_ hstages rfl rfl rfl rfl
      exact .of_eq (hdue.trans (congrArg (d :: ·) hdue'.symm))
  | sent =>
      have hanswers : (b.l1LatencyQueue ++ (b.outstanding ++ [d]) ++ b.loadWb ++ b.lost).Perm
          (d :: b.answers) := by
        simp only [answers, List.append_assoc]
        refine List.Perm.trans ?_ List.perm_middle
        exact (List.perm_append_left_iff _).mpr List.perm_middle
      refine h.move (.of_eq hstages) ?_ rfl rfl hlate h.smem rfl hdispatch
      refine (List.Perm.of_eq (due_of_dispatch rfl hload)).trans ?_
      rw [hdue]
      exact ((List.perm_append_left_iff _).mpr hanswers).trans List.perm_middle
  | queued =>
      have hanswers : (b.l1LatencyQueue ++ [d] ++ b.outstanding ++ b.loadWb ++ b.lost).Perm
          (d :: b.answers) := by
        simp only [answers, List.append_assoc]
        exact List.perm_middle
      refine h.move (.of_eq hstages) ?_ rfl rfl hlate h.smem rfl hdispatch
      refine (List.Perm.of_eq (due_of_dispatch rfl hload)).trans ?_
      rw [hdue]
      exact ((List.perm_append_left_iff _).mpr hanswers).trans List.perm_middle

theorem perfectConst (hreg : b.dispatchReg = some (d, n))
    (hn : d.inst.isLoad = true → 0 < n) : (b.perfectConst d n).InFlight := by
  have hmem := (h.dispatch d n hreg).1
  have hdispatch : ∀ e m, some (d, 0) = some (e, m) →
      isMemOp e.inst.op = true ∧ m ≤ e.accessqCount := by
    intro e m heq
    cases heq
    exact ⟨hmem, Nat.zero_le _⟩
  have hstages : ({ b with dispatchReg := some (d, 0) } : BackEnd).stages = b.stages := by
    rw [BackEnd.stages, BackEnd.stages, dispatched, dispatched, hreg]
    rfl
  rw [BackEnd.perfectConst]
  by_cases hload : d.inst.isLoad = true
  · have hpos := hn hload
    rw [if_pos hload]
    rw [← h.countsAccesses_of_dispatch hreg hpos] at hload
    let b' : BackEnd := { b with
      dispatchReg := some (d, 0)
      pendingWrites := changePending decrement b.pendingWrites d.warpId d.inst.dests
      lost := b.lost ++ List.replicate (n - 1) d }
    have hdue' : b'.due = b.answers ++ List.replicate (n - 1) d := by
      have hq : b'.due = List.replicate 0 d ++ b'.answers := due_of_dispatch rfl hload
      rw [hq, List.replicate_zero, List.nil_append, answers, answers]
      exact (List.append_assoc _ _ _).symm
    have hdue : b.due = d :: (List.replicate (n - 1) d ++ b.answers) := by
      rw [due_of_dispatch hreg hload, ← List.cons_append, ← List.replicate_succ,
        Nat.sub_add_cancel hpos]
    show b'.InFlight
    refine h.hitDispatch hreg (Nat.zero_le n) rfl ?_ hstages rfl rfl rfl rfl
    rw [hdue, hdue']
    exact (List.perm_cons d).mpr List.perm_append_comm
  · rw [if_neg hload]
    have hcounts : ¬ d.countsAccesses = true := by simp [WarpInst.countsAccesses, hload]
    have hdue : ({ b with dispatchReg := some (d, 0) } : BackEnd).due = b.due :=
      (due_of_dispatch_uncounted rfl hcounts).trans (due_of_dispatch_uncounted hreg hcounts).symm
    refine h.move (.of_eq hstages) (.of_eq hdue) rfl rfl ?_ h.smem rfl hdispatch
    intro e _ he
    rw [dispatched, hreg] at he
    exact he

theorem foldl_sendAccess (outcomes : List AccessOutcome) :
    (outcomes.foldl BackEnd.sendAccess b).InFlight := by
  induction outcomes generalizing b with
  | nil => exact h
  | cons outcome outcomes ih => exact ih (h.sendAccess outcome)

theorem sendAccesses (hwaiting : b.Waiting perfect)
    (outcomes : List AccessOutcome) : (b.sendAccesses perfect outcomes).InFlight := by
  rw [BackEnd.sendAccesses]
  rcases hreg : b.dispatchReg with _ | ⟨d, n⟩
  · exact h
  dsimp only
  split_ifs with hconst hactive
  · exact h
  · refine h.perfectConst hreg fun hload => ?_
    obtain ⟨hop, -⟩ := h.dispatch d n hreg
    rw [hwaiting.whole d n hreg hconst.1 hconst.2]
    refine d.accessqCount_pos.mpr ⟨hop, ?_, ?_, Nat.pos_of_ne_zero hactive⟩
    · intro hbarrier
      rw [d.inst.barrier hbarrier] at hload
      cases hload
    · rcases hconst.2 with hspace | hspace <;> rw [hspace] <;> rfl
  · exact h.foldl_sendAccess outcomes

omit h in
theorem stages_of_dispatch (hreg : b.dispatchReg = some (d, n)) :
    b.stages.Perm (d :: (b.pipeline ++ b.smem ++ b.sharedWb)) := by
  rw [BackEnd.stages, dispatched, hreg]
  simp only [List.append_assoc]
  exact List.perm_middle

theorem leaveDue (hreg : b.dispatchReg = some (d, n)) (hd : d ∈ b.due)
    (hperm : b.stages.Perm (d :: b'.stages)) (hdue : b'.due = b.due)
    (htable : b'.regTable = b.regTable) (hpending : b'.pendingWrites = b.pendingWrites)
    (hsmem : b'.smem = b.smem) (hissued : b'.issued = b.issued) (hreg' : b'.dispatchReg = none) :
    b'.InFlight := by
  obtain ⟨hnot, hstages⟩ := List.nodup_cons.mp (hperm.nodup_iff.mp h.stages)
  have hhas : ∀ e, b'.ledger.Has e ↔ b.ledger.Has e := by
    intro e
    show e ∈ b'.stages ∨ e ∈ b'.due ↔ e ∈ b.stages ∨ e ∈ b.due
    rw [hperm.mem_iff, List.mem_cons, hdue]
    constructor
    · exact Or.imp_left .inr
    · rintro ((rfl | he) | he)
      · exact .inr hd
      · exact .inl he
      · exact .inr he
  refine h.next ?_ (fun e => (hhas e).mp) hstages ?_ (hdue ▸ h.counts) (hsmem ▸ h.smem) hissued ?_
  · refine h.sound.congr hhas (.of_eq hdue) ?_ ?_
    · rintro ⟨w, r⟩
      show r ∈ b'.regTable w ↔ _
      rw [htable]
      rfl
    · rintro ⟨w, r⟩
      exact congrFun (congrFun hpending w) r
  · intro e he hstage
    have hold := h.late e (hdue ▸ he) (hperm.mem_iff.mpr (List.mem_cons_of_mem _ hstage))
    rw [dispatched, hreg] at hold
    rw [List.mem_singleton.mp hold] at hstage
    exact absurd hstage hnot
  · intro e n heq
    rw [hreg'] at heq
    cases heq

theorem leaveDispatch (smemFree : Bool) : (b.leaveDispatch smemFree).1.InFlight := by
  rw [BackEnd.leaveDispatch]
  rcases hreg : b.dispatchReg with _ | ⟨d, n⟩
  case none => exact h
  dsimp only
  by_cases hn : 0 < n
  case pos =>
    rw [if_pos hn]
    exact h
  rw [if_neg hn]
  obtain rfl : n = 0 := Nat.eq_zero_of_not_pos hn
  have hperm := stages_of_dispatch hreg
  have hstages : ({ b with dispatchReg := none } : BackEnd).stages =
      b.pipeline ++ b.smem ++ b.sharedWb := by
    show b.pipeline ++ [] ++ b.smem ++ b.sharedWb = _
    rw [List.append_nil]
  have hdue : ({ b with dispatchReg := none } : BackEnd).due = b.due := by
    by_cases hcounts : d.countsAccesses = true
    · rw [due_of_dispatch hreg hcounts]
      rfl
    · rw [due_of_dispatch_uncounted hreg hcounts]
      rfl
  have honly : ∀ e ∈ b.dispatched, e = d := by
    intro e he
    rw [dispatched, hreg] at he
    exact List.mem_singleton.mp he
  by_cases hload : d.inst.isLoad = true
  case neg =>
    rw [if_neg hload]
    have hdests : d.inst.dests = [] := by
      rw [Inst.dests, List.filter_eq_nil_iff]
      intro r hr
      have hzero := d.inst.load_of_out (h.dispatch d 0 hreg).1 (by simpa using hload) r hr
      simp [hzero]
    have hnone : d ∉ b.due := by
      intro hd
      have hcounts := h.counts d hd
      simp [WarpInst.countsAccesses, hload] at hcounts
    refine h.release (hperm.trans ((List.perm_cons d).mpr (.of_eq hstages.symm))) hdue hnone ?_
      rfl ?_ (List.Subset.refl _) rfl ?_
    · show b.regTable = releaseRegisters b.regTable d
      rw [releaseRegisters, hdests]
      rfl
    · exact fun e he hne => absurd (honly e he) hne
    · exact fun e n heq => by cases heq
  rw [if_pos hload]
  by_cases hshared : d.space = .sharedSpace
  case pos =>
    rw [if_pos hshared]
    split_ifs with hfree
    case neg => exact h
    have hnone : d ∉ b.due := by
      intro hd
      have hcounts := h.counts d hd
      simp [WarpInst.countsAccesses, hshared] at hcounts
    refine h.move ?_ (.of_eq hdue) rfl rfl ?_ ?_ rfl ?_
    · refine List.Perm.trans ?_ hperm.symm
      show (b.pipeline ++ [] ++ (b.smem ++ [d]) ++ b.sharedWb).Perm _
      simp only [List.append_nil, List.append_assoc]
      refine List.Perm.trans ?_ List.perm_middle
      exact (List.perm_append_left_iff _).mpr List.perm_middle
    · exact fun e hdue he => absurd (honly e he ▸ hdue) hnone
    · intro e he
      rcases List.mem_append.mp he with he | he
      · exact h.smem e he
      · rw [List.mem_singleton.mp he]
        exact hshared
    · exact fun e n heq => by cases heq
  rw [if_neg hshared]
  have hcounts : d.countsAccesses = true := by simp [WarpInst.countsAccesses, hload, hshared]
  have hpending : b.pendingRequests d = true ↔
      ∃ r ∈ d.inst.dests, b.pendingWrites d.warpId r ≠ 0 := by
    simp [pendingRequests, Nat.pos_iff_ne_zero]
  by_cases hd : d ∈ b.due
  · -- accesses are due: the load goes on, and its registers, if any, have a count
    have htable : b.pendingRequests d ≠ true →
        releaseRegisters b.regTable d = b.regTable := by
      intro hnone
      have hdests : d.inst.dests = [] := by
        rw [List.eq_nil_iff_forall_not_mem]
        exact fun r hr => hnone (hpending.mpr ⟨r, hr, h.pendingWrites_ne_zero hd hr⟩)
      rw [releaseRegisters, hdests]
      rfl
    have hrest := hperm.trans ((List.perm_cons d).mpr (.of_eq hstages.symm))
    split_ifs with hrequests
    · exact h.leaveDue hreg hd hrest hdue rfl rfl rfl rfl rfl
    · exact h.leaveDue hreg hd hrest hdue (htable hrequests) rfl rfl rfl rfl
  · have hzero : ¬ b.pendingRequests d = true := by
      intro hrequests
      obtain ⟨r, hr, hne⟩ := hpending.mp hrequests
      exact hne ((h.sound.pending_eq_zero_iff (k := (d.warpId, r))
        (.inl (mem_stages_of_dispatch hreg)) ⟨rfl, hr⟩).mpr hd)
    rw [if_neg hzero]
    refine h.release (hperm.trans ((List.perm_cons d).mpr (.of_eq hstages.symm))) hdue hd rfl
      rfl ?_ (List.Subset.refl _) rfl ?_
    · exact fun e he hne => absurd (honly e he) hne
    · exact fun e n heq => by cases heq

/-! ## Answers -/

theorem answered {m : ℕ} (hdue : b.due.Perm (d :: b'.due))
    (hstages : b'.stages = b.stages) (hreg : b'.dispatchReg = b.dispatchReg)
    (hleft : d ∈ b.stages → d ∈ b'.due)
    (hsettled : Settled d.warpId d.inst.dests b.regTable b.pendingWrites
      (b'.regTable, b'.pendingWrites, m))
    (hsmem : b'.smem = b.smem) (hissued : b'.issued = b.issued) : b'.InFlight := by
  have hd : d ∈ b.due := hdue.mem_iff.mpr List.mem_cons_self
  have hsub : ∀ e, e ∈ b'.due → e ∈ b.due :=
    fun e he => hdue.mem_iff.mpr (List.mem_cons_of_mem _ he)
  have hiff : ∀ w r, w = d.warpId ∧ r ∈ d.inst.dests ↔ d.Writes (w, r) :=
    fun w r => and_congr_left fun _ => eq_comm
  have hcount : ∀ w r, b'.pendingWrites w r =
      b.pendingWrites w r - if d.Writes (w, r) then 1 else 0 := by
    intro w r
    exact (hsettled.counted w r).trans (congrArg _ (if_congr (hiff w r) rfl rfl))
  refine h.next ?_ ?_ (hstages ▸ h.stages) ?_ (fun e he => h.counts e (hsub e he))
    (hsmem ▸ h.smem) hissued (hreg ▸ h.dispatch)
  · refine h.sound.settle (a := d) ?_ hdue ?_ ?_
    · intro e
      show e ∈ b'.stages ↔ _
      rw [hstages]
      rfl
    · rintro ⟨w, r⟩
      exact hcount w r
    · rintro ⟨w, r⟩
      refine (hsettled.freed w r).trans (and_congr_right fun _ => not_congr ?_)
      rw [← and_assoc, hiff]
      refine and_congr_right fun hwrites => ?_
      obtain rfl : d.warpId = w := hwrites.1
      have hr : r ∈ d.inst.dests := hwrites.2
      have hne := h.pendingWrites_ne_zero hd hr
      have hzero : b'.pendingWrites d.warpId r = 0 ↔ b.pendingWrites d.warpId r = 1 := by
        rw [hcount, if_pos ⟨rfl, hr⟩]
        omega
      show b.pendingWrites d.warpId r = 1 ↔ b'.pendingWrites d.warpId r = 0 ∧ d ∉ b'.stages
      rw [hzero]
      refine (and_iff_left_of_imp fun hone hstage => ?_).symm
      -- the last access is not that of a load in the dispatch register
      have hdue' : d ∈ b'.due := hleft (hstages ▸ hstage)
      have hcounted := h.sound.pending (d.warpId, r)
      rw [show b.ledger.pending (d.warpId, r) = 1 from hone, show b.ledger.due = b.due from rfl,
        hdue.countP_eq, List.countP_cons_of_pos (by simp [WarpInst.Writes, hr])] at hcounted
      have hpos : 0 < b'.due.countP fun e => decide (e.Writes (d.warpId, r)) :=
        List.countP_pos_iff.mpr ⟨d, hdue', by simp [WarpInst.Writes, hr]⟩
      exact Nat.ne_of_gt hpos (Nat.succ.inj hcounted.symm)
  · rintro e (he | he)
    · have he : e ∈ b'.stages := he
      exact .inl (show e ∈ b.stages from hstages ▸ he)
    · exact .inr (hsub e he)
  · intro e he hstage
    rw [dispatched, hreg]
    exact h.late e (hsub e he) (hstages ▸ hstage)

theorem settle_ok (hd : d ∈ b.due) :
    ∃ result, settle d.warpId d.inst.dests b.regTable b.pendingWrites = .ok result ∧
      Settled d.warpId d.inst.dests b.regTable b.pendingWrites result :=
  Issue.settle_ok (h.nodup d (.inr hd)) fun _ hr => h.pendingWrites_ne_zero hd hr

theorem mem_queued (hwaiting : b.Waiting perfect)
    (hd : d ∈ b.due) (hstage : d ∈ b.stages) : d ∈ b.queued := by
  have hdispatched := h.late d hd hstage
  rw [dispatched] at hdispatched
  obtain ⟨⟨e, n⟩, hreg, rfl⟩ : ∃ e, b.dispatchReg = some e ∧ e.1 = d := by
    simpa [Option.map_eq_some_iff] using hdispatched
  have hn := hwaiting.left e n hreg hd
  rw [queued, hreg]
  dsimp only
  rw [if_pos (h.counts e hd)]
  exact List.mem_replicate.mpr ⟨Nat.ne_of_gt hn, rfl⟩

theorem latencyHit (hwaiting : b.Waiting perfect) :
    ∃ b', b.latencyHit k = .ok b' ∧ b'.InFlight ∧ b'.Waiting perfect := by
  rw [BackEnd.latencyHit]
  cases hk : b.l1LatencyQueue[k]? with
  | none => exact ⟨b, rfl, h, hwaiting⟩
  | some d =>
      have hperm := perm_eraseIdx hk
      have hd : d ∈ b.due := List.mem_append_right _
        (mem_answers.mpr (.inl (List.mem_of_getElem? hk)))
      obtain ⟨⟨table, pending, m⟩, hok, hsettled⟩ := h.settle_ok hd
      dsimp only
      rw [hok]
      let b' : BackEnd := { b with
        regTable := table
        pendingWrites := pending
        l1LatencyQueue := b.l1LatencyQueue.eraseIdx k
        completed := b.completed ++ List.replicate m d }
      have hdue : b.due.Perm (d :: b'.due) := by
        refine List.Perm.trans ?_ List.perm_middle
        refine (List.perm_append_left_iff _).mpr ?_
        exact ((hperm.append_right _).append_right _).append_right _
      refine ⟨b', rfl, h.answered hdue rfl rfl ?_ hsettled rfl rfl, ?_⟩
      · exact fun hstage => List.mem_append_left _ (h.mem_queued hwaiting hd hstage)
      · exact hwaiting.mono rfl fun e he => hdue.mem_iff.mpr (List.mem_cons_of_mem _ he)

theorem ldstWriteback (hwaiting : b.Waiting perfect) :
    ∃ b', b.ldstWriteback = .ok b' ∧ b'.InFlight ∧ b'.Waiting perfect := by
  rw [BackEnd.ldstWriteback]
  cases hwb : b.nextWb with
  | none => exact ⟨b, rfl, h, hwaiting⟩
  | some d =>
      dsimp only
      by_cases hshared : d.space = .sharedSpace
      · have hsharedWb : b.sharedWb = [d] := by simp [sharedWb, hwb, hshared]
        have hloadWb : b.loadWb = [] := by simp [loadWb, hwb, hshared]
        rw [if_pos hshared]
        let b' : BackEnd := { b with
          regTable := releaseRegisters b.regTable d
          nextWb := none
          completed := if d.inst.dests = [] then b.completed else b.completed ++ [d] }
        have hdue : b'.due = b.due := by
          rw [due, due, answers, answers, hloadWb]
          rfl
        refine ⟨b', rfl, h.release (d := d) ?_ hdue ?_ rfl rfl (fun e he _ => he)
          (List.Subset.refl _) rfl fun _ _ hreg => hreg, ?_⟩
        · show b.stages.Perm (d :: (b.pipeline ++ b.dispatched ++ b.smem ++ []))
          rw [BackEnd.stages, hsharedWb, List.append_nil]
          exact List.perm_append_singleton d _
        · refine h.notMem_due (List.mem_append_right _ ?_)
          rw [hsharedWb]
          exact List.mem_singleton_self d
        · exact hwaiting.mono rfl fun e he => hdue ▸ he
      · have hsharedWb : b.sharedWb = [] := by simp [sharedWb, hwb, hshared]
        have hloadWb : b.loadWb = [d] := by simp [loadWb, hwb, hshared]
        have hd : d ∈ b.due := by
          refine List.mem_append_right _ (mem_answers.mpr (.inr (.inr (.inl ?_))))
          rw [hloadWb]
          exact List.mem_singleton_self d
        obtain ⟨⟨table, pending, m⟩, hok, hsettled⟩ := h.settle_ok hd
        rw [if_neg hshared, hok]
        let b' : BackEnd := { b with
          regTable := table
          pendingWrites := pending
          nextWb := none
          completed := if m = 0 then b.completed else b.completed ++ [d] }
        have hdue : b.due.Perm (d :: b'.due) := by
          rw [due, answers, hloadWb]
          show List.Perm _ (d :: (b.queued ++ (b.l1LatencyQueue ++ b.outstanding ++ [] ++ b.lost)))
          refine List.Perm.trans ?_ List.perm_middle
          rw [List.append_nil, List.append_assoc (b.l1LatencyQueue ++ b.outstanding) [d] b.lost]
          exact (List.perm_append_left_iff _).mpr List.perm_middle
        refine ⟨b', rfl, h.answered hdue ?_ rfl ?_ hsettled rfl rfl, ?_⟩
        · have hold : b.stages = b.pipeline ++ b.dispatched ++ b.smem ++ [] := by
            rw [BackEnd.stages, hsharedWb]
          exact hold.symm
        · exact fun hstage => List.mem_append_left _ (h.mem_queued hwaiting hd hstage)
        · exact hwaiting.mono rfl fun e he => hdue.mem_iff.mpr (List.mem_cons_of_mem _ he)

/-! ## Moves -/

theorem moveBehind (hanswers : b'.answers.Perm b.answers)
    (hstages : b'.stages.Perm b.stages) (hreg : b'.dispatchReg = b.dispatchReg)
    (htable : b'.regTable = b.regTable) (hpending : b'.pendingWrites = b.pendingWrites)
    (hsmem : b'.smem ⊆ b.smem) (hissued : b'.issued = b.issued) :
    b'.InFlight ∧ b'.due.Perm b.due := by
  have hqueued : b'.queued = b.queued := by rw [queued, queued, hreg]
  have hdue : b'.due.Perm b.due := by
    rw [due, due, hqueued]
    exact (List.perm_append_left_iff _).mpr hanswers
  refine ⟨h.move hstages hdue htable hpending ?_ (fun e he => h.smem e (hsmem he)) hissued
    (hreg ▸ h.dispatch), hdue⟩
  intro e _ he
  rw [dispatched, hreg]
  exact he

theorem latencyMiss : (b.latencyMiss k).InFlight ∧ (b.latencyMiss k).due.Perm b.due := by
  rw [BackEnd.latencyMiss]
  cases hk : b.l1LatencyQueue[k]? with
  | none => exact ⟨h, .refl _⟩
  | some d =>
      refine h.moveBehind ?_ (.refl _) rfl rfl rfl (List.Subset.refl _) rfl
      rw [List.perm_iff_count]
      intro e
      have hcount := (perm_eraseIdx hk).count_eq e
      simp only [answers, loadWb, List.count_append, List.count_cons, List.count_nil] at hcount ⊢
      omega

theorem answer (hasInst : Bool) :
    (b.answer k hasInst).InFlight ∧ (b.answer k hasInst).due.Perm b.due := by
  rw [BackEnd.answer]
  cases hk : b.outstanding[k]? with
  | none => exact ⟨h, .refl _⟩
  | some d =>
      cases hwb : b.nextWb with
      | some other => exact ⟨h, .refl _⟩
      | none =>
          have hshared : ¬ d.space = .sharedSpace := by
            intro hshared
            have hd : d ∈ b.due := List.mem_append_right _
              (mem_answers.mpr (.inr (.inl (List.mem_of_getElem? hk))))
            have hcounts := h.counts d hd
            simp [WarpInst.countsAccesses, hshared] at hcounts
          have hcount := fun e => (perm_eraseIdx hk).count_eq e
          simp only [List.count_cons] at hcount
          cases hasInst with
          | true =>
              refine h.moveBehind ?_ ?_ rfl rfl rfl (List.Subset.refl _) rfl
              · rw [List.perm_iff_count]
                intro e
                simp only [answers, loadWb, List.count_append, hwb, hcount e]
                simp [hshared, List.count_cons]
                omega
              · rw [BackEnd.stages, BackEnd.stages, sharedWb, sharedWb, hwb]
                simp [hshared, dispatched]
          | false =>
              dsimp only
              rw [if_neg Bool.false_ne_true]
              have hstages : b.pipeline ++ b.dispatched ++ b.smem ++ [] = b.stages := by
                rw [BackEnd.stages, sharedWb, hwb]
                rfl
              refine h.moveBehind ?_ (.of_eq hstages) rfl rfl rfl (List.Subset.refl _) rfl
              rw [List.perm_iff_count]
              intro e
              simp only [answers, loadWb, List.count_append, hwb, hcount e]
              simp [List.count_cons]
              omega

theorem answerShared : (b.answerShared k).1.InFlight ∧ (b.answerShared k).1.due.Perm b.due := by
  rw [BackEnd.answerShared]
  cases hk : b.smem[k]? with
  | none => exact ⟨h, .refl _⟩
  | some d =>
      cases hwb : b.nextWb with
      | some other => exact ⟨h, .refl _⟩
      | none =>
          have hshared : d.space = .sharedSpace := h.smem d (List.mem_of_getElem? hk)
          have hcount := fun e => (perm_eraseIdx hk).count_eq e
          simp only [List.count_cons] at hcount
          refine h.moveBehind ?_ ?_ rfl rfl rfl List.eraseIdx_subset rfl
          · rw [answers, answers, loadWb, loadWb, hwb]
            simp [hshared]
          · rw [List.perm_iff_count]
            intro e
            simp only [BackEnd.stages, sharedWb, List.count_append, hwb, hcount e]
            simp [hshared, dispatched, List.count_cons]
            omega

end BackEnd.InFlight

end GpuCalorie.Issue
