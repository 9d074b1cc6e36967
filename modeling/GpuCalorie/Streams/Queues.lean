/-
# Kernels in the queues of streams

The launch of a kernel waits to be pushed, is in the queue of one stream, or is retired, and
`m_grid_id_to_stream` has the streams whose front operation is the launch of a kernel that has
begun. `Queues` says so, for the number of times a launch waits to be pushed.
-/

import GpuCalorie.Streams.Manager
import Mathlib.Data.Nat.Basic
import Mathlib.Order.Basic

namespace GpuCalorie.Streams

namespace CUstream
variable {t : CUstream}


variable (s : CUstream)

/-- The number of launches of a kernel in a stream. -/
def launches (uid : ℕ) : ℕ := s.operations.count (.kernelLaunch uid)

/-- The front operation is the launch of a kernel, and has begun. -/
def Front (uid : ℕ) : Prop := s.pending = true ∧ s.operations.head? = some (.kernelLaunch uid)

variable {s} {uid : ℕ}

theorem launches_pos_of_head (h : s.operations.head? = some (.kernelLaunch uid)) :
    0 < s.launches uid :=
  List.count_pos_iff.mpr (List.mem_of_head? h)

theorem launches_tail (h : s.operations.head? = some (.kernelLaunch uid))
    (ht : t.operations = s.operations.tail) (u : ℕ) :
    t.launches u + (if u = uid then 1 else 0) = s.launches u := by
  rw [launches, launches, ht]
  cases hops : s.operations with
  | nil =>
      rw [hops] at h
      cases h
  | cons first rest =>
      rw [hops] at h
      cases h
      rw [List.tail_cons, List.count_cons]
      by_cases heq : u = uid
      · simp [heq]
      · have hne : uid ≠ u := Ne.symm heq
        simp [heq, hne]

theorem launches_tail_le (ht : t.operations = s.operations.tail) (u : ℕ) :
    t.launches u ≤ s.launches u := by
  rw [launches, launches, ht]
  exact (List.tail_sublist _).count_le _

end CUstream

theorem StreamManager.gridIdToStream_begin (s : StreamManager) (sid u : ℕ) :
    (s.begin sid).gridIdToStream u
      = if (s.stream sid).operations.head? = some
        (.kernelLaunch u) then some sid else s.gridIdToStream u := by
  rw [StreamManager.begin]
  cases hhead : (s.stream sid).operations.head? with
  | none => rfl
  | some op =>
      cases op with
      | kernelLaunch uid =>
          by_cases heq : u = uid
          · simp [heq]
          · have hne : uid ≠ u := Ne.symm heq
            simp [heq, hne]
      | memcpy => simp
      | event e => simp
      | waitEvent e count => simp

/-- What holds of the queues. -/
structure Queues (stream : ℕ → CUstream) (gridIdToStream : ℕ → Option ℕ) (nextUid : ℕ)
    (retired : List ℕ) (waiting : ℕ → ℕ) : Prop where
  inOrder : ∀ sid, (stream sid).InOrder
  waiting_le : ∀ u, waiting u ≤ 1
  waiting : ∀ u, 0 < waiting u → u < nextUid ∧ u ∉ retired ∧ ∀ sid, (stream sid).launches u = 0
  queued : ∀ sid u, 0 < (stream sid).launches u → u < nextUid ∧ u ∉ retired
  once : ∀ sid u, (stream sid).launches u ≤ 1
  unique : ∀ sid sid' u, 0 < (stream sid).launches u → 0 < (stream sid').launches u → sid = sid'
  grid_iff : ∀ u sid, gridIdToStream u = some sid ↔ (stream sid).Front u

namespace Queues

variable {stream : ℕ → CUstream} {gridIdToStream gridIdToStream' : ℕ → Option ℕ} {nextUid : ℕ}
  {retired : List ℕ} {waiting waiting' : ℕ → ℕ} {sid uid : ℕ}

theorem init : Queues (fun _ => {}) (fun _ => none) 1 [] (fun _ => 0) where
  inOrder _ := .empty
  waiting_le _ := Nat.zero_le 1
  waiting _ h := absurd h (Nat.lt_irrefl 0)
  queued _ _ h := absurd h (Nat.lt_irrefl 0)
  once _ _ := Nat.zero_le 1
  unique _ _ _ h := absurd h (Nat.lt_irrefl 0)
  grid_iff _ _ := iff_of_false (fun h => nomatch h) fun h => Bool.false_ne_true h.1

variable (h : Queues stream gridIdToStream nextUid retired waiting)
include h

theorem front (hgrid : gridIdToStream uid = some sid) :
    (stream sid).Front uid := (h.grid_iff uid sid).mp hgrid

theorem not_retired (hgrid : gridIdToStream uid = some sid) : uid < nextUid ∧ uid ∉ retired :=
  h.queued sid uid (CUstream.launches_pos_of_head (h.front hgrid).2)

theorem grid_eq_none (hhead : (stream sid).operations.head? = some (.kernelLaunch uid))
    (hidle : (stream sid).pending = false) : gridIdToStream uid = none := by
  cases hgrid : gridIdToStream uid with
  | none => rfl
  | some sid' =>
      have hfront := h.front hgrid
      have hsame := h.unique sid sid' uid (CUstream.launches_pos_of_head hhead)
        (CUstream.launches_pos_of_head hfront.2)
      rw [← hsame, CUstream.Front, hidle] at hfront
      exact absurd hfront.1 Bool.false_ne_true

theorem mono (hle : ∀ u, waiting' u ≤ waiting u) : Queues stream gridIdToStream nextUid retired
    waiting' where
  inOrder := h.inOrder
  waiting_le u := (hle u).trans (h.waiting_le u)
  waiting u hpos := h.waiting u (lt_of_lt_of_le hpos (hle u))
  queued := h.queued
  once := h.once
  unique := h.unique
  grid_iff := h.grid_iff

theorem setStream (hinOrder : t.InOrder) (hle : ∀ u, t.launches u ≤ (stream sid).launches u)
    (hself : ∀ u, gridIdToStream' u = some sid ↔ t.Front u)
    (hothers : ∀ u sid', sid' ≠ sid → (gridIdToStream' u = some sid' ↔
    gridIdToStream u = some sid')) :
    Queues (Function.update stream sid t) gridIdToStream' nextUid retired waiting := by
  have hles : ∀ sid' u, (Function.update stream sid t sid').launches u ≤
      (stream sid').launches u := by
    intro sid' u
    by_cases heq : sid' = sid
    · rw [heq, Function.update_self]
      exact hle u
    · rw [Function.update_of_ne heq]
  constructor
  case inOrder =>
    intro sid'
    by_cases heq : sid' = sid
    · rw [heq, Function.update_self]
      exact hinOrder
    · rw [Function.update_of_ne heq]
      exact h.inOrder sid'
  case waiting_le => exact h.waiting_le
  case waiting =>
    intro u hpos
    obtain ⟨hlt, hnot, hnone⟩ := h.waiting u hpos
    exact ⟨hlt, hnot, fun sid' => Nat.le_zero.mp ((hles sid' u).trans (hnone sid').le)⟩
  case queued => exact fun sid' u hpos => h.queued sid' u (lt_of_lt_of_le hpos (hles sid' u))
  case once => exact fun sid' u => (hles sid' u).trans (h.once sid' u)
  case unique =>
    exact fun sid₁ sid₂ u h₁ h₂ => h.unique sid₁ sid₂ u (lt_of_lt_of_le h₁ (hles sid₁ u))
      (lt_of_lt_of_le h₂ (hles sid₂ u))
  case grid_iff =>
    intro u sid'
    by_cases heq : sid' = sid
    · rw [heq, Function.update_self]
      exact hself u
    · rw [Function.update_of_ne heq, hothers u sid' heq]
      exact h.grid_iff u sid'

omit h in
theorem begin {s : StreamManager} (h : Queues s.stream s.gridIdToStream nextUid retired waiting)
    (hready : (s.stream sid).ready = true) :
    Queues (s.begin sid).stream (s.begin sid).gridIdToStream nextUid retired waiting := by
  obtain ⟨hidle, -⟩ := (Bool.and_eq_true _ _).mp hready
  have hnot : (s.stream sid).pending = false := (Bool.not_eq_true' _).mp hidle
  have hnone : ∀ u, s.gridIdToStream u ≠ some sid := by
    intro u hgrid
    have hfront := (h.front hgrid).1
    rw [hnot] at hfront
    cases hfront
  have hgrid := s.gridIdToStream_begin sid
  refine h.setStream ((h.inOrder sid).next hready) (fun _ => le_rfl) (fun u => ?_) fun u sid' hne =>
    ?_
  · rw [hgrid u, CUstream.Front]
    show _ ↔ true = true ∧ (s.stream sid).operations.head? = _
    split_ifs with hhead
    · exact iff_of_true rfl ⟨rfl, hhead⟩
    · exact iff_of_false (hnone u) fun hboth => hhead hboth.2
  · rw [hgrid u]
    split_ifs with hhead
    · rw [h.grid_eq_none hhead hnot]
      exact iff_of_false (fun hsame => hne (Option.some.inj hsame).symm) fun hsome => nomatch hsome
    · exact Iff.rfl

theorem recordNextDone
    (ht : t.operations = (stream sid).operations.tail) (hidle : t.pending = false)
    (hinOrder : t.InOrder)
    (hop : ∀ u, (stream sid).operations.head? ≠ some (.kernelLaunch u)) :
    Queues (Function.update stream sid t) gridIdToStream nextUid retired waiting := by
  refine h.setStream hinOrder (CUstream.launches_tail_le ht) (fun u => ?_) fun _ _ _ => Iff.rfl
  refine iff_of_false (fun hgrid => hop u (h.front hgrid).2) fun hfront => ?_
  rw [CUstream.Front, hidle] at hfront
  exact Bool.false_ne_true hfront.1

theorem leave
    (hgrid : gridIdToStream uid = some sid) (hle : ∀ u, t.launches u ≤ (stream sid).launches u)
    (hidle : t.pending = false) (hinOrder : t.InOrder) :
    Queues (Function.update stream sid t) (Function.update gridIdToStream uid none) nextUid retired
      waiting := by
  refine h.setStream hinOrder hle (fun u => ?_) fun u sid' hne => ?_
  · refine iff_of_false (fun hself => ?_) fun hfront => ?_
    · by_cases heq : u = uid
      · rw [heq, Function.update_self] at hself
        cases hself
      · rw [Function.update_of_ne heq] at hself
        have hhead := (h.front hself).2.symm.trans (h.front hgrid).2
        cases hhead
        exact heq rfl
    · rw [CUstream.Front, hidle] at hfront
      exact Bool.false_ne_true hfront.1
  · by_cases heq : u = uid
    · rw [heq, Function.update_self, hgrid]
      simp [hne.symm]
    · rw [Function.update_of_ne heq]

theorem retire (hnone : ∀ sid, (stream sid).launches uid = 0) (hwaiting : waiting uid = 0) :
    Queues stream gridIdToStream nextUid (uid :: retired) waiting where
  inOrder := h.inOrder
  waiting_le := h.waiting_le
  waiting u hpos := by
    obtain ⟨hlt, hnot, hqueued⟩ := h.waiting u hpos
    refine ⟨hlt, fun hmem => ?_, hqueued⟩
    rcases List.mem_cons.mp hmem with rfl | hold
    · rw [hwaiting] at hpos
      exact Nat.lt_irrefl 0 hpos
    · exact hnot hold
  queued sid u hpos := by
    obtain ⟨hlt, hnot⟩ := h.queued sid u hpos
    refine ⟨hlt, fun hmem => ?_⟩
    rcases List.mem_cons.mp hmem with rfl | hold
    · rw [hnone sid] at hpos
      exact Nat.lt_irrefl 0 hpos
    · exact hnot hold
  once := h.once
  unique := h.unique
  grid_iff := h.grid_iff

theorem newKernel (hlt : ∀ u ∈ retired, u < nextUid)
    (hwaiting : ∀ u, waiting' u = if u = nextUid then 1 else waiting u) :
    Queues stream gridIdToStream (nextUid + 1) retired waiting' where
  inOrder := h.inOrder
  waiting_le u := by
    rw [hwaiting u]
    split_ifs
    · exact le_rfl
    · exact h.waiting_le u
  waiting u hpos := by
    rw [hwaiting u] at hpos
    split_ifs at hpos with heq
    · refine ⟨heq ▸ Nat.lt_succ_self _, fun hmem => ?_, fun sid => ?_⟩
      · exact Nat.lt_irrefl u (lt_of_lt_of_eq (hlt u hmem) heq.symm)
      · by_contra hqueued
        have hless := (h.queued sid u (Nat.pos_of_ne_zero hqueued)).1
        omega
    · obtain ⟨hless, hrest⟩ := h.waiting u hpos
      exact ⟨Nat.lt_succ_of_lt hless, hrest⟩
  queued sid u hpos := by
    obtain ⟨hless, hnot⟩ := h.queued sid u hpos
    exact ⟨Nat.lt_succ_of_lt hless, hnot⟩
  once := h.once
  unique := h.unique
  grid_iff := h.grid_iff

theorem push (sid : ℕ) {op : StreamOperation} (hle : ∀ u, waiting' u ≤ waiting u)
    (hop : ∀ u, op = .kernelLaunch u → waiting u = 1 ∧ waiting' u = 0) :
    Queues (Function.update stream sid ((stream sid).push op)) gridIdToStream nextUid retired
      waiting' := by
  have hlaunches : ∀ sid' u, (Function.update stream sid ((stream sid).push op) sid').launches u
      = (stream sid').launches u + if sid' = sid ∧ op = .kernelLaunch u then 1 else 0 := by
    intro sid' u
    by_cases heq : sid' = sid
    · rw [heq, Function.update_self]
      show ((stream sid).operations ++ [op]).count _ = _
      rw [List.count_append, List.count_singleton]
      simp [CUstream.launches]
    · rw [Function.update_of_ne heq, if_neg fun hboth => heq hboth.1, Nat.add_zero]
  -- the launch that is pushed was nowhere before
  have hnew : ∀ sid' u, 0 < (Function.update stream sid ((stream sid).push op) sid').launches u →
      (0 < (stream sid').launches u ∧ op ≠ .kernelLaunch u) ∨
        (sid' = sid ∧ op = .kernelLaunch u) := by
    intro sid' u hpos
    rw [hlaunches sid' u] at hpos
    by_cases heq : op = .kernelLaunch u
    · have hwaits := (hop u heq).1
      have hnone := (h.waiting u (by omega)).2.2 sid'
      rw [hnone, Nat.zero_add] at hpos
      split_ifs at hpos with hboth
      · exact .inr hboth
      · exact absurd hpos (Nat.lt_irrefl 0)
    · rw [if_neg fun hboth => heq hboth.2] at hpos
      exact .inl ⟨hpos, heq⟩
  constructor
  case inOrder =>
    intro sid'
    by_cases heq : sid' = sid
    · rw [heq, Function.update_self]
      exact (h.inOrder sid).push op
    · rw [Function.update_of_ne heq]
      exact h.inOrder sid'
  case waiting_le => exact fun u => (hle u).trans (h.waiting_le u)
  case waiting =>
    intro u hpos
    obtain ⟨hlt, hnot, hnone⟩ := h.waiting u (lt_of_lt_of_le hpos (hle u))
    refine ⟨hlt, hnot, fun sid' => ?_⟩
    have hother : op ≠ .kernelLaunch u := by
      intro heq
      rw [(hop u heq).2] at hpos
      exact Nat.lt_irrefl 0 hpos
    rw [hlaunches, hnone sid', if_neg fun hboth => hother hboth.2]
  case queued =>
    intro sid' u hpos
    rcases hnew sid' u hpos with ⟨hold, -⟩ | ⟨-, heq⟩
    · exact h.queued sid' u hold
    · have hwaits := (hop u heq).1
      obtain ⟨hlt, hnot, -⟩ := h.waiting u (by omega)
      exact ⟨hlt, hnot⟩
  case once =>
    intro sid' u
    rw [hlaunches sid' u]
    split_ifs with hboth
    · have hwaits := (hop u hboth.2).1
      rw [(h.waiting u (by omega)).2.2 sid']
    · exact h.once sid' u
  case unique =>
    intro sid₁ sid₂ u h₁ h₂
    rcases hnew sid₁ u h₁ with ⟨hold₁, hne₁⟩ | ⟨hself₁, heq₁⟩
    · rcases hnew sid₂ u h₂ with ⟨hold₂, -⟩ | ⟨-, heq₂⟩
      · exact h.unique sid₁ sid₂ u hold₁ hold₂
      · exact absurd heq₂ hne₁
    · rcases hnew sid₂ u h₂ with ⟨-, hne₂⟩ | ⟨hself₂, -⟩
      · exact absurd heq₁ hne₂
      · rw [hself₁, hself₂]
  case grid_iff =>
    intro u sid'
    by_cases heq : sid' = sid
    · rw [heq, Function.update_self, h.grid_iff u sid, CUstream.Front, CUstream.Front]
      show _ ↔ (stream sid).pending = true ∧ ((stream sid).operations ++ [op]).head? = _
      refine and_congr_right fun hpending => ?_
      have hsome := (h.inOrder sid).pending hpending
      cases hops : (stream sid).operations with
      | nil => exact absurd hops hsome
      | cons first rest => rfl
    · rw [Function.update_of_ne heq]
      exact h.grid_iff u sid'

end Queues

end GpuCalorie.Streams
