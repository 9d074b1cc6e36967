/-
# The counters of the delay queue

`fifo_pipeline` keeps its length and a count of its elements beside the linked list. The length is
always that of the list, and the data pass through the list in order. The count should leave delays
out, and is corrected after the pushes that `pop` and `set_min_length` make; it is not corrected for
the delays of the constructor, for delays that are popped, and for data that take the place of a
delay.
-/

import GpuCalorie.Dram.FifoPipeline
import GpuCalorie.Math.Transition
import Mathlib.Data.BitVec

namespace GpuCalorie.Dram

open GpuCalorie.Math TransitionSystem

universe u

/-- The assertions of `fifo_pipeline`. -/
inductive NodeFailure
  /-- `maxlen` in the constructor -/
  | noCapacity
  /-- `m_length < m_max_len` -/
  | full
  /-- `m_head` in `set_min_length` -/
  | empty
  /-- `m_head == NULL` at length 0 in `pop` -/
  | length
  deriving DecidableEq, Repr

/-- `fifo_pipeline` with its counters. -/
structure CountedPipeline (α : Type u) where
  nodes : List (Option α)
  minLen : ℕ
  maxLen : ℕ
  length : ℕ
  nElement : BitVec 32

namespace CountedPipeline

open FifoPipeline (endsInDelay trimReversed)

variable {α : Type u}

/-- `push`. The last node is used again if it is a delay that is not needed. -/
def push (q : CountedPipeline α) (data : Option α) : Except NodeFailure (CountedPipeline α) :=
  if q.maxLen ≤ q.length then .error .full
  else
    match q.nodes.getLast? with
    | none =>
      .ok { q with nodes := [data], length := q.length + 1, nElement := q.nElement + 1 }
    | some tail =>
      if tail.isSome ∨ q.length < q.minLen then
        .ok { q with
          nodes := q.nodes ++ [data], length := q.length + 1, nElement := q.nElement + 1 }
      else .ok { q with nodes := q.nodes.dropLast ++ [data] }

/-- Push a delay, which is not counted. -/
def pushDelay (q : CountedPipeline α) : Except NodeFailure (CountedPipeline α) := do
  let q ← q.push none
  return { q with nElement := q.nElement - 1 }

/-- The loop of the constructor. -/
def fill (q : CountedPipeline α) : ℕ → Except NodeFailure (CountedPipeline α)
  | 0 => .ok q
  | rounds + 1 => do fill (← q.push none) rounds

/-- The constructor. -/
def new (minLen maxLen : ℕ) : Except NodeFailure (CountedPipeline α) :=
  if maxLen = 0 then .error .noCapacity else fill ⟨[], minLen, maxLen, 0, 0⟩ minLen

/-- The pipeline without its first node. -/
def dropHead (q : CountedPipeline α) (rest : List (Option α)) : CountedPipeline α :=
  { q with nodes := rest, length := q.length - 1, nElement := q.nElement - 1 }

/-- `pop` -/
def pop (q : CountedPipeline α) : Except NodeFailure (Option α × CountedPipeline α) :=
  match q.nodes with
  | [] => .ok (none, q)
  | data :: rest =>
    let q := q.dropHead rest
    if q.length = 0 ∧ rest.isEmpty = false then .error .length
    else if q.minLen ≠ 0 ∧ q.length < q.minLen then do return (data, ← q.pushDelay)
    else .ok (data, q)

/-- The loop of `set_min_length` that makes the pipeline longer. -/
def grow (q : CountedPipeline α) : ℕ → Except NodeFailure (CountedPipeline α)
  | 0 => .ok q
  | rounds + 1 => if q.length < q.minLen then do grow (← q.pushDelay) rounds else .ok q

/-- The loop of `set_min_length` that takes delays off the end. The last node of all is popped. -/
def trim (q : CountedPipeline α) : ℕ → Except NodeFailure (CountedPipeline α)
  | 0 => .ok q
  | rounds + 1 =>
    if q.minLen < q.length ∧ endsInDelay q.nodes = true then
      if q.nodes.length = 1 then do
        let (_, q) ← q.pop
        trim q rounds
      else trim { q with nodes := q.nodes.dropLast, length := q.length - 1 } rounds
    else .ok q

/-- `set_min_length` -/
def setMinLength (q : CountedPipeline α) (newMinLen : ℕ) :
    Except NodeFailure (CountedPipeline α) :=
  if newMinLen = q.minLen then .ok q
  else if q.minLen < newMinLen then grow { q with minLen := newMinLen } newMinLen
  else if q.nodes.isEmpty then .error .empty
  else trim { q with minLen := newMinLen } q.length

/-- `full` -/
def full (q : CountedPipeline α) : Bool :=
  decide (q.maxLen ≠ 0 ∧ q.maxLen ≤ q.length)

/-- The pipeline without its counters. -/
def toFifo (q : CountedPipeline α) : FifoPipeline α :=
  ⟨q.nodes, q.minLen, q.maxLen⟩

/-- The elements it holds. -/
abbrev contents (q : CountedPipeline α) : List α :=
  q.toFifo.contents

/-- The next push takes the place of a delay. -/
def Overwrites (q : CountedPipeline α) : Prop :=
  endsInDelay q.nodes = true ∧ q.minLen ≤ q.length

instance (q : CountedPipeline α) : Decidable q.Overwrites :=
  inferInstanceAs (Decidable (_ ∧ _))

/-- The length is that of the list, within its limits. -/
structure Ok (q : CountedPipeline α) : Prop where
  length : q.length = q.nodes.length
  minLen : q.minLen ≤ q.length
  maxLen : q.length ≤ q.maxLen

variable {q q' : CountedPipeline α} {data : Option α}

/-! ## One push -/

theorem endsInDelay_of_getLast? {nodes : List (Option α)} {tail : Option α}
    (h : nodes.getLast? = some tail) : endsInDelay nodes = !tail.isSome := by
  rw [endsInDelay, h]
  cases tail <;> rfl

theorem push_eq (hroom : q.length < q.maxLen) (data : Option α) :
    q.push data = .ok (if q.Overwrites then { q with nodes := q.nodes.dropLast ++ [data] }
      else { q with
        nodes := q.nodes ++ [data], length := q.length + 1, nElement := q.nElement + 1 }) := by
  rw [push, if_neg (Nat.not_le.mpr hroom)]
  cases hlast : q.nodes.getLast? with
  | none =>
      have hnil : q.nodes = [] := List.getLast?_eq_none_iff.mp hlast
      have hover : ¬ q.Overwrites := by
        rintro ⟨hdelay, -⟩
        rw [hnil] at hdelay
        exact Bool.false_ne_true hdelay
      rw [if_neg hover, hnil]
      rfl
  | some tail =>
      have hover : q.Overwrites ↔ ¬ (tail.isSome = true ∨ q.length < q.minLen) := by
        rw [Overwrites, endsInDelay_of_getLast? hlast, not_or, Nat.not_lt]
        simp
      by_cases hcase : tail.isSome = true ∨ q.length < q.minLen
      · rw [if_neg fun h => hover.mp h hcase]
        exact if_pos hcase
      · rw [if_pos (hover.mpr hcase)]
        exact if_neg hcase

theorem push_error (hfull : q.maxLen ≤ q.length) (data : Option α) : q.push data = .error .full :=
  if_pos hfull

theorem room_of_push (h : q.push data = .ok q') : q.length < q.maxLen := by
  by_contra hfull
  rw [push_error (Nat.not_lt.mp hfull)] at h
  cases h

theorem push_toFifo (hlength : q.length = q.nodes.length) (h : q.push data = .ok q') :
    q.toFifo.push data = .ok q'.toFifo := by
  have hroom := room_of_push h
  have hroomFifo : ¬ q.toFifo.maxLen ≤ q.toFifo.entries.length := by
    show ¬ q.maxLen ≤ q.nodes.length
    omega
  rw [push_eq hroom] at h
  cases h
  rw [FifoPipeline.push, if_neg hroomFifo]
  by_cases hover : q.Overwrites
  · have hcond : endsInDelay q.toFifo.entries = true ∧ q.toFifo.minLen ≤ q.toFifo.entries.length :=
      ⟨hover.1, hlength ▸ hover.2⟩
    rw [if_pos hcond, if_pos hover]
    rfl
  · have hcond : ¬ (endsInDelay q.toFifo.entries = true ∧
        q.toFifo.minLen ≤ q.toFifo.entries.length) := fun h => hover ⟨h.1, hlength.symm ▸ h.2⟩
    rw [if_neg hcond, if_neg hover]
    rfl

theorem Ok.push (h : q.Ok) (hpush : q.push data = .ok q') :
    q'.Ok ∧ q'.minLen = q.minLen ∧ q'.maxLen = q.maxLen := by
  have hroom := room_of_push hpush
  have hmin := h.minLen
  have hlength := h.length
  rw [push_eq hroom] at hpush
  cases hpush
  by_cases hover : q.Overwrites
  · rw [if_pos hover]
    obtain ⟨front, hfront⟩ :=
      List.getLast?_eq_some_iff.mp (FifoPipeline.getLast?_of_endsInDelay hover.1)
    have hsame : (q.nodes.dropLast ++ [data]).length = q.nodes.length := by
      rw [hfront, List.dropLast_concat, List.length_append, List.length_append]
      rfl
    exact ⟨⟨hlength.trans hsame.symm, hmin, hroom.le⟩, rfl, rfl⟩
  · rw [if_neg hover]
    refine ⟨⟨?_, Nat.le_succ_of_le hmin, hroom⟩, rfl, rfl⟩
    rw [List.length_append, ← hlength]
    rfl

theorem pushDelay_eq (hroom : q.length < q.maxLen) (hshort : q.length < q.minLen) :
    q.pushDelay = .ok { q with nodes := q.nodes ++ [none], length := q.length + 1 } := by
  have hover : ¬ q.Overwrites := fun h => absurd h.2 (Nat.not_le.mpr hshort)
  have hback : q.nElement + 1 - 1 = q.nElement := BitVec.add_sub_cancel ..
  rw [pushDelay, push_eq hroom, if_neg hover]
  show Except.ok _ = _
  rw [hback]

theorem fifoPush_append {nodes : List (Option α)} {minLen maxLen : ℕ}
    (hroom : nodes.length < maxLen) (hshort : nodes.length < minLen) :
    FifoPipeline.push ⟨nodes, minLen, maxLen⟩ none = .ok ⟨nodes ++ [none], minLen, maxLen⟩ := by
  have hover : ¬ (endsInDelay nodes = true ∧ minLen ≤ nodes.length) := fun h =>
    absurd h.2 (Nat.not_le.mpr hshort)
  rw [FifoPipeline.push, if_neg (Nat.not_le.mpr hroom), if_neg hover]

/-! ## One pop -/

theorem pop_nil (h : q.nodes = []) : q.pop = .ok (none, q) := by
  rw [pop, h]

theorem Ok.pop_cons (h : q.Ok) {rest : List (Option α)} (hnodes : q.nodes = data :: rest) :
    q.pop = .ok (data,
      if q.minLen ≠ 0 ∧ q.length - 1 < q.minLen then
        { q with nodes := rest ++ [none], nElement := q.nElement - 1 }
      else q.dropHead rest) := by
  have hlength : q.length = rest.length + 1 := by
    rw [h.length, hnodes]
    rfl
  have hmax := h.maxLen
  have hcheck : ¬ ((q.dropHead rest).length = 0 ∧ rest.isEmpty = false) := by
    rintro ⟨hzero, hne⟩
    have hone : q.length - 1 = 0 := hzero
    have hnil : rest = [] := List.length_eq_zero_iff.mp (by omega)
    rw [hnil] at hne
    cases hne
  simp only [pop, hnodes]
  rw [if_neg hcheck]
  by_cases hshort : q.minLen ≠ 0 ∧ q.length - 1 < q.minLen
  · have hback : q.length - 1 + 1 = q.length := by omega
    have hcond : (q.dropHead rest).minLen ≠ 0 ∧
        (q.dropHead rest).length < (q.dropHead rest).minLen :=
      hshort
    have hroom : (q.dropHead rest).length < (q.dropHead rest).maxLen := by
      show q.length - 1 < q.maxLen
      omega
    rw [if_pos hcond, pushDelay_eq hroom hshort.2, if_pos hshort]
    show Except.ok (data, ({ q with
      nodes := rest ++ [none], length := q.length - 1 + 1, nElement := q.nElement - 1 } :
        CountedPipeline α)) = _
    rw [hback]
  · have hcond : ¬ ((q.dropHead rest).minLen ≠ 0 ∧
        (q.dropHead rest).length < (q.dropHead rest).minLen) := hshort
    rw [if_neg hcond, if_neg hshort]

theorem Ok.pop (h : q.Ok) :
    ∃ data q', q.pop = .ok (data, q') ∧ q'.Ok ∧ q'.minLen = q.minLen ∧ q'.maxLen = q.maxLen ∧
      q.toFifo.pop = .ok (data, q'.toFifo) ∧
      q'.nElement = if q.nodes = [] then q.nElement else q.nElement - 1 := by
  have hlength := h.length
  have hmin := h.minLen
  have hmax := h.maxLen
  cases hnodes : q.nodes with
  | nil =>
      refine ⟨none, q, pop_nil hnodes, h, rfl, rfl, ?_, (if_pos rfl).symm⟩
      simp only [FifoPipeline.pop, toFifo, hnodes]
  | cons data rest =>
      rw [hnodes, List.length_cons] at hlength
      refine ⟨data, _, h.pop_cons hnodes, ?_⟩
      by_cases hshort : q.minLen ≠ 0 ∧ q.length - 1 < q.minLen
      · rw [if_pos hshort]
        have happend : (rest ++ [none]).length = rest.length + 1 := List.length_append
        refine ⟨⟨hlength.trans happend.symm, hmin, hmax⟩, rfl, rfl, ?_,
          (if_neg (List.cons_ne_nil _ _)).symm⟩
        have hcond : q.minLen ≠ 0 ∧ rest.length < q.minLen := ⟨hshort.1, by omega⟩
        have hpush : FifoPipeline.push ⟨rest, q.minLen, q.maxLen⟩ none =
            .ok ⟨rest ++ [none], q.minLen, q.maxLen⟩ :=
          fifoPush_append (by omega) hcond.2
        simp only [FifoPipeline.pop, toFifo, hnodes]
        rw [if_pos hcond, hpush]
        rfl
      · rw [if_neg hshort]
        have hrest : (q.dropHead rest).length = rest.length := by
          show q.length - 1 = rest.length
          omega
        refine ⟨⟨hrest, ?_, ?_⟩, rfl, rfl, ?_, (if_neg (List.cons_ne_nil _ _)).symm⟩
        · show q.minLen ≤ q.length - 1
          by_cases hzero : q.minLen = 0
          · omega
          · exact Nat.not_lt.mp fun hlt => hshort ⟨hzero, hlt⟩
        · show q.length - 1 ≤ q.maxLen
          omega
        · have hcond : ¬ (q.minLen ≠ 0 ∧ rest.length < q.minLen) := fun hc =>
            hshort ⟨hc.1, by omega⟩
          simp only [FifoPipeline.pop, toFifo, hnodes]
          rw [if_neg hcond]
          rfl

/-! ## Another minimum length -/

theorem grow_ok (hlength : q.length = q.nodes.length) (hmax : q.length ≤ q.maxLen)
    (hmin : q.minLen ≤ q.maxLen) {rounds : ℕ} (hrounds : q.minLen ≤ q.length + rounds) :
    ∃ q', q.grow rounds = .ok q' ∧ q'.Ok ∧ q'.minLen = q.minLen ∧ q'.maxLen = q.maxLen ∧
      q.toFifo.refill rounds = .ok q'.toFifo ∧ q'.nElement = q.nElement := by
  induction rounds generalizing q with
  | zero => exact ⟨q, rfl, ⟨hlength, hrounds, hmax⟩, rfl, rfl, rfl, rfl⟩
  | succ rounds ih =>
      rw [grow, FifoPipeline.refill]
      by_cases hshort : q.length < q.minLen
      · have hroom : q.length < q.maxLen := by omega
        have hnodes : (q.nodes ++ [none]).length = q.nodes.length + 1 := List.length_append
        obtain ⟨q', hgrow, hok, hminLen, hmaxLen, hrefill, hcount⟩ :=
          ih (q := { q with nodes := q.nodes ++ [none], length := q.length + 1 })
            (show q.length + 1 = (q.nodes ++ [none]).length by omega)
            (show q.length + 1 ≤ q.maxLen from hroom) hmin
            (show q.minLen ≤ q.length + 1 + rounds by omega)
        refine ⟨q', ?_, hok, hminLen, hmaxLen, ?_, hcount⟩
        · rw [if_pos hshort, pushDelay_eq hroom hshort]
          exact hgrow
        · have hshortFifo : q.toFifo.entries.length < q.toFifo.minLen := by
            show q.nodes.length < q.minLen
            omega
          have hpush : q.toFifo.push none = .ok ⟨q.nodes ++ [none], q.minLen, q.maxLen⟩ :=
            fifoPush_append (by omega) hshortFifo
          rw [if_pos hshortFifo, hpush]
          exact hrefill
      · have hlong : ¬ q.toFifo.entries.length < q.toFifo.minLen := by
          show ¬ q.nodes.length < q.minLen
          omega
        refine ⟨q, if_neg hshort, ⟨hlength, Nat.not_lt.mp hshort, hmax⟩, rfl, rfl, if_neg hlong,
          rfl⟩

theorem Ok.trim (h : q.Ok) {rounds : ℕ} (hrounds : q.length ≤ rounds) :
    ∃ q', q.trim rounds = .ok q' ∧ q'.Ok ∧ q'.minLen = q.minLen ∧ q'.maxLen = q.maxLen ∧
      q'.nodes = (trimReversed q.minLen q.nodes.reverse).reverse ∧
      q'.nElement = if q.nodes ≠ [] ∧ q.minLen = 0 ∧ q.contents = [] then q.nElement - 1
        else q.nElement := by
  induction rounds generalizing q with
  | zero =>
      have hlength := h.length
      have hnil : q.nodes = [] := List.length_eq_zero_iff.mp (by omega)
      refine ⟨q, rfl, h, rfl, rfl, ?_, (if_neg fun hc => hc.1 hnil).symm⟩
      rw [hnil]
      rfl
  | succ rounds ih =>
      have hlength := h.length
      have hmin := h.minLen
      have hmax := h.maxLen
      rw [CountedPipeline.trim]
      by_cases hcond : q.minLen < q.length ∧ endsInDelay q.nodes = true
      · obtain ⟨front, hfront⟩ :=
          List.getLast?_eq_some_iff.mp (FifoPipeline.getLast?_of_endsInDelay hcond.2)
        have hfrontLength : q.length = front.length + 1 := by
          rw [hlength, hfront]
          exact List.length_append
        have htrim : trimReversed q.minLen q.nodes.reverse =
            trimReversed q.minLen front.reverse := by
          have hlong : q.minLen ≤ front.reverse.length := by
            rw [List.length_reverse]
            omega
          rw [hfront, List.reverse_append]
          exact if_pos hlong
        have hcontents : q.contents = front.reduceOption := by
          show q.nodes.reduceOption = _
          rw [hfront, FifoPipeline.reduceOption_append_none]
        rw [if_pos hcond]
        by_cases hsingle : q.nodes.length = 1
        · have hnil : front = [] := List.length_eq_zero_iff.mp (by omega)
          have hnodes : q.nodes = [none] := by rw [hfront, hnil]; rfl
          have hzero : q.minLen = 0 := by omega
          obtain ⟨q', hrun, hok, hminLen, hmaxLen, hnodes', hcount⟩ :=
            ih (q := q.dropHead []) ⟨show q.length - 1 = 0 by omega,
              show q.minLen ≤ q.length - 1 by omega, show q.length - 1 ≤ q.maxLen by omega⟩
              (show q.length - 1 ≤ rounds by omega)
          refine ⟨q', ?_, hok, hminLen, hmaxLen, ?_, ?_⟩
          · have hshort : ¬ (q.minLen ≠ 0 ∧ q.length - 1 < q.minLen) := fun hc => hc.1 hzero
            rw [if_pos hsingle, h.pop_cons hnodes, if_neg hshort]
            exact hrun
          · rw [hnodes', htrim, hnil]
            rfl
          · have hempty : q.contents = [] := by rw [hcontents, hnil]; rfl
            rw [hcount, if_neg fun hc => hc.1 rfl,
              if_pos ⟨by rw [hnodes]; exact List.cons_ne_nil _ _, hzero, hempty⟩]
            rfl
        · have hdrop : q.nodes.dropLast = front := by rw [hfront, List.dropLast_concat]
          obtain ⟨q', hrun, hok, hminLen, hmaxLen, hnodes', hcount⟩ :=
            ih (q := { q with nodes := front, length := q.length - 1 })
              ⟨show q.length - 1 = front.length by omega,
                show q.minLen ≤ q.length - 1 by omega, show q.length - 1 ≤ q.maxLen by omega⟩
              (show q.length - 1 ≤ rounds by omega)
          refine ⟨q', ?_, hok, hminLen, hmaxLen, ?_, ?_⟩
          · rw [if_neg hsingle, hdrop]
            exact hrun
          · rw [hnodes', htrim]
          · have hne : front ≠ [] := fun hnil => by
              rw [hnil] at hfrontLength
              rw [hlength] at hfrontLength
              exact hsingle hfrontLength
            have hneAll : q.nodes ≠ [] := fun hnil => by
              rw [hnil] at hfront
              exact absurd hfront.symm (by simp)
            rw [hcount, hcontents]
            exact if_congr (and_congr_left fun _ => iff_of_true hne hneAll) rfl rfl
      · have hstay : trimReversed q.minLen q.nodes.reverse = q.nodes.reverse := by
          cases hlast : q.nodes.reverse with
          | nil => rfl
          | cons last rest =>
              cases last with
              | some data => rfl
              | none =>
                  have hnodes : q.nodes = rest.reverse ++ [none] := by
                    rw [← List.reverse_reverse q.nodes, hlast, List.reverse_cons]
                  have hdelay : endsInDelay q.nodes = true := by
                    rw [hnodes, endsInDelay, List.getLast?_concat]
                  have hrest : q.length = rest.length + 1 := by
                    rw [hlength, hnodes, List.length_append, List.length_reverse]
                    rfl
                  have hshort : ¬ q.minLen ≤ rest.length := fun hle =>
                    hcond ⟨by omega, hdelay⟩
                  exact if_neg hshort
        refine ⟨q, if_neg hcond, h, rfl, rfl, ?_, (if_neg ?_).symm⟩
        · rw [hstay, List.reverse_reverse]
        · rintro ⟨hne, hzero, hempty⟩
          have hpos := List.length_pos_iff.mpr hne
          -- Without elements the last node is a delay.
          have hdelay : endsInDelay q.nodes = true := by
            obtain ⟨last, hlast⟩ : ∃ last, q.nodes.getLast? = some last :=
              ⟨_, List.getLast?_eq_some_getLast hne⟩
            cases last with
            | none => rw [endsInDelay, hlast]
            | some data =>
                obtain ⟨front, hfront⟩ := List.getLast?_eq_some_iff.mp hlast
                have hdata : q.contents = front.reduceOption ++ [data] := by
                  show q.nodes.reduceOption = _
                  rw [hfront, FifoPipeline.reduceOption_append_some]
                rw [hdata] at hempty
                exact absurd hempty (by simp)
          exact hcond ⟨by omega, hdelay⟩

theorem Ok.setMinLength (h : q.Ok) {newMinLen : ℕ} (hnew : newMinLen ≤ q.maxLen) :
    ∃ q', q.setMinLength newMinLen = .ok q' ∧ q'.Ok ∧ q'.maxLen = q.maxLen ∧
      q'.contents = q.contents ∧
      q'.nElement = if newMinLen < q.minLen ∧ newMinLen = 0 ∧ q.contents = [] then q.nElement - 1
        else q.nElement := by
  have hlength := h.length
  have hmin := h.minLen
  rw [CountedPipeline.setMinLength]
  by_cases hsame : newMinLen = q.minLen
  · refine ⟨q, if_pos hsame, h, rfl, rfl, (if_neg fun hc => ?_).symm⟩
    have hlt := hc.1
    omega
  rw [if_neg hsame]
  by_cases hmore : q.minLen < newMinLen
  · obtain ⟨q', hrun, hok, -, hmaxLen, hrefill, hcount⟩ :=
      grow_ok (q := { q with minLen := newMinLen }) hlength h.maxLen hnew
        (Nat.le_add_left newMinLen _)
    have hcontents := FifoPipeline.contents_refill hrefill
    refine ⟨q', (if_pos hmore).trans hrun, hok, hmaxLen, hcontents, ?_⟩
    rw [if_neg fun hc => Nat.lt_asymm hc.1 hmore]
    exact hcount
  · have hless : newMinLen < q.minLen := by omega
    have hne : q.nodes ≠ [] := fun hnil => by
      rw [hnil] at hlength
      have hzero : q.length = 0 := hlength
      omega
    have hhead : ¬ q.nodes.isEmpty = true := fun hnil => hne (List.isEmpty_iff.mp hnil)
    have hok : ({ q with minLen := newMinLen } : CountedPipeline α).Ok :=
      ⟨hlength, show newMinLen ≤ q.length by omega, h.maxLen⟩
    obtain ⟨q', hrun, hok', -, hmaxLen, hnodes, hcount⟩ := hok.trim (le_refl q.length)
    refine ⟨q', ?_, hok', hmaxLen, ?_, ?_⟩
    · rw [if_neg hmore, if_neg hhead]
      exact hrun
    · show q'.nodes.reduceOption = q.nodes.reduceOption
      rw [hnodes, FifoPipeline.reduceOption_reverse, FifoPipeline.reduceOption_trimReversed,
        FifoPipeline.reduceOption_reverse, List.reverse_reverse]
    · rw [hcount]
      exact if_congr (and_congr_left fun _ => iff_of_true hne hless) rfl rfl

/-! ## The constructor -/

theorem fill_ok (hlength : q.length = q.nodes.length) {rounds : ℕ}
    (hdelays : ∀ node ∈ q.nodes, node = none) (hmin : q.minLen = q.length + rounds)
    (hmax : q.minLen ≤ q.maxLen) (hcount : q.nElement = BitVec.ofNat 32 q.length) :
    ∃ q', q.fill rounds = .ok q' ∧ q'.Ok ∧ q'.minLen = q.minLen ∧ q'.maxLen = q.maxLen ∧
      q'.contents = [] ∧ q'.nElement = BitVec.ofNat 32 q.minLen := by
  induction rounds generalizing q with
  | zero =>
      refine ⟨q, rfl, ⟨hlength, by omega, by omega⟩, rfl, rfl, ?_, ?_⟩
      · exact List.filterMap_eq_nil_iff.mpr hdelays
      · rw [hcount, hmin, Nat.add_zero]
  | succ rounds ih =>
      have hover : ¬ q.Overwrites := fun h => by
        have hle := h.2
        omega
      have hroom : q.length < q.maxLen := by omega
      have happend : (q.nodes ++ [none]).length = q.nodes.length + 1 := List.length_append
      obtain ⟨q', hrun, hok, hminLen, hmaxLen, hempty, hcount'⟩ :=
        ih (q := { q with
            nodes := q.nodes ++ [none], length := q.length + 1, nElement := q.nElement + 1 })
          (show q.length + 1 = (q.nodes ++ [none]).length by omega)
          (fun node hnode => by
            cases List.mem_append.mp hnode with
            | inl hold => exact hdelays node hold
            | inr hnew => exact List.mem_singleton.mp hnew)
          (show q.minLen = q.length + 1 + rounds by omega) hmax
          (show q.nElement + 1 = BitVec.ofNat 32 (q.length + 1) by
            rw [hcount]
            exact (BitVec.ofNat_add ..).symm)
      refine ⟨q', ?_, hok, hminLen, hmaxLen, hempty, hcount'⟩
      rw [fill, push_eq hroom, if_neg hover]
      exact hrun

theorem new_ok {minLen maxLen : ℕ} (hpos : 0 < maxLen) (hmin : minLen ≤ maxLen) :
    ∃ q : CountedPipeline α, new minLen maxLen = .ok q ∧ q.Ok ∧ q.minLen = minLen ∧
      q.maxLen = maxLen ∧ q.contents = [] ∧ q.nElement = BitVec.ofNat 32 minLen := by
  obtain ⟨q, hrun, hok, hrest⟩ := @fill_ok α ⟨[], minLen, maxLen, 0, 0⟩ rfl
    _ (fun node h => absurd h List.not_mem_nil) (Nat.zero_add minLen).symm hmin rfl
  exact ⟨q, (if_neg hpos.ne').trans hrun, hok, hrest⟩

end CountedPipeline

end GpuCalorie.Dram
