/-
# Runs of the delay queue

A pipeline is given pushes when it is not full, pops, and new minimum lengths within its maximum
length. In every such run the elements come out in the order in which they went in, an element
that is pushed into an idle pipeline waits for the minimum length, and the length is right. The
count of elements is right in the runs that avoid the steps it does not follow.
-/

import GpuCalorie.Dram.PipelineCounters

namespace GpuCalorie.Dram

open GpuCalorie.Math TransitionSystem

universe u

/-- What is done to a pipeline. -/
inductive PipelineAction (α : Type u)
  | push (data : Option α)
  | pop
  | setMinLength (newMinLen : ℕ)

/-- A pipeline with the elements that have gone in and come out. -/
structure PipelineRun (α : Type u) where
  pipe : CountedPipeline α
  pushed : List α
  popped : List α

variable {α : Type u}

namespace CountedPipeline

open FifoPipeline (endsInDelay trimReversed)

variable {q q' : CountedPipeline α} {count : ℕ}

/-- The data that the pops of a list of actions return. -/
def outputs : CountedPipeline α → List (PipelineAction α) → Except NodeFailure (List (Option α))
  | _, [] => .ok []
  | q, .push data :: actions => do outputs (← q.push data) actions
  | q, .pop :: actions => do
    let (data, q) ← q.pop
    return data :: (← outputs q actions)
  | q, .setMinLength newMinLen :: actions => do outputs (← q.setMinLength newMinLen) actions

/-- An element pushed into an idle pipeline is returned by none of the pops before the one of the
number of the minimum length. -/
def Delays (q : CountedPipeline α) : Prop :=
  q.contents = [] → ∀ data q', q.push (some data) = .ok q' →
    ∀ actions results, q'.outputs actions = .ok results → results.length < q.minLen →
      ∀ result ∈ results, result = none

/-! ## Waiting elements -/

/-- At least so many delays are before the first element. -/
def Waits (count : ℕ) (nodes : List (Option α)) : Prop :=
  ∃ front data rest, count ≤ front.length ∧ (∀ node ∈ front, node = none) ∧
    nodes = front ++ some data :: rest

theorem Waits.append {nodes : List (Option α)} (h : Waits count nodes)
    (node : Option α) : Waits count (nodes ++ [node]) := by
  obtain ⟨front, data, rest, hcount, hfront, rfl⟩ := h
  exact ⟨front, data, rest ++ [node], hcount, hfront, by simp⟩

theorem Waits.dropLast {nodes : List (Option α)} (h : Waits count nodes)
    (hdelay : endsInDelay nodes = true) : Waits count nodes.dropLast := by
  obtain ⟨front, data, rest, hcount, hfront, rfl⟩ := h
  have hlast := FifoPipeline.getLast?_of_endsInDelay hdelay
  have hne : rest ≠ [] := fun hnil => by
    rw [hnil, List.getLast?_concat] at hlast
    cases hlast
  refine ⟨front, data, rest.dropLast, hcount, hfront, ?_⟩
  rw [List.dropLast_append_of_ne_nil (List.cons_ne_nil _ _), List.dropLast_cons_of_ne_nil hne]

theorem Waits.push {data : Option α} (h : Waits count q.nodes)
    (hpush : q.push data = .ok q') : Waits count q'.nodes := by
  rw [push_eq (room_of_push hpush)] at hpush
  cases hpush
  by_cases hover : q.Overwrites
  · rw [if_pos hover]
    exact (h.dropLast hover.1).append data
  · rw [if_neg hover]
    exact h.append data

theorem Waits.pushDelay (h : Waits count q.nodes) (hpush : q.pushDelay = .ok q') :
    Waits count q'.nodes := by
  rw [CountedPipeline.pushDelay] at hpush
  cases hrun : q.push none with
  | error e =>
      rw [hrun] at hpush
      cases hpush
  | ok next =>
      rw [hrun] at hpush
      cases hpush
      have hnodes := h.push hrun
      exact hnodes

theorem Waits.pop {data : Option α} (h : Waits (count + 1) q.nodes)
    (hpop : q.pop = .ok (data, q')) : data = none ∧ Waits count q'.nodes := by
  obtain ⟨front, first, rest, hcount, hfront, hnodes⟩ := h
  cases front with
  | nil => exact absurd hcount (Nat.not_succ_le_zero _)
  | cons head front =>
      have hhead : head = none := hfront head (List.mem_cons_self ..)
      have hrest : Waits count (q.dropHead (front ++ some first :: rest)).nodes :=
        ⟨front, first, rest, Nat.le_of_succ_le_succ hcount,
          fun node hnode => hfront node (List.mem_cons_of_mem _ hnode), rfl⟩
      rw [List.cons_append] at hnodes
      simp only [CountedPipeline.pop, hnodes] at hpop
      split_ifs at hpop with hcheck hshort
      · cases hdelay : (q.dropHead (front ++ some first :: rest)).pushDelay with
        | error e =>
            rw [hdelay] at hpop
            cases hpop
        | ok next =>
            rw [hdelay] at hpop
            cases hpop
            exact ⟨hhead, hrest.pushDelay hdelay⟩
      · cases hpop
        exact ⟨hhead, hrest⟩

theorem Waits.grow {count rounds : ℕ} (h : Waits count q.nodes) (hgrow : q.grow rounds = .ok q') :
    Waits count q'.nodes := by
  induction rounds generalizing q with
  | zero =>
      cases hgrow
      exact h
  | succ rounds ih =>
      rw [CountedPipeline.grow] at hgrow
      split_ifs at hgrow with hshort
      · cases hdelay : q.pushDelay with
        | error e =>
            rw [hdelay] at hgrow
            cases hgrow
        | ok next =>
            rw [hdelay] at hgrow
            exact ih (h.pushDelay hdelay) hgrow
      · cases hgrow
        exact h

theorem Waits.trim {count rounds : ℕ} (h : Waits count q.nodes) (htrim : q.trim rounds = .ok q') :
    Waits count q'.nodes := by
  induction rounds generalizing q with
  | zero =>
      cases htrim
      exact h
  | succ rounds ih =>
      rw [CountedPipeline.trim] at htrim
      split_ifs at htrim with hcond hsingle
      · -- The only node is a delay, but there is an element.
        obtain ⟨front, data, rest, -, -, hnodes⟩ := h
        have hdelay := FifoPipeline.getLast?_of_endsInDelay hcond.2
        rw [hnodes, List.length_append, List.length_cons] at hsingle
        have hfront : front = [] := List.length_eq_zero_iff.mp (by omega)
        have hrest : rest = [] := List.length_eq_zero_iff.mp (by omega)
        rw [hnodes, hfront, hrest] at hdelay
        cases hdelay
      · exact ih (h.dropLast hcond.2) htrim
      · cases htrim
        exact h

theorem Waits.setMinLength {count newMinLen : ℕ} (h : Waits count q.nodes)
    (hset : q.setMinLength newMinLen = .ok q') : Waits count q'.nodes := by
  rw [CountedPipeline.setMinLength] at hset
  split_ifs at hset
  · cases hset
    exact h
  · exact Waits.grow (q := { q with minLen := newMinLen }) h hset
  · exact Waits.trim (q := { q with minLen := newMinLen }) h hset

theorem Waits.outputs {actions : List (PipelineAction α)} {results : List (Option α)}
    (h : Waits count q.nodes) (hrun : q.outputs actions = .ok results)
    (hfew : results.length ≤ count) : ∀ result ∈ results, result = none := by
  induction actions generalizing q count results with
  | nil =>
      cases hrun
      exact fun result hresult => absurd hresult List.not_mem_nil
  | cons action actions ih =>
      cases action with
      | push data =>
          rw [CountedPipeline.outputs] at hrun
          cases hpush : q.push data with
          | error e =>
              rw [hpush] at hrun
              cases hrun
          | ok next =>
              rw [hpush] at hrun
              exact ih (h.push hpush) hrun hfew
      | pop =>
          rw [CountedPipeline.outputs] at hrun
          cases hpop : q.pop with
          | error e =>
              rw [hpop] at hrun
              cases hrun
          | ok taken =>
              obtain ⟨data, next⟩ := taken
              rw [hpop] at hrun
              cases hrest : next.outputs actions with
              | error e =>
                  simp only [bind, Except.bind, hrest] at hrun
                  cases hrun
              | ok later =>
                  simp only [bind, Except.bind, hrest] at hrun
                  cases hrun
                  cases count with
                  | zero => exact absurd hfew (Nat.not_succ_le_zero _)
                  | succ count =>
                      obtain ⟨hdata, hwaits⟩ := h.pop hpop
                      intro result hresult
                      cases List.mem_cons.mp hresult with
                      | inl heq => exact heq.trans hdata
                      | inr hlater =>
                          exact ih hwaits hrest (Nat.le_of_succ_le_succ hfew) result hlater
      | setMinLength newMinLen =>
          rw [CountedPipeline.outputs] at hrun
          cases hset : q.setMinLength newMinLen with
          | error e =>
              rw [hset] at hrun
              cases hrun
          | ok next =>
              rw [hset] at hrun
              exact ih (h.setMinLength hset) hrun hfew

theorem Ok.delays (h : q.Ok) : q.Delays := by
  intro hempty data q' hpush actions results hrun hfew
  have hnone : ∀ node ∈ q.nodes, node = none := List.filterMap_eq_nil_iff.mp hempty
  have hlength := h.length
  have hmin := h.minLen
  have hwaits : Waits (q.minLen - 1) q'.nodes := by
    rw [push_eq (room_of_push hpush)] at hpush
    cases hpush
    by_cases hover : q.Overwrites
    · rw [if_pos hover]
      refine ⟨q.nodes.dropLast, data, [], ?_, fun node hnode => hnone node
        (List.mem_of_mem_dropLast hnode), rfl⟩
      rw [List.length_dropLast]
      omega
    · rw [if_neg hover]
      exact ⟨q.nodes, data, [], by omega, hnone, rfl⟩
  exact hwaits.outputs hrun (by omega)

end CountedPipeline

/-! ## Runs -/

namespace PipelineRun

/-- A pipeline as the constructor makes it. -/
def Starts (minLen maxLen : ℕ) (s : PipelineRun α) : Prop :=
  CountedPipeline.new minLen maxLen = .ok s.pipe ∧ s.pushed = [] ∧ s.popped = []

/-- A pipeline that is full is not pushed into. -/
def Enabled (s : PipelineRun α) : PipelineAction α → Prop
  | .push _ => s.pipe.full = false
  | .pop => True
  | .setMinLength _ => True

def step (s : PipelineRun α) : PipelineAction α → Except NodeFailure (PipelineRun α)
  | .push data => do
    let pipe ← s.pipe.push data
    return { s with pipe := pipe, pushed := s.pushed ++ data.toList }
  | .pop => do
    let (data, pipe) ← s.pipe.pop
    return { s with pipe := pipe, popped := s.popped ++ data.toList }
  | .setMinLength newMinLen => do
    let pipe ← s.pipe.setMinLength newMinLen
    return { s with pipe := pipe }

/-- A new minimum length is not above the maximum length. -/
def Fits (s : PipelineRun α) : PipelineAction α → Prop
  | .setMinLength newMinLen => newMinLen ≤ s.pipe.maxLen
  | _ => True

/-- The steps the count follows: data are not put in the place of a delay, delays that are pushed
are; no delay is popped; and the last node of all is not taken away by a minimum length of zero. -/
def Followed (s : PipelineRun α) : PipelineAction α → Prop
  | .push (some _) => ¬ s.pipe.Overwrites
  | .push none => s.pipe.Overwrites
  | .pop => s.pipe.nodes.head? ≠ some none
  | .setMinLength newMinLen =>
      ¬ (newMinLen < s.pipe.minLen ∧ newMinLen = 0 ∧ s.pipe.contents = [])

/-- The elements come out in order, none is lost, and they wait; the length is right. -/
structure Sound (s : PipelineRun α) : Prop where
  order : s.pushed = s.popped ++ s.pipe.contents
  delays : s.pipe.Delays
  length : s.pipe.length = s.pipe.nodes.length
  maxLen : s.pipe.length ≤ s.pipe.maxLen

/-- The count of elements is right. -/
def CountExact (s : PipelineRun α) : Prop :=
  s.pipe.nElement.toNat = s.pipe.contents.length

/-- What the steps preserve. -/
structure Ok (maxLen : ℕ) (s : PipelineRun α) : Prop where
  pipe : s.pipe.Ok
  maxLen : s.pipe.maxLen = maxLen
  order : s.pushed = s.popped ++ s.pipe.contents

variable {minLen maxLen : ℕ} {s s' : PipelineRun α}

theorem Ok.sound (h : s.Ok maxLen) : s.Sound :=
  ⟨h.order, h.pipe.delays, h.pipe.length, h.pipe.maxLen⟩

theorem ok_of_starts (hpos : 0 < maxLen) (hmin : minLen ≤ maxLen) (h : s.Starts minLen maxLen) :
    s.Ok maxLen ∧ s.pipe.contents = [] ∧ s.pipe.nElement = BitVec.ofNat 32 minLen := by
  obtain ⟨hnew, hpushed, hpopped⟩ := h
  obtain ⟨q, hq, hok, -, hmax, hempty, hcount⟩ :=
    @CountedPipeline.new_ok α _ _ hpos hmin
  rw [hq] at hnew
  cases hnew
  refine ⟨⟨hok, hmax, ?_⟩, hempty, hcount⟩
  rw [hpushed, hpopped, hempty]
  rfl

/-- The count that a step makes of it. -/
def CountFollows (s s' : PipelineRun α) : Prop :=
  s.pipe.nElement = BitVec.ofNat 32 s.pipe.contents.length →
    s'.pipe.nElement = BitVec.ofNat 32 s'.pipe.contents.length

theorem Ok.step (h : s.Ok maxLen) (hpos : 0 < maxLen) {a : PipelineAction α}
    (henabled : s.Enabled a) (hfits : s.Fits a) :
    ∃ s', s.step a = .ok s' ∧ s'.Ok maxLen ∧ (s.Followed a → s.CountFollows s') := by
  have hmaxLen := h.maxLen
  cases a with
  | push data =>
      have hroom : s.pipe.length < s.pipe.maxLen := by
        have hnot : ¬ (s.pipe.maxLen ≠ 0 ∧ s.pipe.maxLen ≤ s.pipe.length) :=
          of_decide_eq_false henabled
        omega
      have hpush := CountedPipeline.push_eq hroom data
      set pipe := if s.pipe.Overwrites then
          { s.pipe with nodes := s.pipe.nodes.dropLast ++ [data] }
        else { s.pipe with
          nodes := s.pipe.nodes ++ [data], length := s.pipe.length + 1,
          nElement := s.pipe.nElement + 1 } with hpipe
      obtain ⟨hok, -, hmax⟩ := h.pipe.push hpush
      have hcontents : pipe.contents = s.pipe.contents ++ data.toList :=
        FifoPipeline.contents_push (CountedPipeline.push_toFifo h.pipe.length hpush)
      refine ⟨{ s with pipe := pipe, pushed := s.pushed ++ data.toList }, ?_,
        ⟨hok, hmax.trans hmaxLen, ?_⟩, fun hfollowed hcount => ?_⟩
      · rw [PipelineRun.step, hpush]
        rfl
      · show s.pushed ++ data.toList = s.popped ++ pipe.contents
        rw [h.order, hcontents, List.append_assoc]
      · show pipe.nElement = BitVec.ofNat 32 pipe.contents.length
        rw [hcontents]
        cases data with
        | none =>
            have hover : s.pipe.Overwrites := hfollowed
            rw [hpipe, if_pos hover]
            show s.pipe.nElement = BitVec.ofNat 32 (s.pipe.contents ++ []).length
            rw [List.append_nil, hcount]
        | some data =>
            have hover : ¬ s.pipe.Overwrites := hfollowed
            rw [hpipe, if_neg hover]
            show s.pipe.nElement + 1 = BitVec.ofNat 32 (s.pipe.contents ++ [data]).length
            rw [hcount, List.length_append]
            exact (BitVec.ofNat_add ..).symm
  | pop =>
      obtain ⟨data, pipe, hpop, hok, -, hmax, hfifo, hnElement⟩ := h.pipe.pop
      have hcontents : s.pipe.contents = data.toList ++ pipe.contents :=
        FifoPipeline.contents_pop hfifo
      refine ⟨{ s with pipe := pipe, popped := s.popped ++ data.toList }, ?_,
        ⟨hok, hmax.trans hmaxLen, ?_⟩, fun hfollowed hcount => ?_⟩
      · rw [PipelineRun.step, hpop]
        rfl
      · show s.pushed = s.popped ++ data.toList ++ pipe.contents
        rw [h.order, hcontents, List.append_assoc]
      · show pipe.nElement = BitVec.ofNat 32 pipe.contents.length
        have hhead : s.pipe.nodes.head? ≠ some none := hfollowed
        cases hnodes : s.pipe.nodes with
        | nil =>
            rw [CountedPipeline.pop_nil hnodes] at hpop
            cases hpop
            exact hcount
        | cons first rest =>
            rw [h.pipe.pop_cons hnodes] at hpop
            have hfirst : first = data := congrArg Prod.fst (Except.ok.inj hpop)
            subst hfirst
            cases first with
            | none =>
                rw [hnodes] at hhead
                exact absurd rfl hhead
            | some data =>
                rw [hnElement, if_neg (by rw [hnodes]; exact List.cons_ne_nil _ _), hcount,
                  hcontents]
                show BitVec.ofNat 32 (pipe.contents.length + 1) - 1 = _
                rw [BitVec.ofNat_add]
                exact BitVec.add_sub_cancel ..
  | setMinLength newMinLen =>
      obtain ⟨pipe, hset, hok, hmax, hcontents, hnElement⟩ :=
        h.pipe.setMinLength hfits
      refine ⟨{ s with pipe := pipe }, ?_, ⟨hok, hmax.trans hmaxLen, ?_⟩,
        fun hfollowed hcount => ?_⟩
      · rw [PipelineRun.step, hset]
        rfl
      · show s.pushed = s.popped ++ pipe.contents
        rw [hcontents]
        exact h.order
      · show pipe.nElement = BitVec.ofNat 32 pipe.contents.length
        rw [hnElement, if_neg hfollowed, hcontents]
        exact hcount

end PipelineRun

/-- The runs of a pipeline. -/
def pipelineSystem (α : Type u) (minLen maxLen : ℕ) :
    TransitionSystem (Except NodeFailure (PipelineRun α)) (PipelineAction α) :=
  .ofExcept (PipelineRun.Starts minLen maxLen) PipelineRun.Enabled PipelineRun.step

namespace PipelineRun

variable {minLen maxLen : ℕ}

theorem sound_of_reachable (hpos : 0 < maxLen) (hmin : minLen ≤ maxLen)
    {r : Except NodeFailure (PipelineRun α)}
    (reached : ((pipelineSystem α minLen maxLen).restrict (onOk Fits)).Reachable r) :
    ∃ s, r = .ok s ∧ s.Sound := by
  have hok : OkOr (Ok maxLen) (fun _ => False) r := by
    apply reached.invariant_ofExcept fun s hs => (ok_of_starts hpos hmin hs).1
    intro s a h hfits henabled
    obtain ⟨s', hstep, hok, -⟩ := h.step hpos henabled hfits
    rw [hstep]
    exact hok
  cases r with
  | error e => exact hok.elim
  | ok s => exact ⟨s, rfl, Ok.sound hok⟩

theorem Ok.contents_lt {s : PipelineRun α} (h : s.Ok maxLen) (hmax : maxLen < 2 ^ 32) :
    s.pipe.contents.length < 2 ^ 32 := by
  have hnodes : s.pipe.contents.length ≤ s.pipe.nodes.length := List.length_filterMap_le _ _
  have hlength := h.pipe.length
  have hle := h.pipe.maxLen
  have hmaxLen := h.maxLen
  omega

/-- For all limits, in every run in which no new minimum length is above the maximum length, the
elements come out in order and after the minimum length, none is lost, and the length is right;
and in those that start without delays and only take steps that the count follows, the count of
elements is right. -/
theorem fifoPipeline_sound (hpos : 0 < maxLen) (hmin : minLen ≤ maxLen) (hmax : maxLen < 2 ^ 32) :
    (∀ r, ((pipelineSystem α minLen maxLen).restrict (onOk Fits)).Reachable r →
        ∃ s, r = .ok s ∧ s.Sound) ∧
      (minLen = 0 → ∀ r,
        ((pipelineSystem α minLen maxLen).restrict
          (onOk fun s a => s.Fits a ∧ s.Followed a)).Reachable r →
        ∃ s, r = .ok s ∧ s.Sound ∧ s.CountExact) := by
  refine ⟨fun r reached => sound_of_reachable hpos hmin reached, fun hzero r reached => ?_⟩
  have hok : OkOr (fun s : PipelineRun α => s.Ok maxLen ∧
      s.pipe.nElement = BitVec.ofNat 32 s.pipe.contents.length) (fun _ => False) r := by
    apply reached.invariant_ofExcept
    · intro s hs
      obtain ⟨hok, hempty, hcount⟩ := ok_of_starts hpos hmin hs
      refine ⟨hok, ?_⟩
      rw [hcount, hempty, hzero]
      rfl
    · rintro s a ⟨h, hcount⟩ ⟨hfits, hfollowed⟩ henabled
      obtain ⟨s', hstep, hok, hfollows⟩ := h.step hpos henabled hfits
      rw [hstep]
      exact ⟨hok, hfollows hfollowed hcount⟩
  cases r with
  | error e => exact hok.elim
  | ok s =>
      obtain ⟨h, hcount⟩ := hok
      refine ⟨s, rfl, h.sound, ?_⟩
      rw [CountExact, hcount, BitVec.toNat_ofNat, Nat.mod_eq_of_lt (h.contents_lt hmax)]

/-- A queue of two elements. -/
theorem fifoPipeline_sound_two :
    (∀ r, ((pipelineSystem ℕ 0 2).restrict (onOk Fits)).Reachable r → ∃ s, r = .ok s ∧ s.Sound) ∧
      (0 = 0 → ∀ r,
        ((pipelineSystem ℕ 0 2).restrict (onOk fun s a => s.Fits a ∧ s.Followed a)).Reachable r →
        ∃ s, r = .ok s ∧ s.Sound ∧ s.CountExact) :=
  fifoPipeline_sound (by decide) (by decide) (by decide)

/-- A new pipeline with a delay counts one element. -/
theorem not_fifoPipeline_sound_delay :
    ¬ ∀ (minLen maxLen : ℕ), 0 < maxLen → minLen ≤ maxLen →
      ∀ r, (pipelineSystem ℕ minLen maxLen).Reachable r →
        ∃ s, r = .ok s ∧ s.Sound ∧ s.CountExact := by
  intro hall
  have hstart : (pipelineSystem ℕ 1 2).Reachable (.ok ⟨⟨[none], 1, 2, 1, 1⟩, [], []⟩) :=
    .init ⟨_, rfl, rfl, rfl, rfl⟩
  obtain ⟨s, hs, -, hcount⟩ := hall 1 2 (by decide) (by decide) _ hstart
  cases hs
  have hone : 1 = 0 := hcount
  exact absurd hone (by decide)

end PipelineRun

end GpuCalorie.Dram
