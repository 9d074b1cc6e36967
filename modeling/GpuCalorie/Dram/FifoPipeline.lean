/-
# The delay queue

`fifo_pipeline` is a FIFO queue that also delays: it is kept at a minimum length with
empty entries, so that an element pushed into an idle pipeline comes out after as many
pops. A push at or above the minimum length overwrites an empty last entry.

The data in the pipeline, without the empty entries, behaves as a plain FIFO queue:
every operation is described by what it does to that list.
-/

import Mathlib.Tactic.Common
import Mathlib.Data.List.ReduceOption

namespace GpuCalorie.Dram

universe u

/-- The assertions of `fifo_pipeline`. -/
inductive PipelineFailure
  /-- `m_length < m_max_len` -/
  | full
  /-- `m_head` in `set_min_length` -/
  | empty
  deriving DecidableEq, Repr

/-- `fifo_pipeline`, its head first. An entry without data is a delay. -/
structure FifoPipeline (α : Type u) where
  entries : List (Option α)
  minLen : ℕ
  maxLen : ℕ
  deriving DecidableEq

namespace FifoPipeline

variable {α : Type u}

/-- The last entry is a delay. -/
def endsInDelay (entries : List (Option α)) : Bool :=
  match entries.getLast? with
  | some none => true
  | _ => false

/-- `push`: a new entry, or the last one if it is a delay that is not needed. -/
def push (q : FifoPipeline α) (data : Option α) : Except PipelineFailure (FifoPipeline α) :=
  if q.maxLen ≤ q.entries.length then .error .full
  else .ok { q with
    entries :=
      if endsInDelay q.entries ∧ q.minLen ≤ q.entries.length
      then q.entries.dropLast ++ [data] else q.entries ++ [data] }

/-- Push delays until the pipeline has its minimum length. -/
def refill (q : FifoPipeline α) : ℕ → Except PipelineFailure (FifoPipeline α)
  | 0 => .ok q
  | rounds + 1 =>
      if q.entries.length < q.minLen then do refill (← q.push none) rounds else .ok q

/-- The constructor. -/
def new (minLen maxLen : ℕ) : Except PipelineFailure (FifoPipeline α) :=
  refill ⟨[], minLen, maxLen⟩ minLen

/-- `pop`. -/
def pop (q : FifoPipeline α) : Except PipelineFailure (Option α × FifoPipeline α) :=
  match q.entries with
  | [] => .ok (none, q)
  | data :: rest => do
      let q := { q with entries := rest }
      let q ← if q.minLen ≠ 0 ∧ rest.length < q.minLen then q.push none else pure q
      pure (data, q)

/-- `top`. -/
def top (q : FifoPipeline α) : Option α :=
  q.entries.head?.join

/-- Drop delays at the end down to a length. The list has its last entry first. -/
def trimReversed (minLen : ℕ) : List (Option α) → List (Option α)
  | none :: rest => if minLen ≤ rest.length then trimReversed minLen rest else none :: rest
  | entries => entries

/-- `set_min_length`. -/
def setMinLength (q : FifoPipeline α) (newMinLen : ℕ) :
    Except PipelineFailure (FifoPipeline α) :=
  if newMinLen = q.minLen then .ok q
  else if q.minLen < newMinLen then refill { q with minLen := newMinLen } newMinLen
  else if q.entries = [] then .error .empty
  else .ok { q with
    minLen := newMinLen
    entries := (trimReversed newMinLen q.entries.reverse).reverse }

/-- `full`: a maximum length of zero would be no bound. -/
def full (q : FifoPipeline α) : Bool :=
  decide (q.maxLen ≠ 0 ∧ q.maxLen ≤ q.entries.length)

/-- `empty`. -/
def isEmpty (q : FifoPipeline α) : Bool :=
  q.entries.isEmpty

/-! ## The data in the pipeline -/

/-- The data, oldest first. -/
def contents (q : FifoPipeline α) : List α :=
  q.entries.reduceOption

/-- A pipeline without a minimum length has no delays when none is pushed. -/
def NoDelays (q : FifoPipeline α) : Prop :=
  q.minLen = 0 ∧ none ∉ q.entries

variable {q q' : FifoPipeline α} {data : Option α}

theorem reduceOption_append_none (entries : List (Option α)) :
    (entries ++ [none]).reduceOption = entries.reduceOption := by
  simp [List.reduceOption_append, List.reduceOption_cons_of_none]

theorem reduceOption_append_some (entries : List (Option α)) (data : α) :
    (entries ++ [some data]).reduceOption = entries.reduceOption ++ [data] := by
  simp [List.reduceOption_append, List.reduceOption_cons_of_some]

theorem getLast?_of_endsInDelay {entries : List (Option α)} (h : endsInDelay entries = true) :
    entries.getLast? = some none := by
  unfold endsInDelay at h
  split at h
  · assumption
  · exact absurd h Bool.false_ne_true

theorem reduceOption_dropLast {entries : List (Option α)} (h : endsInDelay entries = true) :
    entries.dropLast.reduceOption = entries.reduceOption := by
  obtain ⟨front, hfront⟩ := List.getLast?_eq_some_iff.mp (getLast?_of_endsInDelay h)
  rw [hfront, List.dropLast_concat, reduceOption_append_none]

theorem contents_push (h : q.push data = .ok q') : q'.contents = q.contents ++ data.toList := by
  unfold push at h
  split_ifs at h with hfull hlast
  · cases h
    cases data with
    | none =>
        rw [contents, reduceOption_append_none, reduceOption_dropLast hlast.1]
        exact (List.append_nil _).symm
    | some data =>
        rw [contents, reduceOption_append_some, reduceOption_dropLast hlast.1]
        rfl
  · cases h
    cases data with
    | none =>
        rw [contents, reduceOption_append_none]
        exact (List.append_nil _).symm
    | some data =>
        rw [contents, reduceOption_append_some]
        rfl

theorem limits_push (h : q.push data = .ok q') : q'.minLen = q.minLen ∧ q'.maxLen = q.maxLen := by
  unfold push at h
  split_ifs at h with hfull <;> cases h <;> exact ⟨rfl, rfl⟩

theorem contents_refill {rounds : ℕ} (h : q.refill rounds = .ok q') :
    q'.contents = q.contents := by
  induction rounds generalizing q with
  | zero =>
      cases h
      rfl
  | succ rounds ih =>
      rw [refill] at h
      split_ifs at h with hshort
      · cases hpush : q.push none with
        | error e => simp [hpush, bind, Except.bind] at h
        | ok next =>
            rw [hpush] at h
            rw [ih h, contents_push hpush]
            exact List.append_nil _
      · cases h
        rfl

theorem contents_pop (h : q.pop = .ok (data, q')) : q.contents = data.toList ++ q'.contents := by
  unfold pop at h
  cases hentries : q.entries with
  | nil =>
      rw [hentries] at h
      cases h
      rfl
  | cons head rest =>
      simp only [hentries] at h
      have hrest : ∀ next : FifoPipeline α, next.contents = rest.reduceOption →
          q.contents = head.toList ++ next.contents := by
        intro next hnext
        rw [hnext, contents, hentries]
        cases head <;> rfl
      split_ifs at h with hshort
      · cases hpush : FifoPipeline.push { q with entries := rest } none with
        | error e => simp [hpush, bind, Except.bind] at h
        | ok next =>
            rw [hpush] at h
            cases h
            apply hrest
            rw [contents_push hpush]
            exact List.append_nil _
      · cases h
        exact hrest _ rfl

theorem reduceOption_trimReversed (minLen : ℕ) (entries : List (Option α)) :
    (trimReversed minLen entries).reduceOption = entries.reduceOption := by
  induction entries with
  | nil => rfl
  | cons head rest ih =>
      cases head with
      | some data => rfl
      | none =>
          rw [trimReversed]
          split_ifs with hlong
          · rw [ih]
            rfl
          · rfl

theorem reduceOption_reverse (entries : List (Option α)) :
    entries.reverse.reduceOption = entries.reduceOption.reverse := by
  simp [List.reduceOption]

theorem contents_setMinLength {newMinLen : ℕ} (h : q.setMinLength newMinLen = .ok q') :
    q'.contents = q.contents := by
  unfold setMinLength at h
  split_ifs at h with hsame hmore hempty
  · cases h
    rfl
  · have hrefill := contents_refill h
    exact hrefill
  · cases h
    rw [contents, contents, reduceOption_reverse, reduceOption_trimReversed,
      reduceOption_reverse, List.reverse_reverse]

theorem NoDelays.top_eq (h : q.NoDelays) : q.top = q.contents.head? := by
  rw [top, contents]
  cases hentries : q.entries with
  | nil => rfl
  | cons head rest =>
      cases head with
      | none => exact absurd (by simp [hentries]) h.2
      | some data => rfl

theorem NoDelays.push {data : α} (h : q.NoDelays) (hpush : q.push (some data) = .ok q') :
    q'.NoDelays := by
  refine ⟨(limits_push hpush).1.trans h.1, ?_⟩
  unfold FifoPipeline.push at hpush
  split_ifs at hpush with hfull hlast
  · exact absurd (List.mem_of_getLast? (getLast?_of_endsInDelay hlast.1)) h.2
  · cases hpush
    simp [h.2]

theorem NoDelays.pop (h : q.NoDelays) (hpop : q.pop = .ok (data, q')) : q'.NoDelays := by
  unfold FifoPipeline.pop at hpop
  cases hentries : q.entries with
  | nil =>
      rw [hentries] at hpop
      cases hpop
      exact h
  | cons head rest =>
      have hmin : ¬ (q.minLen ≠ 0 ∧ rest.length < q.minLen) := fun hshort => hshort.1 h.1
      simp only [hentries, if_neg hmin] at hpop
      cases hpop
      refine ⟨h.1, fun hmem => h.2 ?_⟩
      rw [hentries]
      exact List.mem_cons_of_mem _ hmem

end FifoPipeline

end GpuCalorie.Dram
