/-
# The map from CTAs to their streams

A kernel keeps the streams its CTAs make in a search tree over the coordinates of the CTAs. The
comparison of two coordinates holds as soon as one component is smaller, so that of two CTAs each
can be before the other. `KeepsApart` says what the map is for.

A node of the tree is a number, which stands for the reference the map returns. How the tree is
balanced after an insertion is a parameter. A stream is the number of the streams made before it.
-/

import GpuCalorie.CtaDispatch.Enumeration
import GpuCalorie.Math.SearchTree
import Mathlib.Logic.Function.Basic

namespace GpuCalorie.Streams

open CtaDispatch Math

/-- `dim3comp`. -/
def dim3comp (a b : UDim3) : Bool :=
  if a.z < b.z then true
  else if a.y < b.y then true
  else if a.x < b.x then true
  else false

/-- The assertions of the functions of a kernel on the streams of its CTAs. -/
inductive CtaStreamError where
  | noDefaultStream
  | noStreams
  deriving DecidableEq

/-- `m_cta_streams`, with the streams made and those destroyed by the stream manager. -/
structure CtaStreamMap where
  tree : SearchTree UDim3 ℕ := .leaf
  lists : ℕ → List ℕ := fun _ => []
  nextNode : ℕ := 0
  nextStream : ℕ := 0
  destroyed : List ℕ := []

namespace CtaStreamMap

variable (rebalance : SearchTree UDim3 ℕ → SearchTree UDim3 ℕ)

/-- `m_cta_streams.find(ctaid)`. -/
def find (s : CtaStreamMap) (ctaid : UDim3) : Option ℕ := s.tree.find dim3comp ctaid

/-- A new key, with an empty list. -/
def addKey (s : CtaStreamMap) (ctaid : UDim3) : CtaStreamMap :=
  { s with
    tree := rebalance (s.tree.insert dim3comp ctaid s.nextNode)
    lists := Function.update s.lists s.nextNode []
    nextNode := s.nextNode + 1 }

/-- `m_cta_streams[ctaid]`: the list of a key, which is added when it is not found. -/
def index (s : CtaStreamMap) (ctaid : UDim3) : ℕ × CtaStreamMap :=
  match s.find ctaid with
  | some list => (list, s)
  | none => (s.nextNode, s.addKey rebalance ctaid)

/-- A new stream, added to the stream manager. -/
def newStream (s : CtaStreamMap) : ℕ × CtaStreamMap :=
  (s.nextStream, { s with nextStream := s.nextStream + 1 })

/-- `push_back` on a list of the map. -/
def pushBack (s : CtaStreamMap) (list stream : ℕ) : CtaStreamMap :=
  { s with lists := Function.update s.lists list (s.lists list ++ [stream]) }

/-- `get_default_stream_cta`. -/
def getDefaultStreamCta (s : CtaStreamMap) (ctaid : UDim3) :
    Except CtaStreamError (ℕ × CtaStreamMap) :=
  if (s.find ctaid).isSome then
    let (list, s) := s.index rebalance ctaid
    if (s.lists list).length < 1 then
      .error .noDefaultStream
    else
      let (list, s) := s.index rebalance ctaid
      match s.lists list with
      | stream :: _ => .ok (stream, s)
      | [] => .error .noDefaultStream
  else
    let (list, s) := s.index rebalance ctaid
    let s := { s with lists := Function.update s.lists list [] }
    let (stream, s) := s.newStream
    let (list, s) := s.index rebalance ctaid
    .ok (stream, s.pushBack list stream)

/-- `create_stream_cta`. -/
def createStreamCta (s : CtaStreamMap) (ctaid : UDim3) :
    Except CtaStreamError (ℕ × CtaStreamMap) := do
  let (_, s) ← s.getDefaultStreamCta rebalance ctaid
  let (stream, s) := s.newStream
  if (s.find ctaid).isNone then
    .error .noStreams
  else
    let (list, s) := s.index rebalance ctaid
    if (s.lists list).length < 1 then
      .error .noDefaultStream
    else
      let (list, s) := s.index rebalance ctaid
      .ok (stream, s.pushBack list stream)

/-- `cta_has_stream`. -/
def ctaHasStream (s : CtaStreamMap) (ctaid : UDim3) (stream : ℕ) : Bool × CtaStreamMap :=
  if (s.find ctaid).isNone then
    (false, s)
  else
    let (list, s) := s.index rebalance ctaid
    (decide (stream ∈ s.lists list), s)

/-- The streams of a list are destroyed and the list is cleared. -/
def destroyList (s : CtaStreamMap) (list : ℕ) : CtaStreamMap :=
  { s with
    destroyed := s.destroyed ++ s.lists list
    lists := Function.update s.lists list [] }

/-- `destroy_cta_streams`. -/
def destroyCtaStreams (s : CtaStreamMap) : CtaStreamMap :=
  { (s.tree.entries.foldl (fun s e => s.destroyList e.2) s) with tree := .leaf }

/-- The streams of a CTA. -/
def streamsOf (s : CtaStreamMap) (ctaid : UDim3) : List ℕ :=
  match s.find ctaid with
  | some list => s.lists list
  | none => []

end CtaStreamMap

/-- A call of a function of a kernel on the streams of its CTAs. -/
inductive CtaCall where
  | getDefault (ctaid : UDim3)
  | create (ctaid : UDim3)
  | has (ctaid : UDim3) (stream : ℕ)
  | destroy

namespace CtaCall

/-- The CTA a call is about is one of a set. -/
def On (S : Set UDim3) : CtaCall → Prop
  | getDefault ctaid => ctaid ∈ S
  | create ctaid => ctaid ∈ S
  | has ctaid _ => ctaid ∈ S
  | destroy => True

end CtaCall

/-- What a call returns. -/
inductive CtaAnswer where
  | stream (stream : ℕ)
  | has (found : Bool)
  | done
  deriving DecidableEq

namespace CtaStreamMap

variable (rebalance : SearchTree UDim3 ℕ → SearchTree UDim3 ℕ)

/-- A call and what it returns. -/
def call (s : CtaStreamMap) : CtaCall → Except CtaStreamError (CtaAnswer × CtaStreamMap)
  | .getDefault ctaid => do
      let (stream, s) ← s.getDefaultStreamCta rebalance ctaid
      .ok (.stream stream, s)
  | .create ctaid => do
      let (stream, s) ← s.createStreamCta rebalance ctaid
      .ok (.stream stream, s)
  | .has ctaid stream =>
      let (found, s) := s.ctaHasStream rebalance ctaid stream
      .ok (.has found, s)
  | .destroy => .ok (.done, s.destroyCtaStreams)

/-- Calls one after the other. -/
def run (s : CtaStreamMap) : List CtaCall → Except CtaStreamError (List CtaAnswer × CtaStreamMap)
  | [] => .ok ([], s)
  | c :: calls => do
      let (answer, s) ← s.call rebalance c
      let (answers, s) ← s.run calls
      .ok (answer :: answers, s)

end CtaStreamMap

/-! ## What the map is for -/

/-- A list of streams for every CTA, and the number of the next stream. -/
structure StreamTable where
  of : UDim3 → List ℕ := fun _ => []
  next : ℕ := 0

namespace StreamTable

/-- A new stream of a CTA. -/
def push (m : StreamTable) (ctaid : UDim3) : ℕ × StreamTable :=
  (m.next, ⟨Function.update m.of ctaid (m.of ctaid ++ [m.next]), m.next + 1⟩)

theorem of_push (m : StreamTable) (ctaid : UDim3) :
    (m.push ctaid).2.of = Function.update m.of ctaid (m.of ctaid ++ [m.next]) := rfl

/-- The first stream of a CTA, which is made when it has none. -/
def getDefault (m : StreamTable) (ctaid : UDim3) : ℕ × StreamTable :=
  match m.of ctaid with
  | stream :: _ => (stream, m)
  | [] => m.push ctaid

/-- A call and what it returns. -/
def call (m : StreamTable) : CtaCall → CtaAnswer × StreamTable
  | .getDefault ctaid => (.stream (m.getDefault ctaid).1, (m.getDefault ctaid).2)
  | .create ctaid =>
      (.stream ((m.getDefault ctaid).2.push ctaid).1, ((m.getDefault ctaid).2.push ctaid).2)
  | .has ctaid stream => (.has (decide (stream ∈ m.of ctaid)), m)
  | .destroy => (.done, { m with of := fun _ => [] })

/-- Calls one after the other. -/
def run (m : StreamTable) : List CtaCall → List CtaAnswer × StreamTable
  | [] => ([], m)
  | c :: calls => ((m.call c).1 :: ((m.call c).2.run calls).1, ((m.call c).2.run calls).2)

theorem of_run_destroy (m : StreamTable) (calls : List CtaCall) :
    (m.run (calls ++ [.destroy])).2.of = fun _ => [] := by
  induction calls generalizing m with
  | nil => rfl
  | cons c calls ih => exact ih _

end StreamTable

/-- The map keeps the streams of the CTAs of a set apart: its comparison is a strict weak order
that only equal coordinates do not decide, its calls return what they would return if every CTA
had a list of its own, and in the end every stream is destroyed once. -/
structure KeepsApart (S : Set UDim3) : Prop where
  order : StrictWeakOrderOn dim3comp S
  equality : Separates dim3comp S
  apart : ∀ rebalance : SearchTree UDim3 ℕ → SearchTree UDim3 ℕ,
    (∀ t, (rebalance t).entries = t.entries) → ∀ calls : List CtaCall, (∀ c ∈ calls, c.On S) →
      ∃ s, CtaStreamMap.run rebalance {} calls = .ok ((StreamTable.run {} calls).1, s) ∧
        ∀ ctaid ∈ S, s.streamsOf ctaid = (StreamTable.run {} calls).2.of ctaid
  destroyed : ∀ rebalance : SearchTree UDim3 ℕ → SearchTree UDim3 ℕ,
    (∀ t, (rebalance t).entries = t.entries) → ∀ calls : List CtaCall, (∀ c ∈ calls, c.On S) →
      ∃ answers s, CtaStreamMap.run rebalance {} (calls ++ [.destroy]) = .ok (answers, s) ∧
        s.destroyed.Perm (List.range s.nextStream)

end GpuCalorie.Streams
