/-
# When the streams of CTAs are kept apart

Where any two CTAs are comparable component by component, as they are in a grid of one dimension,
the comparison of the map is a strict weak order, and the map does what a list for every CTA does.
Elsewhere it is not: of two CTAs each of which is before the other the second is never found.
-/

import GpuCalorie.Streams.CtaStreamMap
import Mathlib.Order.Preorder.Chain

namespace GpuCalorie.Streams

open CtaDispatch Math

/-! ## The comparison -/

/-- No component is greater than the other's. -/
def AtMost (a b : UDim3) : Prop := a.x ≤ b.x ∧ a.y ≤ b.y ∧ a.z ≤ b.z

variable {S : Set UDim3} {a b c : UDim3}

theorem not_dim3comp_iff : ¬dim3comp a b ↔ AtMost b a := by
  rw [dim3comp, AtMost]
  split_ifs <;> simp_all

theorem AtMost.trans (hab : AtMost a b) (hbc : AtMost b c) : AtMost a c :=
  ⟨BitVec.le_trans hab.1 hbc.1, BitVec.le_trans hab.2.1 hbc.2.1, BitVec.le_trans hab.2.2 hbc.2.2⟩

theorem AtMost.antisymm (hab : AtMost a b) (hba : AtMost b a) : a = b := by
  ext1
  · exact BitVec.le_antisymm hab.1 hba.1
  · exact BitVec.le_antisymm hab.2.1 hba.2.1
  · exact BitVec.le_antisymm hab.2.2 hba.2.2

theorem separates_dim3comp (S : Set UDim3) : Separates dim3comp S := by
  intro a _ b _
  rw [not_dim3comp_iff, not_dim3comp_iff]
  constructor
  · intro h
    exact h.2.antisymm h.1
  · rintro rfl
    have hself : AtMost a a := ⟨BitVec.le_refl _, BitVec.le_refl _, BitVec.le_refl _⟩
    exact ⟨hself, hself⟩

theorem not_dim3comp_self (a : UDim3) : ¬dim3comp a a :=
  ((separates_dim3comp {a} a rfl a rfl).mpr rfl).1

theorem strictWeakOrderOn_dim3comp_iff : StrictWeakOrderOn dim3comp S ↔ IsChain AtMost S := by
  constructor
  · intro horder a ha b hb _
    by_contra hnot
    obtain ⟨hab, hba⟩ := not_or.mp hnot
    rw [← not_dim3comp_iff, not_not] at hab hba
    exact horder.irrefl a ha (horder.trans a ha b hb a ha hba hab)
  · intro hchain
    have hle : ∀ a ∈ S, ∀ b ∈ S, dim3comp a b → AtMost a b := by
      intro a ha b hb hab
      by_contra hnot
      have hne : a ≠ b := by
        rintro rfl
        exact not_dim3comp_self a hab
      exact not_dim3comp_iff.mpr ((hchain ha hb hne).resolve_left hnot) hab
    refine ⟨fun a _ => not_dim3comp_self a, ?_, ?_⟩
    · intro a ha b hb c hc hab hbc
      by_contra hac
      have hcb : AtMost c b := (not_dim3comp_iff.mp hac).trans (hle a ha b hb hab)
      exact not_dim3comp_iff.mpr hcb hbc
    · intro a ha b hb c hc hab hba hbc hcb
      have heq : a = c := ((separates_dim3comp S a ha b hb).mp ⟨hab, hba⟩).trans
        ((separates_dim3comp S b hb c hc).mp ⟨hbc, hcb⟩)
      rw [heq]
      exact ⟨not_dim3comp_self c, not_dim3comp_self c⟩

/-! ## The map and the table -/

namespace CtaStreamMap

variable {rebalance : SearchTree UDim3 ℕ → SearchTree UDim3 ℕ} {s : CtaStreamMap}
  {of : UDim3 → List ℕ} {ctaid : UDim3} {list stream : ℕ}

/-- The streams in the map, in the order of its keys. -/
def live (s : CtaStreamMap) : List ℕ := s.tree.entries.flatMap fun e => s.lists e.2

/-- The map holds the lists of a table. -/
structure Represents (S : Set UDim3) (of : UDim3 → List ℕ) (s : CtaStreamMap) : Prop where
  sorted : s.tree.Sorted dim3comp
  keys : ∀ e ∈ s.tree.entries, e.1 ∈ S
  nodes : (s.tree.entries.map Prod.snd).Nodup
  bound : ∀ e ∈ s.tree.entries, e.2 < s.nextNode
  list : ∀ e ∈ s.tree.entries, s.lists e.2 = of e.1
  absent : ∀ ctaid, (∀ e ∈ s.tree.entries, e.1 ≠ ctaid) → of ctaid = []

namespace Represents

variable (hrep : Represents S of s) (hchain : IsChain AtMost S) (hcta : ctaid ∈ S)

include hrep hchain hcta

theorem find_eq_some_iff : s.find ctaid = some list ↔ (ctaid, list) ∈ s.tree.entries :=
  SearchTree.find_eq_some_iff (strictWeakOrderOn_dim3comp_iff.mpr hchain) (separates_dim3comp S)
    hrep.sorted hrep.keys hcta

theorem find_eq_none_iff : s.find ctaid = none ↔ ∀ e ∈ s.tree.entries, e.1 ≠ ctaid :=
  SearchTree.find_eq_none_iff (strictWeakOrderOn_dim3comp_iff.mpr hchain) (separates_dim3comp S)
    hrep.sorted hrep.keys hcta

theorem index_of_mem (hmem : (ctaid, list) ∈ s.tree.entries) :
    s.index rebalance ctaid = (list, s) := by
  rw [index, (hrep.find_eq_some_iff hchain hcta).mpr hmem]

theorem streamsOf_eq : s.streamsOf ctaid = of ctaid := by
  rw [streamsOf]
  cases hfind : s.find ctaid with
  | some list => exact hrep.list _ ((hrep.find_eq_some_iff hchain hcta).mp hfind)
  | none => exact (hrep.absent _ ((hrep.find_eq_none_iff hchain hcta).mp hfind)).symm

variable (rebalance) in
theorem index_of_absent (habsent : ∀ e ∈ s.tree.entries, e.1 ≠ ctaid) :
    s.index rebalance ctaid = (s.nextNode, s.addKey rebalance ctaid) := by
  rw [index, (hrep.find_eq_none_iff hchain hcta).mpr habsent]

theorem addKey (hbalance : ∀ t, (rebalance t).entries = t.entries)
    (habsent : ∀ e ∈ s.tree.entries, e.1 ≠ ctaid) : Represents S of (s.addKey rebalance ctaid) := by
  have horder := strictWeakOrderOn_dim3comp_iff.mpr hchain
  have hentries : (s.addKey rebalance ctaid).tree.entries =
      (s.tree.insert dim3comp ctaid s.nextNode).entries := hbalance _
  have hmem : ∀ e ∈ (s.addKey rebalance ctaid).tree.entries,
      e = (ctaid, s.nextNode) ∨ e ∈ s.tree.entries := by
    intro e he
    rw [hentries] at he
    exact SearchTree.mem_entries_insert.mp he
  refine ⟨?_, ?_, ?_, ?_, ?_, ?_⟩
  · rw [SearchTree.Sorted, hentries]
    exact SearchTree.Sorted.insert horder (separates_dim3comp S) hrep.sorted hrep.keys hcta habsent
  · intro e he
    obtain rfl | he := hmem e he
    · exact hcta
    · exact hrep.keys e he
  · obtain ⟨before, after, hold, hnew⟩ :=
      SearchTree.entries_insert dim3comp s.tree ctaid s.nextNode
    have hnodup := hrep.nodes
    have hfresh : s.nextNode ∉ s.tree.entries.map Prod.snd := by
      intro hin
      obtain ⟨e, he, heq⟩ := List.mem_map.mp hin
      exact (hrep.bound e he).ne heq
    rw [hold, List.map_append] at hnodup hfresh
    rw [hentries, hnew, List.map_append, List.map_cons]
    exact List.nodup_middle.mpr (List.nodup_cons.mpr ⟨hfresh, hnodup⟩)
  · intro e he
    obtain rfl | he := hmem e he
    · exact Nat.lt_succ_self _
    · exact (hrep.bound e he).trans (Nat.lt_succ_self _)
  · intro e he
    obtain rfl | he := hmem e he
    · rw [hrep.absent ctaid habsent]
      exact Function.update_self _ _ _
    · rw [← hrep.list e he]
      exact Function.update_of_ne (hrep.bound e he).ne _ _
  · intro other hother
    refine hrep.absent other fun e he => hother e ?_
    rw [hentries]
    exact SearchTree.mem_entries_insert.mpr (Or.inr he)

theorem pushBack (hmem : (ctaid, list) ∈ s.tree.entries) :
    Represents S (Function.update of ctaid (of ctaid ++ [stream])) (s.pushBack list stream) where
  sorted := hrep.sorted
  keys := hrep.keys
  nodes := hrep.nodes
  bound := hrep.bound
  list := by
    intro e he
    by_cases hkey : e.1 = ctaid
    · have hnode : e.2 = list := by
        have hfound : (ctaid, e.2) ∈ s.tree.entries := by rwa [← hkey]
        have hfind := (hrep.find_eq_some_iff hchain hcta).mpr hfound
        rw [(hrep.find_eq_some_iff hchain hcta).mpr hmem] at hfind
        exact (Option.some.inj hfind).symm
      rw [hkey, hnode, Function.update_self, ← hrep.list _ hmem]
      exact Function.update_self _ _ _
    · have hnode : e.2 ≠ list := fun hnode =>
        hkey (congrArg Prod.fst (List.inj_on_of_nodup_map hrep.nodes he hmem hnode))
      rw [Function.update_of_ne hkey, ← hrep.list e he]
      exact Function.update_of_ne hnode _ _
  absent := by
    intro other hother
    rw [Function.update_of_ne (hother _ hmem).symm]
    exact hrep.absent other hother

end Represents

/-! ## No stream is lost -/

theorem flatMap_update_of_ne {entries : List (UDim3 × ℕ)} {lists : ℕ → List ℕ} {xs : List ℕ}
    (hne : ∀ e ∈ entries, e.2 ≠ list) :
    (entries.flatMap fun e => Function.update lists list xs e.2) =
      entries.flatMap fun e => lists e.2 :=
  List.flatMap_congr fun e he => Function.update_of_ne (hne e he) _ _

theorem live_addKey (hbalance : ∀ t, (rebalance t).entries = t.entries)
    (hbound : ∀ e ∈ s.tree.entries, e.2 < s.nextNode) :
    (s.addKey rebalance ctaid).live = s.live := by
  obtain ⟨before, after, hold, hnew⟩ :=
    SearchTree.entries_insert dim3comp s.tree ctaid s.nextNode
  have hentries : (s.addKey rebalance ctaid).tree.entries =
      before ++ (ctaid, s.nextNode) :: after := (hbalance _).trans hnew
  have hne : ∀ e ∈ before ++ after, e.2 ≠ s.nextNode := by
    intro e he
    rw [← hold] at he
    exact (hbound e he).ne
  have hself : (s.addKey rebalance ctaid).lists s.nextNode = [] := Function.update_self _ _ _
  have hlists : ((before ++ after).flatMap fun e => (s.addKey rebalance ctaid).lists e.2) =
      (before ++ after).flatMap fun e => s.lists e.2 := flatMap_update_of_ne hne
  rw [List.flatMap_append] at hlists
  rw [live, live, hentries, hold, List.flatMap_append, List.flatMap_cons, hself, List.nil_append,
    hlists]

theorem live_pushBack (hnodup : (s.tree.entries.map Prod.snd).Nodup)
    (hmem : (ctaid, list) ∈ s.tree.entries) :
    (s.pushBack list stream).live.Perm (s.live ++ [stream]) := by
  obtain ⟨before, after, heq⟩ := List.append_of_mem hmem
  rw [heq, List.map_append, List.map_cons] at hnodup
  obtain ⟨hfresh, -⟩ := List.nodup_cons.mp (List.nodup_middle.mp hnodup)
  have hne : ∀ e ∈ before ++ after, e.2 ≠ list := by
    intro e he heq
    rw [← List.map_append] at hfresh
    exact hfresh (List.mem_map.mpr ⟨e, he, heq⟩)
  have hself : (s.pushBack list stream).lists list = s.lists list ++ [stream] :=
    Function.update_self _ _ _
  have hbefore : (before.flatMap fun e => (s.pushBack list stream).lists e.2) =
      before.flatMap fun e => s.lists e.2 :=
    flatMap_update_of_ne fun e he => hne e (List.mem_append_left _ he)
  have hafter : (after.flatMap fun e => (s.pushBack list stream).lists e.2) =
      after.flatMap fun e => s.lists e.2 :=
    flatMap_update_of_ne fun e he => hne e (List.mem_append_right _ he)
  have hentries : (s.pushBack list stream).tree.entries = before ++ (ctaid, list) :: after := heq
  rw [live, live, hentries, heq, List.flatMap_append, List.flatMap_cons, List.flatMap_append,
    List.flatMap_cons, hself, hbefore, hafter, List.append_assoc, List.append_assoc,
    List.append_assoc]
  exact (List.perm_append_comm.append_left _).append_left _

theorem destroyed_foldl {entries : List (UDim3 × ℕ)} (hnodup : (entries.map Prod.snd).Nodup) :
    (entries.foldl (fun s e => s.destroyList e.2) s).destroyed =
      s.destroyed ++ entries.flatMap fun e => s.lists e.2 := by
  induction entries generalizing s with
  | nil => simp
  | cons e entries ih =>
      obtain ⟨hfresh, hnodup⟩ := List.nodup_cons.mp hnodup
      have hlater : (entries.flatMap fun e' => (s.destroyList e.2).lists e'.2) =
          entries.flatMap fun e' => s.lists e'.2 :=
        flatMap_update_of_ne fun e' he' heq => hfresh (heq ▸ List.mem_map_of_mem he')
      rw [List.foldl_cons, ih hnodup, hlater, List.flatMap_cons, ← List.append_assoc]
      rfl

theorem nextStream_foldl (entries : List (UDim3 × ℕ)) :
    (entries.foldl (fun s e => s.destroyList e.2) s).nextStream = s.nextStream := by
  induction entries generalizing s with
  | nil => rfl
  | cons e entries ih => exact ih

/-! ## Calls -/

/-- The map is that of a table, every CTA in it has a stream, and every stream made is either in
the map or destroyed, once. -/
structure Agrees (S : Set UDim3) (s : CtaStreamMap) (m : StreamTable) : Prop where
  map : Represents S m.of s
  nonempty : ∀ e ∈ s.tree.entries, m.of e.1 ≠ []
  next : m.next = s.nextStream
  once : (s.destroyed ++ s.live).Perm (List.range s.nextStream)

theorem agrees_empty (S : Set UDim3) : Agrees S {} {} where
  map := ⟨List.Pairwise.nil, by simp, List.nodup_nil, by simp, by simp, fun _ _ => rfl⟩
  nonempty := by simp
  next := rfl
  once := List.Perm.refl _

theorem Agrees.of_push {m : StreamTable} (hrep : Represents S m.of s)
    (hnonempty : ∀ e ∈ s.tree.entries, e.1 ≠ ctaid → m.of e.1 ≠ []) (hnext : m.next = s.nextStream)
    (honce : (s.destroyed ++ s.live).Perm (List.range s.nextStream)) (hchain : IsChain AtMost S)
    (hcta : ctaid ∈ S) (hmem : (ctaid, list) ∈ s.tree.entries) :
    Agrees S (s.newStream.2.pushBack list s.nextStream) (m.push ctaid).2 where
  map := by
    have hnew : Represents S m.of s.newStream.2 :=
      ⟨hrep.sorted, hrep.keys, hrep.nodes, hrep.bound, hrep.list, hrep.absent⟩
    rw [StreamTable.of_push, hnext]
    exact hnew.pushBack hchain hcta hmem
  nonempty := by
    intro e he
    rw [StreamTable.of_push]
    by_cases hkey : e.1 = ctaid
    · rw [hkey, Function.update_self]
      exact List.append_ne_nil_of_right_ne_nil _ (List.cons_ne_nil _ _)
    · rw [Function.update_of_ne hkey]
      exact hnonempty e he hkey
  next := congrArg Nat.succ hnext
  once := by
    have hlive : (s.newStream.2.pushBack list s.nextStream).live.Perm (s.live ++ [s.nextStream]) :=
      live_pushBack hrep.nodes hmem
    have hrange : List.range (s.newStream.2.pushBack list s.nextStream).nextStream =
        List.range s.nextStream ++ [s.nextStream] := List.range_succ
    rw [hrange]
    refine (hlive.append_left s.destroyed).trans ?_
    rw [← List.append_assoc]
    exact honce.append_right _

namespace Agrees

variable {m : StreamTable} (hagrees : Agrees S s m)

include hagrees

theorem mem_iff : (∃ list, (ctaid, list) ∈ s.tree.entries) ↔ m.of ctaid ≠ [] := by
  constructor
  · rintro ⟨list, hmem⟩
    exact hagrees.nonempty _ hmem
  · intro hne
    by_contra hnone
    push Not at hnone
    exact hne (hagrees.map.absent ctaid fun e he heq => hnone e.2 (heq ▸ he))

variable (rebalance) in
theorem found (hchain : IsChain AtMost S) (hcta : ctaid ∈ S) (hne : m.of ctaid ≠ []) :
    ∃ list, (ctaid, list) ∈ s.tree.entries ∧ s.find ctaid = some list ∧
      s.index rebalance ctaid = (list, s) ∧ s.lists list = m.of ctaid := by
  obtain ⟨list, hmem⟩ := hagrees.mem_iff.mpr hne
  exact ⟨list, hmem, (hagrees.map.find_eq_some_iff hchain hcta).mpr hmem,
    hagrees.map.index_of_mem hchain hcta hmem, hagrees.map.list _ hmem⟩

theorem not_found (hchain : IsChain AtMost S) (hcta : ctaid ∈ S) (hnil : m.of ctaid = []) :
    (∀ e ∈ s.tree.entries, e.1 ≠ ctaid) ∧ s.find ctaid = none := by
  have habsent : ∀ e ∈ s.tree.entries, e.1 ≠ ctaid := by
    rintro e he rfl
    exact hagrees.nonempty e he hnil
  exact ⟨habsent, (hagrees.map.find_eq_none_iff hchain hcta).mpr habsent⟩

theorem getDefaultStreamCta (hchain : IsChain AtMost S)
    (hbalance : ∀ t, (rebalance t).entries = t.entries) (hcta : ctaid ∈ S) :
    ∃ s', s.getDefaultStreamCta rebalance ctaid = .ok ((m.getDefault ctaid).1, s') ∧
      Agrees S s' (m.getDefault ctaid).2 := by
  cases hof : m.of ctaid with
  | cons stream streams =>
      have hne : m.of ctaid ≠ [] := by simp [hof]
      obtain ⟨list, -, hfind, hindex, hlist⟩ := hagrees.found rebalance hchain hcta hne
      refine ⟨s, ?_, ?_⟩
      · simp [CtaStreamMap.getDefaultStreamCta, StreamTable.getDefault, hfind, hindex, hlist, hof]
      · simpa [StreamTable.getDefault, hof] using hagrees
  | nil =>
      obtain ⟨habsent, hfind⟩ := hagrees.not_found hchain hcta hof
      have hindex := hagrees.map.index_of_absent rebalance hchain hcta habsent
      have hrep := hagrees.map.addKey hchain hcta hbalance habsent
      have hmem : (ctaid, s.nextNode) ∈ (s.addKey rebalance ctaid).tree.entries := by
        rw [show (s.addKey rebalance ctaid).tree.entries = _ from hbalance _]
        exact SearchTree.mem_entries_insert.mpr (Or.inl rfl)
      have honce : ((s.addKey rebalance ctaid).destroyed ++ (s.addKey rebalance ctaid).live).Perm
          (List.range s.nextStream) := by
        rw [live_addKey hbalance hagrees.map.bound]
        exact hagrees.once
      have hothers : ∀ e ∈ (s.addKey rebalance ctaid).tree.entries, e.1 ≠ ctaid →
          m.of e.1 ≠ [] := by
        intro e he hne
        rw [show (s.addKey rebalance ctaid).tree.entries = _ from hbalance _] at he
        obtain rfl | he := SearchTree.mem_entries_insert.mp he
        · exact absurd rfl hne
        · exact hagrees.nonempty e he
      have hagain : (s.addKey rebalance ctaid).newStream.2.index rebalance ctaid =
          (s.nextNode, (s.addKey rebalance ctaid).newStream.2) := by
        rw [index, show (s.addKey rebalance ctaid).newStream.2.find ctaid = some s.nextNode from
          (hrep.find_eq_some_iff hchain hcta).mpr hmem]
      have hclear : { s.addKey rebalance ctaid with
          lists := Function.update (s.addKey rebalance ctaid).lists s.nextNode [] } =
            s.addKey rebalance ctaid := by
        simp [CtaStreamMap.addKey]
      refine ⟨(s.addKey rebalance ctaid).newStream.2.pushBack s.nextNode s.nextStream, ?_, ?_⟩
      · rw [CtaStreamMap.getDefaultStreamCta, hfind, hindex]
        simp only [Option.isSome_none, Bool.false_eq_true, if_false, hclear, hagain]
        rw [StreamTable.getDefault, hof, StreamTable.push, hagrees.next]
        rfl
      · rw [StreamTable.getDefault, hof]
        exact Agrees.of_push hrep hothers hagrees.next honce hchain hcta hmem

omit hagrees in
theorem getDefault_ne_nil (m : StreamTable) (ctaid : UDim3) :
    (m.getDefault ctaid).2.of ctaid ≠ [] := by
  rw [StreamTable.getDefault]
  cases hof : m.of ctaid with
  | cons stream streams => simp [hof]
  | nil => simp [StreamTable.of_push]

theorem createStreamCta (hchain : IsChain AtMost S)
    (hbalance : ∀ t, (rebalance t).entries = t.entries) (hcta : ctaid ∈ S) :
    ∃ s', s.createStreamCta rebalance ctaid =
        .ok (((m.getDefault ctaid).2.push ctaid).1, s') ∧
      Agrees S s' ((m.getDefault ctaid).2.push ctaid).2 := by
  obtain ⟨s', hdefault, hagrees'⟩ := hagrees.getDefaultStreamCta hchain hbalance hcta
  have hne := getDefault_ne_nil m ctaid
  obtain ⟨list, hmem, hfind, -, hlist⟩ := hagrees'.found rebalance hchain hcta hne
  obtain ⟨t, ht⟩ : ∃ t, t = s'.newStream.2 := ⟨_, rfl⟩
  have hnew : s'.newStream = (s'.nextStream, t) := by rw [ht]; rfl
  have hfindt : t.find ctaid = some list := by rw [ht]; exact hfind
  have hindex : t.index rebalance ctaid = (list, t) := by rw [index, hfindt]
  have hlength : ¬(t.lists list).length < 1 := by
    rw [ht, show s'.newStream.2.lists list = _ from hlist, Nat.lt_one_iff,
      List.length_eq_zero_iff]
    exact hne
  refine ⟨s'.newStream.2.pushBack list s'.nextStream, ?_, ?_⟩
  · rw [CtaStreamMap.createStreamCta, hdefault, StreamTable.push, hagrees'.next, ← ht]
    simp only [bind, Except.bind, hnew, hfindt, hindex, hlength, Option.isNone_some,
      Bool.false_eq_true, if_false]
  · exact Agrees.of_push hagrees'.map (fun e he _ => hagrees'.nonempty e he) hagrees'.next
      hagrees'.once hchain hcta hmem

theorem ctaHasStream (hchain : IsChain AtMost S) (hcta : ctaid ∈ S) :
    s.ctaHasStream rebalance ctaid stream = (decide (stream ∈ m.of ctaid), s) := by
  rw [CtaStreamMap.ctaHasStream]
  by_cases hof : m.of ctaid = []
  · obtain ⟨-, hfind⟩ := hagrees.not_found hchain hcta hof
    simp [hfind, hof]
  · obtain ⟨list, -, hfind, hindex, hlist⟩ :=
      hagrees.found rebalance hchain hcta hof
    simp [hfind, hindex, hlist]

theorem destroyCtaStreams : Agrees S s.destroyCtaStreams { m with of := fun _ => [] } where
  map := ⟨List.Pairwise.nil, by simp [CtaStreamMap.destroyCtaStreams],
    by simp [CtaStreamMap.destroyCtaStreams], by simp [CtaStreamMap.destroyCtaStreams],
    by simp [CtaStreamMap.destroyCtaStreams], fun _ _ => rfl⟩
  nonempty := by simp [CtaStreamMap.destroyCtaStreams]
  next := hagrees.next.trans (nextStream_foldl s.tree.entries).symm
  once := by
    have hdestroyed : s.destroyCtaStreams.destroyed = s.destroyed ++ s.live :=
      destroyed_foldl hagrees.map.nodes
    have hnext : s.destroyCtaStreams.nextStream = s.nextStream := nextStream_foldl _
    have hlive : s.destroyCtaStreams.live = [] := rfl
    rw [hdestroyed, hnext, hlive, List.append_nil]
    exact hagrees.once

theorem call (hchain : IsChain AtMost S) (hbalance : ∀ t, (rebalance t).entries = t.entries)
    {c : CtaCall} (hon : c.On S) :
    ∃ s', s.call rebalance c = .ok ((m.call c).1, s') ∧ Agrees S s' (m.call c).2 := by
  cases c with
  | getDefault ctaid =>
      obtain ⟨s', hcall, hagrees'⟩ := hagrees.getDefaultStreamCta hchain hbalance hon
      refine ⟨s', ?_, hagrees'⟩
      rw [CtaStreamMap.call, hcall]
      rfl
  | create ctaid =>
      obtain ⟨s', hcall, hagrees'⟩ := hagrees.createStreamCta hchain hbalance hon
      refine ⟨s', ?_, hagrees'⟩
      rw [CtaStreamMap.call, hcall]
      rfl
  | has ctaid stream =>
      refine ⟨s, ?_, hagrees⟩
      rw [CtaStreamMap.call, hagrees.ctaHasStream hchain hon]
      rfl
  | destroy => exact ⟨s.destroyCtaStreams, rfl, hagrees.destroyCtaStreams⟩

omit hagrees in
theorem run (hchain : IsChain AtMost S) (hbalance : ∀ t, (rebalance t).entries = t.entries)
    {calls : List CtaCall} (hon : ∀ c ∈ calls, c.On S) (hagrees : Agrees S s m) :
    ∃ s', s.run rebalance calls = .ok ((m.run calls).1, s') ∧ Agrees S s' (m.run calls).2 := by
  induction calls generalizing s m with
  | nil => exact ⟨s, rfl, hagrees⟩
  | cons c calls ih =>
      obtain ⟨t, hcall, hnext⟩ := hagrees.call hchain hbalance (hon c List.mem_cons_self)
      obtain ⟨s', hrun, hlast⟩ := ih (fun c' hc' => hon c' (List.mem_cons_of_mem _ hc')) hnext
      refine ⟨s', ?_, hlast⟩
      rw [CtaStreamMap.run, hcall]
      change (t.run rebalance calls >>= _) = _
      rw [hrun]
      rfl

end Agrees

theorem run_ne_of_crossed {s : CtaStreamMap} (hab : dim3comp a b) (hba : dim3comp b a) :
    run id {} [.getDefault a, .getDefault b, .getDefault b] ≠
      .ok ((StreamTable.run {} [.getDefault a, .getDefault b, .getDefault b]).1, s) := by
  have haa : dim3comp a a = false := by simp [dim3comp]
  have hbb : dim3comp b b = false := by simp [dim3comp]
  have hne : b ≠ a := by
    rintro rfl
    exact absurd hab (by simp [hbb])
  have hmap : (run id {} [.getDefault a, .getDefault b, .getDefault b]).map Prod.fst =
      .ok [.stream 0, .stream 1, .stream 2] := by
    simp [run, call, getDefaultStreamCta, index, find, SearchTree.find, SearchTree.lowerBound,
      SearchTree.insert, addKey, newStream, pushBack, hab, hba, haa, bind, Except.bind, Except.map]
  have htable : (StreamTable.run {} [.getDefault a, .getDefault b, .getDefault b]).1 =
      [.stream 0, .stream 1, .stream 1] := by
    simp [StreamTable.run, StreamTable.call, StreamTable.getDefault, StreamTable.push, hne]
  intro hrun
  rw [hrun, htable] at hmap
  simp [Except.map] at hmap

end CtaStreamMap

/-- The map keeps the streams of CTAs apart exactly when any two of them are comparable component
by component. -/
theorem keepsApart_iff (S : Set UDim3) : KeepsApart S ↔ IsChain AtMost S := by
  constructor
  · intro hapart a ha b hb _
    by_contra hnot
    obtain ⟨hab, hba⟩ := not_or.mp hnot
    rw [← not_dim3comp_iff, not_not] at hab hba
    obtain ⟨s, hrun, -⟩ := hapart.apart id (fun _ => rfl)
      [.getDefault a, .getDefault b, .getDefault b] (by simp [CtaCall.On, ha, hb])
    exact CtaStreamMap.run_ne_of_crossed hba hab hrun
  · intro hchain
    refine ⟨strictWeakOrderOn_dim3comp_iff.mpr hchain, separates_dim3comp S, ?_, ?_⟩
    · intro rebalance hbalance calls hon
      obtain ⟨s, hrun, hagrees⟩ :=
        CtaStreamMap.Agrees.run hchain hbalance hon (CtaStreamMap.agrees_empty S)
      exact ⟨s, hrun, fun ctaid hcta => hagrees.map.streamsOf_eq hchain hcta⟩
    · intro rebalance hbalance calls hon
      have honDestroy : ∀ c ∈ calls ++ [.destroy], c.On S := by
        intro c hc
        obtain hc | hc := List.mem_append.mp hc
        · exact hon c hc
        · rw [List.mem_singleton.mp hc]
          trivial
      obtain ⟨s, hrun, hagrees⟩ :=
        CtaStreamMap.Agrees.run hchain hbalance honDestroy (CtaStreamMap.agrees_empty S)
      refine ⟨_, s, hrun, ?_⟩
      have hlive : s.live = [] := by
        have hentries : s.tree.entries = [] := List.eq_nil_iff_forall_not_mem.mpr fun e he =>
          hagrees.nonempty e he (by rw [StreamTable.of_run_destroy])
        rw [CtaStreamMap.live, hentries, List.flatMap_nil]
      have honce := hagrees.once
      rwa [hlive, List.append_nil] at honce

theorem not_keepsApart : ¬KeepsApart {⟨1, 0, 0⟩, ⟨0, 1, 0⟩} := by
  intro hapart
  obtain ⟨s, hrun, -⟩ := hapart.apart id (fun _ => rfl)
    [.getDefault ⟨1, 0, 0⟩, .getDefault ⟨0, 1, 0⟩, .getDefault ⟨0, 1, 0⟩] (by simp [CtaCall.On])
  exact CtaStreamMap.run_ne_of_crossed (by decide) (by decide) hrun

end GpuCalorie.Streams
