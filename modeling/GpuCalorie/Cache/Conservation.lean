/-
# Accepted requests are returned once, in order

`MshrHistory` watches the registers of a cache: which requests were put into each entry,
which entries were filled and what `next_access` returned. Entries have numbers, as one
block may have several entries in turn. `MshrConservation` compares the history with the
cache: what was returned, with what is ready, are the requests of the filled entries, in
the order of fills and of arrival.
-/

import GpuCalorie.Cache.Registers

namespace GpuCalorie.Cache

open GpuCalorie.Math

/-- The history of the registers. -/
structure MshrHistory where
  /-- How many entries were made. -/
  entries : ℕ := 0
  /-- The number of the last entry of a block. -/
  entry : Addr → ℕ := fun _ => 0
  /-- The requests that were put into an entry. -/
  accepted : ℕ → List MemFetch := fun _ => []
  /-- The entries that were filled. -/
  filled : List ℕ := []
  /-- The requests `next_access` returned. -/
  returned : List MemFetch := []

namespace MshrHistory

/-- A new entry of a block. -/
def newEntry (h : MshrHistory) (a : Addr) : MshrHistory :=
  { h with entries := h.entries + 1, entry := Function.update h.entry a h.entries }

/-- Requests are put into the entry of a block. -/
def accept (h : MshrHistory) (a : Addr) (requests : List MemFetch) : MshrHistory :=
  { h with
    accepted := Function.update h.accepted (h.entry a) (h.accepted (h.entry a) ++ requests) }

/-- What an action adds to the history: the requests that are new in the registers, the
entries that have become ready, or the request that was returned. -/
def see {cfg : CacheConfig} (c : BaselineCache cfg) (a : CacheAction) (c' : BaselineCache cfg)
    (h : MshrHistory) : MshrHistory :=
  match a with
  | .access mf _ =>
    let block := cfg.mshrAddr mf.addr
    let requests := (c'.mshrs.requests block).drop (c.mshrs.requests block).length
    if requests = [] then h
    else if c.mshrs.probe block then h.accept block requests
    else (h.newEntry block).accept block requests
  | .cycle _ => h
  | .fill _ _ =>
    let ready := c'.mshrs.currentResponse.drop c.mshrs.currentResponse.length
    { h with filled := h.filled ++ ready.map h.entry }
  | .nextAccess =>
    match c.mshrs.nextAccess with
    | .ok (mf, _) => { h with returned := h.returned ++ [mf] }
    | .error _ => h

/-- The observer that keeps the history. -/
def observer (cfg : CacheConfig) : CacheObserver cfg MshrHistory where
  start := {}
  see := see

end MshrHistory

namespace MshrTable

/-- The requests that are ready, in the order in which they are returned. -/
def ready (t : MshrTable) : List MemFetch :=
  t.currentResponse.flatMap t.requests

/-- Call `next_access` so many times. -/
def drain : ℕ → MshrTable → Except CacheFailure (List MemFetch × MshrTable)
  | 0, t => .ok ([], t)
  | n + 1, t => do
    let (mf, t) ← t.nextAccess
    let (mfs, t) ← drain n t
    return (mf :: mfs, t)

end MshrTable

namespace BaselineCache

variable {cfg : CacheConfig} {kind : CacheKind} {c c' : BaselineCache cfg} {h : MshrHistory}

/-- No request of the registers is lost or returned twice, too early or out of order. -/
structure MshrConservation (c : BaselineCache cfg) (h : MshrHistory) : Prop where
  entries_le : c.mshrs.data.keys.length ≤ cfg.mshrEntries
  merged_le : ∀ a, (c.mshrs.requests a).length ≤ cfg.mshrMaxMerge
  /-- An entry is filled once. -/
  filled_nodup : h.filled.Nodup
  /-- What was returned, and what is ready, was accepted into an entry that was filled. -/
  served : h.returned ++ c.mshrs.ready = h.filled.flatMap h.accepted
  /-- What was accepted into any other entry waits there. -/
  waiting : ∀ n < h.entries, n ∉ h.filled → ∃ a ∈ c.mshrs.data,
    a ∉ c.mshrs.currentResponse ∧ h.entry a = n ∧ c.mshrs.requests a = h.accepted n
  /-- Nothing was accepted without an entry. -/
  unmade : ∀ n, h.entries ≤ n → h.accepted n = []
  /-- All that is ready is returned, once, when `next_access` is called. -/
  drains : ∃ t, MshrTable.drain c.mshrs.ready.length c.mshrs = .ok (c.mshrs.ready, t) ∧
    t.currentResponse = []
  /-- The record of a request that was sent belongs to an entry that is not ready. -/
  record_waits : ∀ uid e, c.extraMfFields uid = some e →
    e.blockAddr ∈ c.mshrs.data ∧ e.blockAddr ∉ c.mshrs.currentResponse
  /-- An entry that is not ready has one record. -/
  entry_record : ∀ a ∈ c.mshrs.data, a ∉ c.mshrs.currentResponse →
    ∃! uid, ∃ e, c.extraMfFields uid = some e ∧ e.blockAddr = a

/-! ## The history as an invariant -/

/-- The entries that are ready, after those that are gone: of the first a part was returned,
of the others nothing. -/
structure Served (c : BaselineCache cfg) (h : MshrHistory) (gone : List ℕ) (part : List MemFetch) :
    Prop where
  filled : h.filled = gone ++ c.mshrs.currentResponse.map h.entry
  returned : h.returned = gone.flatMap h.accepted ++ part
  first : ∀ a rest, c.mshrs.currentResponse = a :: rest →
    h.accepted (h.entry a) = part ++ c.mshrs.requests a
  others : ∀ a rest, c.mshrs.currentResponse = a :: rest → ∀ b ∈ rest,
    h.accepted (h.entry b) = c.mshrs.requests b
  none : c.mshrs.currentResponse = [] → part = []

/-- The history agrees with the cache. -/
structure HistoryInvariant (c : BaselineCache cfg) (h : MshrHistory) : Prop where
  entry_lt : ∀ a ∈ c.mshrs.data, h.entry a < h.entries
  entry_inj : ∀ a ∈ c.mshrs.data, ∀ b ∈ c.mshrs.data, h.entry a = h.entry b → a = b
  unmade : ∀ n, h.entries ≤ n → h.accepted n = []
  filled_nodup : h.filled.Nodup
  filled_lt : ∀ n ∈ h.filled, n < h.entries
  waiting : ∀ a ∈ c.mshrs.data, a ∉ c.mshrs.currentResponse →
    h.entry a ∉ h.filled ∧ h.accepted (h.entry a) = c.mshrs.requests a
  made : ∀ n < h.entries, n ∉ h.filled →
    ∃ a ∈ c.mshrs.data, a ∉ c.mshrs.currentResponse ∧ h.entry a = n
  served : ∃ gone part, Served c h gone part

namespace HistoryInvariant

theorem empty (n : ℕ) : HistoryInvariant ({ nextUid := n } : BaselineCache cfg) {} where
  entry_lt a ha := absurd ha (AList.notMem_empty a)
  entry_inj a ha := absurd ha (AList.notMem_empty a)
  unmade _ _ := rfl
  filled_nodup := List.nodup_nil
  filled_lt _ hn := absurd hn List.not_mem_nil
  waiting a ha := absurd ha (AList.notMem_empty a)
  made _ hn := absurd hn (Nat.not_lt_zero _)
  served := ⟨[], [], rfl, rfl, nofun, nofun, fun _ => rfl⟩

theorem of_mshrs (hi : HistoryInvariant c h) (hmshrs : c'.mshrs = c.mshrs) :
    HistoryInvariant c' h := by
  obtain ⟨gone, part, hserved⟩ := hi.served
  exact
    { entry_lt := by simpa only [hmshrs] using hi.entry_lt
      entry_inj := by simpa only [hmshrs] using hi.entry_inj
      unmade := hi.unmade
      filled_nodup := hi.filled_nodup
      filled_lt := hi.filled_lt
      waiting := by simpa only [hmshrs] using hi.waiting
      made := by simpa only [hmshrs] using hi.made
      served := ⟨gone, part,
        { filled := by simpa only [hmshrs] using hserved.filled
          returned := hserved.returned
          first := by simpa only [hmshrs] using hserved.first
          others := by simpa only [hmshrs] using hserved.others
          none := by simpa only [hmshrs] using hserved.none }⟩ }

/-! ## Accepted requests -/

section Accept

variable {a : Addr} {mf : MemFetch}

theorem accepted_self (h : MshrHistory) (a : Addr) (mfs : List MemFetch) :
    (h.accept a mfs).accepted (h.entry a) = h.accepted (h.entry a) ++ mfs :=
  Function.update_self _ _ _

theorem accepted_ne (a : Addr) (mfs : List MemFetch) {n : ℕ} (hn : n ≠ h.entry a) :
    (h.accept a mfs).accepted n = h.accepted n :=
  Function.update_of_ne hn _ _

theorem flatMap_accepted {ns : List ℕ} (a : Addr) (mfs : List MemFetch) (hns : h.entry a ∉ ns) :
    ns.flatMap (h.accept a mfs).accepted = ns.flatMap h.accepted :=
  List.flatMap_congr fun _ hn => accepted_ne a mfs fun hna => hns (hna ▸ hn)

theorem merged (hr : c.RegistersInvariant) (hi : HistoryInvariant c h)
    (added : MshrTable.Added cfg c.mshrs a mf c'.mshrs) (hmem : a ∈ c.mshrs.data) :
    HistoryInvariant c' (h.accept a [mf]) := by
  obtain ⟨gone, part, hserved⟩ := hi.served
  have hdata : ∀ b, b ∈ c'.mshrs.data ↔ b ∈ c.mshrs.data := by
    intro b
    rw [added.mem]
    exact or_iff_right_of_imp fun hb => hb ▸ hmem
  have hother : ∀ b ∈ c.mshrs.data, b ≠ a →
      (h.accept a [mf]).accepted (h.entry b) = h.accepted (h.entry b) :=
    fun b hb hba => accepted_ne a [mf] fun hsame => hba (hi.entry_inj b hb a hmem hsame)
  -- an entry that is gone is not in the table any more
  have hgone : h.entry a ∉ gone := by
    intro hin
    by_cases hready : a ∈ c.mshrs.currentResponse
    · have hnodup := hi.filled_nodup
      rw [hserved.filled] at hnodup
      exact (List.nodup_append.mp hnodup).2.2 _ hin _ (List.mem_map_of_mem hready) rfl
    · apply (hi.waiting a hmem hready).1
      rw [hserved.filled]
      exact List.mem_append_left _ hin
  have hfirst : ∀ b ∈ c.mshrs.data, ∀ front, h.accepted (h.entry b) = front ++ c.mshrs.requests b →
      (h.accept a [mf]).accepted (h.entry b) = front ++ c'.mshrs.requests b := by
    intro b hb front hfront
    by_cases hba : b = a
    · rw [hba] at hfront ⊢
      rw [accepted_self, hfront, added.requests_self, List.append_assoc]
    · rw [hother b hb hba, added.requests_ne b hba, hfront]
  exact
    { entry_lt := fun b hb => hi.entry_lt b ((hdata b).mp hb)
      entry_inj := fun b hb b' hb' => hi.entry_inj b ((hdata b).mp hb) b' ((hdata b').mp hb')
      unmade := by
        intro n hn
        have hne : n ≠ h.entry a := fun hna =>
          absurd (hi.entry_lt a hmem) (by rw [← hna]; exact Nat.not_lt.mpr hn)
        rw [accepted_ne a [mf] hne]
        exact hi.unmade n hn
      filled_nodup := hi.filled_nodup
      filled_lt := hi.filled_lt
      waiting := by
        intro b hb hready
        rw [added.response] at hready
        have hwait := hi.waiting b ((hdata b).mp hb) hready
        exact ⟨hwait.1, hfirst b ((hdata b).mp hb) [] hwait.2⟩
      made := by
        intro n hn hnot
        obtain ⟨b, hb, hready, hbn⟩ := hi.made n hn hnot
        exact ⟨b, (hdata b).mpr hb, by rwa [added.response], hbn⟩
      served := ⟨gone, part,
        { filled := by
            rw [added.response]
            exact hserved.filled
          returned := by
            rw [flatMap_accepted a [mf] hgone]
            exact hserved.returned
          first := by
            intro b rest hb
            rw [added.response] at hb
            have hmem' : b ∈ c.mshrs.data := hr.response_mem b (by simp [hb])
            exact hfirst b hmem' part (hserved.first b rest hb)
          others := by
            intro b rest hb b' hb'
            rw [added.response] at hb
            have hmem' : b' ∈ c.mshrs.data := hr.response_mem b' (by simp [hb, hb'])
            exact hfirst b' hmem' [] (hserved.others b rest hb b' hb')
          none := by
            rw [added.response]
            exact hserved.none }⟩ }

theorem sent (hr : c.RegistersInvariant) (hi : HistoryInvariant c h)
    (added : MshrTable.Added cfg c.mshrs a mf c'.mshrs) (hmem : a ∉ c.mshrs.data) :
    HistoryInvariant c' ((h.newEntry a).accept a [mf]) := by
  obtain ⟨gone, part, hserved⟩ := hi.served
  have hself : (h.newEntry a).entry a = h.entries := Function.update_self _ _ _
  have hentry : ∀ b ≠ a, (h.newEntry a).entry b = h.entry b :=
    fun b hb => Function.update_of_ne hb _ _
  have hne : ∀ b ∈ c.mshrs.data, b ≠ a := fun b hb hba => hmem (hba ▸ hb)
  have hready : a ∉ c.mshrs.currentResponse := fun hin => hmem (hr.response_mem a hin)
  have hnew : (h.newEntry a).entry a ∉ h.filled := by
    rw [hself]
    exact fun hin => lt_irrefl _ (hi.filled_lt _ hin)
  have hold : ∀ n < h.entries, ((h.newEntry a).accept a [mf]).accepted n = h.accepted n := by
    intro n hn
    apply accepted_ne
    rw [hself]
    exact hn.ne
  have hmap : c.mshrs.currentResponse.map (h.newEntry a).entry =
      c.mshrs.currentResponse.map h.entry :=
    List.map_congr_left fun b hb => hentry b fun hba => hready (hba ▸ hb)
  have hcases : ∀ b, b ∈ c'.mshrs.data → b ≠ a → b ∈ c.mshrs.data :=
    fun b hb hba => ((added.mem b).mp hb).resolve_left hba
  have hrequests : ∀ b ∈ c.mshrs.data, ((h.newEntry a).accept a [mf]).accepted
    ((h.newEntry a).entry b) =
      h.accepted (h.entry b) ∧ c'.mshrs.requests b = c.mshrs.requests b := by
    intro b hb
    rw [hentry b (hne b hb), added.requests_ne b (hne b hb)]
    exact ⟨hold _ (hi.entry_lt b hb), rfl⟩
  exact
    { entry_lt := by
        intro b hb
        by_cases hba : b = a
        · show (h.newEntry a).entry b < h.entries + 1
          rw [hba, hself]
          exact Nat.lt_succ_self _
        · show (h.newEntry a).entry b < h.entries + 1
          rw [hentry b hba]
          exact (hi.entry_lt b (hcases b hb hba)).trans (Nat.lt_succ_self _)
      entry_inj := by
        intro b hb b' hb' hsame
        have hsame : (h.newEntry a).entry b = (h.newEntry a).entry b' := hsame
        by_cases hba : b = a <;> by_cases hba' : b' = a
        · rw [hba, hba']
        · rw [hba, hself, hentry b' hba'] at hsame
          exact absurd hsame (hi.entry_lt b' (hcases b' hb' hba')).ne'
        · rw [hba', hself, hentry b hba] at hsame
          exact absurd hsame (hi.entry_lt b (hcases b hb hba)).ne
        · rw [hentry b hba, hentry b' hba'] at hsame
          exact hi.entry_inj b (hcases b hb hba) b' (hcases b' hb' hba') hsame
      unmade := by
        intro n hn
        have hn : h.entries + 1 ≤ n := hn
        have hna : n ≠ (h.newEntry a).entry a := by
          rw [hself]
          omega
        rw [accepted_ne a [mf] hna]
        exact hi.unmade n (by omega)
      filled_nodup := hi.filled_nodup
      filled_lt := fun n hn => (hi.filled_lt n hn).trans (Nat.lt_succ_self _)
      waiting := by
        intro b hb hnot
        rw [added.response] at hnot
        by_cases hba : b = a
        · rw [hba]
          refine ⟨hnew, ?_⟩
          show ((h.newEntry a).accept a [mf]).accepted ((h.newEntry a).entry a) =
            c'.mshrs.requests a
          rw [accepted_self, added.requests_self, hself, MshrTable.requests_of_notMem hmem]
          exact congrArg (· ++ [mf]) (hi.unmade h.entries le_rfl)
        · have hmem' := hcases b hb hba
          have hwait := hi.waiting b hmem' hnot
          obtain ⟨haccepted, hreq⟩ := hrequests b hmem'
          refine ⟨?_, haccepted.trans (hwait.2.trans hreq.symm)⟩
          show (h.newEntry a).entry b ∉ h.filled
          rw [hentry b hba]
          exact hwait.1
      made := by
        intro n hn hnot
        have hn : n < h.entries + 1 := hn
        by_cases hlast : n = h.entries
        · exact ⟨a, (added.mem a).mpr (.inl rfl), by rwa [added.response], hself.trans hlast.symm⟩
        · obtain ⟨b, hb, hready', hbn⟩ := hi.made n (by omega) hnot
          exact ⟨b, (added.mem b).mpr (.inr hb), by rwa [added.response],
            (hentry b (hne b hb)).trans hbn⟩
      served := ⟨gone, part,
        { filled := by
            rw [added.response]
            exact hserved.filled.trans (congrArg (gone ++ ·) hmap.symm)
          returned := by
            have hgone : (h.newEntry a).entry a ∉ gone := by
              intro hin
              apply hnew
              rw [hserved.filled]
              exact List.mem_append_left _ hin
            rw [flatMap_accepted a [mf] hgone]
            exact hserved.returned
          first := by
            intro b rest hb
            rw [added.response] at hb
            obtain ⟨haccepted, hreq⟩ := hrequests b (hr.response_mem b (by simp [hb]))
            rw [hreq]
            exact haccepted.trans (hserved.first b rest hb)
          others := by
            intro b rest hb b' hb'
            rw [added.response] at hb
            obtain ⟨haccepted, hreq⟩ := hrequests b' (hr.response_mem b' (by simp [hb, hb']))
            rw [hreq]
            exact haccepted.trans (hserved.others b rest hb b' hb')
          none := by
            rw [added.response]
            exact hserved.none }⟩ }

end Accept

/-! ## Fills and returned requests -/

variable (hr : c.RegistersInvariant) (hi : HistoryInvariant c h) {time : UInt32} {mf : MemFetch}
include hr hi

theorem filled {uid : ℕ} {e : ExtraMfFields} (hf : Filled c uid e time c') :
    HistoryInvariant c' { h with filled := h.filled ++ [h.entry e.blockAddr] } := by
  obtain ⟨gone, part, hserved⟩ := hi.served
  obtain ⟨hmem, hready⟩ := hr.record_waits uid e hf.record
  obtain ⟨hnot, hwaits⟩ := hi.waiting e.blockAddr hmem hready
  have hmshrs := hf.mshrs
  exact
    { entry_lt := by
        rw [hmshrs]
        exact hi.entry_lt
      entry_inj := by
        rw [hmshrs]
        exact hi.entry_inj
      unmade := hi.unmade
      filled_nodup := List.nodup_append.mpr ⟨hi.filled_nodup, List.nodup_singleton _, by
        intro n hn n' hn'
        rw [List.mem_singleton.mp hn']
        exact fun hsame => hnot (hsame ▸ hn)⟩
      filled_lt := by
        intro n hn
        rcases List.mem_append.mp hn with hn | hn
        · exact hi.filled_lt n hn
        · rw [List.mem_singleton.mp hn]
          exact hi.entry_lt _ hmem
      waiting := by
        rw [hmshrs]
        intro a ha hnotReady
        have hwait := hi.waiting a ha fun hin => hnotReady (List.mem_append_left _ hin)
        have hne : a ≠ e.blockAddr := fun hae => hnotReady (by simp [hae])
        refine ⟨fun hin => ?_, hwait.2⟩
        rcases List.mem_append.mp hin with hin | hin
        · exact hwait.1 hin
        · exact hne (hi.entry_inj a ha _ hmem (List.mem_singleton.mp hin))
      made := by
        rw [hmshrs]
        intro n hn hnotFilled
        obtain ⟨a, ha, hready', han⟩ := hi.made n hn fun hin =>
          hnotFilled (List.mem_append_left _ hin)
        refine ⟨a, ha, fun hin => ?_, han⟩
        rcases List.mem_append.mp hin with hin | hin
        · exact hready' hin
        · exact hnotFilled (by simp [← han, List.mem_singleton.mp hin])
      served := by
        refine ⟨gone, part, ?_, hserved.returned, ?_, ?_, ?_⟩
        · rw [hmshrs, hserved.filled, List.map_append, List.append_assoc]
          rfl
        · rw [hmshrs]
          intro a rest ha
          cases hresponse : c.mshrs.currentResponse with
          | nil =>
              rw [hresponse] at ha
              obtain ⟨rfl, -⟩ := List.cons.inj ha
              rw [hserved.none hresponse]
              exact hwaits
          | cons b tail =>
              rw [hresponse] at ha
              obtain ⟨rfl, -⟩ := List.cons.inj ha
              exact hserved.first b tail hresponse
        · rw [hmshrs]
          intro a rest ha b hb
          cases hresponse : c.mshrs.currentResponse with
          | nil =>
              rw [hresponse] at ha
              obtain ⟨-, rfl⟩ := List.cons.inj ha
              exact absurd hb List.not_mem_nil
          | cons a' tail =>
              rw [hresponse] at ha
              obtain ⟨-, rfl⟩ := List.cons.inj ha
              rcases List.mem_append.mp hb with hb | hb
              · exact hserved.others a' tail hresponse b hb
              · rw [List.mem_singleton.mp hb]
                exact hwaits
        · rw [hmshrs]
          exact fun hnil => absurd hnil (by simp) }

theorem drained {a : Addr} {rest : List Addr} {list : List MemFetch}
    (hd : MshrTable.Drained c.mshrs a rest mf list c'.mshrs) :
    HistoryInvariant c' { h with returned := h.returned ++ [mf] } := by
  obtain ⟨gone, part, hserved⟩ := hi.served
  have hnodup := hr.response_nodup
  rw [hd.ready, List.nodup_cons] at hnodup
  have hmem : ∀ b ∈ c'.mshrs.data, b ∈ c.mshrs.data := fun b hb => ((hd.mem b).mp hb).1
  have hfirst := hserved.first a rest hd.ready
  rw [hd.requests_before] at hfirst
  have hrest : ∀ b ∈ rest, h.accepted (h.entry b) = c'.mshrs.requests b := by
    intro b hb
    rw [hd.requests_ne b fun hba => hnodup.1 (hba ▸ hb)]
    exact hserved.others a rest hd.ready b hb
  -- whatever is not ready now was not ready before
  have hready : ∀ b ∈ c'.mshrs.data, b ∉ c'.mshrs.currentResponse →
      b ∉ c.mshrs.currentResponse := by
    intro b hb hnot hin
    apply hnot
    rw [hd.response]
    rw [hd.ready] at hin
    split_ifs with hlist
    · exact (List.mem_cons.mp hin).resolve_left fun hba => ((hd.mem b).mp hb).2 hba hlist
    · exact hin
  have hpart : ∃ gone part, Served c' { h with returned := h.returned ++ [mf] } gone part := by
    by_cases hlist : list = []
    · -- the entry is gone with its last request
      refine ⟨gone ++ [h.entry a], [], ?_, ?_, ?_, ?_, fun _ => rfl⟩
      · rw [hd.response, if_pos hlist, List.append_assoc]
        rw [hserved.filled, hd.ready]
        rfl
      · show h.returned ++ [mf] = _
        rw [hserved.returned, List.flatMap_append, List.flatMap_singleton, hfirst, hlist,
          List.append_nil, List.append_assoc]
      · intro b rest' hb
        rw [hd.response, if_pos hlist] at hb
        exact hrest b (by simp [hb])
      · intro b rest' hb b' hb'
        rw [hd.response, if_pos hlist] at hb
        exact hrest b' (by simp [hb, hb'])
    · refine ⟨gone, part ++ [mf], ?_, ?_, ?_, ?_, ?_⟩
      · rw [hd.response, if_neg hlist, ← hd.ready]
        exact hserved.filled
      · show h.returned ++ [mf] = _
        rw [hserved.returned, List.append_assoc]
      · intro b rest' hb
        rw [hd.response, if_neg hlist] at hb
        obtain ⟨rfl, -⟩ := List.cons.inj hb
        rw [hd.requests_self]
        exact hfirst.trans (by simp)
      · intro b rest' hb b' hb'
        rw [hd.response, if_neg hlist] at hb
        obtain ⟨-, rfl⟩ := List.cons.inj hb
        exact hrest b' hb'
      · rw [hd.response, if_neg hlist]
        exact fun hnil => absurd hnil (List.cons_ne_nil _ _)
  exact
    { entry_lt := fun b hb => hi.entry_lt b (hmem b hb)
      entry_inj := fun b hb b' hb' => hi.entry_inj b (hmem b hb) b' (hmem b' hb')
      unmade := hi.unmade
      filled_nodup := hi.filled_nodup
      filled_lt := hi.filled_lt
      waiting := by
        intro b hb hnot
        have hwait := hi.waiting b (hmem b hb) (hready b hb hnot)
        have hba : b ≠ a := fun hba => hready b hb hnot (by simp [hba, hd.ready])
        rw [hd.requests_ne b hba]
        exact hwait
      made := by
        intro n hn hnot
        obtain ⟨b, hb, hnotReady, hbn⟩ := hi.made n hn hnot
        have hba : b ≠ a := fun hba => hnotReady (by simp [hba, hd.ready])
        refine ⟨b, (hd.mem b).mpr ⟨hb, fun h => absurd h hba⟩, fun hin => hnotReady ?_, hbn⟩
        rw [hd.response] at hin
        rw [hd.ready]
        split_ifs at hin
        · exact List.mem_cons_of_mem _ hin
        · exact hin
      served := hpart }

/-! ## Runs -/

omit hi in
omit hr in
theorem see_access_of_kept (hmshrs : c'.mshrs = c.mshrs) :
    MshrHistory.see c (.access mf time) c' h = h := by
  rw [MshrHistory.see, hmshrs, List.drop_length]
  exact if_pos rfl

theorem accessed (ha : Accessed kind c mf time c') :
    HistoryInvariant c' (MshrHistory.see c (.access mf time) c' h) := by
  have hkept : MissesKept c c' → HistoryInvariant c'
      (MshrHistory.see c (.access mf time) c' h) := by
    intro kept
    rw [see_access_of_kept kept.mshrs]
    exact hi.of_mshrs kept.mshrs
  cases ha with
  | readHit _ _ _ _ _ kept => exact hkept kept
  | atomicHit _ _ _ _ _ _ _ _ kept => exact hkept kept
  | writeHit _ _ _ _ _ _ _ _ kept => exact hkept kept
  | writeEvict _ _ _ _ _ _ kept => exact hkept kept
  | writeAround _ _ kept => exact hkept kept
  | written _ _ _ _ _ _ _ _ _ kept => exact hkept kept
  | @fetched r plan _ planned _ _ _ _ _ _ _ _ added _ missTaken _ _ _ =>
      have hnew : (c'.mshrs.requests (cfg.mshrAddr mf.addr)).drop
          (c.mshrs.requests (cfg.mshrAddr mf.addr)).length = [plan.request] := by
        rw [added.requests_self, List.drop_left]
      have hsee : MshrHistory.see c (.access mf time) c' h =
          if c.mshrs.probe (cfg.mshrAddr mf.addr) then
            h.accept (cfg.mshrAddr mf.addr) [plan.request]
          else (h.newEntry (cfg.mshrAddr mf.addr)).accept (cfg.mshrAddr mf.addr)
            [plan.request] := by
        rw [MshrHistory.see]
        simp only [hnew, List.cons_ne_nil, if_false]
      rw [hsee]
      rcases missTaken with ⟨hmem, -⟩ | ⟨hmem, -⟩
      · rw [if_pos (MshrTable.probe_iff.mpr hmem)]
        exact hi.merged hr added hmem
      · rw [if_neg (mt MshrTable.probe_iff.mp hmem)]
        exact hi.sent hr added hmem

theorem stepped {a : CacheAction}
    (hs : Stepped kind c a c') : HistoryInvariant c' (MshrHistory.see c a c' h) := by
  cases hs with
  | refused =>
      rw [see_access_of_kept rfl]
      exact hi
  | accessed _ _ ha => exact hi.accessed hr ha
  | cycled _ kept => exact hi.of_mshrs kept.mshrs
  | partlyFilled hp =>
      rw [MshrHistory.see, hp.mshrs, List.drop_length, List.map_nil, List.append_nil]
      exact hi.of_mshrs hp.mshrs
  | filled _ _ hf =>
      rw [MshrHistory.see, hf.mshrs, List.drop_left]
      exact hi.filled hr hf
  | drained returned _ hd =>
      rw [MshrHistory.see, returned]
      exact hi.drained hr hd

end HistoryInvariant

end BaselineCache

/-! ## What is ready is returned -/

namespace MshrTable

variable {t t' : MshrTable} {a : Addr} {rest : List Addr} {mf : MemFetch} {list : List MemFetch}

theorem Drained.ready_eq (hd : Drained t a rest mf list t') (hnodup : t.currentResponse.Nodup) :
    t.ready = mf :: t'.ready := by
  rw [hd.ready, List.nodup_cons] at hnodup
  have hrest : rest.flatMap t'.requests = rest.flatMap t.requests :=
    List.flatMap_congr fun b hb => hd.requests_ne b fun hba => hnodup.1 (hba ▸ hb)
  rw [MshrTable.ready, MshrTable.ready, hd.response, hd.ready, List.flatMap_cons,
    hd.requests_before]
  split_ifs with hlist
  · rw [hrest, hlist]
    rfl
  · rw [List.flatMap_cons, hd.requests_self, hrest]
    rfl

theorem drain_ready (hpending : ∀ a ∈ t.currentResponse, t.requests a ≠ [])
    (hnodup : t.currentResponse.Nodup) :
    ∃ t', drain t.ready.length t = .ok (t.ready, t') ∧ t'.currentResponse = [] := by
  generalize hn : t.ready.length = n
  induction n generalizing t with
  | zero =>
      refine ⟨t, by rw [List.length_eq_zero_iff.mp hn, drain], ?_⟩
      cases hresponse : t.currentResponse with
      | nil => rfl
      | cons b tail =>
          have hempty : t.requests b = [] := by
            have hnil := List.length_eq_zero_iff.mp hn
            rw [MshrTable.ready, hresponse, List.flatMap_cons, List.append_eq_nil_iff] at hnil
            exact hnil.1
          exact absurd hempty (hpending b (by simp [hresponse]))
  | succ n ih =>
      have hne : t.currentResponse ≠ [] := by
        intro hnil
        rw [MshrTable.ready, hnil] at hn
        cases hn
      cases hnext : t.nextAccess with
      | error e =>
          obtain ⟨-, hempty⟩ := nextAccess_error hnext hne
          cases hresponse : t.currentResponse with
          | nil => exact absurd hresponse hne
          | cons b tail =>
              exact absurd (hempty b tail hresponse) (hpending b (by simp [hresponse]))
      | ok r =>
          obtain ⟨mf, t₁⟩ := r
          obtain ⟨a, rest, list, hd⟩ := nextAccess_ok hnext
          have hready := hd.ready_eq hnodup
          have hnodup₁ : t₁.currentResponse.Nodup := by
            rw [hd.response]
            rw [hd.ready] at hnodup
            split_ifs
            · exact (List.nodup_cons.mp hnodup).2
            · exact hnodup
          have hpending₁ : ∀ b ∈ t₁.currentResponse, t₁.requests b ≠ [] := by
            intro b hb
            rw [hd.response] at hb
            rw [hd.ready, List.nodup_cons] at hnodup
            by_cases hba : b = a
            · rw [hba, hd.requests_self]
              intro hlist
              rw [if_pos hlist] at hb
              exact hnodup.1 (hba ▸ hb)
            · rw [hd.requests_ne b hba]
              apply hpending
              rw [hd.ready]
              split_ifs at hb
              · exact List.mem_cons_of_mem _ hb
              · exact hb
          rw [hready, List.length_cons, Nat.succ.injEq] at hn
          obtain ⟨t', hdrain, hleft⟩ := ih hpending₁ hnodup₁ hn
          refine ⟨t', ?_, hleft⟩
          rw [drain, hnext, hready]
          show (drain n t₁ >>= _) = _
          rw [hdrain]
          rfl

end MshrTable

namespace BaselineCache

theorem Served.ready {gone : List ℕ} {part : List MemFetch} (hs : Served c h gone part) :
    h.returned ++ c.mshrs.ready = h.filled.flatMap h.accepted := by
  rw [hs.returned, hs.filled, List.flatMap_append, List.append_assoc, List.flatMap_map,
    MshrTable.ready]
  congr 1
  cases hresponse : c.mshrs.currentResponse with
  | nil => rw [hs.none hresponse]; rfl
  | cons a rest =>
      have hrest : rest.flatMap (fun b => h.accepted (h.entry b)) = rest.flatMap c.mshrs.requests :=
        List.flatMap_congr fun b hb => hs.others a rest hresponse b hb
      rw [List.flatMap_cons, List.flatMap_cons, hs.first a rest hresponse, hrest, List.append_assoc]

theorem MshrConservation.of_invariants (hr : c.RegistersInvariant) (hi : HistoryInvariant c h) :
    MshrConservation c h where
  entries_le := hr.entries_le
  merged_le := hr.merged_le
  filled_nodup := hi.filled_nodup
  served := by
    obtain ⟨gone, part, hserved⟩ := hi.served
    exact hserved.ready
  waiting := by
    intro n hn hnot
    obtain ⟨a, ha, hready, han⟩ := hi.made n hn hnot
    exact ⟨a, ha, hready, han, han ▸ (hi.waiting a ha hready).2.symm⟩
  unmade := hi.unmade
  drains := MshrTable.drain_ready (fun a ha => hr.pending a (hr.response_mem a ha))
    hr.response_nodup
  record_waits := hr.record_waits
  entry_record := by
    intro a ha hready
    obtain ⟨uid, e, he, hea⟩ := hr.entry_record a ha hready
    refine ⟨uid, ⟨e, he, hea⟩, ?_⟩
    rintro uid' ⟨e', he', hea'⟩
    exact hr.record_unique uid' uid e' e he' he (hea'.trans hea.symm)

/-- In every run of a cache of either kind, whatever its configuration, the registers keep
all requests, and none of their assertions fails. -/
theorem mshrConservation_of_reachable
    {x : Except CacheFailure (BaselineCache cfg × MshrHistory)}
    (reached : (observedSystem kind cfg (MshrHistory.observer cfg)).Reachable x) :
    OkOr (fun s => MshrConservation s.1 s.2) (fun e => ¬ RegistersFailure cfg e) x := by
  have hinvariant : OkOr (fun s : BaselineCache cfg × MshrHistory =>
      s.1.RegistersInvariant ∧ HistoryInvariant s.1 s.2) (fun e => ¬ RegistersFailure cfg e) x := by
    apply invariant_of_observed
      (I := fun c h => c.RegistersInvariant ∧ HistoryInvariant c h) _ _ _ reached
    · exact fun n => ⟨.empty n, .empty n⟩
    · exact fun c h a c' hI henabled hs => ⟨hI.1.stepped henabled hs, hI.2.stepped hI.1 hs⟩
    · exact fun c h a e hI henabled he => hI.1.not_registersFailure henabled he
  exact hinvariant.imp fun s hs => .of_invariants hs.1 hs.2

/-- A block that misses again while the entry of its earlier miss is drained. -/
theorem mshrConservation_run :
    ∃ s, observedRun (.data .l1) (MshrHistory.observer (oneLineConfig .writeBack .noWriteAllocate))
      9
        [.access (globalRequest 1 0 false) 1, .access (globalRequest 2 0 false) 2, .cycle false,
          .fill (globalRequest 1 0 false) 3, .nextAccess, .access (globalRequest 3 128 false) 4,
          .cycle false, .fill (globalRequest 3 128 false) 5,
          .access (globalRequest 4 0 false) 6, .nextAccess] = some s ∧
      MshrConservation s.1 s.2 := by
  have hrun : (observedRun (.data .l1)
      (MshrHistory.observer (oneLineConfig .writeBack .noWriteAllocate)) 9
        [.access (globalRequest 1 0 false) 1, .access (globalRequest 2 0 false) 2, .cycle false,
          .fill (globalRequest 1 0 false) 3, .nextAccess, .access (globalRequest 3 128 false) 4,
          .cycle false, .fill (globalRequest 3 128 false) 5,
          .access (globalRequest 4 0 false) 6, .nextAccess]).isSome = true := by decide +kernel
  obtain ⟨s, hs⟩ := Option.isSome_iff_exists.mp hrun
  have hconserved : OkOr (fun s => MshrConservation s.1 s.2) _ (.ok s) :=
    mshrConservation_of_reachable (reachable_of_observedRun hs)
  exact ⟨s, hs, hconserved⟩

end BaselineCache

end GpuCalorie.Cache
