/-
# Miss status holding registers

An entry of the table has the requests that wait for one block, in the order they came.
Entries are filed under the address their misses are sent for. When its fill arrives an
entry is ready; ready entries are drained one request at a time, in the order of their
fills, and an entry that is empty is released.
-/

import GpuCalorie.Cache.Types
import GpuCalorie.Math.Outcome
import Mathlib.Data.List.AList

namespace GpuCalorie.Cache

open GpuCalorie.Math

/-- `mshr_entry`. -/
structure MshrEntry where
  list : List MemFetch := []
  hasAtomic : Bool := false

/-- `mshr_table`. Its bounds are in the configuration. -/
structure MshrTable where
  data : AList fun _ : Addr => MshrEntry := ∅
  currentResponse : List Addr := []

namespace MshrTable

/-- `probe`. -/
def probe (t : MshrTable) (blockAddr : Addr) : Bool :=
  (t.data.lookup blockAddr).isSome

/-- `full`. -/
def full (cfg : CacheConfig) (t : MshrTable) (blockAddr : Addr) : Bool :=
  match t.data.lookup blockAddr with
  | some entry => decide (cfg.mshrMaxMerge ≤ entry.list.length)
  | none => decide (cfg.mshrEntries ≤ t.data.keys.length)

/-- `add`. -/
def add (cfg : CacheConfig) (t : MshrTable) (blockAddr : Addr) (mf : MemFetch) :
    Except CacheFailure MshrTable :=
  let entry := (t.data.lookup blockAddr).getD {}
  let data := t.data.insert blockAddr ⟨entry.list ++ [mf], entry.hasAtomic || mf.isatomic⟩
  if cfg.mshrEntries < data.keys.length then .error .mshrEntries
  else if cfg.mshrMaxMerge < entry.list.length + 1 then .error .mshrMerged
  else .ok { t with data := data }

/-- The loop of `is_read_after_write_pending`. -/
def readAfterWrite : Bool → List MemFetch → Bool
  | _, [] => false
  | writeFound, mf :: rest =>
    if mf.isWrite then readAfterWrite true rest
    else if writeFound then true
    else readAfterWrite false rest

/-- The requests that wait for a block. -/
def requests (t : MshrTable) (blockAddr : Addr) : List MemFetch :=
  match t.data.lookup blockAddr with
  | some entry => entry.list
  | none => []

/-- `is_read_after_write_pending`, for a block that is pending. -/
def isReadAfterWritePending (t : MshrTable) (blockAddr : Addr) : Bool :=
  readAfterWrite false (t.requests blockAddr)

/-- `mark_ready`: also says whether an atomic waits. -/
def markReady (t : MshrTable) (blockAddr : Addr) : Except CacheFailure (Bool × MshrTable) :=
  match t.data.lookup blockAddr with
  | none => .error .markReadyEntry
  | some entry =>
    if t.data.keys.length < t.currentResponse.length + 1 then .error .markReadySize
    else .ok (entry.hasAtomic, { t with currentResponse := t.currentResponse ++ [blockAddr] })

/-- `next_access`. -/
def nextAccess (t : MshrTable) : Except CacheFailure (MemFetch × MshrTable) :=
  match t.currentResponse with
  | [] => .error .accessReady
  | blockAddr :: rest =>
    match t.data.lookup blockAddr with
    | none => .error .emptyEntry
    | some entry =>
      match entry.list with
      | [] => .error .emptyEntry
      | [mf] => .ok (mf, ⟨t.data.erase blockAddr, rest⟩)
      | mf :: list =>
        .ok (mf, { t with data := t.data.insert blockAddr { entry with list := list } })

/-! ## What the operations do -/

variable {cfg : CacheConfig} {t t' : MshrTable} {a : Addr} {mf : MemFetch} {b : Bool}

theorem probe_iff : t.probe a = true ↔ a ∈ t.data :=
  AList.lookup_isSome

theorem requests_of_notMem (h : a ∉ t.data) : t.requests a = [] := by
  rw [requests, AList.lookup_eq_none.mpr h]

theorem requests_of_lookup {entry : MshrEntry} (h : t.data.lookup a = some entry) :
    t.requests a = entry.list := by
  rw [requests, h]

theorem not_full_of_notMem (h : a ∉ t.data) (hfull : t.full cfg a = false) :
    t.data.keys.length < cfg.mshrEntries := by
  rw [full, AList.lookup_eq_none.mpr h] at hfull
  simpa using hfull

/-- What `add` does: the request is the last that waits for its block. -/
structure Added (cfg : CacheConfig) (t : MshrTable) (a : Addr) (mf : MemFetch) (t' : MshrTable) :
    Prop where
  response : t'.currentResponse = t.currentResponse
  requests_self : t'.requests a = t.requests a ++ [mf]
  requests_ne : ∀ b ≠ a, t'.requests b = t.requests b
  mem : ∀ b, b ∈ t'.data ↔ b = a ∨ b ∈ t.data
  entries : t'.data.keys.length ≤ cfg.mshrEntries
  merged : (t'.requests a).length ≤ cfg.mshrMaxMerge
  atomic_ne : ∀ b ≠ a, t'.data.lookup b = t.data.lookup b
  atomic_self : ∀ entry', t'.data.lookup a = some entry' → entry'.hasAtomic = true →
    mf.isatomic = true ∨ ∃ entry, t.data.lookup a = some entry ∧ entry.hasAtomic = true

theorem add_ok (h : t.add cfg a mf = .ok t') : Added cfg t a mf t' := by
  simp only [add] at h
  split_ifs at h with hentries hmerged
  cases h
  have hlist : ((t.data.lookup a).getD {}).list = t.requests a := by
    rw [requests]
    cases t.data.lookup a <;> rfl
  have hself : requests ⟨t.data.insert a ⟨((t.data.lookup a).getD {}).list ++ [mf],
      ((t.data.lookup a).getD {}).hasAtomic || mf.isatomic⟩, t.currentResponse⟩ a =
        t.requests a ++ [mf] := by
    rw [requests_of_lookup (AList.lookup_insert _), hlist]
  constructor
  case response => rfl
  case requests_self => exact hself
  case requests_ne =>
    intro c hc
    rw [requests, requests, AList.lookup_insert_ne hc]
  case mem => exact fun c => AList.mem_insert t.data
  case entries => exact Nat.not_lt.mp hentries
  case merged =>
    rw [hself, List.length_append, ← hlist]
    exact Nat.not_lt.mp hmerged
  case atomic_ne => exact fun c hc => AList.lookup_insert_ne hc
  case atomic_self =>
    intro entry' hentry' hatomic
    rw [AList.lookup_insert, Option.some.injEq] at hentry'
    rw [← hentry', Bool.or_eq_true] at hatomic
    refine hatomic.symm.imp_right fun hold => ?_
    cases hlookup : t.data.lookup a with
    | none =>
        rw [hlookup] at hold
        cases hold
    | some entry =>
        rw [hlookup] at hold
        exact ⟨entry, rfl, hold⟩

theorem add_spec (mf : MemFetch) (hfull : t.full cfg a = false) :
    OkOr (Added cfg t a mf)
      (fun e => (e = .mshrEntries ∧ cfg.mshrEntries < t.data.keys.length) ∨
        (e = .mshrMerged ∧ cfg.mshrMaxMerge = 0)) (t.add cfg a mf) := by
  apply OkOr.intro
  · exact fun t' => add_ok
  · intro e he
    simp only [add] at he
    split_ifs at he with hentries hmerged
    · cases he
      refine .inl ⟨rfl, ?_⟩
      by_cases hmem : a ∈ t.data
      · rwa [AList.keys_insert, List.length_cons,
          List.length_erase_of_mem (AList.mem_keys.mp hmem),
          Nat.sub_add_cancel (List.length_pos_of_mem (AList.mem_keys.mp hmem))] at hentries
      · have hroom := not_full_of_notMem hmem hfull
        rw [AList.keys_insert, List.length_cons,
          List.erase_of_not_mem (fun h => hmem (AList.mem_keys.mpr h))] at hentries
        omega
    · cases he
      refine .inr ⟨rfl, ?_⟩
      cases hlookup : t.data.lookup a with
      | none =>
          rw [hlookup] at hmerged
          exact Nat.lt_one_iff.mp hmerged
      | some entry =>
          rw [full, hlookup] at hfull
          rw [hlookup, Option.getD_some] at hmerged
          simp only [decide_eq_false_iff_not] at hfull
          omega

theorem markReady_ok (h : t.markReady a = .ok (b, t')) :
    t' = { t with currentResponse := t.currentResponse ++ [a] } ∧
      ∃ entry, t.data.lookup a = some entry ∧ entry.hasAtomic = b := by
  rw [markReady] at h
  cases hlookup : t.data.lookup a with
  | none =>
      rw [hlookup] at h
      cases h
  | some entry =>
      rw [hlookup] at h
      simp only at h
      split_ifs at h
      cases h
      exact ⟨rfl, entry, rfl, rfl⟩

theorem markReady_error {e : CacheFailure} (h : t.markReady a = .error e) :
    (e = .markReadyEntry ∨ e = .markReadySize) ∧
      (a ∉ t.data ∨ t.data.keys.length ≤ t.currentResponse.length) := by
  rw [markReady] at h
  cases hlookup : t.data.lookup a with
  | none =>
      rw [hlookup] at h
      cases h
      exact ⟨.inl rfl, .inl (AList.lookup_eq_none.mp hlookup)⟩
  | some entry =>
      rw [hlookup] at h
      simp only at h
      split_ifs at h with hsize
      cases h
      exact ⟨.inr rfl, .inr (Nat.lt_succ_iff.mp hsize)⟩

/-- What `next_access` does: it takes the first request of the entry that became ready
first. -/
structure Drained (t : MshrTable) (a : Addr) (rest : List Addr) (mf : MemFetch)
    (list : List MemFetch) (t' : MshrTable) : Prop where
  ready : t.currentResponse = a :: rest
  requests_before : t.requests a = mf :: list
  requests_self : t'.requests a = list
  requests_ne : ∀ b ≠ a, t'.requests b = t.requests b
  response : t'.currentResponse = if list = [] then rest else a :: rest
  mem : ∀ b, b ∈ t'.data ↔ b ∈ t.data ∧ (b = a → list ≠ [])
  keys : t'.data.keys.length ≤ t.data.keys.length
  atomic : ∀ b entry', t'.data.lookup b = some entry' → ∃ entry, t.data.lookup b = some entry ∧
    entry.hasAtomic = entry'.hasAtomic

theorem nextAccess_ok (h : t.nextAccess = .ok (mf, t')) :
    ∃ a rest list, Drained t a rest mf list t' := by
  rw [nextAccess] at h
  cases hready : t.currentResponse with
  | nil =>
      rw [hready] at h
      cases h
  | cons a rest =>
      rw [hready] at h
      simp only at h
      cases hlookup : t.data.lookup a with
      | none =>
          rw [hlookup] at h
          cases h
      | some entry =>
          have hmem : a ∈ t.data := AList.lookup_isSome.mp (by rw [hlookup]; rfl)
          obtain ⟨list, hasAtomic⟩ := entry
          rw [hlookup] at h
          cases list with
          | nil => cases h
          | cons first list =>
              cases list with
              | nil =>
                  cases h
                  refine ⟨a, rest, [], hready, requests_of_lookup hlookup, ?_, ?_, rfl, ?_, ?_, ?_⟩
                  · exact requests_of_notMem fun hc => (AList.mem_erase.mp hc).1 rfl
                  · intro c hc
                    rw [requests, requests, AList.lookup_erase_ne hc]
                  · intro c
                    rw [AList.mem_erase, and_comm]
                    simp
                  · rw [AList.keys_erase]
                    exact List.length_erase_le
                  · intro c entry' hentry'
                    by_cases hc : c = a
                    · rw [hc, AList.lookup_erase] at hentry'
                      cases hentry'
                    · rw [AList.lookup_erase_ne hc] at hentry'
                      exact ⟨entry', hentry', rfl⟩
              | cons second list =>
                  cases h
                  refine ⟨a, rest, second :: list, hready, requests_of_lookup hlookup, ?_, ?_, ?_,
                    ?_,
                    ?_, ?_⟩
                  · rw [requests, AList.lookup_insert]
                  · intro c hc
                    rw [requests, requests, AList.lookup_insert_ne hc]
                  · simp
                  · intro c
                    rw [AList.mem_insert]
                    constructor
                    · rintro (rfl | hc)
                      · exact ⟨hmem, fun _ => List.cons_ne_nil _ _⟩
                      · exact ⟨hc, fun _ => List.cons_ne_nil _ _⟩
                    · exact fun hc => .inr hc.1
                  · rw [AList.keys_insert, List.length_cons,
                      List.length_erase_of_mem (AList.mem_keys.mp hmem)]
                    have hpos := List.length_pos_of_mem (AList.mem_keys.mp hmem)
                    omega
                  · intro c entry' hentry'
                    by_cases hc : c = a
                    · rw [hc, AList.lookup_insert, Option.some.injEq] at hentry'
                      exact ⟨_, hc ▸ hlookup, by rw [← hentry']⟩
                    · rw [AList.lookup_insert_ne hc] at hentry'
                      exact ⟨entry', hentry', rfl⟩

theorem nextAccess_error {e : CacheFailure} (h : t.nextAccess = .error e)
    (hready : t.currentResponse ≠ []) :
    e = .emptyEntry ∧ ∀ a rest, t.currentResponse = a :: rest → t.requests a = [] := by
  rw [nextAccess] at h
  cases hresponse : t.currentResponse with
  | nil => exact absurd hresponse hready
  | cons a rest =>
      rw [hresponse] at h
      simp only at h
      cases hlookup : t.data.lookup a with
      | none =>
          rw [hlookup] at h
          cases h
          refine ⟨rfl, ?_⟩
          rintro a' rest' heq
          obtain ⟨rfl, -⟩ := List.cons.inj heq
          exact requests_of_notMem (AList.lookup_eq_none.mp hlookup)
      | some entry =>
          obtain ⟨list, hasAtomic⟩ := entry
          rw [hlookup] at h
          cases list with
          | nil =>
              cases h
              refine ⟨rfl, ?_⟩
              rintro a' rest' heq
              obtain ⟨rfl, -⟩ := List.cons.inj heq
              exact requests_of_lookup hlookup
          | cons first list => cases list <;> cases h

end MshrTable

end GpuCalorie.Cache
