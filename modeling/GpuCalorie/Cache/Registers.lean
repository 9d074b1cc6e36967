/-
# Registers and records

The state of the misses is spread over the table of the registers, the list of the entries
that are ready and the records of the requests that were sent. `RegistersInvariant` says how
they belong together: each entry that is not ready has one record, and the other way round.
No assertion of the table is tripped then.
-/

import GpuCalorie.Cache.Machine

namespace GpuCalorie.Cache

open GpuCalorie.Math

/-- What a record says of its request. -/
structure ExtraMfFields.WellFormed (cfg : CacheConfig) (e : ExtraMfFields) : Prop where
  addr : e.addr = e.mf.addr
  blockAddr : e.blockAddr = cfg.mshrAddr e.mf.addr
  accepts : cfg.Accepts e.mf

namespace BaselineCache

variable {cfg : CacheConfig} {kind : CacheKind} {c c' : BaselineCache cfg}

/-- The registers, the entries that are ready and the records belong together. -/
structure RegistersInvariant (c : BaselineCache cfg) : Prop where
  pending : ∀ a ∈ c.mshrs.data, c.mshrs.requests a ≠ []
  response_nodup : c.mshrs.currentResponse.Nodup
  response_mem : ∀ a ∈ c.mshrs.currentResponse, a ∈ c.mshrs.data
  entries_le : c.mshrs.data.keys.length ≤ cfg.mshrEntries
  merged_le : ∀ a, (c.mshrs.requests a).length ≤ cfg.mshrMaxMerge
  record_lt : ∀ uid e, c.extraMfFields uid = some e → uid < c.nextUid
  record_wellFormed : ∀ uid e, c.extraMfFields uid = some e → e.WellFormed cfg
  record_waits : ∀ uid e, c.extraMfFields uid = some e →
    e.blockAddr ∈ c.mshrs.data ∧ e.blockAddr ∉ c.mshrs.currentResponse
  record_unique : ∀ uid uid' e e', c.extraMfFields uid = some e → c.extraMfFields uid' = some e' →
    e.blockAddr = e'.blockAddr → uid = uid'
  entry_record : ∀ a ∈ c.mshrs.data, a ∉ c.mshrs.currentResponse →
    ∃ uid e, c.extraMfFields uid = some e ∧ e.blockAddr = a

/-- The assertions of the registers. That entries have room for their first request is up to
the configuration. -/
def RegistersFailure (cfg : CacheConfig) (e : CacheFailure) : Prop :=
  e = .markReadyEntry ∨ e = .markReadySize ∨ e = .emptyEntry ∨ e = .accessReady ∨ e = .mshrEntries ∨
    (e = .mshrMerged ∧ cfg.mshrMaxMerge ≠ 0)

namespace RegistersInvariant

theorem empty (n : ℕ) : RegistersInvariant ({ nextUid := n } : BaselineCache cfg) where
  pending a ha := absurd ha (AList.notMem_empty a)
  response_nodup := List.nodup_nil
  response_mem _ ha := absurd ha List.not_mem_nil
  entries_le := Nat.zero_le _
  merged_le _ := Nat.zero_le _
  record_lt _ _ he := by cases he
  record_wellFormed _ _ he := by cases he
  record_waits _ _ he := by cases he
  record_unique _ _ _ _ he := by cases he
  entry_record a ha := absurd ha (AList.notMem_empty a)

theorem of_kept (h : c.RegistersInvariant) (kept : MissesKept c c') : c'.RegistersInvariant where
  pending := by simpa only [kept.mshrs] using h.pending
  response_nodup := by simpa only [kept.mshrs] using h.response_nodup
  response_mem := by simpa only [kept.mshrs] using h.response_mem
  entries_le := by simpa only [kept.mshrs] using h.entries_le
  merged_le := by simpa only [kept.mshrs] using h.merged_le
  record_lt uid e he := by
    rw [kept.extraMfFields] at he
    exact (h.record_lt uid e he).trans_le kept.nextUid
  record_wellFormed := by simpa only [kept.extraMfFields] using h.record_wellFormed
  record_waits := by simpa only [kept.mshrs, kept.extraMfFields] using h.record_waits
  record_unique := by simpa only [kept.extraMfFields] using h.record_unique
  entry_record := by simpa only [kept.mshrs, kept.extraMfFields] using h.entry_record

/-! ## A miss -/

section Added
variable {uid : ℕ}

variable {e : ExtraMfFields}


variable {a : Addr} {mf : MemFetch} (h : c.RegistersInvariant)
  (added : MshrTable.Added cfg c.mshrs a mf c'.mshrs)
include h added

theorem pending_added : ∀ b ∈ c'.mshrs.data, c'.mshrs.requests b ≠ [] := by
  intro b hb
  by_cases hba : b = a
  · rw [hba, added.requests_self]
    simp
  · rw [added.requests_ne b hba]
    exact h.pending b (((added.mem b).mp hb).resolve_left hba)

theorem merged_le_added : ∀ b, (c'.mshrs.requests b).length ≤ cfg.mshrMaxMerge := by
  intro b
  by_cases hba : b = a
  · rw [hba]
    exact added.merged
  · rw [added.requests_ne b hba]
    exact h.merged_le b

theorem of_merged (hmem : a ∈ c.mshrs.data) (hextra : c'.extraMfFields = c.extraMfFields)
    (hnext : c.nextUid ≤ c'.nextUid) : c'.RegistersInvariant := by
  have hdata : ∀ b, b ∈ c'.mshrs.data ↔ b ∈ c.mshrs.data := by
    intro b
    rw [added.mem]
    exact or_iff_right_of_imp fun hb => hb ▸ hmem
  exact
    { pending := h.pending_added added
      response_nodup := by
        rw [added.response]
        exact h.response_nodup
      response_mem := by
        intro b hb
        rw [added.response] at hb
        exact (hdata b).mpr (h.response_mem b hb)
      entries_le := added.entries
      merged_le := h.merged_le_added added
      record_lt := by
        intro uid e he
        rw [hextra] at he
        exact (h.record_lt uid e he).trans_le hnext
      record_wellFormed := by simpa only [hextra] using h.record_wellFormed
      record_waits := by
        intro uid e he
        rw [hextra] at he
        rw [hdata, added.response]
        exact h.record_waits uid e he
      record_unique := by simpa only [hextra] using h.record_unique
      entry_record := by
        intro b hb hready
        rw [added.response] at hready
        rw [hextra]
        exact h.entry_record b ((hdata b).mp hb) hready }

theorem of_sent (hmem : a ∉ c.mshrs.data)
    (hextra : c'.extraMfFields = Function.update c.extraMfFields uid (some e))
    (hnew : c.extraMfFields uid = none) (hwf : e.WellFormed cfg) (hblock : e.blockAddr = a)
    (huid : uid < c'.nextUid) (hnext : c.nextUid ≤ c'.nextUid) : c'.RegistersInvariant := by
  -- a record is the new one or an old one, whose block is another
  have hcases : ∀ u r, c'.extraMfFields u = some r →
      (u = uid ∧ r = e) ∨ (u ≠ uid ∧ c.extraMfFields u = some r ∧ r.blockAddr ≠ a) := by
    intro u r hr
    rw [hextra] at hr
    by_cases hu : u = uid
    · rw [hu, Function.update_self, Option.some.injEq] at hr
      exact .inl ⟨hu, hr.symm⟩
    · rw [Function.update_of_ne hu] at hr
      exact .inr ⟨hu, hr, fun hra => hmem (hra ▸ (h.record_waits u r hr).1)⟩
  have hready : a ∉ c.mshrs.currentResponse := fun hr => hmem (h.response_mem a hr)
  exact
    { pending := h.pending_added added
      response_nodup := by
        rw [added.response]
        exact h.response_nodup
      response_mem := by
        intro b hb
        rw [added.response] at hb
        exact (added.mem b).mpr (.inr (h.response_mem b hb))
      entries_le := added.entries
      merged_le := h.merged_le_added added
      record_lt := by
        intro u r hr
        rcases hcases u r hr with ⟨rfl, -⟩ | ⟨-, hr, -⟩
        · exact huid
        · exact (h.record_lt u r hr).trans_le hnext
      record_wellFormed := by
        intro u r hr
        rcases hcases u r hr with ⟨-, rfl⟩ | ⟨-, hr, -⟩
        · exact hwf
        · exact h.record_wellFormed u r hr
      record_waits := by
        intro u r hr
        rw [added.mem, added.response]
        rcases hcases u r hr with ⟨-, rfl⟩ | ⟨-, hr, -⟩
        · rw [hblock]
          exact ⟨.inl rfl, hready⟩
        · exact ⟨.inr (h.record_waits u r hr).1, (h.record_waits u r hr).2⟩
      record_unique := by
        intro u u' r r' hr hr' hsame
        rcases hcases u r hr with ⟨hu, hre⟩ | ⟨-, hr, hra⟩ <;>
          rcases hcases u' r' hr' with ⟨hu', hre'⟩ | ⟨-, hr', hra'⟩
        · exact hu.trans hu'.symm
        · exact absurd (hsame.symm.trans (hre ▸ hblock)) hra'
        · exact absurd (hsame.trans (hre' ▸ hblock)) hra
        · exact h.record_unique u u' r r' hr hr' hsame
      entry_record := by
        intro b hb hbready
        rw [added.response] at hbready
        rcases (added.mem b).mp hb with rfl | hb
        · exact ⟨uid, e, by rw [hextra, Function.update_self], hblock⟩
        · obtain ⟨u, r, hr, hrb⟩ := h.entry_record b hb hbready
          have hu : u ≠ uid := by
            rintro rfl
            rw [hnew] at hr
            cases hr
          exact ⟨u, r, by rw [hextra, Function.update_of_ne hu, hr], hrb⟩ }

end Added

section

variable (h : c.RegistersInvariant)
include h

theorem accessed {mf : MemFetch} {time : UInt32}
    (henabled : c.Enabled (.access mf time)) (ha : Accessed kind c mf time c') :
    c'.RegistersInvariant := by
  cases ha with
  | readHit _ _ _ _ _ kept => exact h.of_kept kept
  | atomicHit _ _ _ _ _ _ _ _ kept => exact h.of_kept kept
  | writeHit _ _ _ _ _ _ _ _ kept => exact h.of_kept kept
  | writeEvict _ _ _ _ _ _ kept => exact h.of_kept kept
  | writeAround _ _ kept => exact h.of_kept kept
  | written _ _ _ _ _ _ _ _ _ kept => exact h.of_kept kept
  | @fetched r plan _ planned _ _ _ _ _ _ _ _ added _ missTaken nextUid uid_lt _ =>
      have hfor := missPlan_for planned
      rcases missTaken with ⟨hmem, hextra, -⟩ | ⟨hmem, hextra, -⟩
      · exact h.of_merged added hmem hextra nextUid
      · have hnew : c.extraMfFields plan.request.uid = none := by
          rcases hfor.uid with hreq | ⟨hreq, -⟩
          · rw [hreq]
            exact henabled.2.1
          · rw [hreq, Option.eq_none_iff_forall_ne_some]
            exact fun e he => lt_irrefl _ (h.record_lt _ e he)
        have huid : plan.request.uid < c'.nextUid := by
          rcases uid_lt with hreq | hlt
          · rw [hreq]
            exact henabled.1.trans_le nextUid
          · rcases hfor.uid with hreq | ⟨hreq, -⟩
            · rw [hreq]
              exact henabled.1.trans_le nextUid
            · rwa [hreq]
        have hwf : (ExtraMfFields.new cfg plan.request r.idx).WellFormed cfg :=
          { addr := rfl
            blockAddr := rfl
            accepts := fun hsector => by
              show plan.request.sectorMask = {sectorOf plan.request.addr}
              rw [hfor.sectorMask, hfor.addr]
              exact henabled.2.2 hsector }
        exact h.of_sent added hmem hextra hnew hwf (congrArg cfg.mshrAddr hfor.addr) huid nextUid

/-! ## Fills and served requests -/

theorem partlyFilled (hp : PartlyFilled c uid e c') : c'.RegistersInvariant := by
  obtain ⟨n, hextra⟩ := hp.extraMfFields
  -- the records are the same but for a counter
  have hcases : ∀ u r, c'.extraMfFields u = some r → ∃ r₀, c.extraMfFields u = some r₀ ∧
      r.mf = r₀.mf ∧ r.addr = r₀.addr ∧ r.blockAddr = r₀.blockAddr := by
    intro u r hr
    rw [hextra] at hr
    by_cases hu : u = uid
    · rw [hu, Function.update_self, Option.some.injEq] at hr
      subst hr
      exact ⟨e, hu ▸ hp.record, rfl, rfl, rfl⟩
    · rw [Function.update_of_ne hu] at hr
      exact ⟨r, hr, rfl, rfl, rfl⟩
  exact
    { pending := by simpa only [hp.mshrs] using h.pending
      response_nodup := by simpa only [hp.mshrs] using h.response_nodup
      response_mem := by simpa only [hp.mshrs] using h.response_mem
      entries_le := by simpa only [hp.mshrs] using h.entries_le
      merged_le := by simpa only [hp.mshrs] using h.merged_le
      record_lt := by
        intro u r hr
        obtain ⟨r₀, hr₀, -⟩ := hcases u r hr
        rw [hp.nextUid]
        exact h.record_lt u r₀ hr₀
      record_wellFormed := by
        intro u r hr
        obtain ⟨r₀, hr₀, hmf, haddr, hblock⟩ := hcases u r hr
        have hwf := h.record_wellFormed u r₀ hr₀
        exact ⟨by rw [haddr, hmf, hwf.addr], by rw [hblock, hmf, hwf.blockAddr],
          by rw [hmf]; exact hwf.accepts⟩
      record_waits := by
        intro u r hr
        obtain ⟨r₀, hr₀, -, -, hblock⟩ := hcases u r hr
        rw [hp.mshrs, hblock]
        exact h.record_waits u r₀ hr₀
      record_unique := by
        intro u u' r r' hr hr' hsame
        obtain ⟨r₀, hr₀, -, -, hblock⟩ := hcases u r hr
        obtain ⟨r₀', hr₀', -, -, hblock'⟩ := hcases u' r' hr'
        exact h.record_unique u u' r₀ r₀' hr₀ hr₀' (by rw [← hblock, ← hblock', hsame])
      entry_record := by
        intro a ha hready
        rw [hp.mshrs] at ha hready
        obtain ⟨u, r, hr, hra⟩ := h.entry_record a ha hready
        by_cases hu : u = uid
        · rw [hu, hp.record, Option.some.injEq] at hr
          exact ⟨uid, { e with pendingRead := n }, by rw [hextra, Function.update_self], hr ▸ hra⟩
        · exact ⟨u, r, by rw [hextra, Function.update_of_ne hu, hr], hra⟩ }

theorem filled {time : UInt32} (hf : Filled c uid e time c') : c'.RegistersInvariant := by
  obtain ⟨hmem, hready⟩ := h.record_waits uid e hf.record
  have hold : ∀ u r, c'.extraMfFields u = some r → u ≠ uid ∧ c.extraMfFields u = some r := by
    intro u r hr
    rw [hf.extraMfFields] at hr
    by_cases hu : u = uid
    · rw [hu, Function.update_self] at hr
      cases hr
    · rw [Function.update_of_ne hu] at hr
      exact ⟨hu, hr⟩
  have hmshrs := hf.mshrs
  exact
    { pending := by
        rw [hmshrs]
        exact h.pending
      response_nodup := by
        rw [hmshrs]
        exact List.nodup_append.mpr ⟨h.response_nodup, List.nodup_singleton _, by
          intro b hb b' hb'
          rw [List.mem_singleton.mp hb']
          exact fun hbe => hready (hbe ▸ hb)⟩
      response_mem := by
        rw [hmshrs]
        intro a ha
        rcases List.mem_append.mp ha with ha | ha
        · exact h.response_mem a ha
        · rw [List.mem_singleton.mp ha]
          exact hmem
      entries_le := by
        rw [hmshrs]
        exact h.entries_le
      merged_le := by
        rw [hmshrs]
        exact h.merged_le
      record_lt := by
        intro u r hr
        rw [hf.nextUid]
        exact h.record_lt u r (hold u r hr).2
      record_wellFormed := fun u r hr => h.record_wellFormed u r (hold u r hr).2
      record_waits := by
        intro u r hr
        obtain ⟨hu, hr⟩ := hold u r hr
        rw [hmshrs]
        refine ⟨(h.record_waits u r hr).1, fun hmem => ?_⟩
        rcases List.mem_append.mp hmem with hmem | hmem
        · exact (h.record_waits u r hr).2 hmem
        · exact hu (h.record_unique u uid r e hr hf.record (List.mem_singleton.mp hmem))
      record_unique := fun u u' r r' hr hr' =>
        h.record_unique u u' r r' (hold u r hr).2 (hold u' r' hr').2
      entry_record := by
        rw [hmshrs]
        intro a ha hnot
        have hane : a ≠ e.blockAddr := fun hae => hnot (by simp [hae])
        obtain ⟨u, r, hr, hra⟩ := h.entry_record a ha fun hmem => hnot (List.mem_append_left _ hmem)
        have hu : u ≠ uid := by
          rintro rfl
          rw [hf.record, Option.some.injEq] at hr
          exact hane (hr ▸ hra).symm
        exact ⟨u, r, by rw [hf.extraMfFields, Function.update_of_ne hu, hr], hra⟩ }

theorem drained {a : Addr} {rest : List Addr} {mf : MemFetch} {list : List MemFetch}
    (hd : MshrTable.Drained c.mshrs a rest mf list c'.mshrs)
    (hextra : c'.extraMfFields = c.extraMfFields) (hnext : c'.nextUid = c.nextUid) :
    c'.RegistersInvariant := by
  have hnodup := h.response_nodup
  rw [hd.ready, List.nodup_cons] at hnodup
  -- the entry that was ready first stays so or is gone
  have hready : ∀ b, b ∈ c'.mshrs.currentResponse ↔
      b ∈ c.mshrs.currentResponse ∧ (b = a → list ≠ []) := by
    intro b
    rw [hd.response, hd.ready]
    by_cases hlist : list = []
    · rw [if_pos hlist, List.mem_cons]
      constructor
      · exact fun hb => ⟨.inr hb, fun hba => absurd (hba ▸ hb) hnodup.1⟩
      · exact fun hb => hb.1.resolve_left fun hba => hb.2 hba hlist
    · rw [if_neg hlist]
      exact (and_iff_left fun _ => hlist).symm
  exact
    { pending := by
        intro b hb
        obtain ⟨hb, hne⟩ := (hd.mem b).mp hb
        by_cases hba : b = a
        · rw [hba, hd.requests_self]
          exact hne hba
        · rw [hd.requests_ne b hba]
          exact h.pending b hb
      response_nodup := by
        rw [hd.response]
        split_ifs
        · exact hnodup.2
        · exact List.nodup_cons.mpr hnodup
      response_mem := by
        intro b hb
        obtain ⟨hb, hne⟩ := (hready b).mp hb
        exact (hd.mem b).mpr ⟨h.response_mem b hb, hne⟩
      entries_le := hd.keys.trans h.entries_le
      merged_le := by
        intro b
        by_cases hba : b = a
        · have hmerged := h.merged_le a
          rw [hd.requests_before, List.length_cons] at hmerged
          rw [hba, hd.requests_self]
          omega
        · rw [hd.requests_ne b hba]
          exact h.merged_le b
      record_lt := by simpa only [hextra, hnext] using h.record_lt
      record_wellFormed := by simpa only [hextra] using h.record_wellFormed
      record_waits := by
        intro u r hr
        rw [hextra] at hr
        obtain ⟨hmem, hnot⟩ := h.record_waits u r hr
        have hne : r.blockAddr ≠ a := fun hra =>
          hnot (by rw [hra, hd.ready]; exact List.mem_cons_self)
        exact ⟨(hd.mem _).mpr ⟨hmem, fun hra => absurd hra hne⟩, fun hb =>
          hnot ((hready _).mp hb).1⟩
      record_unique := by simpa only [hextra] using h.record_unique
      entry_record := by
        intro b hb hnot
        obtain ⟨hb, hne⟩ := (hd.mem b).mp hb
        rw [hextra]
        exact h.entry_record b hb fun hmem => hnot ((hready b).mpr ⟨hmem, hne⟩) }

/-! ## Runs -/

theorem stepped {a : CacheAction} (henabled : c.Enabled a)
    (hs : Stepped kind c a c') : c'.RegistersInvariant := by
  cases hs with
  | refused => exact h
  | accessed _ _ ha => exact h.accessed henabled ha
  | cycled _ kept => exact h.of_kept kept
  | partlyFilled hp => exact h.partlyFilled hp
  | filled _ _ hf => exact h.filled hf
  | drained _ _ hd hextra _ hnext => exact h.drained hd hextra hnext

theorem markReady (he : c.extraMfFields uid = some e) : ¬ c.MarkReadyFails e := by
  obtain ⟨hmem, hready⟩ := h.record_waits uid e he
  rintro (hnot | hlength)
  · exact hnot hmem
  · have hnodup : (e.blockAddr :: c.mshrs.currentResponse).Nodup :=
      List.nodup_cons.mpr ⟨hready, h.response_nodup⟩
    have hsubset : e.blockAddr :: c.mshrs.currentResponse ⊆ c.mshrs.data.keys := by
      intro b hb
      rcases List.mem_cons.mp hb with rfl | hb
      · exact AList.mem_keys.mp hmem
      · exact AList.mem_keys.mp (h.response_mem b hb)
    have hle := (List.subperm_of_subset hnodup hsubset).length_le
    rw [List.length_cons] at hle
    omega

theorem not_registersFailure {a : CacheAction} {e : CacheFailure}
    (henabled : c.Enabled a) (he : c.StepFailure a e) : ¬ RegistersFailure cfg e := by
  cases a with
  | access mf time =>
      rcases he with he | ⟨rfl, hlt⟩ | ⟨rfl, hzero⟩
      · rintro (rfl | rfl | rfl | rfl | rfl | ⟨rfl, -⟩) <;> simp [accessFailures, tagFailures] at he
      · exact absurd h.entries_le (Nat.not_le.mpr hlt)
      · simp [RegistersFailure, hzero]
  | cycle memportFull => exact he.elim
  | fill reply time =>
      obtain ⟨uid, r, hr, hmem, hready⟩ := he
      have hnot := mt hready (h.markReady hr)
      rintro (rfl | rfl | rfl | rfl | rfl | ⟨rfl, -⟩)
      · exact hnot (.inl rfl)
      · exact hnot (.inr rfl)
      all_goals simp [fillFailures, tagFailures] at hmem
  | nextAccess =>
      cases hready : c.mshrs.currentResponse with
      | nil => exact absurd hready henabled
      | cons b rest =>
          have hmem : b ∈ c.mshrs.data := h.response_mem b (hready ▸ List.mem_cons_self)
          exact absurd (he.2 b rest hready) (h.pending b hmem)

end

theorem of_reachable {x : Except CacheFailure (BaselineCache cfg)}
    (reached : (cacheSystem kind cfg).Reachable x) :
    OkOr RegistersInvariant (fun e => ¬ RegistersFailure cfg e) x := by
  apply invariant_of_reachable _ _ _ reached
  · exact empty
  · exact fun c a c' h henabled hs => h.stepped henabled hs
  · exact fun c a e h henabled he => h.not_registersFailure henabled he

end RegistersInvariant

end BaselineCache

end GpuCalorie.Cache
