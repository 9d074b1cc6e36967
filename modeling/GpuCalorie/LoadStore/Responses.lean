/-
# Routes of responses

A response is handed on by the route its request was sent by, so long as no response comes
back that is misrouted. The L1 then finds the record of what it is given.
-/

import GpuCalorie.LoadStore.Requests

namespace GpuCalorie.LoadStore.LdstUnit

open GpuCalorie.Math Hardware Cache

variable {cfg : LdstConfig} {s s' : LdstUnit cfg} {mf : MemFetch}

/-! ## Responses -/

section

variable (h : s.RoutingInvariant) {rest : List MemFetch}
include h

theorem RoutingInvariant.deliver {route : Route}
    {c : BaselineCache cfg.l1dConfig} {next : Option MemFetch}
    (hrest : ∀ mf' ∈ rest, mf' ∈ s.responseFifo) (hsent : s.ReadSent (requestUid mf) route)
    (hkept : ∀ uid, s.l1d.HasRecord uid → c.HasRecord uid ∨ (route = .l1d ∧ uid = requestUid mf))
    (hrecords : ∀ uid, c.HasRecord uid → s.l1d.HasRecord uid)
    (hqueue : c.missQueue = s.l1d.missQueue) (hnext : c.nextUid = s.l1d.nextUid) :
    RoutingInvariant { s with
      responseFifo := rest
      nextGlobal := next
      l1d := c
      log := s.log ++ [.delivered (requestUid mf) route] } := by
  let t : LdstUnit cfg := { s with
    responseFifo := rest
    nextGlobal := next
    l1d := c
    log := s.log ++ [.delivered (requestUid mf) route] }
  have hsent' : ∀ uid route, t.ReadSent uid route ↔ s.ReadSent uid route := by
    intro uid route
    show _ ∈ s.log ++ [_] ↔ _
    simp [ReadSent]
  have hdelivered : ∀ uid route', t.Delivered uid route' ↔
      s.Delivered uid route' ∨ (uid = requestUid mf ∧ route' = route) := by
    intro uid route'
    show _ ∈ s.log ++ [_] ↔ _
    simp only [List.mem_append, List.mem_singleton, RouteEvent.delivered.injEq]
    rfl
  have hwaits : ∀ uid, s.Waits uid → t.Waits uid := by
    rintro uid (hrecord | hold)
    · rcases hkept uid hrecord with hrecord | ⟨rfl, rfl⟩
      · exact .inl hrecord
      · exact .inr ((hdelivered _ _).mpr (.inr ⟨rfl, rfl⟩))
    · exact .inr ((hdelivered _ _).mpr (.inl hold))
  have hsector : ∀ uid, t.SectorUid uid → s.SectorUid uid := by
    rintro uid ⟨mf', hmem, huid⟩
    exact ⟨mf', hmem.imp_right (hrest mf'), huid⟩
  have he : Extends s t :=
    { nextUid := hnext.ge
      cacheOp := fun _ _ => rfl
      sent := fun uid route => (hsent' uid route).mpr
      bypass := fun uid hbypass => .inl ((hsent' uid .bypass).mp hbypass)
      waits := hwaits
      sector := fun uid huid => .inl (hsector uid huid) }
  exact
    { unusedOp := fun uid huid => h.unusedOp uid (hnext ▸ huid)
      record_lt := fun uid hrecord => (h.record_lt uid (hrecords uid hrecord)).trans_eq hnext.symm
      sent_lt := fun uid route hold =>
        (h.sent_lt uid route ((hsent' uid route).mp hold)).trans_eq hnext.symm
      sector_lt := fun uid huid => (h.sector_lt uid (hsector uid huid)).trans_eq hnext.symm
      record_notSector := fun uid hrecord huid =>
        h.record_notSector uid (hrecords uid hrecord) (hsector uid huid)
      once := fun uid hl1d hbypass =>
        h.once uid ((hsent' uid .l1d).mp hl1d) ((hsent' uid .bypass).mp hbypass)
      delivered := fun uid route' hd => (hsent' uid route').mpr (by
        rcases (hdelivered uid route').mp hd with hold | ⟨rfl, rfl⟩
        · exact h.delivered uid route' hold
        · exact hsent)
      bypassed := fun uid hbypass hrecord =>
        h.bypassed uid ((hsent' uid .bypass).mp hbypass) (hrecords uid hrecord)
      waits := fun uid hl1d => hwaits uid (h.waits uid ((hsent' uid .l1d).mp hl1d))
      fits := by
        intro place mf' hheld hread
        cases place with
        | responseFifo => exact (h.fits .responseFifo mf' (hrest mf' hheld) hread).extend he
        | missQueue =>
            have hmem : mf' ∈ c.missQueue := hheld
            rw [hqueue] at hmem
            exact (h.fits .missQueue mf' hmem hread).extend he
        | latencyQueue => exact (h.fits .latencyQueue mf' hheld hread).extend he
        | icnt => exact (h.fits .icnt mf' hheld hread).extend he
        | memory => exact (h.fits .memory mf' hheld hread).extend he }

theorem RoutingInvariant.uid_of_fills {uid : ℕ}
    (hmem : mf ∈ s.responseFifo) (hread : mf.isWrite = false)
    (huid : BaselineCache.replyUid cfg.l1dConfig mf = some uid) (hrecord : s.l1d.HasRecord uid) :
    uid = requestUid mf := by
  rw [BaselineCache.replyUid] at huid
  cases hmshr : cfg.l1dConfig.mshrType with
  | assoc =>
      rw [hmshr] at huid
      cases huid
      cases horiginal : mf.originalMf with
      | none => rw [requestUid, horiginal]; rfl
      | some original =>
          -- there is no record for a request of a sub-partition
          have hsector : s.SectorUid mf.uid := ⟨mf, .inr hmem, hread, by rw [horiginal]; rfl, rfl⟩
          exact absurd hsector (h.record_notSector _ hrecord)
  | sectorAssoc =>
      rw [hmshr] at huid
      rw [requestUid, show mf.originalMf = some uid from huid]
      rfl

theorem RoutingInvariant.routeResponse
    (hfifo : s.responseFifo = mf :: rest) (hread : mf.isWrite = false) (hother : ¬ IsOther mf)
    (time : UInt32) :
    OkOr RoutingInvariant (fun _ => True) (s.routeResponse mf rest time) := by
  have hmem : mf ∈ s.responseFifo := by rw [hfifo]; exact List.mem_cons_self
  have hrest : ∀ mf' ∈ rest, mf' ∈ s.responseFifo := fun mf' hmf' => by
    rw [hfifo]
    exact List.mem_cons_of_mem mf hmf'
  obtain ⟨hflight, hroutes⟩ := h.fits .responseFifo mf hmem hread hother
  have hdecided := hflight.responseBypass_eq hroutes
  obtain ⟨route, hsent, hroute⟩ := hflight.sent
  rw [← hdecided] at hroute
  rw [LdstUnit.routeResponse]
  apply OkOr.ite
  · intro hbypass
    rw [hroute.mp hbypass] at hsent
    apply OkOr.ite
    · intro _
      exact h.deliver hrest hsent (fun uid => .inl) (fun _ => id) rfl rfl
    · exact fun _ => h
  · intro hthrough
    apply OkOr.ite
    · intro _
      have hl1d : route = .l1d := by
        cases route with
        | l1d => rfl
        | bypass => exact absurd (hroute.mpr rfl) hthrough
      rw [hl1d] at hsent
      cases hfill : s.l1d.fill mf time with
      | error e => trivial
      | ok c =>
          obtain ⟨uid, huid, hfills⟩ := BaselineCache.fills_of_fill hfill
          have heq := h.uid_of_fills hmem hread huid hfills.record
          refine h.deliver hrest hsent (fun other hrecord => ?_) (fun other hrecord => ?_)
            hfills.queue hfills.nextUid
          · by_cases hne : other = uid
            · exact .inr ⟨rfl, hne.trans heq⟩
            · exact .inl ((hfills.others other hne).mpr hrecord)
          · by_cases hne : other = uid
            · rw [hne]
              exact hfills.record
            · exact (hfills.others other hne).mp hrecord
    · exact fun _ => h

theorem RoutingInvariant.of_responseFifo (hrest : ∀ mf ∈ rest, mf ∈ s.responseFifo) :
    RoutingInvariant { s with responseFifo := rest } := by
  refine h.of_moves rfl rfl rfl rfl ?_ fun place mf hheld hread => ?_
  · rintro uid ⟨mf, hmem, huid⟩
    exact ⟨mf, hmem.imp_right (hrest mf), huid⟩
  · cases place with
    | responseFifo => exact h.fits .responseFifo mf (hrest mf hheld) hread
    | latencyQueue => exact h.fits .latencyQueue mf hheld hread
    | missQueue => exact h.fits .missQueue mf hheld hread
    | icnt => exact h.fits .icnt mf hheld hread
    | memory => exact h.fits .memory mf hheld hread

theorem RoutingInvariant.handleResponse (fillPortFree : Bool)
    (time : UInt32) : OkOr RoutingInvariant (fun _ => True)
    (s.handleResponse fillPortFree time) := by
  rw [LdstUnit.handleResponse]
  cases hfifo : s.responseFifo with
  | nil => exact h
  | cons mf rest =>
      have hdrop : RoutingInvariant { s with responseFifo := rest } :=
        h.of_responseFifo fun mf' hmem => by
          rw [hfifo]
          exact List.mem_cons_of_mem mf hmem
      apply OkOr.ite
      · intro _
        show RoutingInvariant (if fillPortFree then _ else s)
        split
        · exact hdrop
        · exact h
      · intro hother
        apply OkOr.ite
        · exact fun _ => hdrop
        · exact fun hread => h.routeResponse hfifo ((Bool.not_eq_true _).mp hread) hother time

/-! ## Steps and runs -/

theorem RoutingInvariant.writeback (client : WritebackClient) :
    OkOr RoutingInvariant (fun _ => True) (s.writeback client) := by
  cases client with
  | globalLocal =>
      show RoutingInvariant { s with nextGlobal := none }
      refine h.of_moves rfl rfl rfl rfl (fun uid huid => huid) fun place mf hheld hread => ?_
      exact h.fits place mf (by cases place <;> exact hheld) hread
  | l1d =>
      apply OkOr.ite
      · exact fun _ => h
      · intro _
        rw [BaselineCache.nextAccess]
        cases s.l1d.mshrs.nextAccess with
        | error e => trivial
        | ok r => exact h.of_l1d rfl rfl fun mf hmem => hmem
  | other => exact h

theorem RoutingInvariant.retire (retires : Bool) : (s.retire retires).RoutingInvariant := by
  rw [LdstUnit.retire]
  split
  · split
    · exact h.of_dispatchReg none
    · exact h
  · exact h

theorem RoutingInvariant.cycle (i : CycleInput) :
    OkOr RoutingInvariant (fun _ => True) (s.cycle i) := by
  apply OkOr.bind (h.writeback i.client)
  intro s₁ h₁
  apply OkOr.bind (h₁.handleResponse i.fillPortFree i.time)
  intro s₂ h₂
  apply OkOr.bind (h₂.l1dPart i.memportFull i.time)
  intro s₃ h₃
  apply OkOr.bind (h₃.memoryCycle i.icntFull i.time)
  exact fun s₄ h₄ => h₄.retire i.retires

omit h in
theorem InFlight.sectorRequest {request : MemFetch} (h : s.InFlight mf)
    (horiginal : mf.originalMf = none)
    (hunused : ∀ uid, s.l1d.nextUid ≤ uid → s.cacheOp uid = .cacheUndefined) (he : Extends s s')
    (hop : s'.cacheOp = s.cacheOp) (hfresh : s.l1d.nextUid ≤ request.uid)
    (hlt : request.uid < s'.l1d.nextUid) (htype : request.access.type = mf.access.type)
    (hrequest : request.originalMf = some mf.uid) : s'.InFlight request := by
  have huid : requestUid request = requestUid mf := by
    rw [requestUid, requestUid, hrequest, horiginal]
    rfl
  have hflight := h.extend he
  obtain ⟨route, hsent, hroute⟩ := hflight.sent
  refine ⟨hlt, ?_, ⟨route, ?_, ?_⟩, fun _ => ?_⟩
  · rw [huid]
    exact hflight.request_lt
  · rw [huid]
    exact hsent
  · rw [huid, htype]
    exact hroute
  · rw [hop]
    exact hunused _ hfresh

theorem RoutingInvariant.arrive (hmem : mf ∈ s.icnt) :
    OkOr RoutingInvariant (fun _ => True) (s.arrive mf) := by
  rw [LdstUnit.arrive]
  apply OkOr.ite
  · intro _
    cases hrequests : SubPartition.breakdownRequestToSectorRequests mf s.l1d.nextUid with
    | error e => trivial
    | ok requests =>
        show RoutingInvariant { s with
          icnt := s.icnt.erase mf
          memory := s.memory ++ requests
          l1d := { s.l1d with nextUid := s.l1d.nextUid + 4 } }
        have hspec : ∀ request ∈ requests, SubPartition.IsSectorRequest mf s.l1d.nextUid request :=
          fun _ => SubPartition.isSectorRequest_of_mem hrequests
        refine h.of_supply rfl rfl (Nat.le_add_right _ 4) (fun _ _ => rfl) ?_ ?_ ?_
        · exact fun uid huid => h.unusedOp uid ((Nat.le_add_right _ 4).trans huid)
        · rintro uid ⟨request, hplace, hread, horiginal, rfl⟩
          rcases hplace with hold | hfifo
          · rcases List.mem_append.mp hold with hold | hnew
            · exact .inl ⟨request, .inl hold, hread, horiginal, rfl⟩
            · cases hspec request hnew with
              | whole _ heq =>
                  rw [heq] at horiginal hread
                  rw [(h.fits .icnt mf hmem hread).1] at horiginal
                  exact nomatch horiginal
              | sector _ hfresh hlt => exact .inr ⟨hfresh, hlt⟩
          · exact .inl ⟨request, .inr hfifo, hread, horiginal, rfl⟩
        · intro he place request hheld hread
          cases place with
          | icnt => exact .inl (h.fits .icnt request (List.mem_of_mem_erase hheld) hread)
          | memory =>
              rcases List.mem_append.mp hheld with hold | hnew
              · exact .inl (h.fits .memory request hold hread)
              · cases hspec request hnew with
                | whole _ heq =>
                    rw [heq] at hread ⊢
                    exact .inl (h.fits .icnt mf hmem hread).2
                | sector _ hfresh hlt htype hwrite horiginal =>
                    right
                    intro hother
                    rw [IsOther, htype] at hother
                    obtain ⟨hnone, hflight⟩ := h.fits .icnt mf hmem (hwrite ▸ hread)
                    exact (hflight hother).sectorRequest hnone h.unusedOp he rfl hfresh hlt htype
                      horiginal
          | latencyQueue => exact .inl (h.fits .latencyQueue request hheld hread)
          | missQueue => exact .inl (h.fits .missQueue request hheld hread)
          | responseFifo => exact .inl (h.fits .responseFifo request hheld hread)
  · intro _
    show RoutingInvariant { s with icnt := s.icnt.erase mf, memory := s.memory ++ [mf] }
    refine h.of_moves rfl rfl rfl rfl ?_ fun place request hheld hread => ?_
    · rintro uid ⟨request, hplace, hread, horiginal, rfl⟩
      rcases hplace with hold | hfifo
      · rcases List.mem_append.mp hold with hold | hnew
        · exact ⟨request, .inl hold, hread, horiginal, rfl⟩
        · rw [List.mem_singleton.mp hnew] at horiginal hread
          rw [(h.fits .icnt mf hmem hread).1] at horiginal
          exact nomatch horiginal
      · exact ⟨request, .inr hfifo, hread, horiginal, rfl⟩
    · cases place with
      | icnt => exact h.fits .icnt request (List.mem_of_mem_erase hheld) hread
      | memory =>
          rcases List.mem_append.mp hheld with hold | hnew
          · exact h.fits .memory request hold hread
          · rw [List.mem_singleton.mp hnew] at hread ⊢
            exact (h.fits .icnt mf hmem hread).2
      | latencyQueue => exact h.fits .latencyQueue request hheld hread
      | missQueue => exact h.fits .missQueue request hheld hread
      | responseFifo => exact h.fits .responseFifo request hheld hread

theorem RoutingInvariant.step {a : LdstAction} (hroutes : s.RoutesBack a)
    (henabled : s.Enabled a) : OkOr RoutingInvariant (fun _ => True) (s.step a) := by
  cases a with
  | issue inst => exact h.of_dispatchReg (some inst)
  | cycle i => exact h.cycle i
  | sendOther access =>
      show RoutingInvariant { s with
        icnt := s.icnt ++ [MemFetch.new s.l1d.nextUid access none]
        l1d := { s.l1d with nextUid := s.l1d.nextUid + 1 } }
      refine h.of_supply rfl rfl (Nat.le_succ _) (fun _ _ => rfl)
        (fun uid huid => h.unusedOp uid ((Nat.le_succ _).trans huid)) (fun uid huid => .inl huid)
        fun _ place request hheld hread => .inl ?_
      cases place with
      | icnt =>
          rcases List.mem_append.mp hheld with hold | hnew
          · exact h.fits .icnt request hold hread
          · rw [List.mem_singleton.mp hnew]
            exact ⟨rfl, fun hother => absurd (Or.imp id id henabled) hother⟩
      | latencyQueue => exact h.fits .latencyQueue request hheld hread
      | missQueue => exact h.fits .missQueue request hheld hread
      | memory => exact h.fits .memory request hheld hread
      | responseFifo => exact h.fits .responseFifo request hheld hread
  | arrive mf => exact h.arrive henabled
  | respond mf =>
      show RoutingInvariant { s with
        memory := s.memory.erase mf
        responseFifo := s.responseFifo ++ [mf] }
      refine h.of_moves rfl rfl rfl rfl ?_ fun place request hheld hread => ?_
      · rintro uid ⟨request, hplace, huid⟩
        refine ⟨request, ?_, huid⟩
        rcases hplace with hold | hfifo
        · exact .inl (List.mem_of_mem_erase hold)
        · rcases List.mem_append.mp hfifo with hold | hnew
          · exact .inr hold
          · rw [List.mem_singleton.mp hnew]
            exact .inl henabled.1
      · cases place with
        | memory => exact h.fits .memory request (List.mem_of_mem_erase hheld) hread
        | responseFifo =>
            rcases List.mem_append.mp hheld with hold | hnew
            · exact h.fits .responseFifo request hold hread
            · rw [List.mem_singleton.mp hnew] at hread ⊢
              intro hother
              refine ⟨h.fits .memory mf henabled.1 hread hother, ?_⟩
              rcases hroutes with hwrite | hyes | hroutes
              · rw [hwrite] at hread
                exact nomatch hread
              · exact absurd hyes hother
              · exact hroutes
        | latencyQueue => exact h.fits .latencyQueue request hheld hread
        | missQueue => exact h.fits .missQueue request hheld hread
        | icnt => exact h.fits .icnt request hheld hread

end

theorem RoutingInvariant.initial (h : s.IsInitial) : s.RoutingInvariant := by
  have hlog : s.log = [] := by rw [h]
  have hrecord : ∀ uid, ¬ s.l1d.HasRecord uid := by
    intro uid
    rw [h]
    rintro ⟨⟩
  have hsent : ∀ uid route, ¬ s.ReadSent uid route := fun uid route hmem => by
    rw [ReadSent, hlog] at hmem
    cases hmem
  have hsector : ∀ uid, ¬ s.SectorUid uid := by
    rintro uid ⟨mf, hmem, -⟩
    rw [h] at hmem
    exact hmem.elim (by rintro ⟨⟩) (by rintro ⟨⟩)
  exact
    { unusedOp := fun uid _ => by rw [h]
      record_lt := fun uid hr => absurd hr (hrecord uid)
      sent_lt := fun uid route hr => absurd hr (hsent uid route)
      sector_lt := fun uid hr => absurd hr (hsector uid)
      record_notSector := fun uid hr => absurd hr (hrecord uid)
      once := fun uid hr => absurd hr (hsent uid .l1d)
      delivered := fun uid route hr => by
        rw [Delivered, hlog] at hr
        cases hr
      bypassed := fun uid hr => absurd hr (hsent uid .bypass)
      waits := fun uid hr => absurd hr (hsent uid .l1d)
      fits := fun place mf hheld => by
        rw [h] at hheld
        cases place with
        | latencyQueue =>
            obtain ⟨bank, stage, hmf⟩ := hheld
            cases hmf
        | missQueue => exact absurd hheld List.not_mem_nil
        | icnt => exact absurd hheld List.not_mem_nil
        | memory => exact absurd hheld List.not_mem_nil
        | responseFifo => exact absurd hheld List.not_mem_nil }

/-- In every run in which no response comes back that is misrouted, responses are passed to
the L1 just where their requests went through it. -/
theorem routingAgrees_of_reachable {r : Except LdstFailure (LdstUnit cfg)}
    (reached : ((ldstSystem cfg).restrict (TransitionSystem.onOk RoutesBack)).Reachable r) :
    OkOr RoutingAgrees (fun _ => True) r := by
  have hinvariant : OkOr RoutingInvariant (fun _ => True) r :=
    reached.invariant_ofExcept (fun _ => RoutingInvariant.initial)
      fun s a h hroutes henabled => h.step hroutes henabled
  exact hinvariant.imp fun _ h => h.agrees

/-! ## A load and its response -/

/-- A unit with an L1 of one line. -/
def oneLineUnit (gmemSkipL1D : Bool) : LdstConfig where
  l1dConfig := oneLineConfig .writeEvict .noWriteAllocate
  l1dDisabled := false
  l1Latency := 0
  l1Banks := 1
  setBank _ := 0
  gmemSkipL1D := gmemSkipL1D
  gpgpuPerfectMem := false
  l2Sectors := false

/-- A load from global memory of one access. -/
def globalLoad (cacheOp : CacheOperator) : DispatchInst where
  uid := 1
  space := .globalSpace
  cacheOp := cacheOp
  isStore := false
  isatomic := false
  activeCount := 1
  accessq := [{ type := .globalAccR, addr := 0, reqSize := 32, write := false, sectorMask := {0} }]
  accesses := by decide

/-- A cycle in which nothing is full. -/
def freeCycle : CycleInput where
  client := .other
  fillPortFree := true
  memportFull := false
  icntFull := false
  time := 1
  retires := true

/-- The load is sent by the L1, for its block, and comes back. -/
def loadAndBack (cacheOp : CacheOperator) : List LdstAction :=
  let mf : MemFetch :=
    { uid := 0
      access := { type := .globalAccR, addr := 0, reqSize := 32, write := false, sectorMask := {0} }
      dataSize := 128
      instUid := 1 }
  [.issue (globalLoad cacheOp), .cycle freeCycle, .cycle freeCycle, .arrive mf, .respond mf,
    .cycle freeCycle]

/-- A unit that has not started, whose requests are numbered from 0. -/
def unstarted (cfg : LdstConfig) : LdstUnit cfg := { l1d := { nextUid := 0 } }

/-- Where global loads do not skip the L1, the response of a load is passed to it. -/
theorem routingAgrees_load :
    ∃ s : LdstUnit (oneLineUnit false), s.Delivered 0 .l1d ∧ s.RoutingAgrees := by
  have hrun : ((TransitionSystem.execOk (fun s a => RoutesBack s a ∧ Enabled s a) step
      (unstarted (oneLineUnit false)) (loadAndBack .cacheAll)).any fun s =>
        decide (.delivered 0 .l1d ∈ s.log)) = true := by decide +kernel
  obtain ⟨s, hs, hdelivered⟩ := (Option.any_eq_true _ _).mp hrun
  have hinitial : IsInitial (unstarted (oneLineUnit false)) := rfl
  have hreached := TransitionSystem.Reachable.execOk_restrict (loadAndBack .cacheAll)
    (.init ⟨_, rfl, hinitial⟩) hs
  have hlog : .delivered 0 .l1d ∈ s.log := of_decide_eq_true hdelivered
  exact ⟨s, hlog, (routingAgrees_of_reachable hreached).of_ok rfl⟩

/-- Where they do, a load with `CACHE_L1` is sent through the L1 all the same, but its response
is not passed to it. -/
theorem not_routingAgrees_cacheL1 :
    ∃ s : LdstUnit (oneLineUnit true),
      (ldstSystem (oneLineUnit true)).Reachable (.ok s) ∧ ¬ s.RoutingAgrees := by
  have hrun : ((TransitionSystem.execOk Enabled step (unstarted (oneLineUnit true))
      (loadAndBack .cacheL1)).any fun s =>
        decide (.sent 0 false .l1d ∈ s.log ∧ .delivered 0 .bypass ∈ s.log)) = true := by
    decide +kernel
  obtain ⟨s, hs, hlog⟩ := (Option.any_eq_true _ _).mp hrun
  obtain ⟨hsent, hdelivered⟩ := of_decide_eq_true hlog
  have hinitial : IsInitial (unstarted (oneLineUnit true)) := rfl
  refine ⟨s, .execOk (loadAndBack .cacheL1) (.init ⟨_, rfl, hinitial⟩) hs, fun hagrees => ?_⟩
  exact nomatch (hagrees.delivered 0 .bypass hdelivered).mpr hsent

end GpuCalorie.LoadStore.LdstUnit
