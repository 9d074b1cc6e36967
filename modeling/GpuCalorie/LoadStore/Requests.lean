/-
# Routes of requests

Every way the load-store unit has to send a request keeps `RoutingInvariant`: through the
L1 from the latency queue or at once, past it, and from the queue of the L1 itself.
-/

import GpuCalorie.LoadStore.Routing

namespace GpuCalorie.LoadStore.LdstUnit

open GpuCalorie.Math Hardware Cache

variable {cfg : LdstConfig} {s s' : LdstUnit cfg} {mf : MemFetch} {inst : DispatchInst}

/-! ## Accesses of the L1 -/

section

variable (h : s.RoutingInvariant)
include h

theorem RoutingInvariant.alloc (inst : DispatchInst) (access : MemAccess) :
    (s.alloc inst access).2.RoutingInvariant := by
  have hlog : (s.alloc inst access).2.log = s.log := rfl
  apply h.of_supply hlog rfl (Nat.le_succ _)
  · exact fun uid huid => Function.update_of_ne huid.ne _ _
  · intro uid huid
    have hlt : s.l1d.nextUid < uid := huid
    exact (Function.update_of_ne hlt.ne' _ _).trans (h.unusedOp uid hlt.le)
  · exact fun uid huid => .inl huid
  · exact fun _ place mf hheld hread =>
      .inl (h.fits place mf (by cases place <;> exact hheld) hread)

theorem RoutingInvariant.goesThrough_alloc
    {access : MemAccess} (hmem : access ∈ inst.accessq) (hthrough : bypassL1D cfg inst = false) :
    (s.alloc inst access).2.GoesThrough (s.alloc inst access).1 where
  lt := Nat.lt_succ_self _
  original := rfl
  decided := by
    rw [bypassL1D_eq hmem] at hthrough
    rw [← hthrough]
    exact congrArg (requestBypass cfg · access.type) (Function.update_self _ _ _)
  notBypassed hsent := lt_irrefl _ (h.sent_lt _ _ hsent)
  notSector hsector := lt_irrefl _ (h.sector_lt _ hsector)

theorem RoutingInvariant.sends {c : BaselineCache cfg.l1dConfig}
    (hsends : BaselineCache.Sends .l1 s.l1d mf c) (hl1d : cfg.l1dDisabled = false)
    (hmf : mf.isWrite = false → s.GoesThrough mf) :
    RoutingInvariant { s with l1d := c } := by
  have hnew : ∀ uid, BaselineCache.ReadUid s.l1d mf c uid →
      uid < c.nextUid ∧ ¬ s.ReadSent uid .bypass ∧ ¬ s.SectorUid uid := by
    rintro uid (⟨rfl, hread⟩ | ⟨rfl, hlt⟩)
    · exact ⟨(hmf hread).lt.trans_le hsends.nextUid, (hmf hread).notBypassed, (hmf hread).notSector⟩
    · exact ⟨hlt, fun hsent => lt_irrefl _ (h.sent_lt _ _ hsent),
        fun hsector => lt_irrefl _ (h.sector_lt _ hsector)⟩
  have he : Extends s { s with l1d := c } :=
    { nextUid := hsends.nextUid
      cacheOp := fun _ _ => rfl
      sent := fun _ _ => id
      bypass := fun _ => .inl
      waits := fun uid hwaits => hwaits.imp_left (hsends.kept uid)
      sector := fun _ => .inl }
  exact
    { unusedOp := fun uid huid => h.unusedOp uid (hsends.nextUid.trans huid)
      record_lt := fun uid hrecord => (hsends.records uid hrecord).elim
        (fun hold => (h.record_lt uid hold).trans_le hsends.nextUid) fun huid => (hnew uid huid).1
      sent_lt := fun uid route hsent => (h.sent_lt uid route hsent).trans_le hsends.nextUid
      sector_lt := fun uid huid => (h.sector_lt uid huid).trans_le hsends.nextUid
      record_notSector := fun uid hrecord => (hsends.records uid hrecord).elim
        (h.record_notSector uid) fun huid => (hnew uid huid).2.2
      once := h.once
      delivered := h.delivered
      bypassed := fun uid hsent hrecord => (hsends.records uid hrecord).elim
        (h.bypassed uid hsent) fun huid => (hnew uid huid).2.1 hsent
      waits := fun uid hsent => (h.waits uid hsent).imp_left (hsends.kept uid)
      fits := by
        intro place request hheld hread
        cases place with
        | missQueue =>
            rcases hsends.queue request hheld hread with hold | ⟨hsent, hrecord⟩
            · exact (h.fits .missQueue request hold hread).extend he
            · refine ⟨?_, .inl hrecord⟩
              cases hsent with
              | own hmfRead huid htype horiginal =>
                  have hthrough := (hmf hmfRead).extend he
                  exact
                    { lt := by rw [huid]; exact hthrough.lt
                      original := horiginal.trans hthrough.original
                      decided := by rw [huid, htype]; exact hthrough.decided
                      notBypassed := by rw [huid]; exact hthrough.notBypassed
                      notSector := by rw [huid]; exact hthrough.notSector }
              | allocate huid hlt htype horiginal =>
                  obtain ⟨hltNew, hbypass, hsector⟩ := hnew request.uid (.inr ⟨huid, hlt⟩)
                  have hop : s.cacheOp request.uid = .cacheUndefined :=
                    h.unusedOp request.uid huid.ge
                  refine ⟨hltNew, horiginal, ?_, hbypass, hsector⟩
                  show requestBypass cfg (s.cacheOp request.uid) request.access.type = false
                  rw [hop, htype, requestBypass, hl1d]
                  rfl
        | latencyQueue => exact (h.fits .latencyQueue request hheld hread).extend he
        | icnt => exact (h.fits .icnt request hheld hread).extend he
        | memory => exact (h.fits .memory request hheld hread).extend he
        | responseFifo => exact (h.fits .responseFifo request hheld hread).extend he }

omit h in
theorem accessL1D_spec (s : LdstUnit cfg) (mf : MemFetch) (time : UInt32) :
    OkOr (fun r => ∃ c, r.2 = { s with l1d := c } ∧ BaselineCache.Sends .l1 s.l1d mf c)
      (fun _ => True) (s.accessL1D mf time) := by
  rw [accessL1D]
  have haccess : OkOr (fun r => BaselineCache.Sends .l1 s.l1d mf r.cache) (fun _ => True)
      ((s.l1d.access (.data .l1) mf time).mapError LdstFailure.l1d) :=
    ((BaselineCache.access_spec (.data .l1) s.l1d mf time).mono (fun _ h => h.sends)
      fun _ _ => trivial).mapError
  refine haccess.bind fun r hsends => ?_
  have hok : ∀ status : RequestStatus,
      OkOr (fun r' => ∃ c, r'.2 = { s with l1d := c } ∧ BaselineCache.Sends .l1 s.l1d mf c)
        (fun _ : LdstFailure => True) (.ok (status, { s with l1d := r.cache })) :=
    fun _ => ⟨r.cache, rfl, hsends⟩
  cases r.status with
  | hit => exact .ite (fun _ => trivial) fun _ => hok .hit
  | reservationFail =>
      exact .ite (fun _ => trivial) fun _ => .ite (fun _ => trivial) fun _ => hok .reservationFail
  | miss => exact hok .miss
  | hitReserved => exact hok .hitReserved
  | sectorMiss => trivial

theorem RoutingInvariant.accessL1D (time : UInt32)
    (hl1d : cfg.l1dDisabled = false) (hmf : mf.isWrite = false → s.GoesThrough mf) :
    OkOr (fun r => r.2.RoutingInvariant) (fun _ => True) (s.accessL1D mf time) := by
  apply (accessL1D_spec s mf time).imp
  rintro r ⟨c, hr, hsends⟩
  rw [hr]
  exact h.sends hsends hl1d hmf

/-! ## The latency queue -/

theorem RoutingInvariant.of_latencyQueue {queue : ℕ → ℕ → Option MemFetch}
    (hqueue : ∀ bank stage mf, queue bank stage = some mf → mf.isWrite = false → s.GoesThrough mf) :
    RoutingInvariant { s with l1LatencyQueue := queue } := by
  refine h.of_moves rfl rfl rfl rfl (fun uid huid => huid) fun place mf hheld hread => ?_
  cases place with
  | latencyQueue =>
      obtain ⟨bank, stage, hmf⟩ := hheld
      exact hqueue bank stage mf hmf hread
  | missQueue => exact h.fits .missQueue mf hheld hread
  | icnt => exact h.fits .icnt mf hheld hread
  | memory => exact h.fits .memory mf hheld hread
  | responseFifo => exact h.fits .responseFifo mf hheld hread

end

theorem update_stage_cases {queue : ℕ → ℕ → Option MemFetch} {bank stage b t : ℕ}
    {value : Option MemFetch}
    (h : Function.update queue bank (Function.update (queue bank) stage value) b t = some mf) :
    queue b t = some mf ∨ value = some mf := by
  by_cases hbank : b = bank
  · subst hbank
    rw [Function.update_self] at h
    by_cases hstage : t = stage
    · rw [hstage, Function.update_self] at h
      exact .inr h
    · rw [Function.update_of_ne hstage] at h
      exact .inl h
  · rw [Function.update_of_ne hbank] at h
    exact .inl h

theorem latencyQueueShift_some {queue : ℕ → Option MemFetch} {stage t : ℕ}
    (h : latencyQueueShift queue stage t = some mf) : ∃ t', queue t' = some mf := by
  rw [latencyQueueShift] at h
  split at h
  · by_cases hnext : t = stage + 1
    · rw [hnext, Function.update_self] at h
      exact nomatch h
    · rw [Function.update_of_ne hnext] at h
      by_cases hstage : t = stage
      · rw [hstage, Function.update_self] at h
        exact ⟨stage + 1, h⟩
      · rw [Function.update_of_ne hstage] at h
        exact ⟨t, h⟩
  · exact ⟨t, h⟩

theorem foldl_latencyQueueShift_some (stages : List ℕ) {queue : ℕ → Option MemFetch} {t : ℕ}
    (h : stages.foldl latencyQueueShift queue t = some mf) : ∃ t', queue t' = some mf := by
  induction stages generalizing queue with
  | nil => exact ⟨t, h⟩
  | cons stage rest ih =>
      obtain ⟨t', ht'⟩ := ih h
      exact latencyQueueShift_some ht'

section

variable (h : s.RoutingInvariant)
include h

theorem RoutingInvariant.latencyQueueAccess (bank : ℕ) (time : UInt32)
    (hl1d : cfg.l1dDisabled = false) :
    OkOr RoutingInvariant (fun _ => True) (s.latencyQueueAccess bank time) := by
  rw [LdstUnit.latencyQueueAccess]
  cases hmf : s.l1LatencyQueue bank 0 with
  | none => exact h
  | some mf =>
      apply OkOr.bind (h.accessL1D time hl1d fun hread =>
        h.fits .latencyQueue mf ⟨bank, 0, hmf⟩ hread)
      rintro ⟨status, s'⟩ h'
      show RoutingInvariant (if status = .reservationFail then s' else _)
      split
      · exact h'
      · refine RoutingInvariant.of_latencyQueue h' fun b t mf' hmf' hread => ?_
        rcases update_stage_cases hmf' with hold | hnew
        · exact h'.fits .latencyQueue mf' ⟨b, t, hold⟩ hread
        · exact nomatch hnew

theorem RoutingInvariant.latencyQueueBank (bank : ℕ) (time : UInt32)
    (hl1d : cfg.l1dDisabled = false) :
    OkOr RoutingInvariant (fun _ => True) (LdstUnit.latencyQueueBank time bank s) := by
  apply OkOr.bind (h.latencyQueueAccess bank time hl1d)
  intro s' h'
  refine RoutingInvariant.of_latencyQueue h' fun b t mf hmf hread => ?_
  by_cases hbank : b = bank
  · rw [hbank, Function.update_self] at hmf
    obtain ⟨t', ht'⟩ := foldl_latencyQueueShift_some _ hmf
    exact h'.fits .latencyQueue mf ⟨bank, t', ht'⟩ hread
  · rw [Function.update_of_ne hbank] at hmf
    exact h'.fits .latencyQueue mf ⟨b, t, hmf⟩ hread

theorem RoutingInvariant.l1LatencyQueueCycle (time : UInt32) (hl1d : cfg.l1dDisabled = false) :
    OkOr RoutingInvariant (fun _ => True) (s.l1LatencyQueueCycle time) := by
  rw [LdstUnit.l1LatencyQueueCycle]
  induction cfg.l1Banks with
  | zero => exact h
  | succ n ih => exact OkOr.bind ih fun s' h' => h'.latencyQueueBank n time hl1d

/-! ## Accesses of the dispatched instruction -/

theorem RoutingInvariant.fillBanks (hthrough : bypassL1D cfg inst = false) (n : ℕ) :
    OkOr (fun r => r.2.RoutingInvariant) (fun _ => True) (LdstUnit.fillBanks inst n s) := by
  induction n generalizing inst s with
  | zero => exact h
  | succ n ih =>
      rw [LdstUnit.fillBanks]
      cases haccess : inst.accessq.getLast? with
      | none => exact h
      | some access =>
          have halloc := h.alloc inst access
          have hgoes := h.goesThrough_alloc (List.mem_of_getLast? haccess) hthrough
          apply OkOr.ite
          · exact fun _ => trivial
          · intro _
            apply OkOr.ite
            · intro _
              refine ih (RoutingInvariant.of_latencyQueue halloc fun b t mf hmf hread => ?_)
                hthrough
              rcases update_stage_cases hmf with hold | hnew
              · exact halloc.fits .latencyQueue mf ⟨b, t, hold⟩ hread
              · cases hnew
                exact hgoes
            · exact fun _ => halloc

theorem RoutingInvariant.processMemoryAccessQueueL1cache
    (hthrough : bypassL1D cfg inst = false) (time : UInt32) :
    OkOr (fun r => r.2.RoutingInvariant) (fun _ => True)
      (s.processMemoryAccessQueueL1cache inst time) := by
  have hl1d : cfg.l1dDisabled = false := by
    by_contra hdisabled
    rw [bypassL1D, if_pos (.inr (Bool.eq_true_of_not_eq_false hdisabled))] at hthrough
    cases hthrough
  rw [LdstUnit.processMemoryAccessQueueL1cache]
  apply OkOr.ite
  · exact fun _ => h.fillBanks hthrough cfg.l1Banks
  · intro _
    cases haccess : inst.accessq.getLast? with
    | none => exact h
    | some access =>
        have hgoes := h.goesThrough_alloc (List.mem_of_getLast? haccess) hthrough
        apply OkOr.bind ((h.alloc inst access).accessL1D time hl1d fun _ => hgoes)
        exact fun r hr => hr

end

theorem readSent_push {uid : ℕ} {route route' : Route} :
    (s.push mf route).ReadSent uid route' ↔
      s.ReadSent uid route' ∨ (uid = mf.uid ∧ mf.isWrite = false ∧ route' = route) := by
  show _ ∈ s.log ++ [_] ↔ _
  simp only [List.mem_append, List.mem_singleton, RouteEvent.sent.injEq]
  exact or_congr Iff.rfl (and_congr Iff.rfl (and_congr eq_comm Iff.rfl))

theorem delivered_push {uid : ℕ} {route route' : Route} :
    (s.push mf route).Delivered uid route' ↔ s.Delivered uid route' := by
  show _ ∈ s.log ++ [_] ↔ _
  simp [Delivered]

variable (h : s.RoutingInvariant)
include h

theorem RoutingInvariant.sendBypass
    {access : MemAccess} (hmem : access ∈ inst.accessq) (hbypass : bypassL1D cfg inst = true) :
    ((s.alloc inst access).2.push (s.alloc inst access).1 .bypass).RoutingInvariant := by
  have halloc := h.alloc inst access
  have hfresh : ∀ route, ¬ s.ReadSent s.l1d.nextUid route := fun route hsent =>
    lt_irrefl _ (h.sent_lt _ _ hsent)
  have hnoRecord : ¬ s.l1d.HasRecord s.l1d.nextUid := fun hrecord =>
    lt_irrefl _ (h.record_lt _ hrecord)
  let t := (s.alloc inst access).2.push (s.alloc inst access).1 .bypass
  have hsent : ∀ uid route, t.ReadSent uid route ↔
      s.ReadSent uid route ∨ (uid = s.l1d.nextUid ∧ access.write = false ∧ route = .bypass) :=
    fun _ _ => readSent_push
  have hdelivered : ∀ uid route, t.Delivered uid route ↔ s.Delivered uid route :=
    fun _ _ => delivered_push
  have hwaits : ∀ uid, t.Waits uid ↔ s.Waits uid := fun _ => or_congr Iff.rfl delivered_push
  have he : Extends s t :=
    { nextUid := Nat.le_succ _
      cacheOp := fun uid huid => Function.update_of_ne huid.ne _ _
      sent := fun uid route hold => (hsent uid route).mpr (.inl hold)
      bypass := fun uid hnew => ((hsent uid .bypass).mp hnew).imp_right fun heq => heq.1.ge
      waits := fun uid => (hwaits uid).mpr
      sector := fun _ => .inl }
  exact
    { unusedOp := halloc.unusedOp
      record_lt := halloc.record_lt
      sent_lt := fun uid route hnew => ((hsent uid route).mp hnew).elim
        (fun hold => (h.sent_lt uid route hold).trans (Nat.lt_succ_self _))
        fun heq => heq.1 ▸ Nat.lt_succ_self _
      sector_lt := halloc.sector_lt
      record_notSector := halloc.record_notSector
      once := fun uid hl1d hnew => by
        have hold := ((hsent uid .l1d).mp hl1d).resolve_right fun heq => nomatch heq.2.2
        rcases (hsent uid .bypass).mp hnew with hsentOld | ⟨rfl, -, -⟩
        · exact h.once uid hold hsentOld
        · exact hfresh _ hold
      delivered := fun uid route hd =>
        (hsent uid route).mpr (.inl (h.delivered uid route ((hdelivered uid route).mp hd)))
      bypassed := fun uid hnew hrecord => by
        rcases (hsent uid .bypass).mp hnew with hold | ⟨rfl, -, -⟩
        · exact h.bypassed uid hold hrecord
        · exact hnoRecord hrecord
      waits := fun uid hl1d => (hwaits uid).mpr
        (h.waits uid (((hsent uid .l1d).mp hl1d).resolve_right fun heq => nomatch heq.2.2))
      fits := by
        intro place mf hheld hread
        cases place with
        | icnt =>
            rcases List.mem_append.mp hheld with hold | hnew
            · exact (h.fits .icnt mf hold hread).extend he
            · rw [List.mem_singleton.mp hnew] at hread ⊢
              refine ⟨rfl, fun _ =>
                ⟨Nat.lt_succ_self _, Nat.lt_succ_self _, ⟨.bypass, ?_, ?_⟩, nofun⟩⟩
              · exact (hsent _ _).mpr (.inr ⟨rfl, hread, rfl⟩)
              · rw [bypassL1D_eq hmem] at hbypass
                have hop : t.cacheOp s.l1d.nextUid = inst.cacheOp := Function.update_self _ _ _
                refine iff_of_true ?_ rfl
                show requestBypass cfg (t.cacheOp s.l1d.nextUid) access.type = true
                rw [hop, hbypass]
        | latencyQueue => exact (h.fits .latencyQueue mf hheld hread).extend he
        | missQueue => exact (h.fits .missQueue mf hheld hread).extend he
        | memory => exact (h.fits .memory mf hheld hread).extend he
        | responseFifo => exact (h.fits .responseFifo mf hheld hread).extend he }

theorem RoutingInvariant.memoryCycleInst (inst : DispatchInst) (icntFull : Bool) (time : UInt32) :
    OkOr (fun r => r.2.RoutingInvariant) (fun _ => True)
      (s.memoryCycleInst inst icntFull time) := by
  rw [LdstUnit.memoryCycleInst]
  cases haccess : inst.accessq.getLast? with
  | none => exact h
  | some access =>
      apply OkOr.ite
      · intro hbypass
        apply OkOr.ite
        · exact fun _ => h
        · exact fun _ => h.sendBypass (List.mem_of_getLast? haccess) hbypass
      · intro hthrough
        apply OkOr.ite
        · exact fun _ => trivial
        · exact fun _ => h.processMemoryAccessQueueL1cache ((Bool.not_eq_true _).mp hthrough) time

theorem RoutingInvariant.of_dispatchReg (reg : Option DispatchInst) :
    RoutingInvariant { s with dispatchReg := reg } := by
  refine h.of_moves rfl rfl rfl rfl (fun uid huid => huid) fun place mf hheld hread => ?_
  exact h.fits place mf (by cases place <;> exact hheld) hread

theorem RoutingInvariant.memoryCycle (icntFull : Bool) (time : UInt32) :
    OkOr RoutingInvariant (fun _ => True) (s.memoryCycle icntFull time) := by
  rw [LdstUnit.memoryCycle]
  cases s.dispatchReg with
  | none => exact h
  | some inst =>
      apply OkOr.ite
      · exact fun _ => h
      · intro _
        apply OkOr.bind (h.memoryCycleInst inst icntFull time)
        exact fun r hr => RoutingInvariant.of_dispatchReg hr (some r.1)

/-! ## Requests of the L1 -/

theorem RoutingInvariant.sendL1d (hmf : mf.isWrite = false → s.GoesThrough mf ∧ s.Waits mf.uid) :
    (s.push mf .l1d).RoutingInvariant := by
  let t := s.push mf .l1d
  have hsent : ∀ uid route, t.ReadSent uid route ↔
      s.ReadSent uid route ∨ (uid = mf.uid ∧ mf.isWrite = false ∧ route = .l1d) :=
    fun _ _ => readSent_push
  have hbypass : ∀ uid, t.ReadSent uid .bypass → s.ReadSent uid .bypass := fun uid hnew =>
    ((hsent uid .bypass).mp hnew).resolve_right fun heq => by cases heq.2.2
  have hdelivered : ∀ uid route, t.Delivered uid route ↔ s.Delivered uid route :=
    fun _ _ => delivered_push
  have hwaits : ∀ uid, t.Waits uid ↔ s.Waits uid := fun _ => or_congr Iff.rfl delivered_push
  have he : Extends s t :=
    { nextUid := le_rfl
      cacheOp := fun _ _ => rfl
      sent := fun uid route hold => (hsent uid route).mpr (.inl hold)
      bypass := fun uid hnew => .inl (hbypass uid hnew)
      waits := fun uid => (hwaits uid).mpr
      sector := fun _ => .inl }
  exact
    { unusedOp := h.unusedOp
      record_lt := h.record_lt
      sent_lt := fun uid route hnew => ((hsent uid route).mp hnew).elim (h.sent_lt uid route)
        fun heq => heq.1 ▸ (hmf heq.2.1).1.lt
      sector_lt := h.sector_lt
      record_notSector := h.record_notSector
      once := fun uid hl1d hnew => by
        rcases (hsent uid .l1d).mp hl1d with hold | ⟨rfl, hread, -⟩
        · exact h.once uid hold (hbypass uid hnew)
        · exact (hmf hread).1.notBypassed (hbypass _ hnew)
      delivered := fun uid route hd =>
        (hsent uid route).mpr (.inl (h.delivered uid route ((hdelivered uid route).mp hd)))
      bypassed := fun uid hnew => h.bypassed uid (hbypass uid hnew)
      waits := fun uid hl1d => (hwaits uid).mpr (by
        rcases (hsent uid .l1d).mp hl1d with hold | ⟨rfl, hread, -⟩
        · exact h.waits uid hold
        · exact (hmf hread).2)
      fits := by
        intro place request hheld hread
        cases place with
        | icnt =>
            rcases List.mem_append.mp hheld with hold | hnew
            · exact (h.fits .icnt request hold hread).extend he
            · rw [List.mem_singleton.mp hnew] at hread ⊢
              have hgoes := (hmf hread).1
              have huid : requestUid mf = mf.uid := by rw [requestUid, hgoes.original]; rfl
              refine ⟨hgoes.original, fun _ => ⟨hgoes.lt, ?_, ⟨.l1d, ?_, ?_⟩, ?_⟩⟩
              · rw [huid]
                exact hgoes.lt
              · rw [huid]
                exact (hsent _ _).mpr (.inr ⟨rfl, hread, rfl⟩)
              · have hdecided : requestBypass cfg (t.cacheOp mf.uid) mf.access.type = false :=
                  hgoes.decided
                rw [huid, hdecided]
                exact iff_of_false (by rintro ⟨⟩) (by rintro ⟨⟩)
              · rw [hgoes.original]
                rintro ⟨⟩
        | latencyQueue => exact (h.fits .latencyQueue request hheld hread).extend he
        | missQueue => exact (h.fits .missQueue request hheld hread).extend he
        | memory => exact (h.fits .memory request hheld hread).extend he
        | responseFifo => exact (h.fits .responseFifo request hheld hread).extend he }

theorem RoutingInvariant.of_l1d {c : BaselineCache cfg.l1dConfig}
    (hextra : c.extraMfFields = s.l1d.extraMfFields) (hnext : c.nextUid = s.l1d.nextUid)
    (hqueue : ∀ mf ∈ c.missQueue, mf ∈ s.l1d.missQueue) :
    RoutingInvariant { s with l1d := c } := by
  refine h.of_moves rfl hextra hnext rfl (fun uid huid => huid) fun place mf hheld hread => ?_
  cases place with
  | missQueue => exact h.fits .missQueue mf (hqueue mf hheld) hread
  | latencyQueue => exact h.fits .latencyQueue mf hheld hread
  | icnt => exact h.fits .icnt mf hheld hread
  | memory => exact h.fits .memory mf hheld hread
  | responseFifo => exact h.fits .responseFifo mf hheld hread

theorem RoutingInvariant.l1dCycle (memportFull : Bool) :
    (s.l1dCycle memportFull).RoutingInvariant := by
  rw [LdstUnit.l1dCycle, BaselineCache.cycle]
  cases hqueue : s.l1d.missQueue with
  | nil => exact h.of_l1d rfl rfl fun mf hmem => hmem
  | cons mf rest =>
      cases memportFull with
      | true => exact h.of_l1d rfl rfl fun mf hmem => hmem
      | false =>
          have hsend := h.sendL1d fun hread =>
            h.fits .missQueue mf (by rw [Holds, hqueue]; exact List.mem_cons_self) hread
          refine hsend.of_l1d rfl rfl fun mf' hmem => ?_
          show mf' ∈ s.l1d.missQueue
          rw [hqueue]
          exact List.mem_cons_of_mem mf hmem

theorem RoutingInvariant.l1dPart (memportFull : Bool) (time : UInt32) :
    OkOr RoutingInvariant (fun _ => True) (s.l1dPart memportFull time) := by
  apply OkOr.ite
  · exact fun _ => h
  · intro hl1d
    apply OkOr.ite
    · exact fun _ =>
        (h.l1dCycle memportFull).l1LatencyQueueCycle time ((Bool.not_eq_true _).mp hl1d)
    · exact fun _ => h.l1dCycle memportFull

end GpuCalorie.LoadStore.LdstUnit
