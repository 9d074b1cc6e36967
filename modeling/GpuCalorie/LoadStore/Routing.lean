/-
# Agreement on the routes of requests and responses

Whether a load goes past the L1 is decided by `memory_cycle` when its request is sent, and
again by `cycle` when the response comes back. The second decision does not look for
`CACHE_L1`, and it finds no cache operator in a request a sub-partition made for a sector.
`Misroutes` says of which responses the two decisions are different. In a run in which no
such response comes back, responses are passed to the L1 just where the requests went
through it.
-/

import GpuCalorie.Cache.Sent
import GpuCalorie.LoadStore.Unit

namespace GpuCalorie.LoadStore

open GpuCalorie.Math Hardware Cache

variable {cfg : LdstConfig}

/-! ## The two decisions -/

/-- `GLOBAL_ACC_R` or `GLOBAL_ACC_W`. -/
def isGlobalAcc (type : MemAccessType) : Bool := type = .globalAccR || type = .globalAccW

/-- `bypassL1D` in `memory_cycle`, by the access type. -/
def requestBypass (cfg : LdstConfig) (cacheOp : CacheOperator) (type : MemAccessType) : Bool :=
  if cacheOp = .cacheGlobal ∨ cfg.l1dDisabled then true
  else isGlobalAcc type && cfg.gmemSkipL1D && cacheOp ≠ .cacheL1

/-- Of the cache operator of a request and of the type of its access: its response goes the
other way. This is so for global loads with `CACHE_L1` where the others skip the L1, and for
loads with `CACHE_GLOBAL` that come back in sectors where they do not. -/
def Misroutes (cfg : LdstConfig) (cacheOp : CacheOperator) (sectors : Bool)
    (type : MemAccessType) : Prop :=
  cfg.l1dDisabled = false ∧
    (((isGlobalAcc type = true ∧ cfg.gmemSkipL1D = true) ∧ cacheOp = .cacheL1) ∨
      ((sectors = true ∧ cacheOp = .cacheGlobal) ∧
        ¬ (isGlobalAcc type = true ∧ cfg.gmemSkipL1D = true)))

instance (cfg : LdstConfig) (cacheOp : CacheOperator) (sectors : Bool) (type : MemAccessType) :
    Decidable (Misroutes cfg cacheOp sectors type) :=
  inferInstanceAs (Decidable (_ ∧ _))

theorem isGlobalAcc_of_accessType {space : MemorySpace} {isWrite : Bool} {type : MemAccessType}
    (h : accessType space isWrite = some type) : isGlobalAcc type = space.isGlobal := by
  cases space <;> cases isWrite <;> cases h <;> rfl

theorem bypassL1D_eq {inst : DispatchInst} {access : MemAccess} (hmem : access ∈ inst.accessq) :
    LdstUnit.bypassL1D cfg inst = requestBypass cfg inst.cacheOp access.type := by
  rw [LdstUnit.bypassL1D, requestBypass, isGlobalAcc_of_accessType (inst.accesses access hmem).1]

theorem responseBypass_eq_iff (cacheOp : CacheOperator) (sectors : Bool) (type : MemAccessType) :
    LdstUnit.responseBypass cfg (if sectors then .cacheUndefined else cacheOp) type =
        requestBypass cfg cacheOp type ↔ ¬ Misroutes cfg cacheOp sectors type := by
  have hresponse : ∀ op, LdstUnit.responseBypass cfg op type =
      if op = .cacheGlobal ∨ cfg.l1dDisabled then true else isGlobalAcc type && cfg.gmemSkipL1D :=
    fun _ => rfl
  rw [hresponse, requestBypass, Misroutes]
  cases sectors <;> cases cacheOp <;> cases cfg.l1dDisabled <;> cases cfg.gmemSkipL1D <;>
    cases isGlobalAcc type <;> decide

namespace LdstUnit

/-! ## What is to agree -/

/-- The request of a read was sent by a route. -/
def ReadSent (s : LdstUnit cfg) (uid : ℕ) (route : Route) : Prop := .sent uid false route ∈ s.log

/-- A response to a read was handed on by a route. -/
def Delivered (s : LdstUnit cfg) (uid : ℕ) (route : Route) : Prop := .delivered uid route ∈ s.log

/-- The request is one of the texture or the constant cache. -/
def IsOther (mf : MemFetch) : Prop :=
  mf.access.type = .textureAccR ∨ mf.access.type = .constAccR

instance (mf : MemFetch) : Decidable (IsOther mf) := inferInstanceAs (Decidable (_ ∨ _))

/-- The L1 waits for the fill of a request, or has had it. -/
def Waits (s : LdstUnit cfg) (uid : ℕ) : Prop := s.l1d.HasRecord uid ∨ s.Delivered uid .l1d

/-- Requests and responses go by the same route. -/
structure RoutingAgrees (s : LdstUnit cfg) : Prop where
  /-- A response to a read that is there is to be passed to `fill` just where its request went
  through the L1. -/
  responses : ∀ mf ∈ s.responseFifo, mf.isWrite = false → ¬ IsOther mf →
    (responseBypass cfg (s.cacheOp mf.uid) mf.access.type = false ↔ s.ReadSent (requestUid mf) .l1d)
  /-- So are those that were handed on. -/
  delivered : ∀ uid route, s.Delivered uid route → (route = .l1d ↔ s.ReadSent uid .l1d)
  /-- The L1 does not wait for what was sent past it. -/
  bypassed : ∀ uid, s.ReadSent uid .bypass → ¬ s.l1d.HasRecord uid
  /-- It waits for what was sent through it until it has been passed to `fill`. -/
  waits : ∀ uid, s.ReadSent uid .l1d → s.Waits uid
  /-- It does not wait for what was delivered elsewhere. -/
  records : ∀ uid, s.l1d.HasRecord uid → ¬ s.Delivered uid .bypass

/-- No response comes back that is misrouted. -/
def RoutesBack (s : LdstUnit cfg) : LdstAction → Prop
  | .respond mf => mf.isWrite = true ∨ IsOther mf ∨
      ¬ Misroutes cfg (s.cacheOp (requestUid mf)) mf.originalMf.isSome mf.access.type
  | _ => True

instance (s : LdstUnit cfg) (a : LdstAction) : Decidable (s.RoutesBack a) :=
  match a with
  | .respond _ => inferInstanceAs (Decidable (_ ∨ _))
  | .issue _ | .cycle _ | .sendOther _ | .arrive _ => .isTrue trivial

/-! ## Requests under way -/

/-- Where a request can be. -/
inductive Place
  | latencyQueue
  | missQueue
  | icnt
  | memory
  | responseFifo

/-- A request is at a place. -/
def Holds (s : LdstUnit cfg) : Place → MemFetch → Prop
  | .latencyQueue, mf => ∃ bank stage, s.l1LatencyQueue bank stage = some mf
  | .missQueue, mf => mf ∈ s.l1d.missQueue
  | .icnt, mf => mf ∈ s.icnt
  | .memory, mf => mf ∈ s.memory
  | .responseFifo, mf => mf ∈ s.responseFifo

/-- The identity of a read of a sector, which a sub-partition made. -/
def SectorUid (s : LdstUnit cfg) (uid : ℕ) : Prop :=
  ∃ mf, (mf ∈ s.memory ∨ mf ∈ s.responseFifo) ∧ mf.isWrite = false ∧
    mf.originalMf.isSome = true ∧ mf.uid = uid

/-- A read that goes through the L1 and was not sent. -/
structure GoesThrough (s : LdstUnit cfg) (mf : MemFetch) : Prop where
  lt : mf.uid < s.l1d.nextUid
  original : mf.originalMf = none
  decided : requestBypass cfg (s.cacheOp mf.uid) mf.access.type = false
  notBypassed : ¬ s.ReadSent mf.uid .bypass
  notSector : ¬ s.SectorUid mf.uid

/-- A read that was sent by the route that was decided on. -/
structure InFlight (s : LdstUnit cfg) (mf : MemFetch) : Prop where
  lt : mf.uid < s.l1d.nextUid
  request_lt : requestUid mf < s.l1d.nextUid
  sent : ∃ route, s.ReadSent (requestUid mf) route ∧
    (requestBypass cfg (s.cacheOp (requestUid mf)) mf.access.type = true ↔ route = .bypass)
  sector : mf.originalMf.isSome = true → s.cacheOp mf.uid = .cacheUndefined

/-- What is known of a read at a place. -/
def Fits (s : LdstUnit cfg) : Place → MemFetch → Prop
  | .latencyQueue, mf => s.GoesThrough mf
  | .missQueue, mf => s.GoesThrough mf ∧ s.Waits mf.uid
  | .icnt, mf => mf.originalMf = none ∧ (¬ IsOther mf → s.InFlight mf)
  | .memory, mf => ¬ IsOther mf → s.InFlight mf
  | .responseFifo, mf => ¬ IsOther mf → s.InFlight mf ∧
      ¬ Misroutes cfg (s.cacheOp (requestUid mf)) mf.originalMf.isSome mf.access.type

/-- The invariant of runs in which no response is misrouted. -/
structure RoutingInvariant (s : LdstUnit cfg) : Prop where
  unusedOp : ∀ uid, s.l1d.nextUid ≤ uid → s.cacheOp uid = .cacheUndefined
  record_lt : ∀ uid, s.l1d.HasRecord uid → uid < s.l1d.nextUid
  sent_lt : ∀ uid route, s.ReadSent uid route → uid < s.l1d.nextUid
  sector_lt : ∀ uid, s.SectorUid uid → uid < s.l1d.nextUid
  record_notSector : ∀ uid, s.l1d.HasRecord uid → ¬ s.SectorUid uid
  once : ∀ uid, s.ReadSent uid .l1d → ¬ s.ReadSent uid .bypass
  delivered : ∀ uid route, s.Delivered uid route → s.ReadSent uid route
  bypassed : ∀ uid, s.ReadSent uid .bypass → ¬ s.l1d.HasRecord uid
  waits : ∀ uid, s.ReadSent uid .l1d → s.Waits uid
  fits : ∀ place mf, s.Holds place mf → mf.isWrite = false → s.Fits place mf

variable {s s' : LdstUnit cfg} {mf : MemFetch}

theorem InFlight.readSent_l1d_iff (h : s.InFlight mf) (hs : s.RoutingInvariant) :
    s.ReadSent (requestUid mf) .l1d ↔
      requestBypass cfg (s.cacheOp (requestUid mf)) mf.access.type = false := by
  obtain ⟨route, hsent, hroute⟩ := h.sent
  cases route with
  | l1d =>
      have hfalse := (Bool.not_eq_true _).mp fun htrue => nomatch hroute.mp htrue
      exact iff_of_true hsent hfalse
  | bypass =>
      have htrue := hroute.mpr rfl
      exact iff_of_false (fun hl1d => hs.once _ hl1d hsent) (by rw [htrue]; decide)

theorem InFlight.responseBypass_eq (h : s.InFlight mf)
    (hroutes : ¬ Misroutes cfg (s.cacheOp (requestUid mf)) mf.originalMf.isSome mf.access.type) :
    responseBypass cfg (s.cacheOp mf.uid) mf.access.type =
      requestBypass cfg (s.cacheOp (requestUid mf)) mf.access.type := by
  rw [← (responseBypass_eq_iff _ _ _).mpr hroutes]
  cases horiginal : mf.originalMf with
  | none => rw [requestUid, horiginal]; rfl
  | some uid => rw [h.sector (by rw [horiginal]; rfl)]; rfl

theorem RoutingInvariant.agrees (h : s.RoutingInvariant) : s.RoutingAgrees where
  responses mf hmem hread hother := by
    obtain ⟨hflight, hroutes⟩ := h.fits .responseFifo mf hmem hread hother
    rw [hflight.responseBypass_eq hroutes, hflight.readSent_l1d_iff h]
  delivered uid route hdelivered := by
    have hsent := h.delivered uid route hdelivered
    cases route with
    | l1d => exact iff_of_true rfl hsent
    | bypass => exact iff_of_false nofun fun hl1d => h.once uid hl1d hsent
  bypassed := h.bypassed
  waits := h.waits
  records uid hrecord hdelivered := h.bypassed uid (h.delivered uid _ hdelivered) hrecord

/-! ## What steps keep -/

/-- What no step takes back. -/
structure Extends (s s' : LdstUnit cfg) : Prop where
  nextUid : s.l1d.nextUid ≤ s'.l1d.nextUid
  cacheOp : ∀ uid < s.l1d.nextUid, s'.cacheOp uid = s.cacheOp uid
  sent : ∀ uid route, s.ReadSent uid route → s'.ReadSent uid route
  /-- Only a new request is sent past the L1. -/
  bypass : ∀ uid, s'.ReadSent uid .bypass → s.ReadSent uid .bypass ∨ s.l1d.nextUid ≤ uid
  waits : ∀ uid, s.Waits uid → s'.Waits uid
  sector : ∀ uid, s'.SectorUid uid → s.SectorUid uid ∨ s.l1d.nextUid ≤ uid

theorem GoesThrough.extend (h : s.GoesThrough mf) (he : Extends s s') : s'.GoesThrough mf where
  lt := h.lt.trans_le he.nextUid
  original := h.original
  decided := by
    rw [he.cacheOp _ h.lt]
    exact h.decided
  notBypassed hsent := (he.bypass _ hsent).elim h.notBypassed h.lt.not_ge
  notSector hsector := (he.sector _ hsector).elim h.notSector h.lt.not_ge

theorem InFlight.extend (h : s.InFlight mf) (he : Extends s s') : s'.InFlight mf where
  lt := h.lt.trans_le he.nextUid
  request_lt := h.request_lt.trans_le he.nextUid
  sent := by
    obtain ⟨route, hsent, hroute⟩ := h.sent
    rw [he.cacheOp _ h.request_lt]
    exact ⟨route, he.sent _ _ hsent, hroute⟩
  sector horiginal := (he.cacheOp _ h.lt).trans (h.sector horiginal)

theorem Fits.extend {place : Place} (h : s.Fits place mf) (he : Extends s s') :
    s'.Fits place mf := by
  cases place with
  | latencyQueue => exact GoesThrough.extend h he
  | missQueue => exact ⟨GoesThrough.extend h.1 he, he.waits _ h.2⟩
  | icnt => exact ⟨h.1, fun hother => (h.2 hother).extend he⟩
  | memory => exact fun hother => InFlight.extend (h hother) he
  | responseFifo =>
      intro hother
      obtain ⟨hflight, hroutes⟩ := h hother
      refine ⟨hflight.extend he, ?_⟩
      rw [he.cacheOp _ hflight.request_lt]
      exact hroutes

theorem RoutingInvariant.of_supply (h : s.RoutingInvariant) (hlog : s'.log = s.log)
    (hextra : s'.l1d.extraMfFields = s.l1d.extraMfFields) (hnext : s.l1d.nextUid ≤ s'.l1d.nextUid)
    (hop : ∀ uid < s.l1d.nextUid, s'.cacheOp uid = s.cacheOp uid)
    (hunused : ∀ uid, s'.l1d.nextUid ≤ uid → s'.cacheOp uid = .cacheUndefined)
    (hsector : ∀ uid, s'.SectorUid uid →
      s.SectorUid uid ∨ (s.l1d.nextUid ≤ uid ∧ uid < s'.l1d.nextUid))
    (hfits : Extends s s' → ∀ place mf, s'.Holds place mf → mf.isWrite = false →
      s.Fits place mf ∨ s'.Fits place mf) : s'.RoutingInvariant := by
  have hsent : ∀ uid route, s'.ReadSent uid route ↔ s.ReadSent uid route := fun uid route => by
    rw [ReadSent, hlog]
    rfl
  have hdelivered : ∀ uid route, s'.Delivered uid route ↔ s.Delivered uid route :=
    fun uid route => by
    rw [Delivered, hlog]
    rfl
  have hrecord : ∀ uid, s'.l1d.HasRecord uid ↔ s.l1d.HasRecord uid := fun uid => by
    rw [BaselineCache.HasRecord, hextra]
    rfl
  have hwaits : ∀ uid, s'.Waits uid ↔ s.Waits uid := fun uid =>
    or_congr (hrecord uid) (hdelivered uid .l1d)
  have he : Extends s s' :=
    { nextUid := hnext
      cacheOp := hop
      sent := fun uid route => (hsent uid route).mpr
      bypass := fun uid hbypass => .inl ((hsent uid .bypass).mp hbypass)
      waits := fun uid => (hwaits uid).mpr
      sector := fun uid huid => (hsector uid huid).imp_right And.left }
  exact
    { unusedOp := hunused
      record_lt := fun uid hr => (h.record_lt uid ((hrecord uid).mp hr)).trans_le hnext
      sent_lt := fun uid route hr => (h.sent_lt uid route ((hsent uid route).mp hr)).trans_le hnext
      sector_lt := fun uid huid =>
        (hsector uid huid).elim (fun hold => (h.sector_lt uid hold).trans_le hnext) And.right
      record_notSector := fun uid hr huid =>
        (hsector uid huid).elim (h.record_notSector uid ((hrecord uid).mp hr))
          fun hnew => (h.record_lt uid ((hrecord uid).mp hr)).not_ge hnew.1
      once := fun uid hl1d hbypass =>
        h.once uid ((hsent uid .l1d).mp hl1d) ((hsent uid .bypass).mp hbypass)
      delivered := fun uid route hd =>
        (hsent uid route).mpr (h.delivered uid route ((hdelivered uid route).mp hd))
      bypassed := fun uid hbypass hr =>
        h.bypassed uid ((hsent uid .bypass).mp hbypass) ((hrecord uid).mp hr)
      waits := fun uid hl1d => (hwaits uid).mpr (h.waits uid ((hsent uid .l1d).mp hl1d))
      fits := fun place mf hheld hread =>
        (hfits he place mf hheld hread).elim (fun hold => hold.extend he) id }

theorem RoutingInvariant.of_moves (h : s.RoutingInvariant) (hlog : s'.log = s.log)
    (hextra : s'.l1d.extraMfFields = s.l1d.extraMfFields) (hnext : s'.l1d.nextUid = s.l1d.nextUid)
    (hop : s'.cacheOp = s.cacheOp) (hsector : ∀ uid, s'.SectorUid uid → s.SectorUid uid)
    (hfits : ∀ place mf, s'.Holds place mf → mf.isWrite = false → s.Fits place mf) :
    s'.RoutingInvariant := by
  refine h.of_supply hlog hextra hnext.ge (fun uid _ => congrFun hop uid) ?_
    (fun uid huid => .inl (hsector uid huid)) fun _ place mf hheld hread =>
    .inl (hfits place mf hheld hread)
  intro uid huid
  rw [hop]
  exact h.unusedOp uid (hnext ▸ huid)

end LdstUnit

end GpuCalorie.LoadStore
