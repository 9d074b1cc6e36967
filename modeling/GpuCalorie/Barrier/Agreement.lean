/-
# Do warps leave the barriers they wait at?

A named barrier of a CTA is complete when its live warps, or as many threads as one of the warps
there asks for, have arrived. `barrier_set_t` runs beside the named barriers of all CTAs: a warp
should wait in one exactly when it waits in the other, and the same reductions should be broadcast.

All barriers share the set of the warps that wait. A barrier that is released therefore sets a warp
free that has only arrived there and waits elsewhere; and the tests of `warp_reaches_barrier` and
`warp_exit` are for one kind of arrival each. The steps that do none of this keep the two together.
-/

import GpuCalorie.Math.NamedBarriers
import GpuCalorie.Barrier.BarrierSet

namespace GpuCalorie.Barrier

open GpuCalorie.Math TransitionSystem

/-! ## What the barriers are for -/

/-- `MAX_BARRIERS_PER_CTA`: the barriers there are sets for. -/
def barrierIds : ℕ := 16

/-- The CTAs of a core, the barriers their warps are at, and what was broadcast. -/
structure Barriers where
  ctas : ℕ → Option (Finset ℕ) := fun _ => none
  named : NamedBarriers ℕ ℕ := ⟨∅, fun _ _ => none⟩
  broadcasts : ℕ → ℕ → List (Finset ℕ) := fun _ _ => []

/-- What a warp does at a barrier. -/
def BarrierInst.arrival (inst : BarrierInst) : Arrival where
  waits := inst.barType = .sync ∨ inst.barType = .red
  reduces := inst.barType = .red
  count := if inst.barCount = noCount then none else some inst.barCount

inductive BarrierAction
  | allocate (ctaId : ℕ) (warps : Finset ℕ)
  | reach (ctaId warpId : ℕ) (inst : BarrierInst)
  | exit (ctaId warpId : ℕ)
  | deallocate (ctaId : ℕ)

/-- The warps of a CTA, none when it is not there. -/
def Barriers.warps (s : Barriers) (ctaId : ℕ) : Finset ℕ := (s.ctas ctaId).getD ∅

/-- The complete barriers of a CTA start anew. Where there was a reduction, it is broadcast. -/
def Barriers.settle (cfg : BarrierConfig) (ctaId : ℕ) (s : Barriers) : Barriers :=
  { s with
    named := s.named.settle cfg.warpSize (s.warps ctaId)
    broadcasts := fun c b =>
      if c = ctaId ∧ s.named.Complete cfg.warpSize (s.warps ctaId) b ∧
          s.named.Reduces (s.warps ctaId) b then
        s.broadcasts c b ++ [s.named.arrivals (s.warps ctaId) b]
      else s.broadcasts c b }

def Barriers.step (cfg : BarrierConfig) (s : Barriers) : BarrierAction → Barriers
  | .allocate ctaId warps =>
      { s with
        ctas := Function.update s.ctas ctaId (some warps)
        named := { s.named with live := s.named.live ∪ warps } }
  | .reach ctaId warpId inst =>
      { s with named := s.named.arrive inst.barId warpId inst.arrival }.settle cfg ctaId
  | .exit ctaId warpId => { s with named := s.named.leave warpId }.settle cfg ctaId
  | .deallocate ctaId => { s with ctas := Function.update s.ctas ctaId none }

/-! ## Runs -/

/-- The barrier set, and what it is for. -/
structure BarrierRun where
  code : BarrierSet := {}
  spec : Barriers := {}

namespace BarrierRun

variable (cfg : BarrierConfig) (r : BarrierRun)

def codeStep (s : BarrierSet) : BarrierAction → Except BarrierFailure BarrierSet
  | .allocate ctaId warps => s.allocateBarrier cfg ctaId warps
  | .reach ctaId warpId inst => s.warpReachesBarrier cfg ctaId warpId inst
  | .exit _ warpId => s.warpExit cfg warpId
  | .deallocate ctaId => s.deallocateBarrier cfg ctaId

def step (a : BarrierAction) : Except BarrierFailure BarrierRun := do
  let code ← codeStep cfg r.code a
  .ok ⟨code, r.spec.step cfg a⟩

/-- A warp of a CTA that the core lets issue. -/
def Issues (ctaId warpId : ℕ) : Prop :=
  warpId ∈ (r.code.ctaToWarps ctaId).getD ∅ ∧ warpId ∈ r.code.warpActive ∧
    warpId ∉ r.code.warpAtBarrier

instance (ctaId warpId : ℕ) : Decidable (r.Issues ctaId warpId) :=
  inferInstanceAs (Decidable (_ ∧ _))

/-- What the core does: CTAs get warps that no other CTA has, instructions come from warps that do
not wait, and a CTA is given up when all its warps have exited. -/
def Enabled : BarrierAction → Prop
  | .allocate ctaId warps => ctaId < cfg.maxCtaPerCore ∧ r.code.ctaToWarps ctaId = none ∧
      ∀ c < cfg.maxCtaPerCore, Disjoint ((r.code.ctaToWarps c).getD ∅) warps
  | .reach ctaId warpId inst => inst.barId < barrierIds ∧ r.Issues ctaId warpId
  | .exit ctaId warpId => r.Issues ctaId warpId
  | .deallocate ctaId => Disjoint ((r.code.ctaToWarps ctaId).getD ∅) r.code.warpActive

instance (a : BarrierAction) : Decidable (Enabled cfg r a) := by
  cases a <;> dsimp only [Enabled] <;> infer_instance

/-- A warp and its barrier agree: who waits, what was broadcast, and no barrier is overdue. -/
structure Agrees : Prop where
  waits : ∀ w, w ∈ r.code.warpAtBarrier ↔ r.spec.named.Waits w
  broadcasts : r.code.broadcasts = r.spec.broadcasts
  incomplete : ∀ ctaId b,
    ¬ r.spec.named.Complete cfg.warpSize ((r.code.ctaToWarps ctaId).getD ∅) b

/-- Nobody who has arrived at a barrier waits at another one. -/
def WaitsNowhereElse (s : NamedBarriers ℕ ℕ) (group : Finset ℕ) (b : ℕ) : Prop :=
  ∀ w ∈ s.arrivals group b, ∀ b' < barrierIds, b' ≠ b → ¬ s.WaitsAt b' w

/-- Exactly what an instruction asks for has arrived: the live warps, or the number of threads. -/
def ExactlyMet (s : NamedBarriers ℕ ℕ) (group : Finset ℕ) (inst : BarrierInst) : Prop :=
  if inst.barCount = noCount then s.arrivals group inst.barId = group ∩ s.live
  else (s.arrivals group inst.barId).card * cfg.warpSize = inst.barCount

instance (s : NamedBarriers ℕ ℕ) (group : Finset ℕ) (inst : BarrierInst) :
    Decidable (ExactlyMet cfg s group inst) :=
  inferInstanceAs (Decidable (if inst.barCount = noCount then
    s.arrivals group inst.barId = group ∩ s.live
    else (s.arrivals group inst.barId).card * cfg.warpSize = inst.barCount))

/-- The condition on a step. The arrival that completes a barrier is met exactly, and a reduction
is completed by a reduction. An exit completes the barriers the live warps have arrived at, which
are no reductions, and no barrier at which it completes nothing has exactly these warps. No warp
that is released waits elsewhere. The warps of a CTA that is given up are at no barrier. -/
def Follows : BarrierAction → Prop
  | .allocate _ _ => True
  | .reach ctaId warpId inst =>
      let s := r.spec.named.arrive inst.barId warpId inst.arrival
      let group := r.spec.warps ctaId
      s.Complete cfg.warpSize group inst.barId →
        ExactlyMet cfg s group inst ∧ (s.Reduces group inst.barId → inst.barType = .red) ∧
          WaitsNowhereElse s group inst.barId
  | .exit ctaId warpId =>
      let s := r.spec.named.leave warpId
      let group := r.spec.warps ctaId
      (∀ b < barrierIds, s.Complete cfg.warpSize group b →
        b < cfg.maxBarriersPerCta ∧ s.arrivals group b = group ∩ s.live ∧
          ¬ s.Reduces group b ∧ WaitsNowhereElse s group b) ∧
      ∀ b < cfg.maxBarriersPerCta, s.arrivals group b = group ∩ s.live →
        s.arrivals group b ≠ ∅ → s.Complete cfg.warpSize group b
  | .deallocate ctaId => ∀ b < barrierIds, r.spec.named.arrivals (r.spec.warps ctaId) b = ∅

instance (s : NamedBarriers ℕ ℕ) (group : Finset ℕ) (b : ℕ) :
    Decidable (WaitsNowhereElse s group b) :=
  inferInstanceAs (Decidable (∀ w ∈ s.arrivals group b, ∀ b' < barrierIds, b' ≠ b →
    ¬ s.WaitsAt b' w))

instance (a : BarrierAction) : Decidable (Follows cfg r a) := by
  cases a <;> dsimp only [Follows] <;> infer_instance

/-- The runs of a core without CTAs. -/
def system : TransitionSystem (Except BarrierFailure BarrierRun) BarrierAction :=
  ofExcept (fun r => r = {}) (Enabled cfg) (step cfg)

/-! ## One barrier set and named barriers -/

/-- The sets of the code are those of the named barriers. -/
structure Matches (n : NamedBarriers ℕ ℕ) (s : BarrierSet) : Prop where
  arrived : ∀ b w, w ∈ s.barIdToWarps b ↔ (n.arrived b w).isSome = true
  live : s.warpActive = n.live
  waits : ∀ w, w ∈ s.warpAtBarrier ↔ n.Waits w
  ids : ∀ b w, (n.arrived b w).isSome = true → b < barrierIds

section Matches

variable {n : NamedBarriers ℕ ℕ} {s : BarrierSet} {group : Finset ℕ} {b w : ℕ}

theorem Matches.arrivals_eq (h : Matches n s) :
    group ∩ s.barIdToWarps b = n.arrivals group b := by
  ext w
  rw [Finset.mem_inter, NamedBarriers.arrivals, Finset.mem_filter, h.arrived b w]

theorem Matches.lt_of_waitsAt (h : Matches n s) (hwaits : n.WaitsAt b w) : b < barrierIds := by
  obtain ⟨x, hx, _⟩ := hwaits
  exact h.ids b w (Option.isSome_of_mem hx)

theorem mem_release_barIdToWarps {atBarrier : Finset ℕ} {b' : ℕ} :
    w ∈ (s.release b atBarrier).barIdToWarps b' ↔
      w ∈ s.barIdToWarps b' ∧ ¬ (b' = b ∧ w ∈ atBarrier) := by
  have hsets : (s.release b atBarrier).barIdToWarps =
      Function.update s.barIdToWarps b (s.barIdToWarps b \ atBarrier) := rfl
  rw [hsets]
  by_cases hb : b' = b
  · subst hb
    rw [Function.update_self, Finset.mem_sdiff]
    simp
  · rw [Function.update_of_ne hb]
    simp [hb]

theorem mem_release_warpAtBarrier {atBarrier : Finset ℕ} :
    w ∈ (s.release b atBarrier).warpAtBarrier ↔ w ∈ s.warpAtBarrier ∧ w ∉ atBarrier :=
  Finset.mem_sdiff

theorem Matches.release (h : Matches n s) (helse : WaitsNowhereElse n group b) :
    Matches (n.clear group (· = b)) (s.release b (n.arrivals group b)) := by
  constructor
  · intro b' w
    rw [mem_release_barIdToWarps, NamedBarriers.isSome_clear, h.arrived, NamedBarriers.arrivals,
      Finset.mem_filter]
    constructor
    · rintro ⟨hsome, hnot⟩
      refine ⟨hsome, ?_⟩
      rintro ⟨hw, rfl⟩
      exact hnot ⟨rfl, hw, hsome⟩
    · rintro ⟨hsome, hnot⟩
      refine ⟨hsome, ?_⟩
      rintro ⟨rfl, hw, _⟩
      exact hnot ⟨hw, rfl⟩
  · exact h.live
  · intro w
    rw [mem_release_warpAtBarrier, h.waits]
    constructor
    · rintro ⟨⟨b', hwaits⟩, hout⟩
      refine ⟨b', ?_⟩
      rw [NamedBarriers.WaitsAt, NamedBarriers.clear_arrived, if_neg]
      · exact hwaits
      · rintro ⟨hw, rfl⟩
        obtain ⟨x, hx, _⟩ := hwaits
        exact hout (NamedBarriers.mem_arrivals.mpr ⟨hw, x, hx⟩)
    · rintro ⟨b', hwaits⟩
      have hbefore := NamedBarriers.waitsAt_of_clear hwaits
      refine ⟨⟨b', hbefore⟩, fun hin => ?_⟩
      by_cases hb : b' = b
      · -- What was started anew has no arrivals.
        subst hb
        obtain ⟨x, hx, _⟩ := hwaits
        rw [NamedBarriers.clear_arrived, if_pos ⟨(NamedBarriers.mem_arrivals.mp hin).1, rfl⟩] at hx
        cases hx
      · exact helse w hin b' (h.lt_of_waitsAt hbefore) hb hbefore
  · intro b' w hsome
    exact h.ids b' w (NamedBarriers.isSome_clear.mp hsome).1

/-- The sets of `warp_reaches_barrier` before its test. -/
def marked (s : BarrierSet) (warpId : ℕ) (inst : BarrierInst) : BarrierSet :=
  { s with
    barIdToWarps := Function.update s.barIdToWarps inst.barId
      (insert warpId (s.barIdToWarps inst.barId))
    warpAtBarrier :=
      if inst.barType = .sync ∨ inst.barType = .red then insert warpId s.warpAtBarrier
      else s.warpAtBarrier }

theorem Matches.arrive (h : Matches n s) {inst : BarrierInst} (hid : inst.barId < barrierIds)
    (hfree : w ∉ s.warpAtBarrier) :
    Matches (n.arrive inst.barId w inst.arrival) (marked s w inst) := by
  have hnone : ¬ n.Waits w := fun hwaits => hfree ((h.waits w).mpr hwaits)
  constructor
  · intro b v
    rw [NamedBarriers.isSome_arrive, ← h.arrived]
    by_cases hb : b = inst.barId
    · subst hb
      have hset : (marked s w inst).barIdToWarps inst.barId =
          insert w (s.barIdToWarps inst.barId) := Function.update_self _ _ _
      rw [hset, Finset.mem_insert]
      simp
    · have hset : (marked s w inst).barIdToWarps b = s.barIdToWarps b :=
        Function.update_of_ne hb _ _
      rw [hset]
      simp [hb]
  · exact h.live
  · intro v
    have hmem : v ∈ (marked s w inst).warpAtBarrier ↔
        v = w ∧ inst.arrival.waits = true ∨ v ∈ s.warpAtBarrier := by
      have harrival : inst.arrival.waits = true ↔ inst.barType = .sync ∨ inst.barType = .red :=
        decide_eq_true_iff
      rw [harrival]
      by_cases hwait : inst.barType = .sync ∨ inst.barType = .red
      · have hset : (marked s w inst).warpAtBarrier = insert w s.warpAtBarrier := if_pos hwait
        rw [hset, Finset.mem_insert]
        simp [hwait]
      · have hset : (marked s w inst).warpAtBarrier = s.warpAtBarrier := if_neg hwait
        rw [hset]
        simp [hwait]
    rw [hmem, h.waits]
    by_cases hv : v = w
    · subst hv
      rw [NamedBarriers.waits_arrive_self hnone]
      simp [hnone]
    · rw [NamedBarriers.waits_arrive_of_member hv]
      simp [hv]
  · intro b v hsome
    rcases NamedBarriers.isSome_arrive.mp hsome with ⟨rfl, _⟩ | hold
    · exact hid
    · exact h.ids b v hold

theorem Matches.leave (h : Matches n s) (w : ℕ) :
    Matches (n.leave w) { s with warpActive := s.warpActive.erase w } := by
  refine ⟨h.arrived, ?_, h.waits, h.ids⟩
  rw [NamedBarriers.leave, h.live]

theorem Matches.regroup (h : Matches n s) (cfg : BarrierConfig) {warps live : Finset ℕ}
    (hnone : ∀ w ∈ warps, ∀ b, n.arrived b w = none) (ctaToWarps : ℕ → Option (Finset ℕ)) :
    Matches { n with live := live } { s with
      ctaToWarps := ctaToWarps
      warpActive := live
      warpAtBarrier := s.warpAtBarrier \ warps
      barIdToWarps := BarrierSet.clearBarriers cfg warps s.barIdToWarps } := by
  refine ⟨?_, rfl, ?_, h.ids⟩
  · intro b w
    have hkeep : w ∈ BarrierSet.clearBarriers cfg warps s.barIdToWarps b ↔
        w ∈ s.barIdToWarps b := by
      rw [BarrierSet.clearBarriers]
      split_ifs
      · rw [Finset.mem_sdiff]
        refine and_iff_left_of_imp fun hw hin => ?_
        have hsome := (h.arrived b w).mp hw
        rw [hnone w hin b] at hsome
        cases hsome
      · exact Iff.rfl
    exact hkeep.trans (h.arrived b w)
  · intro w
    rw [Finset.mem_sdiff, h.waits]
    refine and_iff_left_of_imp fun hwaits hin => ?_
    obtain ⟨b, x, hx, _⟩ := hwaits
    rw [hnone w hin b] at hx
    cases hx

/-! ### The loop of an exit -/

theorem release_empty (s : BarrierSet) (b : ℕ) : s.release b ∅ = s := by
  rw [BarrierSet.release, Finset.sdiff_empty, Finset.sdiff_empty, Function.update_eq_self]

theorem Matches.exitLoop (cfg : BarrierConfig) (h : Matches n s)
    (hcomplete : ∀ b, n.Complete cfg.warpSize group b →
      n.arrivals group b = group ∩ n.live ∧ WaitsNowhereElse n group b)
    (hexact : ∀ b < cfg.maxBarriersPerCta, n.arrivals group b = group ∩ n.live →
      n.arrivals group b ≠ ∅ → n.Complete cfg.warpSize group b)
    (i : ℕ) (hi : i ≤ cfg.maxBarriersPerCta) :
    Matches (n.clear group fun b => b < i ∧ n.Complete cfg.warpSize group b)
      ((List.range i).foldl (BarrierSet.testBarrier group (group ∩ n.live)) s) := by
  induction i with
  | zero =>
    rw [NamedBarriers.clear_eq_self fun b hb => absurd hb.1 (Nat.not_lt_zero b)]
    exact h
  | succ i ih =>
    have hprior := ih (by omega)
    -- The barrier of this round is as it was before the loop.
    have hat : group ∩ ((List.range i).foldl (BarrierSet.testBarrier group (group ∩ n.live))
        s).barIdToWarps i = n.arrivals group i := by
      rw [hprior.arrivals_eq]
      exact NamedBarriers.arrivals_congr fun w _ =>
        NamedBarriers.clear_arrived_of_not fun hi => Nat.lt_irrefl i hi.1
    have hsame (hnot : ¬ n.Complete cfg.warpSize group i) :
        (n.clear group fun b => b < i + 1 ∧ n.Complete cfg.warpSize group b) =
          n.clear group fun b => b < i ∧ n.Complete cfg.warpSize group b := by
      refine NamedBarriers.clear_congr fun b => and_congr_left fun hc => ?_
      have hne : b ≠ i := by
        rintro rfl
        exact hnot hc
      omega
    have hmore (hc : n.Complete cfg.warpSize group i) :
        (n.clear group fun b => b < i + 1 ∧ n.Complete cfg.warpSize group b) =
          (n.clear group fun b => b < i ∧ n.Complete cfg.warpSize group b).clear group (· = i) := by
      rw [NamedBarriers.clear_clear]
      refine NamedBarriers.clear_congr fun b => ?_
      constructor
      · rintro ⟨hlt, hb⟩
        rcases Nat.lt_succ_iff_lt_or_eq.mp hlt with hless | heq
        · exact Or.inl ⟨hless, hb⟩
        · exact Or.inr heq
      · rintro (⟨hlt, hb⟩ | rfl)
        · exact ⟨by omega, hb⟩
        · exact ⟨Nat.lt_succ_self b, hc⟩
    rw [List.range_succ, List.foldl_append, List.foldl_cons, List.foldl_nil, BarrierSet.testBarrier,
      hat]
    by_cases hexactly : n.arrivals group i = group ∩ n.live
    · rw [if_pos hexactly]
      by_cases hempty : n.arrivals group i = ∅
      · rw [hempty, release_empty, hsame fun hc => hc.arrivals_nonempty.ne_empty hempty]
        exact hprior
      · have hc := hexact i (by omega) hexactly hempty
        have helse : WaitsNowhereElse
            (n.clear group fun b => b < i ∧ n.Complete cfg.warpSize group b) group i := by
          rw [WaitsNowhereElse, ← hprior.arrivals_eq, hat]
          intro w hw b hb hne hwaits
          exact (hcomplete i hc).2 w hw b hb hne (NamedBarriers.waitsAt_of_clear hwaits)
        have hrelease := hprior.release helse
        rw [← hprior.arrivals_eq, hat] at hrelease
        rw [hmore hc]
        exact hrelease
    · rw [if_neg hexactly, hsame fun hc => hexactly (hcomplete i hc).1]
      exact hprior

end Matches

/-! ## What every step keeps -/

/-- The CTAs have warps of their own, and who is live or at a barrier is in one of them. -/
structure Sane (s : Barriers) : Prop where
  bound : ∀ c, s.ctas c ≠ none → c < cfg.maxCtaPerCore
  disjoint : ∀ c c', c ≠ c' → Disjoint (s.warps c) (s.warps c')
  arrived : ∀ b w, (s.named.arrived b w).isSome = true → ∃ c, w ∈ s.warps c
  live : ∀ w ∈ s.named.live, ∃ c, w ∈ s.warps c

structure Inv : Prop where
  ctas : r.code.ctaToWarps = r.spec.ctas
  sets : Matches r.spec.named r.code
  broadcasts : r.code.broadcasts = r.spec.broadcasts
  sane : Sane cfg r.spec
  incomplete : ∀ c b, ¬ r.spec.named.Complete cfg.warpSize (r.spec.warps c) b

variable {cfg r} {s : Barriers} {ctaId warpId : ℕ}

theorem Inv.agrees (h : Inv cfg r) : Agrees cfg r := by
  refine ⟨h.sets.waits, h.broadcasts, fun c b => ?_⟩
  rw [h.ctas]
  exact h.incomplete c b

theorem inv_init : Inv cfg {} := by
  have hnone : ∀ c, Barriers.warps {} c = ∅ := fun _ => rfl
  refine ⟨rfl, ⟨by simp, rfl, ?_, by simp⟩, rfl, ⟨by simp, by simp [hnone], by simp, by simp⟩, ?_⟩
  · rintro w
    refine iff_of_false (Finset.notMem_empty w) ?_
    rintro ⟨b, x, hx, _⟩
    cases hx
  · rintro c b ⟨w, hw, _⟩
    exact absurd hw (Finset.notMem_empty w)

theorem Sane.settle (h : Sane cfg s) (ctaId : ℕ) : Sane cfg (s.settle cfg ctaId) :=
  ⟨h.bound, h.disjoint, fun b w hw => h.arrived b w (NamedBarriers.isSome_clear.mp hw).1, h.live⟩

theorem Sane.settle_incomplete (h : Sane cfg s)
    (hother : ∀ c ≠ ctaId, ∀ b, ¬ s.named.Complete cfg.warpSize (s.warps c) b) (c b : ℕ) :
    ¬ (s.settle cfg ctaId).named.Complete cfg.warpSize ((s.settle cfg ctaId).warps c) b := by
  have hwarps : (s.settle cfg ctaId).warps c = s.warps c := rfl
  rw [hwarps]
  by_cases hc : c = ctaId
  · subst hc
    exact NamedBarriers.not_complete_settle
  · intro hcomplete
    exact hother c hc b ((NamedBarriers.complete_clear_of_disjoint
      (h.disjoint ctaId c fun heq => hc heq.symm)).mp hcomplete)

theorem step_ok {a : BarrierAction} {code : BarrierSet} (h : codeStep cfg r.code a = .ok code) :
    step cfg r a = .ok ⟨code, r.spec.step cfg a⟩ := by
  rw [step, h]
  rfl

/-! ### A warp reaches a barrier -/

section Reach

variable {code : BarrierSet} {warps : Finset ℕ} {inst : BarrierInst} {n : NamedBarriers ℕ ℕ}

/-- The test of `warp_reaches_barrier`. -/
def tested (cfg : BarrierConfig) (code : BarrierSet) (ctaId : ℕ) (warps : Finset ℕ)
    (inst : BarrierInst) : BarrierSet :=
  let atBarrier := warps ∩ code.barIdToWarps inst.barId
  if if inst.barCount = noCount then atBarrier = warps ∩ code.warpActive
      else atBarrier.card * cfg.warpSize = inst.barCount then
    let code := code.release inst.barId atBarrier
    if inst.barType = .red then code.broadcastBarrierReduction ctaId inst.barId atBarrier else code
  else code

theorem warpReachesBarrier_eq (hid : inst.barId < barrierIds)
    (hcta : code.ctaToWarps ctaId = some warps) (hw : warpId ∈ warps) :
    code.warpReachesBarrier cfg ctaId warpId inst =
      .ok (tested cfg (marked code warpId inst) ctaId warps inst) := by
  have hne : inst.barId ≠ noCount := by
    intro heq
    rw [heq] at hid
    exact absurd hid (by decide)
  rw [BarrierSet.warpReachesBarrier, if_neg hne, hcta]
  show (if warpId ∉ warps then _ else _) = _
  rw [if_neg (not_not.mpr hw), tested, apply_ite Except.ok]
  rfl

theorem Matches.tested_eq (h : Matches n code) :
    tested cfg code ctaId warps inst =
      if ExactlyMet cfg n warps inst then
        if inst.barType = .red then
          (code.release inst.barId (n.arrivals warps inst.barId)).broadcastBarrierReduction ctaId
            inst.barId (n.arrivals warps inst.barId)
        else code.release inst.barId (n.arrivals warps inst.barId)
      else code := by
  rw [tested, h.arrivals_eq, h.live]
  rfl

theorem ExactlyMet.complete (h : ExactlyMet cfg n warps inst) (hw : warpId ∈ warps)
    (harrived : n.arrived inst.barId warpId = some inst.arrival) :
    n.Complete cfg.warpSize warps inst.barId := by
  refine ⟨warpId, hw, inst.arrival, harrived, ?_⟩
  rw [ExactlyMet] at h
  rw [BarrierInst.arrival]
  split_ifs at h ⊢ with hcount
  · intro v hv hlive
    rw [h]
    exact Finset.mem_inter.mpr ⟨hv, hlive⟩
  · exact h.ge

theorem settle_of_complete (hcomplete : n.Complete cfg.warpSize warps inst.barId)
    (hother : ∀ b ≠ inst.barId, ¬ n.Complete cfg.warpSize warps b) :
    n.settle cfg.warpSize warps = n.clear warps (· = inst.barId) := by
  refine NamedBarriers.clear_congr fun b => ?_
  constructor
  · intro hb
    by_contra hne
    exact hother b hne hb
  · rintro rfl
    exact hcomplete

theorem Matches.tested (h : Matches n code) (hw : warpId ∈ warps)
    (harrived : n.arrived inst.barId warpId = some inst.arrival)
    (hother : ∀ b ≠ inst.barId, ¬ n.Complete cfg.warpSize warps b)
    (hexact : n.Complete cfg.warpSize warps inst.barId →
      ExactlyMet cfg n warps inst ∧ WaitsNowhereElse n warps inst.barId) :
    Matches (n.settle cfg.warpSize warps) (tested cfg code ctaId warps inst) := by
  rw [h.tested_eq]
  by_cases hmet : ExactlyMet cfg n warps inst
  · have hcomplete := hmet.complete hw harrived
    have hreleased := h.release (hexact hcomplete).2
    rw [if_pos hmet, settle_of_complete hcomplete hother]
    split_ifs
    · exact ⟨hreleased.arrived, hreleased.live, hreleased.waits, hreleased.ids⟩
    · exact hreleased
  · have hnone : ∀ b, ¬ n.Complete cfg.warpSize warps b := by
      intro b hb
      by_cases heq : b = inst.barId
      · exact hmet (hexact (heq ▸ hb)).1
      · exact hother b heq hb
    rw [if_neg hmet, NamedBarriers.settle, NamedBarriers.clear_eq_self hnone]
    exact h

theorem Matches.tested_ctaToWarps (h : Matches n code) :
    (BarrierRun.tested cfg code ctaId warps inst).ctaToWarps = code.ctaToWarps := by
  rw [h.tested_eq]
  split_ifs <;> rfl

theorem Matches.tested_broadcasts (h : Matches n code) {s : Barriers} (hn : s.named = n)
    (hwarps : s.warps ctaId = warps) (hbroadcasts : code.broadcasts = s.broadcasts)
    (hw : warpId ∈ warps) (harrived : n.arrived inst.barId warpId = some inst.arrival)
    (hother : ∀ b ≠ inst.barId, ¬ n.Complete cfg.warpSize warps b)
    (hexact : n.Complete cfg.warpSize warps inst.barId →
      ExactlyMet cfg n warps inst ∧ (n.Reduces warps inst.barId → inst.barType = .red)) :
    (BarrierRun.tested cfg code ctaId warps inst).broadcasts = (s.settle cfg ctaId).broadcasts := by
  have hspec : (s.settle cfg ctaId).broadcasts = fun c b =>
      if c = ctaId ∧ n.Complete cfg.warpSize warps b ∧ n.Reduces warps b then
        s.broadcasts c b ++ [n.arrivals warps b]
      else s.broadcasts c b := by
    rw [Barriers.settle, hwarps, hn]
  have hred : inst.barType = .red → n.Reduces warps inst.barId := fun hred =>
    ⟨warpId, hw, inst.arrival, harrived, decide_eq_true hred⟩
  rw [h.tested_eq, hspec]
  funext c b
  by_cases hmet : ExactlyMet cfg n warps inst
  · have hcomplete := hmet.complete hw harrived
    by_cases htype : inst.barType = .red
    · have hcode : ((code.release inst.barId (n.arrivals warps
        inst.barId)).broadcastBarrierReduction
          ctaId inst.barId (n.arrivals warps inst.barId)).broadcasts =
          Function.update code.broadcasts ctaId (Function.update (code.broadcasts ctaId) inst.barId
            (code.broadcasts ctaId inst.barId ++ [n.arrivals warps inst.barId])) := rfl
      rw [if_pos hmet, if_pos htype, hcode, hbroadcasts]
      by_cases hc : c = ctaId
      · by_cases hb : b = inst.barId
        · subst hc hb
          rw [Function.update_self, Function.update_self, if_pos ⟨rfl, hcomplete, hred htype⟩]
        · subst hc
          rw [Function.update_self, Function.update_of_ne hb, if_neg fun h => hother b hb h.2.1]
      · rw [Function.update_of_ne hc, if_neg fun h => hc h.1]
    · have hnot : ¬ (c = ctaId ∧ n.Complete cfg.warpSize warps b ∧ n.Reduces warps b) := by
        rintro ⟨-, hb, hreduces⟩
        by_cases heq : b = inst.barId
        · exact htype ((hexact hcomplete).2 (heq ▸ hreduces))
        · exact hother b heq hb
      rw [if_pos hmet, if_neg htype, if_neg hnot, ← hbroadcasts]
      rfl
  · have hnot : ¬ (c = ctaId ∧ n.Complete cfg.warpSize warps b ∧ n.Reduces warps b) := by
      rintro ⟨-, hb, -⟩
      by_cases heq : b = inst.barId
      · exact hmet (hexact (heq ▸ hb)).1
      · exact hother b heq hb
    rw [if_neg hmet, if_neg hnot, hbroadcasts]

theorem mem_getD_iff {o : Option (Finset ℕ)} {w : ℕ} (hw : w ∈ o.getD ∅) :
    ∃ warps, o = some warps ∧ w ∈ warps := by
  cases o with
  | none => exact absurd hw (Finset.notMem_empty w)
  | some warps => exact ⟨warps, rfl, hw⟩

theorem Inv.reach (h : Inv cfg r) (henabled : Enabled cfg r (.reach ctaId warpId inst))
    (hfollows : Follows cfg r (.reach ctaId warpId inst)) :
    ∃ r', step cfg r (.reach ctaId warpId inst) = .ok r' ∧ Inv cfg r' := by
  obtain ⟨hid, hmem, -, hfree⟩ := henabled
  obtain ⟨warps, hcta, hw⟩ := mem_getD_iff hmem
  have hwarps : r.spec.warps ctaId = warps := by
    rw [Barriers.warps, ← h.ctas, hcta]
    rfl
  set n := r.spec.named.arrive inst.barId warpId inst.arrival with hn
  have hsets : Matches n (marked r.code warpId inst) := h.sets.arrive hid hfree
  have hself : n.arrived inst.barId warpId = some inst.arrival := NamedBarriers.arrive_arrived_self
  -- Only the barrier of the instruction can have become complete.
  have hother : ∀ b ≠ inst.barId, ¬ n.Complete cfg.warpSize warps b := by
    intro b hb hc
    rw [← hwarps] at hc
    exact h.incomplete ctaId b ((NamedBarriers.complete_arrive_of_barrier hb).mp hc)
  have hsane : Sane cfg { r.spec with named := n } := by
    refine ⟨h.sane.bound, h.sane.disjoint, ?_, h.sane.live⟩
    intro b v hv
    rcases NamedBarriers.isSome_arrive.mp hv with ⟨-, rfl⟩ | hold
    · exact ⟨ctaId, hwarps ▸ hw⟩
    · exact h.sane.arrived b v hold
  have hgroups : ∀ c ≠ ctaId, ∀ b, ¬ n.Complete cfg.warpSize (r.spec.warps c) b := by
    intro c hc b hcomplete
    have hout : warpId ∉ r.spec.warps c :=
      Finset.disjoint_left.mp (h.sane.disjoint ctaId c fun heq => hc heq.symm) (hwarps ▸ hw)
    exact h.incomplete c b ((NamedBarriers.complete_arrive_of_group hout).mp hcomplete)
  have hexact (hc : n.Complete cfg.warpSize warps inst.barId) :
      ExactlyMet cfg n warps inst ∧ (n.Reduces warps inst.barId → inst.barType = .red) ∧
        WaitsNowhereElse n warps inst.barId := by
    rw [← hwarps] at hc ⊢
    exact hfollows hc
  refine ⟨_, step_ok (warpReachesBarrier_eq hid hcta hw), ?_, ?_, ?_, ?_, ?_⟩
  · rw [hsets.tested_ctaToWarps]
    exact h.ctas
  · have hmatches : Matches (n.settle cfg.warpSize warps)
        (tested cfg (marked r.code warpId inst) ctaId warps inst) :=
      hsets.tested hw hself hother fun hc => ⟨(hexact hc).1, (hexact hc).2.2⟩
    rw [← hwarps] at hmatches ⊢
    exact hmatches
  · exact hsets.tested_broadcasts rfl hwarps h.broadcasts hw hself hother
      fun hc => ⟨(hexact hc).1, (hexact hc).2.1⟩
  · exact hsane.settle ctaId
  · exact hsane.settle_incomplete hgroups

end Reach

/-! ### A warp exits -/

section Exit

variable {code : BarrierSet} {warps : Finset ℕ}

theorem ctaOf_eq (hcta : code.ctaToWarps ctaId = some warps) (hbound : ctaId < cfg.maxCtaPerCore)
    (hw : warpId ∈ warps)
    (honly : ∀ c warps', code.ctaToWarps c = some warps' → warpId ∈ warps' → c = ctaId) :
    code.ctaOf cfg warpId = some (ctaId, warps) := by
  have hfound : code.ctaOf cfg warpId ≠ none := by
    rw [BarrierSet.ctaOf, ne_eq, List.findSome?_eq_none_iff]
    intro hnone
    have h := hnone ctaId (List.mem_range.mpr hbound)
    rw [hcta] at h
    simp [hw] at h
  obtain ⟨⟨c, warps'⟩, hsome⟩ := Option.ne_none_iff_exists'.mp hfound
  obtain ⟨c', -, hc'⟩ := List.exists_of_findSome?_eq_some hsome
  cases hwarps : code.ctaToWarps c' with
  | none => simp [hwarps] at hc'
  | some ws =>
    rw [hwarps] at hc'
    simp only [Option.ite_none_right_eq_some, Option.some.injEq, Prod.mk.injEq] at hc'
    obtain ⟨hin, rfl, rfl⟩ := hc'
    have heq := honly c' ws hwarps hin
    subst heq
    rw [hcta] at hwarps
    cases hwarps
    exact hsome

theorem exitLoop_frame (active : Finset ℕ) (is : List ℕ) :
    (is.foldl (BarrierSet.testBarrier warps active) code).ctaToWarps = code.ctaToWarps ∧
      (is.foldl (BarrierSet.testBarrier warps active) code).broadcasts = code.broadcasts := by
  induction is generalizing code with
  | nil => exact ⟨rfl, rfl⟩
  | cons i is ih =>
    have hround : (code.testBarrier warps active i).ctaToWarps = code.ctaToWarps ∧
        (code.testBarrier warps active i).broadcasts = code.broadcasts := by
      rw [BarrierSet.testBarrier]
      split_ifs
      · exact ⟨rfl, rfl⟩
      · exact ⟨rfl, rfl⟩
    rw [List.foldl_cons, ih.1, ih.2]
    exact hround

theorem Inv.exit (h : Inv cfg r) (henabled : Enabled cfg r (.exit ctaId warpId))
    (hfollows : Follows cfg r (.exit ctaId warpId)) :
    ∃ r', step cfg r (.exit ctaId warpId) = .ok r' ∧ Inv cfg r' := by
  obtain ⟨hmem, -, hfree⟩ := henabled
  obtain ⟨warps, hcta, hw⟩ := mem_getD_iff hmem
  have hwarps : r.spec.warps ctaId = warps := by
    rw [Barriers.warps, ← h.ctas, hcta]
    rfl
  set n := r.spec.named.leave warpId with hn
  obtain ⟨hcomplete, hexact⟩ := hfollows
  rw [hwarps] at hcomplete hexact
  have hids : ∀ b, n.Complete cfg.warpSize warps b → b < barrierIds := by
    intro b hc
    obtain ⟨v, hv⟩ := hc.arrivals_nonempty
    obtain ⟨-, x, hx⟩ := NamedBarriers.mem_arrivals.mp hv
    exact h.sets.ids b v (Option.isSome_of_mem hx)
  have hsets := h.sets.leave warpId
  have hloop := hsets.exitLoop cfg
    (fun b hc => ⟨(hcomplete b (hids b hc) hc).2.1, (hcomplete b (hids b hc) hc).2.2.2⟩)
    hexact cfg.maxBarriersPerCta le_rfl
  have hsettle : (n.clear warps fun b => b < cfg.maxBarriersPerCta ∧
      n.Complete cfg.warpSize warps b) = n.settle cfg.warpSize warps :=
    NamedBarriers.clear_congr fun b => and_iff_right_of_imp fun hc => (hcomplete b (hids b hc) hc).1
  rw [hsettle] at hloop
  have honly : ∀ c warps', r.code.ctaToWarps c = some warps' → warpId ∈ warps' → c = ctaId := by
    intro c warps' hc hw'
    by_contra hne
    have hdisjoint := h.sane.disjoint c ctaId hne
    rw [hwarps, Barriers.warps, ← h.ctas, hc] at hdisjoint
    exact Finset.disjoint_left.mp hdisjoint hw' hw
  have hbound : ctaId < cfg.maxCtaPerCore := by
    apply h.sane.bound
    rw [← h.ctas, hcta]
    exact Option.some_ne_none warps
  have hrun : codeStep cfg r.code (.exit ctaId warpId) = .ok
      ((List.range cfg.maxBarriersPerCta).foldl (BarrierSet.testBarrier warps (warps ∩ n.live))
        { r.code with warpActive := r.code.warpActive.erase warpId }) := by
    have hfound : BarrierSet.ctaOf cfg warpId
        { r.code with warpActive := r.code.warpActive.erase warpId } = some (ctaId, warps) :=
      ctaOf_eq hcta hbound hw honly
    rw [codeStep, BarrierSet.warpExit, hfound, hn, NamedBarriers.leave, ← h.sets.live]
  have hsane : Sane cfg { r.spec with named := n } :=
    ⟨h.sane.bound, h.sane.disjoint, h.sane.arrived,
      fun v hv => h.sane.live v (Finset.mem_of_mem_erase hv)⟩
  have hgroups : ∀ c ≠ ctaId, ∀ b, ¬ n.Complete cfg.warpSize (r.spec.warps c) b := by
    intro c hc b hother
    have hout : warpId ∉ r.spec.warps c :=
      Finset.disjoint_left.mp (h.sane.disjoint ctaId c fun heq => hc heq.symm) (hwarps ▸ hw)
    exact h.incomplete c b ((NamedBarriers.complete_leave_of_group hout).mp hother)
  refine ⟨_, step_ok hrun, ?_, ?_, ?_, ?_, ?_⟩
  · rw [(exitLoop_frame _ _).1]
    exact h.ctas
  · rw [← hwarps] at hloop ⊢
    exact hloop
  · rw [(exitLoop_frame _ _).2]
    refine h.broadcasts.trans ?_
    funext c b
    refine (if_neg ?_).symm
    rintro ⟨-, hc, hreduces⟩
    have hc' : n.Complete cfg.warpSize warps b := hwarps ▸ hc
    exact (hcomplete b (hids b hc') hc').2.2.1 (hwarps ▸ hreduces)
  · exact hsane.settle ctaId
  · exact hsane.settle_incomplete hgroups

end Exit

/-! ### CTAs come and go -/

section Regroup

variable {warps : Finset ℕ}

theorem numCtas_le (code : BarrierSet) : code.numCtas cfg ≤ cfg.maxCtaPerCore := by
  rw [BarrierSet.numCtas]
  exact (List.length_filter_le _ _).trans_eq List.length_range

theorem warps_update (s : Barriers) (o : Option (Finset ℕ)) (named : NamedBarriers ℕ ℕ) (c : ℕ) :
    Barriers.warps { s with ctas := Function.update s.ctas ctaId o, named := named } c =
      if c = ctaId then o.getD ∅ else s.warps c := by
  show (Function.update s.ctas ctaId o c).getD ∅ = _
  by_cases hc : c = ctaId
  · subst hc
    rw [if_pos rfl, Function.update_self]
  · rw [if_neg hc, Function.update_of_ne hc]
    rfl

theorem not_complete_of_none {n : NamedBarriers ℕ ℕ} (h : ∀ w ∈ warps, ∀ b, n.arrived b w = none)
    (weight b : ℕ) : ¬ n.Complete weight warps b := by
  rintro ⟨w, hw, x, hx, -⟩
  rw [h w hw b] at hx
  cases hx

theorem Inv.allocate (h : Inv cfg r) (henabled : Enabled cfg r (.allocate ctaId warps)) :
    ∃ r', step cfg r (.allocate ctaId warps) = .ok r' ∧ Inv cfg r' := by
  obtain ⟨hlt, hfree, hfresh⟩ := henabled
  have hout : ∀ c, Disjoint (r.spec.warps c) warps := by
    intro c
    by_cases hc : r.spec.ctas c = none
    · rw [Barriers.warps, hc]
      exact Finset.disjoint_empty_left warps
    · have := hfresh c (h.sane.bound c hc)
      rwa [h.ctas] at this
  have hnone : ∀ w ∈ warps, ∀ b, r.spec.named.arrived b w = none := by
    intro w hw b
    by_contra hsome
    obtain ⟨c, hc⟩ := h.sane.arrived b w (Option.ne_none_iff_isSome.mp hsome)
    exact Finset.disjoint_left.mp (hout c) hc hw
  have hrun : codeStep cfg r.code (.allocate ctaId warps) = .ok
      { r.code with
        ctaToWarps := Function.update r.code.ctaToWarps ctaId (some warps)
        warpActive := r.code.warpActive ∪ warps
        warpAtBarrier := r.code.warpAtBarrier \ warps
        barIdToWarps := BarrierSet.clearBarriers cfg warps r.code.barIdToWarps } := by
    rw [codeStep, BarrierSet.allocateBarrier, if_neg (not_not.mpr hlt), if_neg (not_not.mpr hfree)]
    exact if_neg (not_lt.mpr (numCtas_le _))
  have hsets : Matches { r.spec.named with live := r.code.warpActive ∪ warps } _ :=
    h.sets.regroup cfg hnone (Function.update r.code.ctaToWarps ctaId (some warps))
  have hctas : ∀ c, (r.spec.step cfg (.allocate ctaId warps)).warps c =
      if c = ctaId then warps else r.spec.warps c := fun c => warps_update r.spec (some warps) _ c
  have hempty : r.spec.warps ctaId = ∅ := by
    rw [Barriers.warps, ← h.ctas, hfree]
    rfl
  have hmono : ∀ c w, w ∈ r.spec.warps c →
      ∃ c', w ∈ (r.spec.step cfg (.allocate ctaId warps)).warps c' := by
    intro c w hw
    refine ⟨c, ?_⟩
    rw [hctas, if_neg]
    · exact hw
    · rintro rfl
      rw [hempty] at hw
      exact Finset.notMem_empty w hw
  refine ⟨_, step_ok hrun, ?_, ?_, h.broadcasts, ⟨?_, ?_, ?_, ?_⟩, ?_⟩
  · rw [h.ctas]
    rfl
  · rw [h.sets.live] at hsets ⊢
    exact hsets
  · intro c hc
    by_cases heq : c = ctaId
    · exact heq ▸ hlt
    · have hupdate : (r.spec.step cfg (.allocate ctaId warps)).ctas c = r.spec.ctas c :=
        Function.update_of_ne heq _ _
      exact h.sane.bound c (hupdate ▸ hc)
  · intro c c' hne
    rw [hctas, hctas]
    split_ifs with hc hc'
    · exact absurd (hc.trans hc'.symm) hne
    · exact (hout c').symm
    · exact hout c
    · exact h.sane.disjoint c c' hne
  · intro b w hw
    obtain ⟨c, hc⟩ := h.sane.arrived b w hw
    exact hmono c w hc
  · intro w hw
    rcases Finset.mem_union.mp hw with hold | hnew
    · obtain ⟨c, hc⟩ := h.sane.live w hold
      exact hmono c w hc
    · refine ⟨ctaId, ?_⟩
      rw [hctas, if_pos rfl]
      exact hnew
  · intro c b
    rw [hctas]
    split_ifs with hc
    · exact @not_complete_of_none _ (r.spec.step cfg (.allocate ctaId warps)).named hnone _ b
    · have hsame : (r.spec.step cfg (.allocate ctaId warps)).named.Complete cfg.warpSize
          (r.spec.warps c) b ↔ r.spec.named.Complete cfg.warpSize (r.spec.warps c) b :=
        NamedBarriers.complete_congr (fun _ _ => rfl) fun w hw =>
          Finset.mem_union.trans (or_iff_left (Finset.disjoint_left.mp (hout c) hw))
      exact fun hcomplete => h.incomplete c b (hsame.mp hcomplete)

theorem deallocateBarrier_ok (h : Inv cfg r)
    (hnone : ∀ w ∈ r.spec.warps ctaId, ∀ b, r.spec.named.arrived b w = none)
    (hexited : Disjoint (r.spec.warps ctaId) r.code.warpActive) :
    ∃ code, r.code.deallocateBarrier cfg ctaId = .ok code ∧
      code.ctaToWarps = Function.update r.spec.ctas ctaId none ∧ Matches r.spec.named code ∧
      code.broadcasts = r.code.broadcasts := by
  have hctas := h.ctas
  cases hcta : r.spec.ctas ctaId with
  | none =>
    refine ⟨r.code, ?_, ?_, h.sets, rfl⟩
    · rw [BarrierSet.deallocateBarrier, hctas, hcta]
    · rw [← hcta, Function.update_eq_self, hctas]
  | some warps =>
    have hwarps : r.spec.warps ctaId = warps := by
      rw [Barriers.warps, hcta]
      rfl
    rw [hwarps] at hnone hexited
    have hwaiting : warps ∩ r.code.warpAtBarrier = ∅ := by
      rw [← Finset.disjoint_iff_inter_eq_empty, Finset.disjoint_left]
      intro w hw hwaits
      obtain ⟨b, x, hx, _⟩ := (h.sets.waits w).mp hwaits
      rw [hnone w hw b] at hx
      cases hx
    have hstuck : ¬ ∃ i < cfg.maxBarriersPerCta, warps ∩ r.code.barIdToWarps i ≠ ∅ := by
      rintro ⟨i, _, hne⟩
      obtain ⟨w, hw⟩ := Finset.nonempty_iff_ne_empty.mpr hne
      obtain ⟨hin, hat⟩ := Finset.mem_inter.mp hw
      have hsome := (h.sets.arrived i w).mp hat
      rw [hnone w hin i] at hsome
      cases hsome
    have hlive : r.code.warpActive \ warps = r.spec.named.live := by
      rw [Finset.sdiff_eq_self_of_disjoint hexited.symm, h.sets.live]
    have hsets : Matches { r.spec.named with live := r.code.warpActive \ warps } _ :=
      h.sets.regroup cfg hnone (Function.update r.code.ctaToWarps ctaId none)
    have hrun : r.code.deallocateBarrier cfg ctaId = .ok
        ⟨Function.update r.spec.ctas ctaId none,
          BarrierSet.clearBarriers cfg warps r.code.barIdToWarps, r.code.warpActive \ warps,
          r.code.warpAtBarrier \ warps, r.code.broadcasts⟩ := by
      rw [BarrierSet.deallocateBarrier, hctas, hcta]
      show (if warps ∩ r.code.warpAtBarrier ≠ ∅ then _ else _) = _
      rw [if_neg (not_not.mpr hwaiting), if_neg (not_not.mpr
        (Finset.disjoint_iff_inter_eq_empty.mp hexited)), if_neg hstuck]
    rw [hlive] at hrun hsets
    exact ⟨_, hrun, rfl, ⟨hsets.arrived, hsets.live, hsets.waits, hsets.ids⟩, rfl⟩

theorem Inv.deallocate (h : Inv cfg r) (henabled : Enabled cfg r (.deallocate ctaId))
    (hfollows : Follows cfg r (.deallocate ctaId)) :
    ∃ r', step cfg r (.deallocate ctaId) = .ok r' ∧ Inv cfg r' := by
  have hnone : ∀ w ∈ r.spec.warps ctaId, ∀ b, r.spec.named.arrived b w = none := by
    intro w hw b
    by_contra hsome
    have hx := Option.ne_none_iff_isSome.mp hsome
    have hmem : w ∈ r.spec.named.arrivals (r.spec.warps ctaId) b :=
      Finset.mem_filter.mpr ⟨hw, hx⟩
    rw [hfollows b (h.sets.ids b w hx)] at hmem
    exact Finset.notMem_empty w hmem
  have hexited : Disjoint (r.spec.warps ctaId) r.code.warpActive := by
    rw [Barriers.warps, ← h.ctas]
    exact henabled
  have hctas : ∀ c, (r.spec.step cfg (.deallocate ctaId)).warps c =
      if c = ctaId then ∅ else r.spec.warps c := fun c => warps_update r.spec none r.spec.named c
  have hkeep : ∀ c w, w ∈ r.spec.warps c → w ∉ r.spec.warps ctaId →
      w ∈ (r.spec.step cfg (.deallocate ctaId)).warps c := by
    intro c w hw hout
    rw [hctas, if_neg]
    · exact hw
    · rintro rfl
      exact hout hw
  obtain ⟨code, hrun, hcode, hsets, hbroadcasts⟩ := deallocateBarrier_ok h hnone hexited
  refine ⟨_, step_ok hrun, hcode, hsets, hbroadcasts.trans h.broadcasts, ⟨?_, ?_, ?_, ?_⟩, ?_⟩
  · intro c hc
    by_cases heq : c = ctaId
    · subst heq
      exact absurd (Function.update_self _ _ _) hc
    · have hupdate : (r.spec.step cfg (.deallocate ctaId)).ctas c = r.spec.ctas c :=
        Function.update_of_ne heq _ _
      exact h.sane.bound c (hupdate ▸ hc)
  · intro c c' hne
    rw [hctas, hctas]
    split_ifs
    · exact Finset.disjoint_empty_left _
    · exact Finset.disjoint_empty_left _
    · exact Finset.disjoint_empty_right _
    · exact h.sane.disjoint c c' hne
  · intro b w hw
    obtain ⟨c, hc⟩ := h.sane.arrived b w hw
    refine ⟨c, hkeep c w hc fun hin => ?_⟩
    have hsome : (r.spec.named.arrived b w).isSome = true := hw
    rw [hnone w hin b] at hsome
    cases hsome
  · intro w hw
    obtain ⟨c, hc⟩ := h.sane.live w hw
    refine ⟨c, hkeep c w hc fun hin => ?_⟩
    rw [h.sets.live] at hexited
    exact Finset.disjoint_left.mp hexited hin hw
  · intro c b
    rw [hctas]
    split_ifs with hc
    · rintro ⟨w, hw, _⟩
      exact Finset.notMem_empty w hw
    · exact h.incomplete c b

end Regroup

theorem Inv.step (h : Inv cfg r) {a : BarrierAction} (henabled : Enabled cfg r a)
    (hfollows : Follows cfg r a) : ∃ r', BarrierRun.step cfg r a = .ok r' ∧ Inv cfg r' := by
  cases a with
  | allocate ctaId warps => exact h.allocate henabled
  | reach ctaId warpId inst => exact h.reach henabled hfollows
  | exit ctaId warpId => exact h.exit henabled hfollows
  | deallocate ctaId => exact h.deallocate henabled hfollows

end BarrierRun

/-! ## The barriers of a core -/

open BarrierRun

/-- In every run whose steps meet the condition no assertion fails, a warp waits exactly as long as
its barrier is not complete, and the reductions are broadcast. -/
theorem barrierSet_agrees {cfg : BarrierConfig} {outcome : Except BarrierFailure BarrierRun}
    (reached : ((system cfg).restrict (onOk (Follows cfg))).Reachable outcome) :
    OkOr (Agrees cfg) (fun _ => False) outcome := by
  have hinv : OkOr (Inv cfg) (fun _ => False) outcome := by
    refine reached.invariant_ofExcept ?_ ?_
    · rintro _ rfl
      exact inv_init
    · intro r a h hfollows henabled
      obtain ⟨r', hstep, hinv⟩ := h.step henabled hfollows
      rw [hstep]
      exact hinv
  exact hinv.imp fun r h => h.agrees

/-- A core for one CTA. -/
def oneCta : BarrierConfig := ⟨1, 16, 32⟩

/-- Two warps meet at a barrier and exit. -/
def meetAndExit : List BarrierAction :=
  [.allocate 0 {0, 1}, .reach 0 0 ⟨.red, 3, noCount⟩, .reach 0 1 ⟨.red, 3, noCount⟩, .exit 0 0,
    .exit 0 1, .deallocate 0]

theorem barrierSet_agrees_meet : ∃ r,
    execOk (fun r a => Follows oneCta r a ∧ Enabled oneCta r a) (step oneCta) {} meetAndExit =
      some r ∧ Agrees oneCta r := by
  have hrun : (execOk (fun r a => Follows oneCta r a ∧ Enabled oneCta r a) (step oneCta) {}
      meetAndExit).isSome = true := by decide +kernel
  obtain ⟨r, hr⟩ := Option.isSome_iff_exists.mp hrun
  exact ⟨r, hr, barrierSet_agrees (Reachable.execOk_restrict meetAndExit (.init ⟨{}, rfl, rfl⟩) hr)⟩

/-- One warp arrives at barrier 0 and waits at barrier 1; the other one completes barrier 0. -/
def arriveAndWait : List BarrierAction :=
  [.allocate 0 {0, 1}, .reach 0 0 ⟨.arrive, 0, 64⟩, .reach 0 0 ⟨.sync, 1, noCount⟩,
    .reach 0 1 ⟨.sync, 0, 64⟩]

/-- Then the first warp no longer waits, but barrier 1 is not complete. -/
theorem not_barrierSet_agrees :
    ¬ ∀ (cfg : BarrierConfig) (outcome : Except BarrierFailure BarrierRun),
    (system cfg).Reachable outcome → OkOr (Agrees cfg) (fun _ => False) outcome := by
  intro h
  have hrun : (execOk (Enabled oneCta) (step oneCta) {} arriveAndWait).any
      (fun r => decide (0 ∉ r.code.warpAtBarrier ∧ r.spec.named.WaitsAt 1 0)) = true := by
    decide +kernel
  obtain ⟨r, hr, hbad⟩ := (Option.any_eq_true _ _).mp hrun
  obtain ⟨hfree, hwaits⟩ := of_decide_eq_true hbad
  have hagrees := h oneCta (.ok r) (Reachable.execOk arriveAndWait (.init ⟨{}, rfl, rfl⟩) hr)
  exact hfree ((hagrees.waits 0).mpr ⟨1, hwaits⟩)

end GpuCalorie.Barrier
