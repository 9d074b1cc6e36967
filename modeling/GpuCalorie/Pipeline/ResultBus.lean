/-
# Units that share the result buses

Every bit that is set in a unit's `occupied` is set in a result bus of its own. So there are
never more instructions that complete in one cycle than there are result buses, which is the
number of EX_WB registers, and these are empty at the beginning of `execute`.
-/

import GpuCalorie.Pipeline.Execute
import GpuCalorie.Pipeline.Stages

namespace GpuCalorie.Pipeline

open GpuCalorie.Math Finset

theorem sum_set (rows : ℕ → Bitset) {bound n : ℕ} (hlt : n < bound) {latency : ℕ}
    (hfree : rows n latency = false) (position : ℕ) :
    ∑ m ∈ range bound,
      (Function.update rows n (Function.update (rows n) latency true) m position).toNat
      = ∑ m ∈ range bound, (rows m position).toNat + if position = latency then 1 else 0 := by
  have hmem : n ∈ range bound := mem_range.mpr hlt
  rw [sum_eq_add_sum_sdiff_singleton_of_mem hmem, sum_eq_add_sum_sdiff_singleton_of_mem hmem,
    Function.update_self]
  have hothers : ∀ m ∈ range bound \ {n},
      (Function.update rows n (Function.update (rows n) latency true) m position).toNat
        = (rows m position).toNat := by
    intro m hm
    rw [Function.update_of_ne (by simpa using (mem_sdiff.mp hm).2)]
  rw [sum_congr rfl hothers]
  by_cases heq : position = latency
  · rw [heq, Function.update_self, hfree, if_pos rfl, Bool.toNat_true, Bool.toNat_false]
    omega
  · rw [Function.update_of_ne heq, if_neg heq, Nat.add_zero]

theorem sum_update_units (units : ℕ → SimdUnit) {I : Finset ℕ} {k : ℕ} (hk : k ∉ I)
    (unit : SimdUnit) (f : SimdUnit → ℕ) :
    ∑ n ∈ I, f (Function.update units k unit n) = ∑ n ∈ I, f (units n) := by
  refine sum_congr rfl fun n hn => ?_
  have hne : n ≠ k := fun heq => hk (heq ▸ hn)
  rw [Function.update_of_ne hne]

namespace ShaderCore

variable {cfg : ExecuteConfig} {s : ShaderCore}

/-- The state of the units before a cycle. -/
structure Reserved (cfg : ExecuteConfig) (s : ShaderCore) : Prop where
  onTime : ∀ n < cfg.numFunctionUnits, (s.units n).OnTime (cfg.unit n) s.now
  buses : ∀ position, ∑ n ∈ range cfg.numFunctionUnits, ((s.units n).occupied position).toNat
    ≤ ∑ bus ∈ range cfg.numResultBus, (s.resultBus bus position).toNat
  width : s.exWb.length = cfg.numResultBus

/-- The state of the units in `execute`, when those below `k` have had their turn. -/
structure During (cfg : ExecuteConfig) (k : ℕ) (s : ShaderCore) : Prop where
  done : ∀ n < k, (s.units n).OnTime (cfg.unit n) (s.now + 1)
  rest : ∀ n, k ≤ n → n < cfg.numFunctionUnits → (s.units n).OnTime (cfg.unit n) s.now
  buses : ∀ position, ∑ n ∈ range k, ((s.units n).occupied position).toNat
      + ∑ n ∈ Ico k cfg.numFunctionUnits, ((s.units n).occupied (position + 1)).toNat
    ≤ ∑ bus ∈ range cfg.numResultBus, (s.resultBus bus position).toNat
  /-- There is a free register for every instruction that still completes. -/
  room : ∑ n ∈ Ico k cfg.numFunctionUnits, (if ((s.units n).pipelineReg 0).isSome then 1 else 0)
    ≤ s.exWb.count none
  width : s.exWb.length = cfg.numResultBus

theorem Reserved.during (h : s.Reserved cfg) : s.writeback.shiftResultBus.During cfg 0 where
  done _ hn := absurd hn (Nat.not_lt_zero _)
  rest n _ hn := h.onTime n hn
  buses position := by
    rw [range_zero, sum_empty, Nat.zero_add, ← range_eq_Ico]
    exact h.buses (position + 1)
  room := by
    have hcount : (s.writeback.shiftResultBus.exWb).count none = cfg.numResultBus := by
      rw [← h.width]
      show (s.exWb.map fun _ => none).count none = _
      rw [List.map_const', List.count_replicate_self]
    rw [hcount, ← range_eq_Ico]
    calc ∑ n ∈ range cfg.numFunctionUnits, (if ((s.units n).pipelineReg 0).isSome then 1 else 0)
        ≤ ∑ n ∈ range cfg.numFunctionUnits, ((s.units n).occupied 0).toNat := by
          refine sum_le_sum fun n hn => ?_
          cases hlast : (s.units n).pipelineReg 0 with
          | none => exact Nat.zero_le _
          | some inst =>
              have hbit := ((h.onTime n (mem_range.mp hn)).stages 0 inst hlast).2
              rw [hbit]
              rfl
      _ ≤ ∑ bus ∈ range cfg.numResultBus, (s.resultBus bus 0).toNat := h.buses 0
      _ ≤ ∑ _ ∈ range cfg.numResultBus, 1 := sum_le_sum fun bus _ => Bool.toNat_le _
      _ = cfg.numResultBus := (card_eq_sum_ones _).symm.trans (card_range _)
  width := by
    rw [← h.width]
    exact List.length_map _

theorem During.reserved (h : s.During cfg cfg.numFunctionUnits) :
    ({ s with now := s.now + 1 }).Reserved cfg where
  onTime := h.done
  buses position := by
    have hbuses := h.buses position
    rw [Ico_self, sum_empty, Nat.add_zero] at hbuses
    exact hbuses
  width := h.width

theorem During.cycle {k : ℕ} (h : s.During cfg k) (hk : k < cfg.numFunctionUnits) :
    ∃ unit exWb, (s.units k).cycle (cfg.unit k) s.exWb s.now = .ok (unit, exWb) ∧
      ({ s with units := Function.update s.units k unit, exWb := exWb }).During cfg (k + 1) := by
  have hroom := h.room
  rw [sum_eq_sum_Ico_succ_bot hk] at hroom
  obtain ⟨unit, exWb, hcycle, hunit, hoccupied, hcount, hlength⟩ :=
    SimdUnit.cycle_spec (h.rest k le_rfl hk) s.exWb fun hsome => by
      rw [if_pos hsome] at hroom
      omega
  have hlater := sum_update_units s.units (I := Ico (k + 1) cfg.numFunctionUnits) (k := k)
    (by simp) unit
  have hearlier := sum_update_units s.units (I := range k) (k := k) (by simp) unit
  refine ⟨unit, exWb, hcycle, ?_⟩
  exact {
    done := fun n hn => by
      show (Function.update s.units k unit n).OnTime _ _
      by_cases heq : n = k
      · rw [heq, Function.update_self]
        exact hunit
      · rw [Function.update_of_ne heq]
        exact h.done n (by omega)
    rest := fun n hn hlt => by
      show (Function.update s.units k unit n).OnTime _ _
      rw [Function.update_of_ne (by omega)]
      exact h.rest n (by omega) hlt
    buses := fun position => by
      have hbuses := h.buses position
      rw [sum_eq_sum_Ico_succ_bot hk] at hbuses
      show ∑ n ∈ range (k + 1), ((Function.update s.units k unit n).occupied position).toNat
        + ∑ n ∈ Ico (k + 1) _, ((Function.update s.units k unit n).occupied (position + 1)).toNat ≤
          _
      rw [sum_range_succ, Function.update_self, hoccupied,
        hearlier fun unit => (unit.occupied position).toNat,
        hlater fun unit => (unit.occupied (position + 1)).toNat, Nat.add_assoc]
      exact hbuses
    room := by
      show ∑ n ∈ Ico (k + 1) _,
        (if ((Function.update s.units k unit n).pipelineReg 0).isSome then 1 else 0) ≤
          exWb.count none
      rw [hlater fun unit => if (unit.pipelineReg 0).isSome then 1 else 0]
      omega
    width := hlength.trans h.width }

theorem testResBus_spec {latency resbus : ℕ} (h : s.testResBus cfg latency = some resbus) :
    resbus < cfg.numResultBus ∧ s.resultBus resbus latency = false := by
  have hmem := List.mem_of_find?_eq_some h
  have hfree := List.find?_some h
  exact ⟨List.mem_range.mp hmem, by simpa using hfree⟩

theorem During.issueTo {k n : ℕ} (h : s.During cfg k) (hn : n < k) {offers : ℕ → Option WarpInst}
    (hrange : ∀ inst ∈ offers n, (cfg.unit n).InRange inst) :
    ∃ t, s.issueTo cfg offers n = .ok t ∧ t.During cfg k := by
  rw [ShaderCore.issueTo]
  cases hoffer : offers n with
  | none => exact ⟨s, rfl, h⟩
  | some inst =>
      have hinst := hrange inst hoffer
      dsimp only
      rw [SimdUnit.canIssue_spec hinst]
      show ∃ t, (if (_ : Bool) = true then _ else _) = _ ∧ _
      split_ifs with hcan
      · obtain ⟨-, hempty, hfree⟩ := of_decide_eq_true hcan
        cases hbus : s.testResBus cfg inst.latency with
        | none => exact ⟨s, rfl, h⟩
        | some resbus =>
            obtain ⟨hlt, hbusFree⟩ := testResBus_spec hbus
            obtain ⟨unit, hissue, hunit, hoccupied, hregs⟩ :=
              SimdUnit.issue_spec (h.done n hn) hinst hempty hfree
            refine ⟨{ s with
              resultBus := Function.update s.resultBus resbus
                (Function.update (s.resultBus resbus) inst.latency true)
              units := Function.update s.units n unit }, ?_, ?_⟩
            · dsimp only
              rw [Bitset.set, if_pos hinst.2.2.1, hissue]
              rfl
            · have hlater := sum_update_units s.units (I := Ico k cfg.numFunctionUnits) (k := n)
                (by simp [hn]) unit
              have hrows : ∀ m, (Function.update s.units n unit m).occupied
                  = Function.update (fun m => (s.units m).occupied) n
                    (Function.update (s.units n).occupied inst.latency true) m := by
                intro m
                by_cases heq : m = n
                · rw [heq, Function.update_self, Function.update_self, hoccupied]
                · rw [Function.update_of_ne heq, Function.update_of_ne heq]
              exact {
                done := fun m hm => by
                  show (Function.update s.units n unit m).OnTime _ _
                  by_cases heq : m = n
                  · rw [heq, Function.update_self]
                    exact hunit
                  · rw [Function.update_of_ne heq]
                    exact h.done m hm
                rest := fun m hm hmlt => by
                  show (Function.update s.units n unit m).OnTime _ _
                  rw [Function.update_of_ne (by omega)]
                  exact h.rest m hm hmlt
                buses := fun position => by
                  have hbuses := h.buses position
                  have hset := sum_set (fun m => (s.units m).occupied) hn hfree position
                  have hbusSet := sum_set s.resultBus hlt hbusFree position
                  show ∑ m ∈ range k, ((Function.update s.units n unit m).occupied position).toNat
                    + ∑ m ∈ Ico k _, ((Function.update s.units n unit m).occupied
                      (position + 1)).toNat
                    ≤ ∑ bus ∈ _, (Function.update s.resultBus resbus _ bus position).toNat
                  rw [hlater fun unit => (unit.occupied (position + 1)).toNat,
                    sum_congr rfl fun m _ => by rw [hrows m], hset, hbusSet]
                  omega
                room := by
                  show ∑ m ∈ Ico k _,
                    (if ((Function.update s.units n unit m).pipelineReg 0).isSome then 1 else 0) ≤ _
                  rw [hlater fun unit => if (unit.pipelineReg 0).isSome then 1 else 0]
                  exact h.room
                width := h.width }
      · exact ⟨s, rfl, h⟩

theorem Reserved.cycle (h : s.Reserved cfg) {offers : ℕ → Option WarpInst}
    (henabled : s.Enabled cfg offers) :
    ∃ t, s.cycle cfg offers = .ok t ∧ t.Reserved cfg := by
  have hunit : ∀ k < cfg.numFunctionUnits, ∀ t : ShaderCore, t.During cfg k →
      ∃ t', executeUnit cfg offers k t = .ok t' ∧ t'.During cfg (k + 1) := by
    intro k hk t ht
    obtain ⟨unit, exWb, hcycle, hduring⟩ := ht.cycle hk
    obtain ⟨t', hissue, ht'⟩ := hduring.issueTo (Nat.lt_succ_self k) (henabled k hk)
    refine ⟨t', ?_, ht'⟩
    rw [executeUnit, hcycle]
    exact hissue
  obtain ⟨t, hrun, ht⟩ := countUp_ok cfg.numFunctionUnits hunit h.during
  refine ⟨{ t with now := t.now + 1 }, ?_, ht.reserved⟩
  rw [ShaderCore.cycle, execute, hrun]
  rfl

theorem reserved_created (cfg : ExecuteConfig) : (created cfg).Reserved cfg where
  onTime _ _ := SimdUnit.onTime_empty _ _
  buses _ := by simp [created]
  width := List.length_replicate

end ShaderCore

/-! ## Every instruction leaves in its cycle -/

/-- What has left a unit before a cycle: every instruction that was issued and has been in the
unit for its latency, once, and nothing else. -/
def SimdUnit.LeavesInTime (now : ℕ) (s : SimdUnit) : Prop :=
  ∀ inst cycle, s.left.count (inst, cycle) =
    if inst ∈ s.issued ∧ cycle = inst.dispatchCycle + inst.latency ∧ cycle < now then 1 else 0

theorem SimdUnit.OnTime.leavesInTime {cfg : SimdUnitConfig} {now : ℕ} {s : SimdUnit}
    (h : s.OnTime cfg now) : s.LeavesInTime now := by
  intro inst cycle
  by_cases htime : cycle = inst.dispatchCycle + inst.latency ∧ cycle < now
  · obtain ⟨hcycle, hpast⟩ := htime
    have hstages : s.pipelineReg.total (indicator inst) cfg.pipelineDepth = 0 := by
      refine DelayLine.total_eq_zero fun position other hother => if_neg fun heq => ?_
      subst heq
      have hstage := h.stages position other hother
      omega
    have hdispatch : s.dispatchTotal (indicator inst) = 0 := by
      rw [dispatchTotal]
      cases hwaiting : s.dispatchReg with
      | none => rfl
      | some waiting =>
          refine if_neg fun heq => ?_
          obtain ⟨-, ⟨-, hle, -⟩, htime, -⟩ := h.waiting waiting.1 waiting.2 hwaiting
          rw [heq] at hle htime
          omega
    have hleft : s.left.count (inst, cycle) = (s.left.map Prod.fst).count inst := by
      rw [List.count, List.count, List.countP_map]
      refine List.countP_congr fun e he => ?_
      have hdue := (h.due e he).1
      simp only [beq_iff_eq, Function.comp_apply, Prod.ext_iff]
      refine ⟨And.left, fun heq => ⟨heq, ?_⟩⟩
      rw [hdue, heq, hcycle]
    have hledger := h.ledger inst
    rw [hstages, hdispatch, h.once.count] at hledger
    rw [hleft]
    subst hcycle
    simpa [hpast] using hledger.symm
  · rw [if_neg fun hall => htime hall.2]
    refine List.count_eq_zero.mpr fun hmem => htime ?_
    exact h.due _ hmem

/-- In every run nothing fails: no unit moves an instruction to a register that holds one, and
there is a free EX_WB register for every instruction that completes. Every instruction leaves
the unit it was issued to once, when it has been there for its latency. -/
theorem leavesInTime_of_reachable (cfg : ExecuteConfig) {r : Except PipelineFailure ShaderCore}
    (reached : (executeSystem cfg).Reachable r) :
    ∃ s, r = .ok s ∧ ∀ n < cfg.numFunctionUnits, (s.units n).LeavesInTime s.now := by
  have hreserved : OkOr (ShaderCore.Reserved cfg) (fun _ => False) r := by
    refine reached.invariant_ofExcept_all ?_ ?_
    · rintro _ rfl
      exact ShaderCore.reserved_created cfg
    · intro s offers hs henabled
      obtain ⟨t, hcycle, ht⟩ := hs.cycle henabled
      rw [hcycle]
      exact ht
  cases r with
  | ok s => exact ⟨s, rfl, fun n hn => (hreserved.onTime n hn).leavesInTime⟩
  | error e => exact hreserved.elim

/-- Two units that share a result bus. -/
def twoSpUnits : ExecuteConfig where
  numFunctionUnits := 2
  unit _ := ⟨.sp, 3, by decide⟩
  numResultBus := 1

/-- What is ready at the ports of the two units in the first cycle. The first instruction is
due before the second one. -/
def fastAndSlow : ℕ → Option WarpInst
  | 0 => some { uid := 1, op := .aluOp, latency := 3, initiationInterval := 1 }
  | _ => some { uid := 2, op := .spOp, latency := 4, initiationInterval := 2 }

/-- Before the sixth cycle the first one of two instructions has left its unit. -/
theorem leavesInTime_twoSpUnits :
    ∃ s : ShaderCore, (s.units 0).left.map (fun e => (e.1.uid, e.2)) = [(1, 4)] ∧
      (s.units 1).left = [] ∧ (s.units 1).issued.length = 1 ∧
      ∀ n < 2, (s.units n).LeavesInTime s.now := by
  have hrun : ((TransitionSystem.execOk (ShaderCore.Enabled twoSpUnits)
    (ShaderCore.cycle twoSpUnits)
      (ShaderCore.created twoSpUnits)
      [fastAndSlow, fun _ => none, fun _ => none, fun _ => none, fun _ => none]).any fun s =>
        decide ((s.units 0).left.map (fun e => (e.1.uid, e.2)) = [(1, 4)] ∧
          (s.units 1).left = [] ∧ (s.units 1).issued.length = 1)) = true := by decide
  obtain ⟨s, hs, hleft⟩ := (Option.any_eq_true _ _).mp hrun
  obtain ⟨hfirst, hsecond, hissued⟩ := of_decide_eq_true hleft
  obtain ⟨t, ht, hleaves⟩ :=
    leavesInTime_of_reachable twoSpUnits (.execOk _ (.init ⟨_, rfl, rfl⟩) hs)
  cases ht
  exact ⟨s, hfirst, hsecond, hissued, hleaves⟩

end GpuCalorie.Pipeline
