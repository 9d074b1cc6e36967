/-
# When a shuffle is exact

While the active lanes are the first ones of the warp, the counter is the number of the
lane that executes. The invariant of the loop says that the lanes below it have their
results and that every other thread is as it was; a lane then reads the original value of
its source lane, since that lane either has not executed yet or has only changed a
register the source operand does not name.
-/

import GpuCalorie.Instructions.Shuffle

namespace GpuCalorie.Instructions

namespace ShflIssue

variable {cfg : CoreConfig} {v : ShflIssue cfg} {s : ShflCore} {lane : ℕ}

/-- The state when the lanes below a bound are done: they have their results, every other
thread is untouched, and the counter says how many they are until the last one resets
it. -/
structure DoneBelow (v : ShflIssue cfg) (bound : ℕ) (s : ShflCore) : Prop where
  written : ∀ lane < bound, lane ∈ v.mask → ∃ value, v.MovedOrZero lane value ∧
    s.regs (v.thread lane) =
      setOperandValue (v.core.regs (v.thread lane)) ⟨v.pI.dst, .whole⟩ value
  untouched : ∀ thread, (∀ lane < bound, lane ∈ v.mask → thread ≠ v.thread lane) →
    s.regs thread = v.core.regs thread
  warpInfo : s.warpInfo = v.core.warpInfo
  counter : s.doneThreads v.info = if bound < v.mask.card then bound else 0

theorem thread_ne {lane other : ℕ} (hne : lane ≠ other) : v.thread lane ≠ v.thread other :=
  fun h => hne (Nat.add_left_cancel h)

theorem DoneBelow.untouched_of_le {bound lane : ℕ} (h : v.DoneBelow bound s)
    (hle : bound ≤ lane) : s.regs (v.thread lane) = v.core.regs (v.thread lane) := by
  apply h.untouched
  intro other hother _
  apply thread_ne
  omega

theorem DoneBelow.held {lane source : ℕ} {value : PtxReg} (h : v.DoneBelow lane s)
    (hsource : source ∈ v.mask) (happart : ¬ v.pI.src1.reads v.pI.dst ∨ lane ≤ source)
    (hvalue : getOperandValue (s.regs (v.thread source)) v.pI.src1 v.pI.type = .ok value) :
    v.Held source value := by
  by_cases hle : lane ≤ source
  · rw [h.untouched_of_le hle] at hvalue
    exact hvalue
  · obtain ⟨old, _, hregs⟩ := h.written source (Nat.lt_of_not_le hle) hsource
    have hnot : ¬ v.pI.src1.reads v.pI.dst := happart.resolve_right hle
    have hsame : getOperandValue (s.regs (v.thread source)) v.pI.src1 v.pI.type =
        getOperandValue (v.core.regs (v.thread source)) v.pI.src1 v.pI.type := by
      apply getOperandValue_congr
      intro symbol hreads
      have hne : symbol ≠ v.pI.dst := fun heq => hnot (heq ▸ hreads)
      rw [hregs, setOperandValue, Function.update_of_ne hne]
    rw [Held, ← hsame]
    exact hvalue

theorem DoneBelow.step {data : PtxReg} (h : v.DoneBelow lane s)
    (hlane : lane ∈ v.mask) (hcard : lane < v.mask.card) (hmoved : v.MovedOrZero lane data) :
    v.DoneBelow (lane + 1) { s with
      regs := Function.update s.regs (v.thread lane)
        (setOperandValue (s.regs (v.thread lane)) ⟨v.pI.dst, .whole⟩ data)
      doneThreads := Function.update s.doneThreads v.info
        (if lane + 1 = v.mask.card then 0 else lane + 1) } := by
  constructor
  · intro other hother hmem
    by_cases heq : other = lane
    · subst heq
      refine ⟨data, hmoved, ?_⟩
      rw [← h.untouched_of_le le_rfl]
      exact Function.update_self ..
    · obtain ⟨value, hvalue, hregs⟩ := h.written other (by omega) hmem
      refine ⟨value, hvalue, ?_⟩
      rw [← hregs]
      exact Function.update_of_ne (thread_ne heq) ..
  · intro thread hthread
    have hne : thread ≠ v.thread lane := hthread lane (Nat.lt_succ_self lane) hlane
    calc Function.update s.regs (v.thread lane) _ thread
        _ = s.regs thread := Function.update_of_ne hne ..
        _ = v.core.regs thread := h.untouched thread fun other hother hmem =>
            hthread other (by omega) hmem
  · exact h.warpInfo
  · show Function.update s.doneThreads v.info _ v.info = _
    rw [Function.update_self]
    split_ifs <;> omega

theorem InOrder.shflImpl (order : v.InOrder) (hlane : lane ∈ v.mask) (h : v.DoneBelow lane s) :
    ∃ next, shflImpl cfg v.pI v.instWarpId v.mask s = .ok next ∧ v.DoneBelow (lane + 1) next := by
  have hcard : lane < v.mask.card := by
    rw [order.lowest] at hlane
    exact Finset.mem_range.mp hlane
  have hlow : lane < 32 := Nat.lt_of_lt_of_le (v.mask_lt lane hlane) cfg.warpSize_le
  have hinfo : s.warpInfo (v.warpId * cfg.warpSize) = v.info := by rw [h.warpInfo, info]
  have hcount : s.doneThreads v.info = lane := by rw [h.counter, if_pos hcard]
  have hown : s.regs (v.thread lane) = v.core.regs (v.thread lane) := h.untouched_of_le le_rfl
  obtain ⟨bval, hbval⟩ := getOperandValue_ok v.pI.type_ne_pred (s.regs (v.thread lane)) v.pI.src2
  obtain ⟨cval, hcval⟩ := getOperandValue_ok v.pI.type_ne_pred (s.regs (v.thread lane)) v.pI.src3
  have hreads : v.ReadsFrom lane (v.pI.op.sourceLane lane bval.u32 cval.u32) :=
    ⟨bval, cval, hown ▸ hbval, hown ▸ hcval, rfl⟩
  set source := v.pI.op.sourceLane lane bval.u32 cval.u32 with hsource
  have hidx : (shflSource v.pI.op (.ofNat 32 lane) bval.u32 cval.u32).toNat = source :=
    toNat_shflSource v.pI.op hlow
  have hsourceLt : ¬ maxWarpSize ≤ source := Nat.not_le_of_lt (sourceLane_lt v.pI.op hlow)
  have hdata : ∃ data, shflData v.pI v.mask s.regs (v.warpId * cfg.warpSize) source = .ok data ∧
      v.MovedOrZero lane data := by
    rw [shflData, if_neg hsourceLt]
    by_cases hactive : source ∈ v.mask
    · obtain ⟨data, hdata⟩ :=
        getOperandValue_ok v.pI.type_ne_pred (s.regs (v.thread source)) v.pI.src1
      refine ⟨data, by rw [if_pos hactive]; exact hdata, source, hreads, ?_⟩
      rw [if_pos hactive]
      exact h.held hactive (order.apart.imp_right fun hup => hup lane hlane source hreads) hdata
    · refine ⟨⟨0⟩, by rw [if_neg hactive], source, hreads, ?_⟩
      rw [if_neg hactive]
  obtain ⟨data, hread, hmoved⟩ := hdata
  have hthread : v.warpId * cfg.warpSize + lane = v.thread lane := rfl
  refine ⟨{ s with
    regs := Function.update s.regs (v.thread lane)
      (setOperandValue (s.regs (v.thread lane)) ⟨v.pI.dst, .whole⟩ data)
    doneThreads := Function.update s.doneThreads v.info
      (if lane + 1 = v.mask.card then 0 else lane + 1) }, ?_, ?_⟩
  · simp only [Instructions.shflImpl, order.sameWarp, hinfo, hcount, hthread, hbval, hcval, bind,
      Except.bind, hidx, hread]
    rfl
  · exact h.step hlane hcard hmoved

/-! ## Shuffles of a warp -/

/-- In a shuffle in order every active lane gets the value its source lane had, or zero if
that lane is not active; nothing else changes, and the counter is zero again. -/
theorem execute_of_inOrder (v : ShflIssue cfg) (order : v.InOrder) :
    ∃ last, v.execute = .ok last ∧ v.Exact v.MovedOrZero last := by
  have hmaskAt : ∀ lane, maskAt v.mask (fun _ => false) lane = v.mask := fun lane => by
    simp [maskAt]
  have hrun := executeWarpInst_ok v.mask (fun _ => false)
    (fun s lane => Guard.skips (s.regs (v.thread lane)) v.pI.guard)
    (fun mask _ => Instructions.shflImpl cfg v.pI v.instWarpId mask)
    (fun lane s => v.DoneBelow lane s) cfg.warpSize v.core ?_ ?_ ?_ ?_
  · obtain ⟨last, hlast, hdone⟩ := hrun
    refine ⟨last, by rw [execute, hlast]; rfl, ?_, ?_, ?_⟩
    · intro lane hlane
      obtain ⟨value, hvalue, hregs⟩ := hdone.written lane (v.mask_lt lane hlane) hlane
      rw [hregs, setOperandValue, Function.update_self]
      exact hvalue
    · intro thread symbol hother
      by_cases hthread : ∃ lane ∈ v.mask, thread = v.thread lane
      · obtain ⟨lane, hlane, heq⟩ := hthread
        obtain ⟨value, _, hregs⟩ := hdone.written lane (v.mask_lt lane hlane) hlane
        rw [heq, hregs, setOperandValue, Function.update_of_ne (hother lane hlane heq)]
      · rw [hdone.untouched thread]
        intro lane _ hlane heq
        exact hthread ⟨lane, hlane, heq⟩
    · rw [hdone.counter, if_neg]
      have hcard : v.mask.card ≤ cfg.warpSize := by
        have hsub : v.mask ⊆ Finset.range cfg.warpSize := fun lane hlane =>
          Finset.mem_range.mpr (v.mask_lt lane hlane)
        simpa using Finset.card_le_card hsub
      omega
  · intro lane _ hlane s hs
    have hguard := order.unguarded lane hlane
    rw [skipped, ← hs.untouched_of_le le_rfl] at hguard
    exact hguard
  · intro lane hwarp hpassed s hs
    have hnot : lane ∉ v.mask := fun hlane => Bool.false_ne_true (hpassed hlane)
    have hcard : ¬ lane < v.mask.card := fun hlt => hnot <| by
      rw [order.lowest]
      exact Finset.mem_range.mpr hlt
    refine ⟨fun other hother hmem => ?_, fun thread hthread => ?_, hs.warpInfo, ?_⟩
    · have hne : other ≠ lane := fun heq => hnot (heq ▸ hmem)
      exact hs.written other (by omega) hmem
    · exact hs.untouched thread fun other hother hmem => hthread other (by omega) hmem
    · rw [hs.counter, if_neg hcard, if_neg (by omega)]
  · intro lane hwarp hlane _ s hs
    rw [hmaskAt]
    exact order.shflImpl hlane hs
  · refine ⟨fun lane hlane => absurd hlane (Nat.not_lt_zero _), fun _ _ => rfl, rfl, ?_⟩
    rw [order.fresh]
    split_ifs <;> rfl

/-- The value a lane is meant to get, computed from its operands. -/
def movedValue (v : ShflIssue cfg) (lane : ℕ) : Except ExecFailure PtxReg := do
  let bval ← getOperandValue (v.core.regs (v.thread lane)) v.pI.src2 v.pI.type
  let cval ← getOperandValue (v.core.regs (v.thread lane)) v.pI.src3 v.pI.type
  getOperandValue (v.core.regs (v.thread (v.pI.op.sourceLane lane bval.u32 cval.u32)))
    v.pI.src1 v.pI.type

theorem Moved.movedValue_eq {value : PtxReg} (h : v.Moved lane value) :
    v.movedValue lane = .ok value := by
  obtain ⟨source, ⟨bval, cval, hbval, hcval, hsource⟩, hvalue⟩ := h
  simp only [movedValue, hbval, hcval, bind, Except.bind, ← hsource]
  exact hvalue

theorem not_exact_of_ne (lane : ℕ) (value : PtxReg) (hlane : lane ∈ v.mask)
    (hmoved : v.movedValue lane = .ok value)
    (hleft : v.execute.map (fun s => decide (s.regs (v.thread lane) v.pI.dst = value)) =
      .ok false) :
    ¬ ∃ last, v.execute = .ok last ∧ v.Exact v.Moved last := by
  rintro ⟨last, hlast, hexact⟩
  have hresult := (hexact.result lane hlane).movedValue_eq
  rw [hmoved] at hresult
  rw [hlast] at hleft
  have hne : decide (last.regs (v.thread lane) v.pI.dst = value) = false := Except.ok.inj hleft
  exact of_decide_eq_false hne (Except.ok.inj hresult).symm

end ShflIssue

/-- A shuffle of a warp of four lanes in which register 2 of lane `i` holds `10 + i`. Lane
shifts and lane numbers are literals, and a whole warp is one segment. -/
def fourLaneShuffle (op : ShflOp) (dst : ℕ) (bval cval : BitVec 32) (mask : Finset ℕ)
    (mask_lt : ∀ lane ∈ mask, lane < 4) : ShflIssue ⟨4, by decide⟩ where
  warpId := 0
  instWarpId := 0
  pI :=
    { op := op
      type := .b32
      dst := dst
      src1 := ⟨.reg 2, .whole, false⟩
      src2 := ⟨.literal (.ofBits bval), .whole, false⟩
      src3 := ⟨.literal (.ofBits cval), .whole, false⟩
      type_ne_pred := by decide }
  mask := mask
  core :=
    { regs := fun thread symbol => if symbol = 2 then .ofBits (.ofNat 32 (10 + thread)) else ⟨0⟩
      warpInfo := fun _ => 0
      doneThreads := fun _ => 0 }
  mask_lt := mask_lt

/-- Three lanes of four read from the next lane. -/
theorem execute_fourLaneShuffle_down :
    ∃ last, (fourLaneShuffle .down 1 1 31 {0, 1, 2} (by decide)).execute = .ok last ∧
      (fourLaneShuffle .down 1 1 31 {0, 1, 2} (by decide)).Exact
        (fourLaneShuffle .down 1 1 31 {0, 1, 2} (by decide)).MovedOrZero last :=
  ShflIssue.execute_of_inOrder _
    ⟨rfl, by decide, by decide, rfl, .inl (by unfold Operand.reads; decide)⟩

/-- A shuffle does not give every active lane the value of its source lane: lane 2 of three
active lanes reads the inactive lane 3, a single active lane 1 is taken for lane 0, and
when destination and source are one register lane 2 reads what lane 1 has just written. -/
theorem not_exact_fourLaneShuffle :
    (¬ ∃ last, (fourLaneShuffle .down 1 1 31 {0, 1, 2} (by decide)).execute = .ok last ∧
        (fourLaneShuffle .down 1 1 31 {0, 1, 2} (by decide)).Exact
          (fourLaneShuffle .down 1 1 31 {0, 1, 2} (by decide)).Moved last) ∧
      (¬ ∃ last, (fourLaneShuffle .idx 1 1 31 {1} (by decide)).execute = .ok last ∧
        (fourLaneShuffle .idx 1 1 31 {1} (by decide)).Exact
          (fourLaneShuffle .idx 1 1 31 {1} (by decide)).Moved last) ∧
      ¬ ∃ last, (fourLaneShuffle .up 2 1 0 {0, 1, 2, 3} (by decide)).execute = .ok last ∧
        (fourLaneShuffle .up 2 1 0 {0, 1, 2, 3} (by decide)).Exact
          (fourLaneShuffle .up 2 1 0 {0, 1, 2, 3} (by decide)).Moved last := by
  refine ⟨?_, ?_, ?_⟩
  · exact ShflIssue.not_exact_of_ne 2 (.ofBits 13#32) (by decide) (by decide) (by decide)
  · exact ShflIssue.not_exact_of_ne 1 (.ofBits 11#32) (by decide) (by decide) (by decide)
  · exact ShflIssue.not_exact_of_ne 2 (.ofBits 11#32) (by decide) (by decide) (by decide)

end GpuCalorie.Instructions
