/-
# Where branches that meet at the return meet

A branch whose lanes only meet when they return carries `RECONVERGE_RETURN_PC`, and
`updateSIMTStack` replaces that while it goes over the lanes of the warp: with the return PC
of the first thread that is not done, be it active or not. That is the return PC of the
threads that executed the branch exactly if the first thread that is not done returns where
they do; a thread that waits outside of a call the others have made does not.
-/

import GpuCalorie.Simt.Soundness

namespace GpuCalorie.Simt

open GpuCalorie.Hardware GpuCalorie.Math

variable {prog : WarpProgram} {n : ℕ} {thread thread' : ℕ → Thread} {pred : ℕ → Bool} {w : Warp}
  {pc : UInt32}

/-- One lane of the loop of `updateSIMTStack`, for `reconvergence_pc` of the instruction. -/
def visitReconvergencePc (thread : ℕ → Thread) (reconvergencePc : UInt32) (i : ℕ) : UInt32 :=
  if (thread i).done then reconvergencePc
  else if reconvergencePc = reconvergeReturnPc then (thread i).returnPc
  else reconvergencePc

/-- `reconvergence_pc` of the instruction after that loop, which is passed to `update`. -/
def scanReconvergencePc (warpSize : ℕ) (thread : ℕ → Thread) (inst : Instruction) : UInt32 :=
  (List.range warpSize).foldl (visitReconvergencePc thread) inst.reconvergencePc

theorem foldl_visitReconvergencePc_of_ne (thread : ℕ → Thread) (lanes : List ℕ)
    (hpc : pc ≠ reconvergeReturnPc) : lanes.foldl (visitReconvergencePc thread) pc = pc := by
  induction lanes with
  | nil => rfl
  | cons i lanes ih =>
      have hvisit : visitReconvergencePc thread pc i = pc := by
        rw [visitReconvergencePc, if_neg hpc, ite_self]
      rw [List.foldl_cons, hvisit]
      exact ih

theorem foldl_visitReconvergencePc (hret : ∀ i, (thread i).returnPc ≠ reconvergeReturnPc)
    (lanes : List ℕ) :
    lanes.foldl (visitReconvergencePc thread) reconvergeReturnPc =
      match lanes.find? fun i => !(thread i).done with
      | some i => (thread i).returnPc
      | none => reconvergeReturnPc := by
  induction lanes with
  | nil => rfl
  | cons i lanes ih =>
      rw [List.foldl_cons, visitReconvergencePc, if_pos rfl, List.find?_cons]
      cases hdone : (thread i).done with
      | true => exact ih
      | false => exact foldl_visitReconvergencePc_of_ne thread lanes (hret i)

theorem scanReconvergencePc_eq (hret : ∀ i, (thread i).returnPc ≠ reconvergeReturnPc)
    (inst : Instruction) : scanReconvergencePc n thread inst = convergePc n thread inst := by
  rw [scanReconvergencePc, convergePc]
  split_ifs with hreturn
  · rw [hreturn]
    refine (foldl_visitReconvergencePc hret _).trans ?_
    cases (List.range n).find? fun i => !(thread i).done with
    | none => rfl
    | some i => rfl
  · exact foldl_visitReconvergencePc_of_ne thread _ hreturn

/-! ## Threads of a run -/

theorem executeWarpInst_ok {inst : Instruction} {mask : Finset ℕ}
    (h : executeWarpInst inst pc mask pred thread = .ok thread') :
    (∀ i ∈ mask, (thread i).pc = pc ∧ (thread i).done = false) ∧
      thread' = fun i => if i ∈ mask then inst.exec (pred i) (thread i) else thread i := by
  rw [executeWarpInst] at h
  split_ifs at h with hpc hdone
  refine ⟨fun i hi => ?_, (Except.ok.inj h).symm⟩
  have hrunning : (thread i).done = false := by
    by_contra hne
    exact hdone ⟨i, hi, Bool.eq_true_of_not_eq_false hne⟩
  refine ⟨?_, hrunning⟩
  by_contra hne
  exact hpc ⟨i, hi, hne, hrunning⟩

theorem wellFormed_of_reachable {r : Except SimtFailure Warp}
    (reached : (warpSystem prog n).Reachable r) :
    OkOr (fun w => ∀ i, (w.thread i).WellFormed) (fun _ => True) r := by
  apply TransitionSystem.Reachable.invariant_ofExcept_all ?_ ?_ reached
  · rintro w ⟨startPc, activeMask, hpc, -, rfl⟩ i
    refine ⟨hpc, fun r hr => ?_, fun _ => List.cons_ne_nil 0 []⟩
    rw [List.mem_singleton.mp hr]
    decide
  · rintro ⟨stack, thread⟩ pred hwell -
    cases stack with
    | nil => trivial
    | cons top rest =>
        have hexec : OkOr (fun thread' : ℕ → Thread => ∀ i, (thread' i).WellFormed) (fun _ => True)
            (executeWarpInst (prog.instruction top.pc) top.pc top.activeMask pred thread) := by
          apply OkOr.intro _ fun _ _ => trivial
          intro thread' h i
          obtain ⟨hat, rfl⟩ := executeWarpInst_ok h
          show (if i ∈ top.activeMask then _ else thread i).WellFormed
          split_ifs with hi
          · rw [← (hat i hi).1]
            exact (hwell i).exec (pred i)
          · exact hwell i
        apply hexec.bind
        intro thread' hwell'
        have hupdate : OkOr (fun _ => True) (fun _ => True) (update n (top :: rest)
            (fun i => (thread' i).done) (fun i =>
              if (thread' i).done then nullPc else (thread' i).pc)
            ⟨(prog.instruction top.pc).op, (prog.instruction top.pc).isize, top.pc,
              convergePc n thread' (prog.instruction top.pc)⟩) :=
          .intro (fun _ _ => trivial) fun _ _ => trivial
        exact hupdate.bind fun _ _ => hwell'

/-! ## The PC that is passed -/

/-- The first thread of a warp that is not done is in a frame with the return PC of the frame
of every active thread. -/
def FirstLiveReturnsWith (warpSize : ℕ) (w : Warp) (activeMask : Finset ℕ) : Prop :=
  ∀ j ∈ w.live warpSize, (∀ k ∈ w.live warpSize, j ≤ k) →
    ∀ i ∈ activeMask, i < warpSize → (w.thread i).returnPc = (w.thread j).returnPc

theorem find?_live_eq_some_iff {j : ℕ} :
    ((List.range n).find? fun i => !(thread i).done) = some j ↔
      j ∈ liveThreads n thread ∧ ∀ k ∈ liveThreads n thread, j ≤ k := by
  rw [List.find?_range_eq_some]
  simp only [mem_liveThreads, Bool.not_eq_eq_eq_not, Bool.not_true]
  constructor
  · rintro ⟨hdone, hj, hfirst⟩
    refine ⟨⟨List.mem_range.mp hj, hdone⟩, fun k hk => ?_⟩
    by_contra hlt
    have hk' := hfirst k (Nat.lt_of_not_le hlt)
    rw [hk.2] at hk'
    cases hk'
  · rintro ⟨⟨hj, hdone⟩, hfirst⟩
    refine ⟨hdone, List.mem_range.mpr hj, fun k hk => ?_⟩
    by_contra hne
    have hlive : (thread k).done = false := by simpa using hne
    exact absurd (hfirst k ⟨hk.trans hj, hlive⟩) (Nat.not_le_of_lt hk)

theorem exec_bra {inst : Instruction} {target : UInt32} (hbra : inst.controlFlow = .bra target)
    (b : Bool) (t : Thread) :
    (inst.exec b t).done = t.done ∧ (inst.exec b t).callstack = t.callstack := by
  rw [Instruction.exec, hbra]
  split_ifs <;> exact ⟨rfl, rfl⟩

/-- For every warp and every branch with `RECONVERGE_RETURN_PC` that it executes, `update` is
passed the return PC of the threads that executed the branch exactly if the first thread of the
warp that is not done returns where they do. -/
theorem scanReconvergencePc_iff (hwell : ∀ i, (w.thread i).WellFormed) {top : SimtStackEntry}
    {target : UInt32} (hbra : (prog.instruction top.pc).controlFlow = .bra target)
    (hrecvg : (prog.instruction top.pc).reconvergencePc = reconvergeReturnPc)
    (hexec : executeWarpInst (prog.instruction top.pc) top.pc top.activeMask pred w.thread =
      .ok thread') :
    (∀ i ∈ top.activeMask, i < n →
        scanReconvergencePc n thread' (prog.instruction top.pc) = (w.thread i).returnPc) ↔
      FirstLiveReturnsWith n w top.activeMask := by
  obtain ⟨hat, rfl⟩ := executeWarpInst_ok hexec
  have hsame : scanReconvergencePc n
      (fun i => if i ∈ top.activeMask then (prog.instruction top.pc).exec (pred i) (w.thread i)
        else w.thread i) (prog.instruction top.pc) =
      convergePc n w.thread (prog.instruction top.pc) := by
    have hkeeps : ∀ i, (if i ∈ top.activeMask then
          (prog.instruction top.pc).exec (pred i) (w.thread i) else w.thread i).done =
        (w.thread i).done ∧ (if i ∈ top.activeMask then
          (prog.instruction top.pc).exec (pred i) (w.thread i) else w.thread i).callstack =
        (w.thread i).callstack := by
      intro i
      split_ifs
      · exact exec_bra hbra _ _
      · exact ⟨rfl, rfl⟩
    rw [scanReconvergencePc_eq]
    · exact convergePc_congr _ (fun i => (hkeeps i).1) fun i => (hkeeps i).2
    · intro i
      rw [Thread.returnPc, (hkeeps i).2]
      exact (hwell i).returnPc.ne_reconvergeReturnPc
  rw [hsame, convergePc, if_pos hrecvg]
  cases hfind : (List.range n).find? fun i => !(w.thread i).done with
  | none =>
      -- then no lane of the mask is one of the warp
      have hnone : ∀ i ∈ top.activeMask, ¬ i < n := by
        intro i hi hlt
        have hdone := List.find?_eq_none.mp hfind i (List.mem_range.mpr hlt)
        rw [(hat i hi).2] at hdone
        exact hdone rfl
      exact iff_of_true (fun i hi hlt => absurd hlt (hnone i hi))
        fun j _ _ i hi hlt => absurd hlt (hnone i hi)
  | some j =>
      obtain ⟨hj, hfirst⟩ := find?_live_eq_some_iff.mp hfind
      constructor
      · intro h j' hj' hfirst' i hi hlt
        have heq : j' = j := Nat.le_antisymm (hfirst' j hj) (hfirst j' hj')
        rw [heq]
        exact (h i hi hlt).symm
      · exact fun h i hi hlt => (h j hj hfirst i hi hlt).symm

/-! ## A thread that waits outside of a call -/

/-- A branch around a call of a function that returns in two places: `@p bra 24; call 64; exit`,
and `@q bra 80; ret; ret` at 64. -/
def twoReturnsInstruction (pc : UInt32) : Instruction :=
  if pc = 8 then { controlFlow := .bra 24, hasPred := true, reconvergencePc := 24 }
  else if pc = 16 then { controlFlow := .call 64 }
  else if pc = 64 then
    { controlFlow := .bra 80, hasPred := true, reconvergencePc := reconvergeReturnPc }
  else if pc = 72 then { controlFlow := .ret }
  else if pc = 80 then { controlFlow := .ret }
  else { controlFlow := .exit }

theorem ipdom_twoReturns_call :
    ImmediatelyPostdominates (flow twoReturnsInstruction) none (some 24) (some 8) := by
  refine @ipdom_of_skip _ _ 16 _ (fun v h => ?_) (.inl rfl) (fun _ h => h) (.inl rfl) (by decide)
  have hbranch : v = some 24 ∨ (true = true ∧ v = some 16) := h
  exact hbranch.imp_right And.right

theorem ipdom_twoReturns_exit :
    ImmediatelyPostdominates (flow twoReturnsInstruction) none none (some 64) := by
  have htaken : PathTo (flow twoReturnsInstruction) none (some 64) [some 64, some 80, none] :=
    .edge (.inl rfl) (.edge (.inl rfl) .here)
  have hfall : PathTo (flow twoReturnsInstruction) none (some 64) [some 64, some 72, none] :=
    .edge (.inr ⟨rfl, rfl⟩) (.edge (.inl rfl) .here)
  refine ⟨⟨by decide, (exit_postdominates _ _ _)⟩, fun w hw => ?_⟩
  have hmem := hw.2 _ htaken
  have hmem' := hw.2 _ hfall
  simp only [List.mem_cons, List.not_mem_nil, or_false] at hmem hmem'
  rcases hmem with rfl | rfl | rfl
  · exact absurd rfl hw.1
  · exact absurd hmem' (by decide)
  · exact .refl _ _ _

/-- The program of `twoReturnsInstruction`. -/
def twoReturns : WarpProgram where
  instruction := twoReturnsInstruction
  isize_aligned pc := by
    simp only [twoReturnsInstruction]
    split_ifs <;> decide
  bra_aligned pc target h := by
    simp only [twoReturnsInstruction] at h
    split_ifs at h <;> cases h <;> decide
  call_aligned pc target h := by
    simp only [twoReturnsInstruction] at h
    split_ifs at h
    cases h
    decide
  reaches pc target h := by
    simp only [twoReturnsInstruction] at h
    split_ifs at h with hcall hpc hreturn
    · rw [hcall]
      exact ⟨_, .edge (.inl rfl) (.edge (.inl rfl) .here)⟩
    · rw [hreturn]
      exact ⟨_, .edge (.inl rfl) (.edge (.inl rfl) .here)⟩
  reconverges pc target h := by
    simp only [twoReturnsInstruction] at h
    split_ifs at h with hcall hpc hreturn
    · rw [hcall]
      exact ⟨some 24, ipdom_twoReturns_call, rfl⟩
    · rw [hreturn]
      exact ⟨none, ipdom_twoReturns_exit, rfl⟩

/-- Two lanes that have executed the branch from the kernel. -/
def launchedThreads (i : ℕ) : Thread :=
  if i ∈ ({0, 1} : Finset ℕ) then
    (twoReturnsInstruction 64).exec (i == 1) ((launchWarp 64 {0, 1}).thread i)
  else (launchWarp 64 {0, 1}).thread i

theorem scanReconvergencePc_launched :
    scanReconvergencePc 2 launchedThreads (twoReturnsInstruction 64) =
        ((launchWarp 64 {0, 1}).thread 0).returnPc ∧
      scanReconvergencePc 2 launchedThreads (twoReturnsInstruction 64) =
        ((launchWarp 64 {0, 1}).thread 1).returnPc := by
  have hreached : (warpSystem twoReturns 2).Reachable (.ok (launchWarp 64 {0, 1})) :=
    .init ⟨_, rfl, 64, {0, 1}, by decide, by decide, rfl⟩
  have hwell : ∀ i, ((launchWarp 64 {0, 1}).thread i).WellFormed := wellFormed_of_reachable hreached
  have hexec : executeWarpInst (twoReturns.instruction 64) 64 {0, 1} (· == 1)
      (launchWarp 64 {0, 1}).thread = .ok launchedThreads := by
    rw [executeWarpInst, if_neg (by decide), if_neg (by decide)]
    rfl
  have hiff := @scanReconvergencePc_iff twoReturns 2 _ (· == 1) _ hwell
    { pc := 64, activeMask := {0, 1} } 80 rfl rfl hexec
  have hall := hiff.mpr fun _ _ _ _ _ _ => rfl
  exact ⟨hall 0 (by decide) (by decide), hall 1 (by decide) (by decide)⟩

/-- Lane 0 takes the branch around the call, and the others call. -/
def twoReturnsRun : Option Warp :=
  TransitionSystem.execOk (fun w _ => (w.live 3).Nonempty) (executeWarp twoReturns 3)
    (launchWarp 8 {0, 1, 2}) [(· == 0), fun _ => true]

theorem twoReturnsRun_eq :
    twoReturnsRun.map (fun w => (w.stack.head?, w.thread 0, w.thread 1, w.thread 2)) =
      some (some ⟨64, 0, {1, 2}, nullPc, .call⟩,
        ⟨24, [0], false⟩, ⟨64, [24, 0], false⟩, ⟨64, [24, 0], false⟩) := by
  decide

/-- Lanes 1 and 2 take different ways in the function, and `update` is passed the return PC of
lane 0, which has not called it. -/
theorem not_scanReconvergencePc_twoReturns :
    ¬ ∀ prog n w pred top rest target thread', (warpSystem prog n).Reachable (.ok w) →
      w.stack = top :: rest → (prog.instruction top.pc).controlFlow = .bra target →
      (prog.instruction top.pc).reconvergencePc = reconvergeReturnPc →
      executeWarpInst (prog.instruction top.pc) top.pc top.activeMask pred w.thread =
        .ok thread' →
      ∀ i ∈ top.activeMask, i < n →
        scanReconvergencePc n thread' (prog.instruction top.pc) = (w.thread i).returnPc := by
  intro hall
  obtain ⟨w, hw, heq⟩ := Option.map_eq_some_iff.mp twoReturnsRun_eq
  obtain ⟨hhead, hzero, hone, htwo⟩ : w.stack.head? = _ ∧ w.thread 0 = _ ∧ w.thread 1 = _ ∧
      w.thread 2 = _ := by simpa only [Prod.mk.injEq] using heq
  obtain ⟨rest, hstack⟩ := List.head?_eq_some_iff.mp hhead
  have hreached : (warpSystem twoReturns 3).Reachable (.ok w) :=
    .execOk _ (.init ⟨_, rfl, 8, {0, 1, 2}, by decide, by decide, rfl⟩) hw
  have hexec : executeWarpInst (twoReturns.instruction 64) 64 {1, 2} (· == 1) w.thread =
      .ok fun i => if i ∈ ({1, 2} : Finset ℕ) then
        (twoReturnsInstruction 64).exec (i == 1) (w.thread i) else w.thread i := by
    have hlanes : ∀ i ∈ ({1, 2} : Finset ℕ), w.thread i = ⟨64, [24, 0], false⟩ := by
      intro i hi
      rcases Finset.mem_insert.mp hi with rfl | hi
      · exact hone
      · rw [Finset.mem_singleton.mp hi]
        exact htwo
    rw [executeWarpInst, if_neg, if_neg]
    · rfl
    · rintro ⟨i, hi, hdone⟩
      rw [hlanes i hi] at hdone
      cases hdone
    · rintro ⟨i, hi, hpc, -⟩
      rw [hlanes i hi] at hpc
      exact hpc rfl
  have hpassed := hall twoReturns 3 w (· == 1) _ rest 80 _ hreached hstack rfl rfl hexec 1
    (by decide) (by decide)
  have hscan : scanReconvergencePc 3 (fun i => if i ∈ ({1, 2} : Finset ℕ) then
      (twoReturnsInstruction 64).exec (i == 1) (w.thread i) else w.thread i)
      (twoReturnsInstruction 64) = 0 := by
    have hlane : visitReconvergencePc (fun i => if i ∈ ({1, 2} : Finset ℕ) then
        (twoReturnsInstruction 64).exec (i == 1) (w.thread i) else w.thread i)
        reconvergeReturnPc 0 = 0 := by
      simp [visitReconvergencePc, hzero, Thread.returnPc]
    show [0, 1, 2].foldl (visitReconvergencePc _) reconvergeReturnPc = 0
    rw [List.foldl_cons, hlane]
    exact foldl_visitReconvergencePc_of_ne _ _ (by decide)
  rw [hone] at hpassed
  exact absurd (hscan.symm.trans hpassed) (by decide)

end GpuCalorie.Simt
