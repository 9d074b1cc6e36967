/-
# Soundness of the SIMT stack

In every run of regular steps the stack is sound, and no assertion of `update` fails. A
run may still end at the assertion of `ptx_exec_inst` against threads that are done, as
the masks of waiting entries keep lanes that finish above them.

Where the threads of a call all exit inside it, the caller's entry is left on top without
a thread that runs: `not_outcome_exitInCallee` is a run of three instructions that ends so.
-/

import GpuCalorie.Simt.Divergence

namespace GpuCalorie.Simt

open GpuCalorie.Hardware GpuCalorie.Math

variable {prog : WarpProgram} {n : ℕ} {pred : ℕ → Bool} {w : Warp}

/-- The invariant of a warp: threads are well-formed, and the stack is where they are. -/
structure WarpInvariant (prog : WarpProgram) (n : ℕ) (w : Warp) : Prop where
  wellFormed : ∀ i, (w.thread i).WellFormed
  settled : Settled prog n w.thread w.stack

/-! ## The invariant makes the stack sound -/

theorem split_of_map_entry {frames : List Frame} {above between below : List SimtStackEntry}
    {e e' : SimtStackEntry}
    (hmap : frames.map Frame.entry = above ++ e :: (between ++ e' :: below)) :
    ∃ above' f between' f' below', frames = above' ++ f :: (between' ++ f' :: below') ∧
      f.entry = e ∧ between'.map Frame.entry = between ∧ f'.entry = e' := by
  obtain ⟨above', rest, rfl, -, hrest⟩ := List.map_eq_append_iff.mp hmap
  obtain ⟨f, rest, rfl, hf, hrest⟩ := List.map_eq_cons_iff.mp hrest
  obtain ⟨between', rest, rfl, hbetween, hrest⟩ := List.map_eq_append_iff.mp hrest
  obtain ⟨f', below', rfl, hf', -⟩ := List.map_eq_cons_iff.mp hrest
  exact ⟨above', f, between', f', below', rfl, hf, hbetween, hf'⟩

theorem WarpInvariant.stackSound (h : WarpInvariant prog n w) : StackSound n w := by
  rcases h.settled with ⟨frames, hstack, tracks⟩ | ⟨hstack, hempty⟩
  · constructor
    case located =>
      intro i hi
      obtain ⟨f, hf, hat⟩ := tracks.located i hi
      refine ⟨f.entry, ?_, hat.1⟩
      rw [hstack, topmost_map_entry, hf]
      rfl
    case topLive =>
      rintro ⟨i, hi⟩
      obtain ⟨f, hf, -⟩ := tracks.located i hi
      obtain ⟨T, s, rfl⟩ := List.exists_cons_of_ne_nil (List.ne_nil_of_mem (mem_of_topFrame hf).1)
      exact ⟨T.entry, s.map Frame.entry, hstack, tracks.inhabited ⟨i, hi⟩ T List.mem_cons_self⟩
    case disjoint =>
      intro above e between e' below hsplit hbetween hsame
      obtain ⟨above', f, between', f', below', rfl, rfl, rfl, rfl⟩ :=
        split_of_map_entry (hstack.symm.trans hsplit)
      exact tracks.sound.disjoint
        (fun x hx => hbetween x.entry (List.mem_map_of_mem hx)) hsame
    case contained =>
      intro above e between e' below hsplit hbetween htype hrecvg hother
      obtain ⟨above', f, between', f', below', rfl, rfl, rfl, rfl⟩ :=
        split_of_map_entry (hstack.symm.trans hsplit)
      exact tracks.sound.contained
        (fun x hx => hbetween x.entry (List.mem_map_of_mem hx)) htype hrecvg hother
  · have hnil : ∀ above e rest, w.stack ≠ above ++ e :: rest := by
      intro above e rest
      rw [hstack]
      simp
    exact
      { located := fun i hi => absurd (hempty ▸ hi) (Finset.notMem_empty i)
        topLive := fun ⟨i, hi⟩ => absurd (hempty ▸ hi) (Finset.notMem_empty i)
        disjoint := fun above e between e' below hsplit => absurd hsplit (hnil above e _)
        contained := fun above e between e' below hsplit => absurd hsplit (hnil above e _) }

/-! ## The invariant holds in every run of regular steps -/

theorem WarpInvariant.launchWarp {startPc : UInt32} {activeMask : Finset ℕ}
    (hpc : Aligned startPc) (hmask : activeMask ⊆ Finset.range n) :
    WarpInvariant prog n (launchWarp startPc activeMask) := by
  have hlive : liveThreads n (Simt.launchWarp startPc activeMask).thread = activeMask := by
    ext i
    rw [mem_liveThreads]
    constructor
    · rintro ⟨-, hi⟩
      simpa [Simt.launchWarp] using hi
    · intro hi
      exact ⟨Finset.mem_range.mp (hmask hi), by simpa [Simt.launchWarp] using hi⟩
  let T : Frame :=
    ⟨{ pc := startPc, calldepth := 1, activeMask := activeMask, type := .normal }, .base, [0]⟩
  constructor
  case wellFormed =>
    intro i
    refine ⟨hpc, fun r hr => ?_, fun _ => List.cons_ne_nil 0 []⟩
    rw [List.mem_singleton.mp hr]
    decide
  case settled =>
    refine .inl ⟨[T], rfl, ?_⟩
    constructor
    case sound => exact .launched rfl rfl rfl hlive.subset
    case located =>
      intro i hi
      rw [hlive] at hi
      exact ⟨T, topFrame_cons_of_mem (f := T) hi, rfl, rfl⟩
    case inhabited =>
      rintro ⟨i, hi⟩ f hf
      rw [List.mem_singleton.mp hf]
      exact ⟨i, hlive.subset hi, hi⟩
    case bounded =>
      intro f hf
      rw [List.mem_singleton.mp hf]
      exact hmask

theorem WarpInvariant.executeWarp (h : WarpInvariant prog n w) (hregular : Regular prog n w pred)
    (hlive : (w.live n).Nonempty) :
    OkOr (WarpInvariant prog n) (· = SimtFailure.threadDone)
      (executeWarp prog n w pred) := by
  obtain ⟨stack, thread⟩ := w
  rcases h.settled with ⟨frames, rfl, tracks⟩ | ⟨-, hempty⟩
  · obtain ⟨T, s, rfl⟩ : ∃ T s, frames = T :: s := by
      obtain ⟨i, hi⟩ := hlive
      obtain ⟨f, hf, -⟩ := tracks.located i hi
      exact List.exists_cons_of_ne_nil (List.ne_nil_of_mem (mem_of_topFrame hf).1)
    have hpc : ¬ ∃ i ∈ T.mask, (thread i).pc ≠ T.entry.pc ∧ (thread i).done = false := by
      rintro ⟨i, hi, hne, hdone⟩
      have hlt := Finset.mem_range.mp (tracks.bounded T List.mem_cons_self hi)
      obtain ⟨f, hf, hat⟩ := tracks.located i (mem_liveThreads.mpr ⟨hlt, hdone⟩)
      rw [topFrame_cons_of_mem hi, Option.some.injEq] at hf
      exact hne (hf ▸ hat.1)
    by_cases hdone : ∃ i ∈ T.mask, (thread i).done = true
    · -- `ptx_exec_inst` asserts that none is done
      have hfails : Simt.executeWarp prog n ⟨(T :: s).map Frame.entry, thread⟩ pred =
          .error .threadDone := by
        simp only [Simt.executeWarp, List.map_cons, executeWarpInst, if_neg hpc, if_pos hdone]
        rfl
      rw [hfails]
      exact rfl
    · have ex : RegularExecuting prog n thread pred T s :=
        { tracks := tracks
          wellFormed := h.wellFormed
          live := fun i hi => by
            have hlt := Finset.mem_range.mp (tracks.bounded T List.mem_cons_self hi)
            refine mem_liveThreads.mpr ⟨hlt, ?_⟩
            cases hi' : (thread i).done with
            | true => exact absurd ⟨i, hi, hi'⟩ hdone
            | false => rfl
          someLive := hlive
          regular := hregular T.entry (s.map Frame.entry) rfl }
      obtain ⟨stack, hupdate, hsettled⟩ := ex.updateOk
      have hstep : Simt.executeWarp prog n ⟨(T :: s).map Frame.entry, thread⟩ pred =
          .ok ⟨stack, execMask prog T.entry.pc T.mask pred thread⟩ := by
        simp only [Simt.executeWarp, List.map_cons, executeWarpInst, if_neg hpc, if_neg hdone]
        show updateSIMTStack n (prog.instruction T.entry.pc) T.entry.pc
          ⟨T.entry :: s.map Frame.entry, execMask prog T.entry.pc T.mask pred thread⟩ = _
        exact congrArg (Except.map fun stack =>
          (⟨stack, execMask prog T.entry.pc T.mask pred thread⟩ : Warp)) hupdate
      rw [hstep]
      exact ⟨ex.wellFormed_execMask, hsettled⟩
  · obtain ⟨i, hi⟩ := hlive
    exact absurd (hempty ▸ hi) (Finset.notMem_empty i)

theorem outcome_of_warpInvariant {r : Except SimtFailure Warp}
    (h : OkOr (WarpInvariant prog n) (· = SimtFailure.threadDone) r) : Outcome n r := by
  cases r with
  | ok w => exact h.stackSound
  | error failure => exact h

/-- The SIMT stack is sound in every run of regular steps, and no assertion of `update`
fails. -/
theorem outcome_of_regular {r : Except SimtFailure Warp}
    (reached : ((warpSystem prog n).restrict
      (TransitionSystem.onOk (Regular prog n))).Reachable r) : Outcome n r := by
  have hinvariant : OkOr (WarpInvariant prog n) (· = SimtFailure.threadDone) r := by
    apply TransitionSystem.Reachable.invariant_ofExcept ?_ ?_ reached
    · rintro w ⟨startPc, activeMask, hpc, hmask, rfl⟩
      exact WarpInvariant.launchWarp hpc hmask
    · intro w pred hw hregular hlive
      exact hw.executeWarp hregular hlive
  exact outcome_of_warpInvariant hinvariant

/-! ## A call whose threads exit inside it -/

/-- A branch around a call whose callee exits: `@p bra 24; call 64; exit`, and `exit` at 64. -/
def exitInCalleeInstruction (pc : UInt32) : Instruction :=
  if pc = 8 then { controlFlow := .bra 24, hasPred := true, reconvergencePc := 24 }
  else if pc = 16 then { controlFlow := .call 64 }
  else { controlFlow := .exit }

theorem ipdom_of_skip {instruction : UInt32 → Instruction} {branch skipped join : UInt32}
    (hbranch : ∀ v, flow instruction (some branch) v → v = some join ∨ v = some skipped)
    (htaken : flow instruction (some branch) (some join))
    (hskipped : ∀ v, flow instruction (some skipped) v → v = some join)
    (hjoin : flow instruction (some join) none) (hne : join ≠ branch) :
    ImmediatelyPostdominates (flow instruction) none (some join) (some branch) := by
  have hshort : PathTo (flow instruction) none (some branch) [some branch, some join, none] :=
    .edge htaken (.edge hjoin .here)
  refine ⟨⟨by simpa using hne, fun path hpath => ?_⟩, fun w hw => ?_⟩
  · obtain ⟨v, rest, hflow, hrest, rfl⟩ := hpath.exists_edge (by simp)
    rcases hbranch v hflow with rfl | rfl
    · exact List.mem_cons_of_mem _ hrest.mem_self
    · obtain ⟨v, rest, hfall, hlast, rfl⟩ := hrest.exists_edge (by simp)
      rw [hskipped v hfall] at hlast
      exact List.mem_cons_of_mem _ (List.mem_cons_of_mem _ hlast.mem_self)
  · have hmem := hw.2 _ hshort
    simp only [List.mem_cons, List.not_mem_nil, or_false] at hmem
    rcases hmem with rfl | rfl | rfl
    · exact absurd rfl hw.1
    · exact .refl _ _ _
    · exact exit_postdominates _ _ _

theorem ipdom_exitInCallee :
    ImmediatelyPostdominates (flow exitInCalleeInstruction) none (some 24) (some 8) := by
  refine @ipdom_of_skip _ _ 16 _ (fun v h => ?_) (.inl rfl) (fun _ h => h) (.inl rfl) (by decide)
  have hbranch : v = some 24 ∨ (true = true ∧ v = some 16) := h
  exact hbranch.imp_right And.right

/-- The program of `exitInCalleeInstruction`. -/
def exitInCallee : WarpProgram where
  instruction := exitInCalleeInstruction
  isize_aligned pc := by
    simp only [exitInCalleeInstruction]
    split_ifs <;> decide
  bra_aligned pc target h := by
    simp only [exitInCalleeInstruction] at h
    split_ifs at h
    cases h
    decide
  call_aligned pc target h := by
    simp only [exitInCalleeInstruction] at h
    split_ifs at h
    cases h
    decide
  reaches pc target h := by
    simp only [exitInCalleeInstruction] at h
    split_ifs at h with hpc
    rw [hpc]
    exact ⟨_, .edge (.inl rfl) (.edge (.inl rfl) .here)⟩
  reconverges pc target h := by
    simp only [exitInCalleeInstruction] at h
    split_ifs at h with hpc
    rw [hpc]
    exact ⟨some 24, ipdom_exitInCallee, rfl⟩

/-- The soundness of the stack where a warp diverges. -/
theorem outcome_of_regular_divergence :
    Outcome 2 (executeWarp exitInCallee 2 (launchWarp 8 {0, 1}) (· == 1)) := by
  have hregular : Regular exitInCallee 2 (launchWarp 8 {0, 1}) (· == 1) := by
    rintro top rest h
    cases h
    constructor
    case call => exact fun target h => by cases h
    case ret => exact fun h => by cases h
    case returnPc => exact fun target _ h => absurd h (by decide)
    case target =>
      rintro target - - - ⟨i, hi, hpc⟩
      revert i
      decide
    case finish => exact fun h => by cases h
    case join =>
      rintro entry below h - i hi - hpc
      cases h
      revert i
      decide
  refine outcome_of_regular (.step (.init ⟨_, rfl, 8, {0, 1}, by decide, by decide, rfl⟩)
    ⟨hregular, _, rfl, by decide, rfl⟩)

/-- Lane 1 takes the branch, lane 0 calls and exits in the callee. -/
def exitInCalleeRun : Option Warp :=
  TransitionSystem.execOk (fun w _ => (w.live 2).Nonempty) (executeWarp exitInCallee 2)
    (launchWarp 8 {0, 1}) [(· == 1), fun _ => true, fun _ => true]

theorem exitInCalleeRun_eq :
    exitInCalleeRun.map (fun w => (w.stack, (w.thread 0).done, (w.thread 1).done)) =
      some ([⟨16, 0, {0}, 24, .normal⟩, ⟨24, 1, {0, 1}, nullPc, .normal⟩], true, false) := by
  decide

/-- The stack is not always sound: the entry on top is the caller's, whose only thread
exited in the callee, while another thread waits below. -/
theorem not_outcome_exitInCallee :
    ¬ ∀ prog n r, (warpSystem prog n).Reachable r → Outcome n r := by
  intro h
  obtain ⟨w, hw, heq⟩ := Option.map_eq_some_iff.mp exitInCalleeRun_eq
  obtain ⟨hstack, hzero, hone⟩ : w.stack = _ ∧ (w.thread 0).done = true ∧
      (w.thread 1).done = false := by simpa only [Prod.mk.injEq] using heq
  have hreached : (warpSystem exitInCallee 2).Reachable (.ok w) :=
    .execOk _ (.init ⟨_, rfl, 8, {0, 1}, by decide, by decide, rfl⟩) hw
  have hsound : StackSound 2 w := h exitInCallee 2 (.ok w) hreached
  obtain ⟨top, rest, htop, i, hi, hlive⟩ :=
    hsound.topLive ⟨1, mem_liveThreads.mpr ⟨by decide, hone⟩⟩
  rw [hstack] at htop
  cases htop
  rw [Finset.mem_singleton.mp hi, mem_liveThreads, hzero] at hlive
  cases hlive.2

end GpuCalorie.Simt
