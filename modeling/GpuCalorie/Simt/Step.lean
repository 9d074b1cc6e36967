/-
# One instruction of a warp

What executing an instruction does to threads that are where the top frame says, and what
`update` then does to the stack when they all go to one PC: the top entry moves on,
reconverges or finishes. Calls, returns and divergences build on this.
-/

import GpuCalorie.Simt.Tracks
import GpuCalorie.Simt.Update

namespace GpuCalorie.Simt

open GpuCalorie.Hardware GpuCalorie.Math

variable {prog : WarpProgram} {n : ℕ} {thread thread' : ℕ → Thread} {pred : ℕ → Bool}
  {T P c e f g : Frame} {es s : List Frame} {i : ℕ} {pc p q r : UInt32} {cs : List UInt32}

/-! ## PCs are aligned -/

theorem Aligned.add (hp : Aligned p) (hq : Aligned q) : Aligned (p + q) := by
  simp only [Aligned, UInt32.toNat_add] at hp hq ⊢
  omega

theorem Aligned.ne_nullPc (hp : Aligned p) : p ≠ nullPc := by
  rintro rfl
  exact absurd hp (by decide)

theorem Aligned.ne_reconvergeReturnPc (hp : Aligned p) : p ≠ reconvergeReturnPc := by
  rintro rfl
  exact absurd hp (by decide)

theorem WarpProgram.aligned_fallThrough (prog : WarpProgram) (hpc : Aligned pc) :
    Aligned (prog.fallThrough pc) :=
  hpc.add (prog.isize_aligned pc)

theorem WarpProgram.aligned_of_flow (prog : WarpProgram) (hpc : Aligned pc)
    (hflow : flow prog.instruction (some pc) (some q)) : Aligned q := by
  have hfall := prog.aligned_fallThrough hpc
  simp only [WarpProgram.fallThrough] at hfall
  cases hinst : (prog.instruction pc).controlFlow with
  | bra target =>
      simp only [flow, hinst, Option.some.injEq] at hflow
      rcases hflow with rfl | ⟨-, rfl⟩
      · exact prog.bra_aligned pc q hinst
      · exact hfall
  | call target =>
      simp only [flow, hinst, Option.some.injEq] at hflow
      exact hflow ▸ hfall
  | ret =>
      simp only [flow, hinst, Option.some.injEq, reduceCtorEq, false_or] at hflow
      exact hflow.2 ▸ hfall
  | exit =>
      simp only [flow, hinst, Option.some.injEq, reduceCtorEq, false_or] at hflow
      exact hflow.2 ▸ hfall
  | other =>
      simp only [flow, hinst, Option.some.injEq] at hflow
      exact hflow ▸ hfall

theorem WarpProgram.aligned_of_pathTo (prog : WarpProgram) {path : List (Option UInt32)}
    (hpc : Aligned pc) (hpath : PathTo (flow prog.instruction) none (some pc) path)
    (hq : some q ∈ path) : Aligned q := by
  induction path generalizing pc with
  | nil => exact absurd hq List.not_mem_nil
  | cons v path ih =>
      obtain ⟨rfl, ⟨hnone, -⟩ | ⟨w, hflow, hrest⟩⟩ := pathTo_cons_iff.mp hpath
      · cases hnone
      · rcases List.mem_cons.mp hq with heq | hq
        · cases heq
          exact hpc
        · cases w with
          | none =>
              cases hrest with
              | here => simp at hq
              | edge taken => cases taken
          | some pc' => exact ih (prog.aligned_of_flow hpc hflow) hrest hq

/-- What a thread keeps: aligned PCs, and a frame to return from while it runs. -/
structure Thread.WellFormed (t : Thread) : Prop where
  pc : Aligned t.pc
  callstack : ∀ r ∈ t.callstack, Aligned r
  running : t.done = false → t.callstack ≠ []

theorem Thread.WellFormed.returnPc {t : Thread} (h : t.WellFormed) : Aligned t.returnPc := by
  rw [Thread.returnPc]
  cases hcs : t.callstack with
  | nil =>
      have hzero : Aligned 0 := by decide
      exact hzero
  | cons r rest => exact h.callstack r (hcs ▸ List.mem_cons_self)

theorem Thread.WellFormed.exec {t : Thread} (h : t.WellFormed) (b : Bool) :
    ((prog.instruction t.pc).exec b t).WellFormed := by
  have hfall : Aligned (t.pc + (prog.instruction t.pc).isize) := prog.aligned_fallThrough h.pc
  rw [Instruction.exec]
  split
  · cases hinst : (prog.instruction t.pc).controlFlow with
    | bra target => exact ⟨prog.bra_aligned t.pc target hinst, h.callstack, h.running⟩
    | call target =>
        refine ⟨prog.call_aligned t.pc target hinst, fun r hr => ?_, fun _ => List.cons_ne_nil _ _⟩
        rcases List.mem_cons.mp hr with rfl | hr
        · exact hfall
        · exact h.callstack r hr
    | ret =>
        refine ⟨h.returnPc, fun r hr => h.callstack r (List.mem_of_mem_tail hr), fun hdone => ?_⟩
        simpa using hdone
    | exit => exact ⟨hfall, h.callstack, fun hdone => by simp at hdone⟩
    | other => exact ⟨hfall, h.callstack, h.running⟩
  · exact ⟨hfall, h.callstack, h.running⟩

/-! ## The threads after an instruction -/

/-- The threads after the instruction at a PC was executed on a mask. -/
def execMask (prog : WarpProgram) (pc : UInt32) (mask : Finset ℕ) (pred : ℕ → Bool)
    (thread : ℕ → Thread) (i : ℕ) : Thread :=
  if i ∈ mask then (prog.instruction pc).exec (pred i) (thread i) else thread i

/-- Threads about to execute the instruction of the top frame: none of its lanes is done. -/
structure Executing (prog : WarpProgram) (n : ℕ) (thread : ℕ → Thread) (T : Frame)
    (s : List Frame) : Prop where
  tracks : Tracks prog n thread (T :: s)
  wellFormed : ∀ i, (thread i).WellFormed
  live : T.mask ⊆ liveThreads n thread
  someLive : (liveThreads n thread).Nonempty

namespace Executing

variable (ex : Executing prog n thread T s)
include ex

theorem at_top (hi : i ∈ T.mask) : T.At (thread i) := by
  obtain ⟨f, hf, hat⟩ := ex.tracks.located i (ex.live hi)
  rw [topFrame_cons_of_mem hi, Option.some.injEq] at hf
  exact hf ▸ hat

theorem nonempty : ∃ i, i ∈ T.mask := by
  obtain ⟨i, hi, -⟩ := ex.tracks.inhabited ex.someLive T List.mem_cons_self
  exact ⟨i, hi⟩

theorem aligned_pc : Aligned T.entry.pc := by
  obtain ⟨i, hi⟩ := ex.nonempty
  exact (ex.at_top hi).1 ▸ (ex.wellFormed i).pc

theorem not_done (hi : i ∈ T.mask) : (thread i).done = false :=
  (mem_liveThreads.mp (ex.live hi)).2

theorem callstack_ne_nil : T.callstack ≠ [] := by
  obtain ⟨i, hi⟩ := ex.nonempty
  exact (ex.at_top hi).2 ▸ (ex.wellFormed i).running (ex.not_done hi)

theorem exec_skipped (hi : i ∈ T.mask)
    (hskip : (prog.instruction T.entry.pc).executes (pred i) = false) :
    execMask prog T.entry.pc T.mask pred thread i =
      { thread i with pc := prog.fallThrough T.entry.pc } := by
  have hpc := (ex.at_top hi).1
  rw [execMask, if_pos hi, Instruction.exec, hskip]
  simp only [WarpProgram.fallThrough, hpc]
  rfl

theorem exec_executed (hi : i ∈ T.mask)
    (hexec : (prog.instruction T.entry.pc).executes (pred i) = true) :
    execMask prog T.entry.pc T.mask pred thread i =
      match (prog.instruction T.entry.pc).controlFlow with
      | .bra target => { thread i with pc := target }
      | .call target =>
        { thread i with
          pc := target
          callstack := prog.fallThrough T.entry.pc :: T.callstack }
      | .ret => ⟨T.callstack.headD 0, T.callstack.tail, T.callstack.tail.isEmpty⟩
      | .exit => { thread i with pc := prog.fallThrough T.entry.pc, done := true }
      | .other => { thread i with pc := prog.fallThrough T.entry.pc } := by
  obtain ⟨hpc, hcs⟩ := ex.at_top hi
  rw [execMask, if_pos hi, Instruction.exec, hexec]
  cases (prog.instruction T.entry.pc).controlFlow <;>
    simp [WarpProgram.fallThrough, Thread.returnPc, hpc, hcs]

theorem mem_live (hi : i ∈ T.mask) (hdone : (thread' i).done = false) :
    i ∈ liveThreads n thread' :=
  mem_liveThreads.mpr ⟨(mem_liveThreads.mp (ex.live hi)).1, hdone⟩

theorem wellFormed_execMask (j : ℕ) :
    (execMask prog T.entry.pc T.mask pred thread j).WellFormed := by
  by_cases hj : j ∈ T.mask
  · rw [execMask, if_pos hj, ← (ex.at_top hj).1]
    exact (ex.wellFormed j).exec (pred j)
  · rw [execMask, if_neg hj]
    exact ex.wellFormed j

theorem moved : Moved n T.mask thread (execMask prog T.entry.pc T.mask pred thread) where
  other j hj := by rw [execMask, if_neg hj]
  live j hj := by
    by_cases hjT : j ∈ T.mask
    · exact ex.live hjT
    · rw [mem_liveThreads, execMask, if_neg hjT] at hj
      exact mem_liveThreads.mpr hj

end Executing

/-! ## What `update` is called with -/

/-- The next PCs that `updateSIMTStack` hands over. -/
def nextPcs (thread : ℕ → Thread) (i : ℕ) : UInt32 :=
  if (thread i).done then nullPc else (thread i).pc

/-- The call of `update` after the instruction at the top was executed. -/
def updateAfter (prog : WarpProgram) (n : ℕ) (thread' : ℕ → Thread) (T : Frame) (s : List Frame) :
    Except SimtFailure (List SimtStackEntry) :=
  update n (T.entry :: s.map Frame.entry) (fun i => (thread' i).done) (nextPcs thread')
    ⟨(prog.instruction T.entry.pc).op, (prog.instruction T.entry.pc).isize, T.entry.pc,
      convergePc n thread' (prog.instruction T.entry.pc)⟩

/-- A stack that tracks the threads, or nothing is left to run. -/
def Settled (prog : WarpProgram) (n : ℕ) (thread : ℕ → Thread) (stack : List SimtStackEntry) :
    Prop :=
  (∃ frames, stack = frames.map Frame.entry ∧ Tracks prog n thread frames) ∨
    (stack = [] ∧ liveThreads n thread = ∅)

/-- The update went through, and left a settled stack. -/
def UpdateOk (prog : WarpProgram) (n : ℕ) (thread' : ℕ → Thread) (T : Frame) (s : List Frame) :
    Prop :=
  ∃ stack, updateAfter prog n thread' T s = .ok stack ∧ Settled prog n thread' stack

theorem Executing.updatable (ex : Executing prog n thread T s)
    (hwf : ∀ i, (thread' i).WellFormed) (inst : UpdateInst) (hpc : inst.pc = T.entry.pc) :
    Updatable n (fun i => (thread' i).done) (nextPcs thread') inst T.entry where
  pc := hpc.symm
  mask := by
    obtain ⟨i, hi⟩ := ex.nonempty
    exact Finset.ne_empty_of_mem hi
  groupable := by
    refine ⟨fun i hi => Finset.mem_range.mp (ex.tracks.bounded T List.mem_cons_self hi),
      fun i _ hdone => ?_⟩
    rw [nextPcs, hdone]
    exact (hwf i).pc.ne_nullPc

theorem mem_liveLanes_thread (hbounded : T.mask ⊆ Finset.range n) :
    i ∈ liveLanes (fun i => (thread' i).done) T.entry.activeMask ↔
      i ∈ T.mask ∧ i ∈ liveThreads n thread' := by
  rw [mem_liveLanes, mem_liveThreads]
  constructor
  · rintro ⟨hi, hdone⟩
    exact ⟨hi, Finset.mem_range.mp (hbounded hi), hdone⟩
  · rintro ⟨hi, -, hdone⟩
    exact ⟨hi, hdone⟩

/-- The lanes of the top frame that are not done went to one PC with one call stack, and a
member of a divergence stays on its way. -/
structure Goes (prog : WarpProgram) (n : ℕ) (thread thread' : ℕ → Thread) (T : Frame)
    (s : List Frame) (p : UInt32) (cs : List UInt32) : Prop where
  moved : Moved n T.mask thread thread'
  wellFormed : ∀ i, (thread' i).WellFormed
  at_pc : ∀ i ∈ liveThreads n thread', i ∈ T.mask →
    (thread' i).pc = p ∧ (thread' i).callstack = cs
  callstack : T.kind ≠ .base →
    cs = T.callstack ∨ (T.kind = .returning ∧ p = T.entry.recvgPc)
  meets : T.kind = .reconverging → p = T.entry.recvgPc ∨ prog.Meets T.entry.recvgPc p
  joins : (∃ i ∈ T.mask, i ∈ liveThreads n thread') → p = T.entry.recvgPc →
    Joins n thread T s cs

theorem Goes.settled (h : Tracks prog n thread (T :: s)) (go : Goes prog n thread thread' T s p cs)
    (hsome : ∃ i ∈ T.mask, i ∈ liveThreads n thread') {mask : Finset ℕ} (hmask : mask ⊆ T.mask)
    (hlive : ∀ i ∈ liveThreads n thread', i ∈ T.mask → i ∈ mask) :
    Settled prog n thread' (if p = T.entry.recvgPc ∧ T.entry.type ≠ .call then s.map Frame.entry
      else { T.entry with pc := p, activeMask := mask } :: s.map Frame.entry) := by
  obtain ⟨j, hj, hjl⟩ := hsome
  have hp : p ≠ nullPc := (go.at_pc j hjl hj).1 ▸ (go.wellFormed j).pc.ne_nullPc
  rcases h.sound.base_or_calling_or_member with hT | ⟨hT, htype⟩
  · -- a frame that reconverges nowhere moves on
    have hne : p ≠ T.entry.recvgPc := by
      rw [h.sound.recvgPc_eq_null hT]
      exact hp
    have hcs : T.kind = .base ∨ (T.kind = .calling ∧ cs = T.callstack) := by
      refine hT.imp_right fun hcall => ⟨hcall, ?_⟩
      rcases go.callstack (by simp [hcall]) with hcs | ⟨hret, -⟩
      · exact hcs
      · simp [hcall] at hret
    rw [if_neg fun hand => hne hand.1]
    exact .inl ⟨_, rfl, h.advance go.moved hcs go.at_pc ⟨j, hj, hjl⟩ hmask hlive⟩
  · have hcs : T.kind = .reconverging → cs = T.callstack := by
      intro hrec
      rcases go.callstack (by simp [hrec]) with hcs | ⟨hret, -⟩
      · exact hcs
      · simp [hrec] at hret
    by_cases heq : p = T.entry.recvgPc
    · -- a member of a divergence that gets to its reconvergence PC is dropped
      rw [if_pos ⟨heq, by simp [htype]⟩]
      obtain ⟨s', hmap, htracks⟩ := h.regroup [] go.moved hT (by simp) (by simp) (by simp)
        .nil (by simp) (by simp)
        (fun i hi hiT => .inr ⟨by simp, (go.at_pc i hi hiT).1.trans heq, (go.at_pc i hi hiT).2⟩)
        (by simp) ⟨j, hj, hjl⟩ (go.joins ⟨j, hj, hjl⟩ heq) hcs
      exact .inl ⟨s', hmap.symm, htracks⟩
    · -- and another one moves on
      rw [if_neg fun hand => heq hand.1]
      have hcsT : cs = T.callstack := by
        rcases go.callstack (by rcases hT with hk | hk <;> simp [hk]) with hcs | ⟨-, hp⟩
        · exact hcs
        · exact absurd hp heq
      refine .inl ⟨[T.advance p mask cs] ++ s, rfl, ?_⟩
      refine h.replace [T.advance p mask cs] go.moved (by simpa [Frame.advance] using hmask)
        (h.sound.regroup _ go.moved.live hT (by simpa [Frame.advance] using htype)
          (by simp [Frame.advance]) (by simpa [Frame.advance] using hmask)
          (List.pairwise_singleton _ _) (by simpa [Frame.advance] using hcsT) ?_)
        ?_ ?_ fun _ f _ hsub => ⟨j, hsub hj, hjl⟩
      · intro hrec
        simpa [Frame.advance] using (go.meets hrec).resolve_left heq
      · intro i hi hiT
        exact ⟨_, topFrame_cons_of_mem (f := T.advance p mask cs) (hlive i hi hiT),
          go.at_pc i hi hiT⟩
      · intro e he
        rw [List.mem_singleton.mp he]
        exact ⟨j, hlive j hjl hj, hjl⟩

theorem Goes.updateOk (ex : Executing prog n thread T s)
    (go : Goes prog n thread thread' T s p cs)
    (hcallOp : (prog.instruction T.entry.pc).op ≠ .callOps)
    (hretOp : ¬ ((prog.instruction T.entry.pc).op = .retOps ∧ T.entry.type = .call))
    (hfinish : (∀ i ∈ T.mask, i ∉ liveThreads n thread') →
      T.kind = .returning ∨ liveThreads n thread' = ∅) :
    UpdateOk prog n thread' T s := by
  have hbounded := ex.tracks.bounded T List.mem_cons_self
  have hup := fun inst hpc => ex.updatable go.wellFormed inst hpc
  by_cases hsome : ∃ i ∈ T.mask, i ∈ liveThreads n thread'
  · obtain ⟨j, hj, hjl⟩ := hsome
    have hnext : ∀ i ∈ liveLanes (fun i => (thread' i).done) T.entry.activeMask,
        nextPcs thread' i = p := by
      intro i hi
      obtain ⟨hiT, hil⟩ := (mem_liveLanes_thread hbounded).mp hi
      rw [nextPcs, (mem_liveThreads.mp hil).2]
      exact (go.at_pc i hil hiT).1
    refine ⟨_, (hup _ rfl).update_advance ⟨j, (mem_liveLanes_thread hbounded).mpr ⟨hj, hjl⟩⟩ hnext
      hcallOp hretOp, ?_⟩
    exact go.settled ex.tracks ⟨j, hj, hjl⟩ (fun i hi => ((mem_liveLanes_thread hbounded).mp hi).1)
      fun i hi hiT => (mem_liveLanes_thread hbounded).mpr ⟨hiT, hi⟩
  · have hnone : ∀ i ∈ T.mask, i ∉ liveThreads n thread' := fun i hi hil => hsome ⟨i, hi, hil⟩
    refine ⟨_, (hup _ rfl).update_done ?_, ?_⟩
    · ext i
      rw [mem_liveLanes_thread hbounded]
      simpa using hnone i
    · rcases ex.tracks.finish go.moved hnone (hfinish hnone) with ⟨rfl, hempty⟩ | htracks
      · exact .inr ⟨rfl, hempty⟩
      · exact .inl ⟨s, rfl, htracks⟩

end GpuCalorie.Simt
