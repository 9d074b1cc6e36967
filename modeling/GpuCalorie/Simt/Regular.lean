/-
# Regular steps

A step is irregular where the update relies on something that does not hold of every
program: that the threads of an entry agree on a call or a return, that a `CALL` entry may
be reused for a divergence or popped although nobody returned, that the first thread of
the warp has the return PC of the others, that a return PC is not also reached by a branch
or at another call depth, and that the threads of a call do not all exit inside it.

Each kind of instruction gets a lemma: after a regular step the update goes through, and
the stack it leaves tracks the threads.
-/

import GpuCalorie.Simt.Step

namespace GpuCalorie.Simt

open GpuCalorie.Hardware GpuCalorie.Math

/-! ## Regular steps -/

/-- No divergence is pending. -/
def Converged (stack : List SimtStackEntry) : Prop :=
  ∀ entry ∈ stack, entry.recvgPc = nullPc

instance (stack : List SimtStackEntry) : Decidable (Converged stack) :=
  inferInstanceAs (Decidable (∀ _ ∈ stack, _))

/-- The lanes of a mask go to different PCs. -/
def Splits (next : ℕ → Thread) (mask : Finset ℕ) : Prop :=
  ∃ i ∈ mask, ∃ j ∈ mask, (next i).pc ≠ (next j).pc

/-- The stack whose top entry goes on after the instruction: a return under a `CALL` entry
pops it. -/
def resumedStack (prog : WarpProgram) (top : SimtStackEntry) (rest : List SimtStackEntry) :
    List SimtStackEntry :=
  if (prog.instruction top.pc).controlFlow = .ret ∧ top.type = .call then rest else top :: rest

/-- A step whose instruction the update handles, for a warp with the stack `top :: rest`.
`next` are the threads after the instruction. -/
structure RegularStep (prog : WarpProgram) (warpSize : ℕ) (w : Warp) (pred : ℕ → Bool)
    (top : SimtStackEntry) (rest : List SimtStackEntry) (next : ℕ → Thread) : Prop where
  /-- The threads agree on a call; one that none of them makes is skipped only while no
  divergence is pending. -/
  call : ∀ target, (prog.instruction top.pc).controlFlow = .call target →
    (∀ i ∈ top.activeMask, (prog.instruction top.pc).executes (pred i) = true) ∨
      ((∀ i ∈ top.activeMask, (prog.instruction top.pc).executes (pred i) = false) ∧
        Converged w.stack)
  /-- The threads agree on a return from a callee; one that none of them makes is skipped
  under a `CALL` entry only while no divergence is pending. -/
  ret : (prog.instruction top.pc).controlFlow = .ret →
    (∃ i ∈ top.activeMask, 1 < (w.thread i).callstack.length) →
    (∀ i ∈ top.activeMask, (prog.instruction top.pc).executes (pred i) = true) ∨
      ((∀ i ∈ top.activeMask, (prog.instruction top.pc).executes (pred i) = false) ∧
        (top.type = .call → Converged w.stack))
  /-- When threads that go different ways meet at their return PC, that is the PC the first
  thread of the warp returns to, and no divergence is pending under a `CALL` entry. -/
  returnPc : ∀ target, (prog.instruction top.pc).controlFlow = .bra target →
    (prog.instruction top.pc).reconvergencePc = reconvergeReturnPc → Splits next top.activeMask →
    (∀ i ∈ top.activeMask,
      (w.thread i).returnPc = convergePc warpSize w.thread (prog.instruction top.pc)) ∧
      (top.type = .call → Converged w.stack)
  /-- When threads go different ways and one gets to where the top entry reconverges, all
  meet there. -/
  target : ∀ target, (prog.instruction top.pc).controlFlow = .bra target →
    Splits next top.activeMask → top.type = .normal →
    (∃ i ∈ top.activeMask, (next i).pc = top.recvgPc) →
    convergePc warpSize w.thread (prog.instruction top.pc) = top.recvgPc
  /-- When all threads of a `CALL` entry finish, they are all there are. -/
  finish : top.type = .call → (∀ i ∈ top.activeMask, (next i).done = true) →
    ∀ i ∈ w.live warpSize, i ∈ top.activeMask
  /-- Threads that reconverge have the call stack of those that wait there. -/
  join : ∀ entry below, resumedStack prog top rest = entry :: below → entry.type = .normal →
    ∀ i ∈ top.activeMask, (next i).done = false → (next i).pc = entry.recvgPc →
    ∀ k ∈ w.live warpSize, k ∉ top.activeMask → topmost below k = topmost below i →
      (w.thread k).callstack = (next i).callstack

/-- The condition on a step of a warp. -/
def Regular (prog : WarpProgram) (warpSize : ℕ) (w : Warp) (pred : ℕ → Bool) : Prop :=
  ∀ top rest, w.stack = top :: rest →
    RegularStep prog warpSize w pred top rest (execMask prog top.pc top.activeMask pred w.thread)

variable {prog : WarpProgram} {n : ℕ} {thread thread' : ℕ → Thread} {pred : ℕ → Bool}
  {T P c e f g : Frame} {es s : List Frame} {i : ℕ} {pc p q r target : UInt32} {cs : List UInt32}
  {live : Finset ℕ}

/-! ## Control flow towards a post-dominator -/

theorem WarpProgram.Meets.of_flow (h : prog.Meets r pc)
    (hflow : flow prog.instruction (some pc) (some q)) : q = r ∨ prog.Meets r q :=
  (StrictlyPostdominates.of_edge h hflow).imp_left fun heq => (Option.some.inj heq).symm

theorem WarpProgram.Meets.not_flow_none (h : prog.Meets r pc) :
    ¬ flow prog.instruction (some pc) none := by
  intro hflow
  rcases StrictlyPostdominates.of_edge h hflow with heq | hstrict
  · cases heq
  · exact hstrict.ne_exit rfl

theorem flow_fallThrough (hskip : (prog.instruction pc).executes (pred i) = false) :
    flow prog.instruction (some pc) (some (prog.fallThrough pc)) := by
  have hpred : (prog.instruction pc).hasPred = true := by
    cases hp : (prog.instruction pc).hasPred <;> simp [Instruction.executes, hp] at hskip ⊢
  cases hinst : (prog.instruction pc).controlFlow <;>
    simp [flow, hinst, hpred, WarpProgram.fallThrough]

theorem Sound.meets (h : Sound prog live (T :: s))
    (hkind : T.kind = .reconverging) : prog.Meets T.entry.recvgPc T.entry.pc := by
  cases h.under with
  | launched kind => simp [hkind] at kind
  | baseCall _ _ kind => simp [hkind] at kind
  | call _ _ kind => simp [hkind] at kind
  | returning _ _ _ kind => simp [hkind] at kind
  | reconverging _ siblings _ _ meets =>
      rw [siblings.recvgPc T List.mem_cons_self]
      exact meets T List.mem_cons_self

theorem Sound.returnPc_eq (h : Sound prog live (T :: s))
    (hkind : T.kind = .returning) : T.callstack.headD 0 = T.entry.recvgPc := by
  cases h.under with
  | launched kind => simp [hkind] at kind
  | baseCall _ _ kind => simp [hkind] at kind
  | call _ _ kind => simp [hkind] at kind
  | returning _ _ siblings _ callstack =>
      rw [siblings.recvgPc T List.mem_cons_self]
      exact callstack T List.mem_cons_self
  | reconverging _ _ kind => simp [hkind] at kind

theorem Sound.topFrame_eq {j : ℕ} (h : Sound prog live (T :: s))
    (hkind : T.kind = .returning) (hi : i ∈ T.mask) (hj : j ∈ T.mask) :
    topFrame s i = topFrame s j := by
  cases h.under with
  | launched kind => simp [hkind] at kind
  | baseCall _ _ kind => simp [hkind] at kind
  | call _ _ kind => simp [hkind] at kind
  | returning _ _ siblings => rw [siblings.topFrame_parent hi, siblings.topFrame_parent hj]
  | reconverging _ _ kind => simp [hkind] at kind

theorem Sound.kind_of_converged (h : Sound prog live (T :: s))
    (hconverged : Converged (T.entry :: s.map Frame.entry)) : T.kind = .base := by
  by_contra hkind
  obtain ⟨f, hf, hrecvg⟩ := h.exists_recvgPc hkind
  exact hrecvg (hconverged f.entry (by simpa using List.mem_map_of_mem hf))

/-! ## One PC for all -/

/-- A warp about to execute a regular step. -/
structure RegularExecuting (prog : WarpProgram) (n : ℕ) (thread : ℕ → Thread) (pred : ℕ → Bool)
    (T : Frame) (s : List Frame) : Prop extends Executing prog n thread T s where
  regular : RegularStep prog n ⟨T.entry :: s.map Frame.entry, thread⟩ pred T.entry
    (s.map Frame.entry) (execMask prog T.entry.pc T.mask pred thread)

namespace RegularExecuting

variable (ex : RegularExecuting prog n thread pred T s)
include ex

theorem finish (hkind : T.kind ≠ .reconverging)
    (hnone : ∀ i ∈ T.mask, i ∉ liveThreads n (execMask prog T.entry.pc T.mask pred thread)) :
    T.kind = .returning ∨
      liveThreads n (execMask prog T.entry.pc T.mask pred thread) = ∅ := by
  have hall : liveThreads n thread ⊆ T.mask →
      liveThreads n (execMask prog T.entry.pc T.mask pred thread) = ∅ := fun hsub =>
    Finset.eq_empty_of_forall_notMem fun i hi => hnone i (hsub (ex.moved.live hi)) hi
  cases hunder : ex.tracks.sound.under with
  | launched _ _ _ hlive => exact .inr (hall hlive)
  | baseCall _ _ _ _ _ _ hlive => exact .inr (hall hlive)
  | call _ _ _ type =>
      refine .inr (hall fun i hi => ex.regular.finish type (fun j hj => ?_) i hi)
      have hj' := hnone j hj
      rw [mem_liveThreads] at hj'
      have hlt : j < n := Finset.mem_range.mp (ex.tracks.bounded T List.mem_cons_self hj)
      simpa [hlt] using hj'
  | returning _ _ _ kind => exact .inl (kind T List.mem_cons_self)
  | reconverging _ _ kind => exact absurd (kind T List.mem_cons_self) hkind

theorem joins (hresumed : ¬ ((prog.instruction T.entry.pc).controlFlow = .ret ∧
      T.entry.type = .call))
    (hat : ∀ i ∈ liveThreads n (execMask prog T.entry.pc T.mask pred thread), i ∈ T.mask →
      (execMask prog T.entry.pc T.mask pred thread i).pc = p ∧
        (execMask prog T.entry.pc T.mask pred thread i).callstack = cs)
    (hsome : ∃ i ∈ T.mask, i ∈ liveThreads n (execMask prog T.entry.pc T.mask pred thread))
    (hp : p = T.entry.recvgPc) : Joins n thread T s cs := by
  intro hkind i hi k hk hkT htop
  obtain ⟨j, hj, hjl⟩ := hsome
  obtain ⟨hpc, hcs⟩ := hat j hjl hj
  have htype : T.entry.type = .normal := by
    rcases ex.tracks.sound.base_or_calling_or_member with hT | ⟨-, htype⟩
    · simp [hkind] at hT
    · exact htype
  rw [← hcs]
  refine ex.regular.join T.entry (s.map Frame.entry) (if_neg hresumed) htype j hj
    (mem_liveThreads.mp hjl).2 (hpc.trans hp) k hk hkT ?_
  rw [topmost_map_entry, topmost_map_entry, htop, ex.tracks.sound.topFrame_eq hkind hi hj]

theorem updateOk_one
    (hcallOp : (prog.instruction T.entry.pc).op ≠ .callOps)
    (hret : ¬ ((prog.instruction T.entry.pc).controlFlow = .ret ∧ T.entry.type = .call))
    (hat : ∀ i ∈ liveThreads n (execMask prog T.entry.pc T.mask pred thread), i ∈ T.mask →
      (execMask prog T.entry.pc T.mask pred thread i).pc = p ∧
        (execMask prog T.entry.pc T.mask pred thread i).callstack = cs)
    (hcs : T.kind ≠ .base → cs = T.callstack ∨ (T.kind = .returning ∧ p = T.entry.recvgPc))
    (hflow : T.kind = .reconverging → flow prog.instruction (some T.entry.pc) (some p))
    (hfinish : T.kind = .reconverging →
      ∃ i ∈ T.mask, i ∈ liveThreads n (execMask prog T.entry.pc T.mask pred thread)) :
    UpdateOk prog n (execMask prog T.entry.pc T.mask pred thread) T s := by
  have hretOp : ¬ ((prog.instruction T.entry.pc).op = .retOps ∧ T.entry.type = .call) := by
    rintro ⟨hop, htype⟩
    refine hret ⟨?_, htype⟩
    cases hinst : (prog.instruction T.entry.pc).controlFlow <;>
      simp [Instruction.op, hinst] at hop ⊢
  have go : Goes prog n thread (execMask prog T.entry.pc T.mask pred thread) T s p cs :=
    { moved := ex.moved
      wellFormed := ex.wellFormed_execMask
      at_pc := hat
      callstack := hcs
      meets := fun hkind => (ex.tracks.sound.meets hkind).of_flow (hflow hkind)
      joins := ex.joins hret hat }
  refine go.updateOk ex.toExecuting hcallOp hretOp fun hnone => ex.finish (fun hkind => ?_) hnone
  obtain ⟨i, hi, hil⟩ := hfinish hkind
  exact hnone i hi hil

/-! ## Instructions that all lanes leave for one PC -/

theorem updateOk_other (hinst : (prog.instruction T.entry.pc).controlFlow = .other) :
    UpdateOk prog n (execMask prog T.entry.pc T.mask pred thread) T s := by
  have hlane : ∀ i ∈ T.mask, execMask prog T.entry.pc T.mask pred thread i =
      { thread i with pc := prog.fallThrough T.entry.pc } := by
    intro i hi
    cases hexec : (prog.instruction T.entry.pc).executes (pred i) with
    | true => rw [ex.exec_executed hi hexec, hinst]
    | false => exact ex.exec_skipped hi hexec
  have hat : ∀ i ∈ liveThreads n (execMask prog T.entry.pc T.mask pred thread), i ∈ T.mask →
      (execMask prog T.entry.pc T.mask pred thread i).pc = prog.fallThrough T.entry.pc ∧
        (execMask prog T.entry.pc T.mask pred thread i).callstack = T.callstack := by
    intro i _ hi
    rw [hlane i hi]
    exact ⟨rfl, (ex.at_top hi).2⟩
  refine ex.updateOk_one (by simp [Instruction.op, hinst]) (by simp [hinst]) hat
    (fun _ => .inl rfl) (fun _ => by simp [flow, hinst, WarpProgram.fallThrough]) fun _ => ?_
  obtain ⟨i, hi⟩ := ex.nonempty
  exact ⟨i, hi, ex.mem_live hi (by rw [hlane i hi]; exact ex.not_done hi)⟩

theorem updateOk_exit (hinst : (prog.instruction T.entry.pc).controlFlow = .exit) :
    UpdateOk prog n (execMask prog T.entry.pc T.mask pred thread) T s := by
  have hat : ∀ i ∈ liveThreads n (execMask prog T.entry.pc T.mask pred thread), i ∈ T.mask →
      (execMask prog T.entry.pc T.mask pred thread i).pc = prog.fallThrough T.entry.pc ∧
        (execMask prog T.entry.pc T.mask pred thread i).callstack = T.callstack := by
    intro i hil hi
    cases hexec : (prog.instruction T.entry.pc).executes (pred i) with
    | true =>
        have hdone := (mem_liveThreads.mp hil).2
        rw [ex.exec_executed hi hexec, hinst] at hdone
        cases hdone
    | false =>
        rw [ex.exec_skipped hi hexec]
        exact ⟨rfl, (ex.at_top hi).2⟩
  have hkind : T.kind ≠ .reconverging := fun hkind =>
    (ex.tracks.sound.meets hkind).not_flow_none (by simp [flow, hinst])
  exact ex.updateOk_one (by simp [Instruction.op, hinst]) (by simp [hinst]) hat
    (fun _ => .inl rfl) (fun h => absurd h hkind) fun h => absurd h hkind

/-! ## Calls and returns -/

theorem base_or_calling (htype : T.entry.type = .call) : T.kind = .base ∨ T.kind = .calling := by
  rcases ex.tracks.sound.base_or_calling_or_member with hkind | ⟨-, hnormal⟩
  · exact hkind
  · rw [htype] at hnormal
    cases hnormal

theorem updateOk_popCall (htype : T.entry.type = .call)
    (hop : (prog.instruction T.entry.pc).controlFlow = .ret)
    (hat : ∀ i ∈ liveThreads n (execMask prog T.entry.pc T.mask pred thread), i ∈ T.mask →
      (execMask prog T.entry.pc T.mask pred thread i).pc = p ∧
        (execMask prog T.entry.pc T.mask pred thread i).callstack = cs)
    (hkind : T.kind = .calling → p = T.callstack.headD 0 ∧ cs = T.callstack.tail) :
    UpdateOk prog n (execMask prog T.entry.pc T.mask pred thread) T s := by
  have hbounded := ex.tracks.bounded T List.mem_cons_self
  have hwf : ∀ i, (execMask prog T.entry.pc T.mask pred thread i).WellFormed :=
    ex.wellFormed_execMask
  have hup := fun inst hpc => ex.updatable hwf inst hpc
  have hretOp : (prog.instruction T.entry.pc).op = .retOps := by simp [Instruction.op, hop]
  by_cases hsome : ∃ i ∈ T.mask,
      i ∈ liveThreads n (execMask prog T.entry.pc T.mask pred thread)
  · obtain ⟨j, hj, hjl⟩ := hsome
    obtain ⟨g, rest, rfl⟩ : ∃ g rest, s = g :: rest := by
      cases s with
      | nil =>
          generalize hnil : ([] : List Frame) = below at ex
          cases ex.tracks.sound.under with
          | launched _ normal => simp [htype] at normal
          | baseCall => cases hnil
          | call => cases hnil
          | returning => simp at hnil
          | reconverging => simp at hnil
      | cons g rest => exact ⟨g, rest, rfl⟩
    obtain ⟨huncalled, hlive, hgT, hTg⟩ := ex.tracks.uncall htype
    have hnext : ∀ i ∈ liveLanes (fun i => (execMask prog T.entry.pc T.mask pred thread i).done)
        T.entry.activeMask, nextPcs (execMask prog T.entry.pc T.mask pred thread) i = p := by
      intro i hi
      obtain ⟨hiT, hil⟩ := (mem_liveLanes_thread hbounded).mp hi
      rw [nextPcs, (mem_liveThreads.mp hil).2]
      exact (hat i hil hiT).1
    -- the caller of a call under a divergence waits behind the call, where `p` is
    have hcalling : g.kind ≠ .base → p = prog.fallThrough g.entry.pc ∧ cs = g.callstack ∧
        (g.kind = .reconverging → g.entry.recvgPc = prog.fallThrough g.entry.pc ∨
          prog.Meets g.entry.recvgPc (prog.fallThrough g.entry.pc)) := by
      intro hg
      generalize hrest : g :: rest = below at ex
      cases ex.tracks.sound.under with
      | launched => cases hrest
      | baseCall _ caller => exact absurd ((List.cons.inj hrest).1 ▸ caller) hg
      | call _ _ kind _ _ _ _ callstack _ meets =>
          obtain ⟨rfl, rfl⟩ := List.cons.inj hrest
          obtain ⟨hp, hcs⟩ := hkind kind
          rw [callstack] at hp hcs
          exact ⟨hp, hcs, meets⟩
      | returning _ _ siblings => simp [siblings.type T List.mem_cons_self] at htype
      | reconverging _ siblings => simp [siblings.type T List.mem_cons_self] at htype
    have go : Goes prog n (uncalled T g thread) (execMask prog T.entry.pc T.mask pred thread) g
        rest p cs :=
      { moved :=
          { other := fun i hi => by
              have hiT : i ∉ T.mask := fun hiT => hi (hTg hiT)
              rw [execMask, if_neg hiT, uncalled, if_neg hiT]
            live := by
              rw [hlive]
              exact ex.moved.live }
        wellFormed := ex.wellFormed_execMask
        at_pc := fun i hi hig => hat i hi (hgT i (ex.moved.live hi) hig)
        callstack := fun hg => .inl (hcalling hg).2.1
        meets := fun hg => by
          obtain ⟨rfl, -, hmeets⟩ := hcalling (by simp [hg])
          exact (hmeets hg).imp_left Eq.symm
        joins := fun _ hp hg i hi k hk hkg htop => by
          have hkT : k ∉ T.mask := fun hkT => hkg (hTg hkT)
          have hsound := ex.tracks.sound.pop (List.cons_ne_nil g rest)
          have hnormal : g.entry.type = .normal := by
            rcases hsound.base_or_calling_or_member with hbase | ⟨-, hnormal⟩
            · simp [hg] at hbase
            · exact hnormal
          rw [hlive] at hk
          rw [uncalled, if_neg hkT, ← (hat j hjl hj).2]
          refine ex.regular.join g.entry (rest.map Frame.entry) (if_pos ⟨hop, htype⟩) hnormal j hj
            (mem_liveThreads.mp hjl).2 ((hat j hjl hj).1.trans hp) k hk hkT ?_
          rw [topmost_map_entry, topmost_map_entry, htop, hsound.topFrame_eq hg hi (hTg hj)] }
    refine ⟨_, ((hup _ rfl).update_return ⟨j, (mem_liveLanes_thread hbounded).mpr ⟨hj, hjl⟩⟩
      hnext hretOp htype).trans ?_, go.settled huncalled ⟨j, hTg hj, hjl⟩ subset_rfl
        fun i _ hi => hi⟩
    simp only [List.map_cons, popCall]
    by_cases hand : p = g.entry.recvgPc ∧ g.entry.type ≠ .call
    · have hnormal : g.entry.type = .normal := by
        cases hg : g.entry.type with
        | normal => rfl
        | call => exact absurd hg hand.2
      rw [if_pos hand, if_pos hand, if_pos hnormal]
    · rw [if_neg hand, if_neg hand]
  · have hnone : ∀ i ∈ T.mask,
        i ∉ liveThreads n (execMask prog T.entry.pc T.mask pred thread) :=
      fun i hi hil => hsome ⟨i, hi, hil⟩
    refine ⟨_, (hup _ rfl).update_done ?_, ?_⟩
    · ext i
      rw [mem_liveLanes_thread hbounded]
      simpa using hnone i
    · have hmember : T.kind ≠ .reconverging := by
        rcases ex.base_or_calling htype with hT | hT <;> simp [hT]
      rcases ex.tracks.finish ex.moved hnone (ex.finish hmember hnone) with ⟨rfl, hempty⟩ | htracks
      · exact .inr ⟨rfl, hempty⟩
      · exact .inl ⟨s, rfl, htracks⟩

theorem ret_cases (hinst : (prog.instruction T.entry.pc).controlFlow = .ret) :
    (T.kind ≠ .calling ∧
      ∀ i ∈ liveThreads n (execMask prog T.entry.pc T.mask pred thread), i ∈ T.mask →
        (execMask prog T.entry.pc T.mask pred thread i).pc = prog.fallThrough T.entry.pc ∧
          (execMask prog T.entry.pc T.mask pred thread i).callstack = T.callstack) ∨
      ∀ i ∈ liveThreads n (execMask prog T.entry.pc T.mask pred thread), i ∈ T.mask →
        (execMask prog T.entry.pc T.mask pred thread i).pc = T.callstack.headD 0 ∧
          (execMask prog T.entry.pc T.mask pred thread i).callstack = T.callstack.tail := by
  have hskips : ∀ i ∈ T.mask, (prog.instruction T.entry.pc).executes (pred i) = false →
      (execMask prog T.entry.pc T.mask pred thread i).pc = prog.fallThrough T.entry.pc ∧
        (execMask prog T.entry.pc T.mask pred thread i).callstack = T.callstack := by
    intro i hi hskip
    rw [ex.exec_skipped hi hskip]
    exact ⟨rfl, (ex.at_top hi).2⟩
  by_cases hlong : 1 < T.callstack.length
  · obtain ⟨j, hj⟩ := ex.nonempty
    rcases ex.regular.ret hinst ⟨j, hj, by rw [(ex.at_top hj).2]; exact hlong⟩ with
      hall | ⟨hnone, hconverged⟩
    · right
      intro i _ hi
      rw [ex.exec_executed hi (hall i hi), hinst]
      exact ⟨rfl, rfl⟩
    · refine .inl ⟨fun hcalling => ?_, fun i _ hi => hskips i hi (hnone i hi)⟩
      have htype : T.entry.type = .call := by
        cases ex.tracks.sound.under with
        | launched kind => simp [hcalling] at kind
        | baseCall _ _ kind => simp [hcalling] at kind
        | call _ _ _ type => exact type
        | returning _ _ _ kind => simp [hcalling] at kind
        | reconverging _ _ kind => simp [hcalling] at kind
      have hbase := ex.tracks.sound.kind_of_converged (hconverged htype)
      rw [hcalling] at hbase
      cases hbase
  · -- the frame of the kernel: who returns from it is done
    have htail : T.callstack.tail = [] := by
      rw [← List.length_eq_zero_iff, List.length_tail]
      omega
    refine .inl ⟨fun hcalling => ?_, fun i hil hi => ?_⟩
    · cases ex.tracks.sound.under with
      | launched kind => simp [hcalling] at kind
      | baseCall _ _ kind => simp [hcalling] at kind
      | call _ _ _ _ _ _ _ callstack nonempty =>
          have hpos := List.length_pos_iff.mpr nonempty
          rw [callstack, List.length_cons] at hlong
          omega
      | returning _ _ _ kind => simp [hcalling] at kind
      | reconverging _ _ kind => simp [hcalling] at kind
    · cases hexec : (prog.instruction T.entry.pc).executes (pred i) with
      | true =>
          have hdone := (mem_liveThreads.mp hil).2
          rw [ex.exec_executed hi hexec, hinst, htail] at hdone
          cases hdone
      | false => exact hskips i hi hexec

theorem updateOk_ret (hinst : (prog.instruction T.entry.pc).controlFlow = .ret) :
    UpdateOk prog n (execMask prog T.entry.pc T.mask pred thread) T s := by
  have hkind : T.kind ≠ .reconverging := fun hkind =>
    (ex.tracks.sound.meets hkind).not_flow_none (by simp [flow, hinst])
  have hcall : (prog.instruction T.entry.pc).op ≠ .callOps := by simp [Instruction.op, hinst]
  by_cases htype : T.entry.type = .call
  · rcases ex.ret_cases hinst with ⟨hcalling, hat⟩ | hat
    · exact ex.updateOk_popCall htype hinst hat fun h => absurd h hcalling
    · exact ex.updateOk_popCall htype hinst hat fun _ => ⟨rfl, rfl⟩
  · rcases ex.ret_cases hinst with ⟨-, hat⟩ | hat
    · exact ex.updateOk_one hcall (fun h => htype h.2) hat (fun _ => .inl rfl)
        (fun h => absurd h hkind) fun h => absurd h hkind
    · refine ex.updateOk_one hcall (fun h => htype h.2) hat (fun hbase => .inr ?_)
        (fun h => absurd h hkind) fun h => absurd h hkind
      have hreturning : T.kind = .returning := by
        cases ex.tracks.sound.under with
        | launched kind => exact absurd kind hbase
        | baseCall _ _ kind => exact absurd kind hbase
        | call _ _ _ type => exact absurd type htype
        | returning _ _ _ kind => exact kind T List.mem_cons_self
        | reconverging _ _ kind => exact absurd (kind T List.mem_cons_self) hkind
      exact ⟨hreturning, ex.tracks.sound.returnPc_eq hreturning⟩

theorem updateOk_pushCall (hop : (prog.instruction T.entry.pc).op = .callOps)
    (hat : ∀ i ∈ T.mask, (execMask prog T.entry.pc T.mask pred thread i).pc = p ∧
      (execMask prog T.entry.pc T.mask pred thread i).callstack = cs ∧
      (execMask prog T.entry.pc T.mask pred thread i).done = false)
    (hkind : T.kind ≠ .base → cs = prog.fallThrough T.entry.pc :: T.callstack ∧
      (T.kind = .reconverging → T.entry.recvgPc = prog.fallThrough T.entry.pc ∨
        prog.Meets T.entry.recvgPc (prog.fallThrough T.entry.pc))) :
    UpdateOk prog n (execMask prog T.entry.pc T.mask pred thread) T s := by
  have hbounded := ex.tracks.bounded T List.mem_cons_self
  have hlanes : liveLanes (fun i => (execMask prog T.entry.pc T.mask pred thread i).done)
      T.entry.activeMask = T.mask :=
    Finset.filter_true_of_mem fun i hi => (hat i hi).2.2
  obtain ⟨j, hj⟩ := ex.nonempty
  have hjl := ex.mem_live hj (hat j hj).2.2
  have hnext : ∀ i ∈ liveLanes (fun i => (execMask prog T.entry.pc T.mask pred thread i).done)
      T.entry.activeMask, nextPcs (execMask prog T.entry.pc T.mask pred thread) i = p := by
    intro i hi
    obtain ⟨hiT, hil⟩ := (mem_liveLanes_thread hbounded).mp hi
    rw [nextPcs, (mem_liveThreads.mp hil).2]
    exact (hat i hiT).1
  let c : Frame :=
    { entry := { pc := p, activeMask := T.mask, type := .call }
      kind := if T.kind = .base then .base else .calling
      callstack := cs }
  refine ⟨_, (ex.updatable ex.wellFormed_execMask _ rfl).update_call
    ⟨j, (mem_liveLanes_thread hbounded).mpr ⟨hj, hjl⟩⟩ hnext hop, ?_⟩
  rw [hlanes]
  refine .inl ⟨c :: T :: s, rfl, ex.tracks.call ex.moved c rfl rfl rfl
    (fun i _ hi => ⟨(hat i hi).1, (hat i hi).2.1⟩) ⟨j, hj, hjl⟩ ?_⟩
  by_cases hbase : T.kind = .base
  · exact .inl ⟨hbase, if_pos hbase⟩
  · obtain ⟨hcs, hmeets⟩ := hkind hbase
    exact .inr ⟨hbase, if_neg hbase, hcs, ex.callstack_ne_nil, hmeets⟩

theorem updateOk_call (hinst : (prog.instruction T.entry.pc).controlFlow = .call target) :
    UpdateOk prog n (execMask prog T.entry.pc T.mask pred thread) T s := by
  have hop : (prog.instruction T.entry.pc).op = .callOps := by simp [Instruction.op, hinst]
  have hflow : flow prog.instruction (some T.entry.pc) (some (prog.fallThrough T.entry.pc)) := by
    simp [flow, hinst, WarpProgram.fallThrough]
  rcases ex.regular.call target hinst with hall | ⟨hnone, hconverged⟩
  · apply ex.updateOk_pushCall hop
    · intro i hi
      rw [ex.exec_executed hi (hall i hi), hinst]
      exact ⟨rfl, rfl, ex.not_done hi⟩
    · intro _
      exact ⟨rfl, fun hkind => ((ex.tracks.sound.meets hkind).of_flow hflow).imp_left Eq.symm⟩
  · apply ex.updateOk_pushCall hop
    · intro i hi
      rw [ex.exec_skipped hi (hnone i hi)]
      exact ⟨rfl, (ex.at_top hi).2, ex.not_done hi⟩
    · intro hbase
      exact absurd (ex.tracks.sound.kind_of_converged hconverged) hbase

end RegularExecuting

end GpuCalorie.Simt
