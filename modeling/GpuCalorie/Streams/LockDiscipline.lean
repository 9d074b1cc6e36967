/-
# The lock of the stream manager

`m_lock` is not recursive, and `destroy_stream` waits with it for a stream to become empty. The
streams of the CTAs of a kernel are destroyed when the kernel is deleted. In runs in which no
kernel with such streams is deleted by `stop_all_running_kernels`, which holds the lock, and in
which no event is waited for in a stream that is destroyed, a thread that holds the lock neither
acquires it nor waits for a stream that is not empty.
-/

import GpuCalorie.Math.Mutex
import GpuCalorie.Streams.CtaStreams
import GpuCalorie.Streams.Retirement

namespace GpuCalorie.Streams

open GpuCalorie.Math

/-- What an instruction has to do with `m_lock`. -/
def Instr.use : Instr → MutexUse
  | .lock => .acquire
  | .unlock => .release
  | .untilEmpty | .synchronize _ | .checkFinished false => .outside
  | .addStream _ | .testConcurrent | .accept _ _ | .awaitEmpty _ | .eraseStream _
  | .checkFinished true | .issue | .stopRunning => .inside

/-- An instruction destroys streams. -/
def Instr.Destroys : Instr → Prop
  | .awaitEmpty _ | .checkFinished _ => True
  | _ => False

/-- What is known of an instruction that a thread is to run. -/
def StreamManager.Fits (s : StreamManager) (t : Thread) : Instr → Prop
  | .addStream sid => sid < s.nextStream
  | .accept target op => match t with
    | .host => ∀ sid ∈ target,
      sid < s.nextStream ∧ ∀ u, sid ∈ (s.kernels u).ctaStreams → op.isWait = true
    | .sim => ∃ sid c, target = some sid ∧ op = .kernelLaunch c ∧ s.OfChild sid c
  | .awaitEmpty sid => 0 < sid ∧ match t with
    | .host => sid < s.nextStream ∧ ∀ u, sid ∉ (s.kernels u).ctaStreams
    | .sim => (s.stream sid).operations = []
  | .checkFinished _ => t = .sim
  | _ => True

/-- What is known of the calls of the threads. -/
structure Programs (s : StreamManager) (program : Thread → List Instr) : Prop where
  fits : ∀ t, ∀ i ∈ program t, s.Fits t i
  destroys : ∀ t, ∀ i ∈ program t, i.Destroys → ∀ target op, .accept target op ∉ program t
  host : ∀ sid, .awaitEmpty sid ∈ program .host →
    program .host = .synchronize sid :: destroyStreamCall sid ∨ (s.stream sid).operations = []

variable {cfg : StreamConfig} {m m' : StreamManager} {program : Thread → List Instr} {t : Thread}
  {i : Instr} {rest instead : List Instr} {sid : ℕ}

/-! ## Calls are disciplined -/

theorem disciplined_destroyStreamCall (sid : ℕ) :
    Disciplined Instr.use false (destroyStreamCall sid) := ⟨rfl, rfl, rfl, rfl, rfl⟩

theorem disciplined_flatMap {α : Type} (l : List α) {f : α → List Instr}
    (h : ∀ a, Disciplined Instr.use false (f a)) : Disciplined Instr.use false (l.flatMap f) := by
  induction l with
  | nil => rfl
  | cons a l ih => exact (h a).append ih

theorem disciplined_destroyCtaStreams (m : StreamManager) (deleted : List ℕ) :
    Disciplined Instr.use false (m.destroyCtaStreams deleted) :=
  disciplined_flatMap _ fun _ => disciplined_flatMap _ fun _ => disciplined_destroyStreamCall _

theorem disciplined_pushCall (cfg : StreamConfig) (target : Option ℕ) (op : StreamOperation) :
    Disciplined Instr.use false (pushCall cfg target op) := by
  rw [pushCall]
  split_ifs
  · exact ⟨rfl, rfl, rfl, rfl, rfl, rfl, rfl, rfl⟩
  · exact ⟨rfl, rfl, rfl, rfl⟩

theorem mem_destroyCtaStreams {deleted : List ℕ} (h : i ∈ m.destroyCtaStreams deleted) :
    ∃ u ∈ deleted, ∃ sid ∈ (m.kernels u).ctaStreams,
      i = .lock ∨ i = .awaitEmpty sid ∨ i = .eraseStream sid ∨ i = .unlock := by
  obtain ⟨u, hu, hi⟩ := List.mem_flatMap.mp h
  obtain ⟨sid, hsid, hi⟩ := List.mem_flatMap.mp hi
  refine ⟨u, hu, sid, hsid, ?_⟩
  simpa [destroyStreamCall] using hi

/-! ## What is known of the calls -/

namespace StreamManager

theorem Fits.extend (h : m.Fits t i) (hextends : m.Extends m')
    (hempty : ∀ sid, i = .awaitEmpty sid → (m.stream sid).operations = [] →
      (m'.stream sid).operations = []) : m'.Fits t i := by
  cases i with
  | addStream sid => exact Nat.lt_of_lt_of_le h hextends.nextStream
  | accept target op =>
      cases t with
      | host =>
          intro sid hsid
          obtain ⟨hlt, hcta⟩ := h sid hsid
          exact ⟨Nat.lt_of_lt_of_le hlt hextends.nextStream, fun u hmem =>
            hcta u (hextends.owner u sid hlt hmem)⟩
      | sim =>
          obtain ⟨sid, c, htarget, hop, hchild⟩ := h
          exact ⟨sid, c, htarget, hop, hextends.child sid c hchild⟩
  | awaitEmpty sid =>
      obtain ⟨hpos, hrest⟩ := h
      refine ⟨hpos, ?_⟩
      cases t with
      | host =>
          obtain ⟨hlt, hnot⟩ := hrest
          exact ⟨Nat.lt_of_lt_of_le hlt hextends.nextStream, fun u hmem =>
            hnot u (hextends.owner u sid hlt hmem)⟩
      | sim => exact hempty sid rfl hrest
  | checkFinished loop => exact h
  | lock => exact h
  | unlock => exact h
  | testConcurrent => exact h
  | untilEmpty => exact h
  | synchronize sid => exact h
  | eraseStream sid => exact h
  | issue => exact h
  | stopRunning => exact h

end StreamManager

namespace Programs

variable (h : Programs m program)
include h

theorem extend (hextends : m.Extends m')
    (hempty : ∀ t sid, .awaitEmpty sid ∈ program t → (m.stream sid).operations = [] →
      (m'.stream sid).operations = []) : Programs m' program where
  fits t i hmem := (h.fits t i hmem).extend hextends fun sid heq => hempty t sid (heq ▸ hmem)
  destroys := h.destroys
  host sid hmem := (h.host sid hmem).imp_right (hempty .host sid hmem)

theorem shrink (hshrinks : m.Shrinks m') : Programs m' program :=
  h.extend hshrinks.toExtends fun _ _ _ => hshrinks.operations_eq_nil

theorem call {p : List Instr} (hfits : ∀ i ∈ p, m.Fits t i)
    (hdestroys : ∀ i ∈ p, i.Destroys → ∀ target op, .accept target op ∉ p)
    (hhost : t = .host → ∀ sid, .awaitEmpty sid ∈ p →
    p = .synchronize sid :: destroyStreamCall sid) :
    Programs m (Function.update program t p) := by
  have hself : Function.update program t p t = p := Function.update_self _ _ _
  constructor
  case fits =>
    intro t' i hmem
    by_cases heq : t' = t
    · rw [heq] at hmem ⊢
      exact hfits i (hself ▸ hmem)
    · rw [Function.update_of_ne heq] at hmem
      exact h.fits t' i hmem
  case destroys =>
    intro t' i hmem hi
    by_cases heq : t' = t
    · rw [heq, hself] at hmem ⊢
      exact hdestroys i hmem hi
    · rw [Function.update_of_ne heq] at hmem ⊢
      exact h.destroys t' i hmem hi
  case host =>
    intro sid hmem
    by_cases heq : Thread.host = t
    · rw [heq, hself] at hmem ⊢
      exact .inl (hhost heq.symm sid hmem)
    · rw [Function.update_of_ne heq] at hmem ⊢
      exact h.host sid hmem

theorem go (hprogram : program t = i :: rest)
    (hfits : ∀ j ∈ instead, m.Fits t j) (haccept : ∀ target op, .accept target op ∉ instead)
    (hdestroys : ∀ j ∈ instead, j.Destroys → i.Destroys)
    (hhost : t = .host → ∀ sid, .awaitEmpty sid ∉ instead)
    (hsync : ∀ sid, i = .synchronize sid → (m.stream sid).operations = []) :
    Programs m (Function.update program t (instead ++ rest)) := by
  have hself : Function.update program t (instead ++ rest) t = instead ++ rest :=
    Function.update_self _ _ _
  have hrest : ∀ j ∈ rest, j ∈ program t := fun j hj => hprogram ▸ List.mem_cons_of_mem i hj
  constructor
  case fits =>
    intro t' j hmem
    by_cases heq : t' = t
    · rw [heq, hself] at hmem
      rw [heq]
      exact (List.mem_append.mp hmem).elim (hfits j) fun hj => h.fits t j (hrest j hj)
    · rw [Function.update_of_ne heq] at hmem
      exact h.fits t' j hmem
  case destroys =>
    intro t' j hmem hj target op hop
    by_cases heq : t' = t
    · rw [heq, hself] at hmem hop
      have hthere : .accept target op ∈ program t :=
        hrest _ ((List.mem_append.mp hop).resolve_left (haccept target op))
      rcases List.mem_append.mp hmem with hnew | hold
      · exact h.destroys t i (hprogram ▸ List.mem_cons_self) (hdestroys j hnew hj) target op hthere
      · exact h.destroys t j (hrest j hold) hj target op hthere
    · rw [Function.update_of_ne heq] at hmem hop
      exact h.destroys t' j hmem hj target op hop
  case host =>
    intro sid hmem
    by_cases heq : Thread.host = t
    · subst heq
      rw [hself] at hmem
      have hold := (List.mem_append.mp hmem).resolve_left (hhost rfl sid)
      refine .inr ((h.host sid (hrest _ hold)).elim (fun hcall => ?_) id)
      rw [hprogram] at hcall
      exact hsync sid (List.cons.inj hcall).1
    · rw [Function.update_of_ne heq] at hmem ⊢
      exact h.host sid hmem

end Programs

/-! ## Instructions -/

/-- The streams of the kernels that are deleted are destroyed without the lock, and are empty or
have launches of kernels that are retired. -/
def StreamManager.DestroysIdle (s : StreamManager) (loop : Bool) : Prop :=
  ∀ uid ∈ s.finishedKernel.head?, s.gridIdToStream uid ≠ none → ∀ u ∈ s.unwinds uid,
    ∀ sid ∈ (s.kernels u).ctaStreams,
      loop = false ∧ ∀ op ∈ (s.stream sid).operations, op.isWait = false

instance (s : StreamManager) (loop : Bool) : Decidable (s.DestroysIdle loop) :=
  inferInstanceAs (Decidable (∀ uid ∈ s.finishedKernel.head?, _ → ∀ u ∈ s.unwinds uid,
    ∀ sid ∈ (s.kernels u).ctaStreams, _ ∧ ∀ op ∈ (s.stream sid).operations, _))

namespace Threads

variable (cfg) (s : Threads)

/-- Streams that are destroyed are empty, or will be. -/
def Idle : Instr → Prop
  | .checkFinished loop => s.manager.DestroysIdle loop
  | .accept (some sid) _ =>
    s.manager.maxHit = false → cfg.cudaLaunchBlocking = false → .awaitEmpty sid ∉ s.program .sim
  | _ => True

instance (i : Instr) : Decidable (s.Idle cfg i) :=
  match i with
  | .checkFinished loop => inferInstanceAs (Decidable (s.manager.DestroysIdle loop))
  | .accept (some _) _ => inferInstanceAs (Decidable (_ → _ → ¬ _ ∈ s.program .sim))
  | .lock | .unlock | .addStream _ | .testConcurrent | .accept none _ | .untilEmpty
  | .synchronize _ | .awaitEmpty _ | .eraseStream _ | .issue | .stopRunning =>
    inferInstanceAs (Decidable True)

/-- No stream is destroyed with the lock, or with an event in it that is waited for, and the
host pushes none to a stream that is destroyed. -/
def DestroysIdle : Event → Prop
  | .run t => ∀ i ∈ (s.program t).head?, s.Idle cfg i
  | _ => True

instance (event : Event) : Decidable (s.DestroysIdle cfg event) :=
  match event with
  | .run t => inferInstanceAs (Decidable (∀ i ∈ (s.program t).head?, _))
  | .createStream | .destroyStream _ | .launch _ | .push _ _ | .waitEvent _ _ _ | .operation
  | .hitMax | .stopAllRunningKernels | .finish _ | .createStreamCta _ | .launchDevice _ _
  | .launchOneDeviceKernel => inferInstanceAs (Decidable True)

/-- What the lock rests on. -/
structure Locked : Prop where
  sound : s.Sound
  owned : s.manager.Owned
  programs : Programs s.manager s.program
  keeps : Keeps Instr.use s.holder s.program

variable {cfg s} {target : Option ℕ} {op : StreamOperation}

theorem Locked.checkFinished (h : s.Locked) {loop : Bool}
    (hprogram : s.program t = .checkFinished loop :: rest)
    (hidle : s.manager.DestroysIdle loop)
    (hexec : s.manager.exec cfg (.checkFinished loop) = .ok (instead, m)) :
    m.Owned ∧ Programs m (Function.update s.program t (instead ++ rest)) ∧
      Keeps Instr.use s.holder (Function.update s.program t (instead ++ rest)) := by
  have hfits : s.manager.Fits t (.checkFinished loop) :=
    h.programs.fits t _ (hprogram ▸ List.mem_cons_self)
  have hsim : t = .sim := hfits
  cases hcheck : s.manager.checkFinishedKernel with
  | error e =>
      rw [StreamManager.exec, hcheck] at hexec
      cases hexec
  | ok p =>
      rw [StreamManager.exec, hcheck] at hexec
      cases hexec
      obtain ⟨hsound, -, popped, uids, hdeleted, hunwound, hhead, hnil⟩ :=
        (StreamManager.Sound.checkFinishedKernel h.sound).of_ok hcheck
      have hpop : s.manager.Shrinks { s.manager with finishedKernel := popped } :=
        ⟨rfl, fun _ => rfl, fun _ => rfl, fun _ => List.suffix_rfl, fun _ h => h, fun _ h =>
          h, fun _ h => h⟩
      have hshrinks := hpop.trans hunwound.shrinks
      have howned := h.owned.shrink hshrinks
      -- the streams of the kernels that are deleted
      have hempty : ∀ u ∈ p.1, ∀ sid ∈ (p.2.kernels u).ctaStreams,
          loop = false ∧ (p.2.stream sid).operations = [] := by
        intro u hu sid hsid
        rw [hdeleted, List.mem_reverse] at hu
        have hfinished : s.manager.finishedKernel ≠ [] := by
          intro hnone
          rw [hnil hnone] at hu
          exact absurd hu List.not_mem_nil
        obtain ⟨uid, later, hcons⟩ := List.exists_cons_of_ne_nil hfinished
        have hfirst : s.manager.finishedKernel.head? = some uid := by
          rw [hcons]
          rfl
        obtain ⟨hgrid, huids⟩ := hhead uid hfirst
        obtain ⟨hloop, hwait⟩ :=
          hidle uid hfirst hgrid u (huids ▸ hu) sid (hshrinks.ctaStreams u ▸ hsid)
        refine ⟨hloop, howned.operations_eq_nil hsound ?_ hsid fun op hop =>
          hwait op ((hshrinks.operations sid).subset hop)⟩
        have hretired := congrArg StreamManager.retired hunwound.frame
        rw [hretired]
        exact List.mem_append_left _ (List.mem_reverse.mpr hu)
      have hinstead : ∀ j ∈ p.2.destroyCtaStreams p.1 ++
          if loop = true ∧ p.1 ≠ [] then [.checkFinished true] else [],
          j = .lock ∨ j = .unlock ∨ j = .checkFinished true ∨ ∃ u ∈ p.1,
            ∃ sid ∈ (p.2.kernels u).ctaStreams,
            j = .awaitEmpty sid ∨ j = .eraseStream sid := by
        intro j hj
        rcases List.mem_append.mp hj with hj | hj
        · obtain ⟨u, hu, sid, hsid, rfl | hj | hj | rfl⟩ := mem_destroyCtaStreams hj
          · exact .inl rfl
          · exact .inr (.inr (.inr ⟨u, hu, sid, hsid, .inl hj⟩))
          · exact .inr (.inr (.inr ⟨u, hu, sid, hsid, .inr hj⟩))
          · exact .inr (.inl rfl)
        · split_ifs at hj
          · exact .inr (.inr (.inl (List.mem_singleton.mp hj)))
          · exact absurd hj List.not_mem_nil
      refine ⟨howned, (h.programs.shrink hshrinks).go hprogram (fun j hj => ?_)
        (fun target op hop => ?_)
        (fun _ _ _ => trivial) (fun hhost => ?_) (by rintro _ ⟨⟩),
          h.keeps.replace hprogram ?_⟩
      · subst hsim
        rcases hinstead j hj with rfl | rfl | rfl | ⟨u, hu, sid, hsid, rfl | rfl⟩
        · trivial
        · trivial
        · rfl
        · exact ⟨(howned.cta u sid hsid).1, (hempty u hu sid hsid).2⟩
        · trivial
      · rcases hinstead _ hop with heq | heq | heq | ⟨u, hu, sid, hsid, heq | heq⟩ <;> cases heq
      · cases hsim.symm.trans hhost
      · intro held hheld
        cases loop with
        | false =>
            obtain ⟨rfl, hrest⟩ := hheld
            rw [if_neg fun hboth => Bool.false_ne_true hboth.1, List.append_nil]
            exact (disciplined_destroyCtaStreams _ _).append hrest
        | true =>
            have hnone : p.2.destroyCtaStreams p.1 = [] := by
              refine List.flatMap_eq_nil_iff.mpr fun u hu =>
                List.flatMap_eq_nil_iff.mpr fun sid hsid => ?_
              exact absurd (hempty u hu sid hsid).1.symm Bool.false_ne_true
            rw [hnone, List.nil_append]
            split_ifs
            · exact hheld
            · exact hheld.2

theorem Locked.accept (h : s.Locked)
    (hprogram : s.program t = .accept target op :: rest) (hidle : s.Idle cfg (.accept target op)) :
    OkOr (fun p => p.1 = [] ∧ p.2.Owned ∧ Programs p.2 s.program) (fun _ => False)
      (s.manager.exec cfg (.accept target op)) := by
  have hmem : .accept target op ∈ s.program t := hprogram ▸ List.mem_cons_self
  have hfits := h.programs.fits t _ hmem
  -- what is pushed to a stream that is not destroyed
  have hpush : ∀ dest, dest < s.manager.nextStream →
      (∀ u, dest ∈ (s.manager.kernels u).ctaStreams →
        op.isWait = true ∨ ∃ c, op = .kernelLaunch c ∧ s.manager.OfChild dest c) →
      (∀ t' sid, .awaitEmpty sid ∈ s.program t' → sid ≠ dest) →
      (s.manager.setStream dest ((s.manager.stream dest).push op)).Owned ∧
        Programs (s.manager.setStream dest ((s.manager.stream dest).push op)) s.program := by
    intro dest hlt hop hawait
    refine ⟨h.owned.push hlt hop, h.programs.extend
      ⟨le_rfl, fun _ _ _ hcta => hcta, fun _ _ hchild => hchild⟩ ?_⟩
    intro t' sid hsid hnil
    show (Function.update s.manager.stream dest _ sid).operations = []
    rw [Function.update_of_ne (hawait t' sid hsid)]
    exact hnil
  have hzero := hpush 0 h.owned.next_pos
    (fun u hcta => absurd (h.owned.cta u 0 hcta).1 (Nat.lt_irrefl 0)) fun t' sid hsid heq =>
      Nat.lt_irrefl 0 (heq ▸ (h.programs.fits t' _ hsid).1)
  refine OkOr.ite (fun _ => ⟨rfl, h.owned, h.programs⟩) fun hnoHit => ?_
  cases target with
  | none => exact ⟨rfl, hzero⟩
  | some dest =>
      refine OkOr.ite (fun _ => ⟨rfl, hzero⟩) fun hconcurrent => ⟨rfl, ?_⟩
      cases t with
      | host =>
          obtain ⟨hlt, hwait⟩ := hfits dest rfl
          refine hpush dest hlt (fun u hcta => .inl (hwait u hcta)) fun t' sid hsid heq => ?_
          cases t' with
          | host => exact h.programs.destroys .host _ hsid trivial _ _ hmem
          | sim =>
              exact hidle ((Bool.not_eq_true _).mp hnoHit) ((Bool.not_eq_true _).mp hconcurrent)
                (heq ▸ hsid)
      | sim =>
          obtain ⟨_, c, htarget, hop, hchild⟩ := hfits
          cases htarget
          obtain ⟨p, -, hcta⟩ := id hchild
          refine hpush dest (h.owned.cta p dest hcta).2
            (fun _ _ => .inr ⟨c, hop, hchild⟩) fun t' sid hsid heq => ?_
          cases t' with
          | host => exact (h.programs.fits .host _ hsid).2.2 p (heq ▸ hcta)
          | sim => exact h.programs.destroys .sim _ hsid trivial _ _ hmem

theorem Locked.exec (h : s.Locked) (hprogram : s.program t = i :: rest) (hunblocked : s.Unblocked i)
    (hidle : s.Idle cfg i) (hexec : s.manager.exec cfg i = .ok (instead, m)) :
    m.Owned ∧ Programs m (Function.update s.program t (instead ++ rest)) ∧
      Keeps Instr.use (s.holderAfter t i) (Function.update s.program t (instead ++ rest)) := by
  have hnothing : ∀ {m}, Programs m s.program →
    (∀ sid, i = .synchronize sid → (m.stream sid).operations = []) →
      Programs m (Function.update s.program t rest) := fun hprograms hsync =>
    hprograms.go hprogram (fun _ hj => absurd hj List.not_mem_nil)
      (fun _ _ hj => List.not_mem_nil hj)
      (fun _ hj => absurd hj List.not_mem_nil) (fun _ _ hj => List.not_mem_nil hj) hsync
  have htail : i.use ≠ .acquire → i.use ≠ .release →
      Keeps Instr.use s.holder (Function.update s.program t rest) := fun hacquire hrelease =>
    h.keeps.replace hprogram fun _ hheld => hheld.tail hacquire hrelease
  have hother : (∀ sid, i ≠ .synchronize sid) → ∀ {m}, Programs m s.program →
      Programs m (Function.update s.program t rest) := fun hne _ hprograms =>
    hnothing hprograms fun sid heq => absurd heq (hne sid)
  cases i with
  | lock =>
      cases hexec
      have hfree : s.holder = none := hunblocked
      exact ⟨h.owned, hother (by rintro _ ⟨⟩) h.programs, (hfree ▸ h.keeps).acquire hprogram rfl⟩
  | unlock =>
      cases hexec
      exact ⟨h.owned, hother (by rintro _ ⟨⟩) h.programs, h.keeps.release hprogram rfl⟩
  | addStream sid =>
      cases hexec
      have hfits : s.manager.Fits t (.addStream sid) :=
        h.programs.fits t _ (hprogram ▸ List.mem_cons_self)
      refine ⟨h.owned.addStream hfits, hother (by rintro _ ⟨⟩) ?_,
        htail (by rintro ⟨⟩) (by rintro ⟨⟩)⟩
      exact h.programs.extend ⟨le_rfl, fun _ _ _ hcta => hcta, fun _ _ hchild => hchild⟩
        fun _ _ _ hnil => hnil
  | testConcurrent =>
      rw [StreamManager.exec] at hexec
      cases hexec
      split_ifs with hempty
      · exact ⟨h.owned, hother (by rintro _ ⟨⟩) h.programs, htail (by rintro ⟨⟩) (by rintro ⟨⟩)⟩
      · refine ⟨h.owned, h.programs.go hprogram (fun j hj => ?_) (fun _ _ hj => ?_)
          (fun j hj hdestroys => ?_)
          (fun _ _ hj => ?_) (by rintro _ ⟨⟩),
            h.keeps.replace hprogram fun held hheld => ?_⟩
        · obtain rfl | rfl | rfl := by simpa using hj
          all_goals trivial
        · simp at hj
        · obtain rfl | rfl | rfl := by simpa using hj
          all_goals exact hdestroys
        · simp at hj
        · exact ⟨hheld.1, rfl, hheld.1 ▸ hheld⟩
  | accept target op =>
      obtain ⟨hnil, howned, hprograms⟩ := (h.accept hprogram hidle).of_ok hexec
      cases hnil
      exact ⟨howned, hother (by rintro _ ⟨⟩) hprograms, htail (by rintro ⟨⟩) (by rintro ⟨⟩)⟩
  | untilEmpty =>
      cases hexec
      exact ⟨h.owned, hother (by rintro _ ⟨⟩) h.programs, htail (by rintro ⟨⟩) (by rintro ⟨⟩)⟩
  | synchronize sid =>
      cases hexec
      refine ⟨h.owned, hnothing h.programs fun sid' heq => ?_, htail (by rintro ⟨⟩) (by rintro ⟨⟩)⟩
      cases heq
      exact hunblocked
  | awaitEmpty sid =>
      cases hexec
      exact ⟨h.owned, hother (by rintro _ ⟨⟩) h.programs, htail (by rintro ⟨⟩) (by rintro ⟨⟩)⟩
  | eraseStream sid =>
      cases hexec
      have hshrinks : s.manager.Shrinks { s.manager with
          streams := s.manager.streams.erase sid
          lastStream := (s.manager.streams.erase sid).head? } :=
        ⟨rfl, fun _ => rfl, fun _ => rfl, fun _ => List.suffix_rfl, fun _ h => h, fun _ h => h,
          fun _ hmem => List.mem_of_mem_erase hmem⟩
      exact ⟨h.owned.shrink hshrinks, hother (by rintro _ ⟨⟩) (h.programs.shrink hshrinks),
        htail (by rintro ⟨⟩) (by rintro ⟨⟩)⟩
  | checkFinished loop => exact h.checkFinished hprogram hidle hexec
  | issue =>
      obtain ⟨m', hissue, -, hserved, -⟩ := StreamManager.Sound.issue h.sound cfg
      rw [StreamManager.exec, hissue] at hexec
      cases hexec
      exact ⟨h.owned.shrink hserved.shrinks, hother (by rintro _ ⟨⟩)
        (h.programs.shrink hserved.shrinks), htail (by rintro ⟨⟩) (by rintro ⟨⟩)⟩
  | stopRunning =>
      cases hexec
      have hshrinks : s.manager.Shrinks { s.manager with
          finishedKernel := s.manager.finishedKernel ++ s.manager.runningKernels
          runningKernels := [] } :=
        ⟨rfl, fun _ => rfl, fun _ => rfl, fun _ => List.suffix_rfl, fun _ h => h, fun _ h =>
          h, fun _ h => h⟩
      exact ⟨h.owned.shrink hshrinks, hother (by rintro _ ⟨⟩) (h.programs.shrink hshrinks),
        htail (by rintro ⟨⟩) (by rintro ⟨⟩)⟩

/-! ## Steps -/

theorem Locked.run (h : s.Locked) (henabled : s.Enabled (.run t))
    (hidle : s.DestroysIdle cfg (.run t)) :
    OkOr Locked (fun e => e = .nullStream) (s.run cfg t) := by
  obtain ⟨i, hhead, hunblocked⟩ := henabled
  cases hprogram : s.program t with
  | nil =>
      rw [hprogram] at hhead
      cases hhead
  | cons j rest =>
      rw [hprogram] at hhead
      cases hhead
      have hidle' : s.Idle cfg i := hidle i (by rw [hprogram]; rfl)
      have hsound := h.sound.run cfg t
      rw [Threads.run, hprogram] at hsound ⊢
      dsimp only at hsound ⊢
      cases hexec : s.manager.exec cfg i with
      | error e =>
          rw [hexec] at hsound
          exact hsound.1
      | ok p =>
          rw [hexec] at hsound
          obtain ⟨howned, hprograms, hkeeps⟩ := h.exec hprogram hunblocked hidle' hexec
          exact ⟨hsound.1, howned, hprograms, hkeeps⟩

theorem fits_pushCall (h : m.Fits t (.accept target op)) :
    ∀ i ∈ pushCall cfg target op, m.Fits t i ∧ ¬ i.Destroys := by
  intro i hi
  have hcases : i = .lock ∨ i = .testConcurrent ∨ i = .unlock ∨ i = .accept target op ∨
      i = .untilEmpty := by
    rw [pushCall] at hi
    split_ifs at hi <;> simp at hi <;> tauto
  obtain rfl | rfl | rfl | rfl | rfl := hcases
  · exact ⟨trivial, id⟩
  · exact ⟨trivial, id⟩
  · exact ⟨trivial, id⟩
  · exact ⟨h, id⟩
  · exact ⟨trivial, id⟩

theorem programs_pushCall (h : Programs m program) (hfits : m.Fits t (.accept target op)) :
    Programs m (Function.update program t (pushCall cfg target op)) :=
  h.call (fun i hi => (fits_pushCall hfits i hi).1)
    (fun i hi hdestroys => absurd hdestroys (fits_pushCall hfits i hi).2)
    fun _ _ hmem => absurd trivial (fits_pushCall hfits _ hmem).2

theorem programs_addStreamCall (h : Programs m program) (hlt : sid < m.nextStream) :
    Programs m (Function.update program t (addStreamCall sid)) := by
  refine h.call (fun i hi => ?_) (fun i hi hdestroys => ?_) fun _ _ hmem => ?_
  · obtain rfl | rfl | rfl := by simpa [addStreamCall] using hi
    · trivial
    · exact hlt
    · trivial
  · obtain rfl | rfl | rfl := by simpa [addStreamCall] using hi
    all_goals exact absurd hdestroys id
  · simp [addStreamCall] at hmem

theorem programs_sim (h : Programs m program) {p : List Instr} (hfits : ∀ i ∈ p, m.Fits .sim i)
    (haccept : ∀ target op, .accept target op ∉ p) : Programs m (Function.update program .sim p) :=
  h.call hfits (fun _ _ _ => haccept) fun hsame => nomatch hsame

theorem fits_accept (howned : m.Owned) (htarget : ∀ sid ∈ target, sid ∈ m.hostStreams)
    (op : StreamOperation) : m.Fits .host (.accept target op) := by
  intro sid hsid
  obtain ⟨-, hlt, hnot⟩ := howned.host sid (htarget sid hsid)
  exact ⟨hlt, fun u hcta => absurd hcta (hnot u)⟩

theorem Locked.step (h : s.Locked) (event : Event) (henabled : s.Enabled event)
    (hidle : s.DestroysIdle cfg event) :
    OkOr Locked (fun e => e = .nullStream) (s.step cfg event) := by
  have hsound := h.sound.step cfg event henabled
  cases event with
  | run t => exact h.run henabled hidle
  | createStream =>
      refine ⟨hsound.1, h.owned.createStream, programs_addStreamCall ?_ (Nat.lt_succ_self _), ?_⟩
      · exact h.programs.extend ⟨Nat.le_succ _, fun _ _ _ hcta => hcta, fun _ _ hchild => hchild⟩
          fun _ _ _ hnil => hnil
      · exact h.keeps.call henabled ⟨rfl, rfl, rfl, rfl⟩
  | destroyStream sid =>
      obtain ⟨hpos, hlt, hnot⟩ := h.owned.host sid henabled.2
      have hshrinks : s.manager.Shrinks { s.manager with
          hostStreams := s.manager.hostStreams.filter (· ≠ sid) } :=
        ⟨rfl, fun _ => rfl, fun _ => rfl, fun _ => List.suffix_rfl, fun _ hmem =>
          List.mem_of_mem_filter hmem,
          fun _ hmem => hmem, fun _ hmem => hmem⟩
      refine ⟨hsound.1, h.owned.shrink hshrinks, (h.programs.shrink hshrinks).call (fun i hi => ?_)
        (fun _ _ _ target op hop => ?_) (fun _ sid' hmem => ?_), ?_⟩
      · obtain rfl | rfl | rfl | rfl | rfl := by simpa [destroyStreamCall] using hi
        · trivial
        · trivial
        · exact ⟨hpos, hlt, hnot⟩
        · trivial
        · trivial
      · simp [destroyStreamCall] at hop
      · have heq : sid' = sid := by simpa [destroyStreamCall] using hmem
        rw [heq]
      · exact h.keeps.call henabled.1 ⟨rfl, disciplined_destroyStreamCall sid⟩
  | launch target =>
      have hfamily := h.sound.family
      have hprograms := h.programs.extend (StreamManager.newKernel_extends hfamily cfg none)
        fun _ _ _ hnil => hnil
      refine ⟨hsound.1, h.owned.newKernel hfamily cfg none, programs_pushCall hprograms ?_, ?_⟩
      · exact fits_accept (h.owned.newKernel hfamily cfg none) henabled.2 _
      · exact h.keeps.call henabled.1 (disciplined_pushCall cfg target _)
  | push target op =>
      exact ⟨hsound.1, h.owned, programs_pushCall h.programs (fits_accept h.owned henabled.2.1 op),
        h.keeps.call henabled.1 (disciplined_pushCall cfg target op)⟩
  | waitEvent sid event count =>
      refine ⟨hsound.1, h.owned, programs_pushCall h.programs ?_,
        h.keeps.call henabled.1 (disciplined_pushCall cfg (some sid) _)⟩
      rintro _ ⟨⟩
      exact ⟨h.owned.streams sid henabled.2, fun _ _ => rfl⟩
  | operation =>
      refine ⟨hsound.1, h.owned, programs_sim h.programs (fun i hi => ?_) (fun _ _ hop => ?_),
        h.keeps.call henabled.1 ⟨rfl, rfl, rfl, rfl, rfl⟩⟩
      · obtain rfl | rfl | rfl | rfl := by simpa [operationCall] using hi
        · rfl
        all_goals trivial
      · simp [operationCall] at hop
  | hitMax =>
      have hshrinks : s.manager.Shrinks { s.manager with maxHit := true } :=
        ⟨rfl, fun _ => rfl, fun _ => rfl, fun _ => List.suffix_rfl, fun _ hmem =>
          hmem, fun _ hmem => hmem,
          fun _ hmem => hmem⟩
      exact ⟨hsound.1, h.owned.shrink hshrinks, h.programs.shrink hshrinks, h.keeps⟩
  | stopAllRunningKernels =>
      refine ⟨hsound.1, h.owned, programs_sim h.programs (fun i hi => ?_) (fun _ _ hop => ?_),
        h.keeps.call henabled.1.1 ⟨rfl, rfl, rfl, rfl, rfl⟩⟩
      · obtain rfl | rfl | rfl | rfl := by simpa [stopCall] using hi
        · trivial
        · trivial
        · rfl
        · trivial
      · simp [stopCall] at hop
  | finish uid =>
      have hshrinks := s.manager.finish_shrinks uid
      exact ⟨hsound.1, h.owned.shrink hshrinks, h.programs.shrink hshrinks, h.keeps⟩
  | createStreamCta uid =>
      refine ⟨hsound.1, h.owned.newCtaStream uid, programs_addStreamCall ?_ (Nat.lt_succ_self _),
        ?_⟩
      · exact h.programs.extend (s.manager.newCtaStream_extends uid) fun _ _ _ hnil => hnil
      · exact h.keeps.call henabled.1.1 ⟨rfl, rfl, rfl, rfl⟩
  | launchDevice uid sid =>
      have hfamily := h.sound.family
      obtain ⟨sid', hgrid⟩ :=
        Option.ne_none_iff_exists'.mp (h.sound.launched.running uid henabled.2.1.1).1
      have hextends := StreamManager.newKernel_extends hfamily cfg (some uid)
      refine ⟨hsound.1, h.owned.launchDevice hfamily cfg
        (h.sound.queues.not_retired hgrid).1 henabled.2.2,
        h.programs.extend ⟨hextends.nextStream, hextends.owner, hextends.child⟩ fun _ _ _ hnil =>
          hnil, h.keeps⟩
  | launchOneDeviceKernel =>
      rw [Threads.step] at hsound ⊢
      cases hdevice : s.manager.deviceLaunchOp with
      | nil => exact absurd hdevice henabled.2.2
      | cons first later =>
          obtain ⟨uid, sid⟩ := first
          rw [hdevice] at hsound
          have hshrinks : s.manager.Shrinks { s.manager with deviceLaunchOp := later } := by
            refine ⟨rfl, fun _ => rfl, fun _ => rfl, fun _ => List.suffix_rfl, fun _ hmem =>
              hmem, ?_,
              fun _ hmem => hmem⟩
            intro p hp
            rw [hdevice]
            exact List.mem_cons_of_mem _ hp
          have hchild := h.owned.device uid sid (hdevice ▸ List.mem_cons_self)
          exact ⟨hsound.1, h.owned.shrink hshrinks,
            programs_pushCall (h.programs.shrink hshrinks) ⟨sid, uid, rfl, rfl, hchild⟩,
            h.keeps.call henabled.1.1 (disciplined_pushCall cfg (some sid) _)⟩

theorem Locked.init : ({} : Threads).Locked where
  sound := .init
  owned := .init
  programs := ⟨fun _ _ h => absurd h List.not_mem_nil, fun _ _ h => absurd h List.not_mem_nil,
    fun _ h => absurd h List.not_mem_nil⟩
  keeps _ := rfl

/-! ## Runs -/

/-- No thread acquires the lock while it holds it, or waits with it for a stream that is not
empty, and all other waiting is without it. -/
structure LockSafe (s : Threads) : Prop where
  acquires : ∀ t, (s.program t).head? = some .lock → s.holder ≠ some t
  waits : ∀ t sid, (s.program t).head? = some (.awaitEmpty sid) → s.holder = some t →
    (s.manager.stream sid).operations = []
  synchronizes : ∀ t i, (s.program t).head? = some i → i = .untilEmpty ∨
    (∃ sid, i = .synchronize sid) →
    s.holder ≠ some t

theorem Locked.lockSafe (h : s.Locked) : s.LockSafe := by
  have hcons : ∀ {t i}, (s.program t).head? = some i → ∃ rest, s.program t = i :: rest :=
    fun hhead =>
    List.head?_eq_some_iff.mp hhead
  constructor
  case acquires =>
    intro t hhead hholder
    obtain ⟨rest, hprogram⟩ := hcons hhead
    exact h.keeps.not_acquire hholder hprogram rfl
  case waits =>
    intro t sid hhead hholder
    obtain ⟨rest, hprogram⟩ := hcons hhead
    have hmem : .awaitEmpty sid ∈ s.program t := hprogram ▸ List.mem_cons_self
    cases t with
    | sim => exact (h.programs.fits .sim _ hmem).2
    | host =>
        refine (h.programs.host sid hmem).resolve_left fun hcall => ?_
        rw [hprogram] at hcall
        cases hcall
  case synchronizes =>
    rintro t i hhead hi hholder
    obtain ⟨rest, hprogram⟩ := hcons hhead
    have hkeeps := h.keeps t
    rw [hprogram, decide_eq_true hholder] at hkeeps
    obtain rfl | ⟨sid, rfl⟩ := hi
    · exact Bool.noConfusion hkeeps.1
    · exact Bool.noConfusion hkeeps.1

end Threads

/-- In every run in which no stream is destroyed with the lock or with an event in it that is
waited for, the lock is used as it should be. -/
theorem lockSafe_of_reachable {r : Except StreamFailure Threads}
    (reached : ((threadSystem cfg).restrict
      (TransitionSystem.onOk fun s event => s.DestroysIdle cfg event)).Reachable r) :
    OkOr Threads.LockSafe (fun e => e = .nullStream) r := by
  have hlocked : OkOr Threads.Locked (fun e => e = .nullStream) r := by
    refine reached.invariant_ofExcept ?_ fun s event h hidle henabled => h.step event henabled hidle
    rintro _ rfl
    exact .init
  exact hlocked.imp fun _ h => h.lockSafe

/-- The simulation thread holds the lock and waits for the stream of the parent, which is empty. -/
theorem lockSafe_parentAndChild : ∃ s : Threads, (s.program .sim).head? = some (.awaitEmpty 1) ∧
    s.holder = some .sim ∧ s.LockSafe := by
  have hrun : ((TransitionSystem.execOk
      (fun s event => Threads.DestroysIdle twoKernels s event ∧ Threads.Enabled s event)
      (Threads.step twoKernels) {}
      (parentAndChild ++ .finish 2 :: .operation :: List.replicate 4 (.run .sim) ++
        .finish 1 :: .operation :: List.replicate 2 (.run .sim))).any fun s =>
          decide ((s.program .sim).head? = some (.awaitEmpty 1) ∧ s.holder = some .sim)) =
              true := by
    decide +kernel
  obtain ⟨s, hs, hfound⟩ := (Option.any_eq_true _ _).mp hrun
  obtain ⟨hhead, hholder⟩ := of_decide_eq_true hfound
  have hreached : ((threadSystem twoKernels).restrict
      (TransitionSystem.onOk fun s event => s.DestroysIdle twoKernels event)).Reachable (.ok s) :=
    .execOk_restrict _ (.init ⟨_, rfl, rfl⟩) hs
  exact ⟨s, hhead, hholder, (lockSafe_of_reachable hreached).of_ok rfl⟩

/-- A kernel that makes a stream and finishes after the host has pushed an event to wait for to
every stream. -/
def waitingStream : List Event :=
  .createStream :: List.replicate 3 (.run .host) ++
    .launch (some 1) :: List.replicate 3 (.run .host) ++
    .push (some 1) (.event 0) :: List.replicate 3 (.run .host) ++
    .operation :: List.replicate 4 (.run .sim) ++
    .createStreamCta 1 :: List.replicate 3 (.run .sim) ++
    .waitEvent 1 0 1 :: List.replicate 3 (.run .host) ++
    .waitEvent 2 0 1 :: List.replicate 3 (.run .host) ++
    .finish 1 :: .operation :: List.replicate 2 (.run .sim)

/-- `stop_all_running_kernels` retires a child with its parent, and the stream of the parent is
destroyed with the lock, and `destroy_stream` waits for an event that only the thread that waits
could have performed. -/
theorem not_lockSafe :
    (∃ s, (threadSystem twoKernels).Reachable (.ok s) ∧ (s.program .sim).head? = some .lock ∧
      s.holder = some .sim ∧ ¬ s.LockSafe) ∧
    ∃ s, (threadSystem twoKernels).Reachable (.ok s) ∧
      (s.program .sim).head? = some (.awaitEmpty 2) ∧
      s.holder = some .sim ∧ (s.manager.stream 2).operations ≠ [] ∧ ¬ s.LockSafe := by
  constructor
  · have hrun : ((TransitionSystem.execOk Threads.Enabled (Threads.step twoKernels) {}
        (parentAndChild ++ .finish 1 :: .finish 2 :: .hitMax :: .operation ::
          List.replicate 4 (.run .sim) ++ .stopAllRunningKernels :: List.replicate 3
            (.run .sim))).any
          fun s => decide ((s.program .sim).head? = some .lock ∧ s.holder = some .sim)) = true := by
      decide +kernel
    obtain ⟨s, hs, hfound⟩ := (Option.any_eq_true _ _).mp hrun
    obtain ⟨hhead, hholder⟩ := of_decide_eq_true hfound
    exact ⟨s, .execOk _ (.init ⟨_, rfl, rfl⟩) hs, hhead, hholder, fun h =>
      h.acquires .sim hhead hholder⟩
  · have hrun : ((TransitionSystem.execOk Threads.Enabled (Threads.step twoKernels)
      {} waitingStream).any
        fun s => decide ((s.program .sim).head? = some (.awaitEmpty 2) ∧ s.holder = some .sim ∧
          (s.manager.stream 2).operations ≠ [])) = true := by
      decide +kernel
    obtain ⟨s, hs, hfound⟩ := (Option.any_eq_true _ _).mp hrun
    obtain ⟨hhead, hholder, hsome⟩ := of_decide_eq_true hfound
    exact ⟨s, .execOk _ (.init ⟨_, rfl, rfl⟩) hs, hhead, hholder, hsome, fun h =>
      hsome (h.waits .sim 2 hhead hholder)⟩

end GpuCalorie.Streams
