/-
# Frames that track the threads of a warp

`Tracks` says that a sound stack of frames is where the threads are: every lane that is
not done is at the PC of its topmost frame, with the call stack of that frame. The lemmas
below are the moves a warp makes, each from threads and frames before to threads and
frames after: the top frame moves on, shares out its lanes, finishes, calls, or is
uncalled by a return.
-/

import GpuCalorie.Simt.Frames

namespace GpuCalorie.Simt

open GpuCalorie.Math

variable {prog : WarpProgram} {n : ℕ} {thread thread' : ℕ → Thread} {T P c e f g : Frame}
  {es s : List Frame} {i : ℕ} {p : UInt32} {cs : List UInt32}

/-- A thread is where a frame says. -/
def Frame.At (f : Frame) (t : Thread) : Prop :=
  t.pc = f.entry.pc ∧ t.callstack = f.callstack

/-- The topmost frame of a lane. -/
def topFrame (frames : List Frame) (i : ℕ) : Option Frame :=
  frames.find? fun f => i ∈ f.mask

/-- A sound stack of frames that is where the threads are. -/
structure Tracks (prog : WarpProgram) (n : ℕ) (thread : ℕ → Thread) (frames : List Frame) :
    Prop where
  sound : Sound prog (liveThreads n thread) frames
  located : ∀ i ∈ liveThreads n thread, ∃ f, topFrame frames i = some f ∧ f.At (thread i)
  inhabited : (liveThreads n thread).Nonempty →
    ∀ f ∈ frames, ∃ i ∈ f.mask, i ∈ liveThreads n thread
  bounded : ∀ f ∈ frames, f.mask ⊆ Finset.range n

/-- Only the threads of a mask moved, and none came back to life. -/
structure Moved (n : ℕ) (mask : Finset ℕ) (thread thread' : ℕ → Thread) : Prop where
  other : ∀ i ∉ mask, thread' i = thread i
  live : liveThreads n thread' ⊆ liveThreads n thread

theorem mem_liveThreads : i ∈ liveThreads n thread ↔ i < n ∧ (thread i).done = false := by
  simp [liveThreads]

theorem Moved.mem_live_iff {mask : Finset ℕ} (h : Moved n mask thread thread') (hi : i ∉ mask) :
    i ∈ liveThreads n thread' ↔ i ∈ liveThreads n thread := by
  rw [mem_liveThreads, mem_liveThreads, h.other i hi]

/-! ## Topmost frames -/

@[simp]
theorem topFrame_cons_of_mem (hi : i ∈ f.mask) : topFrame (f :: s) i = some f := by
  simp [topFrame, hi]

@[simp]
theorem topFrame_cons_of_notMem (hi : i ∉ f.mask) : topFrame (f :: s) i = topFrame s i := by
  simp [topFrame, hi]

theorem topFrame_append_of_notMem (hi : ∀ e ∈ es, i ∉ e.mask) :
    topFrame (es ++ s) i = topFrame s i := by
  induction es with
  | nil => rfl
  | cons e es ih =>
      rw [List.cons_append, topFrame_cons_of_notMem (hi e List.mem_cons_self),
        ih fun e' he' => hi e' (List.mem_cons_of_mem _ he')]

theorem topFrame_append_of_mem (hdisjoint : es.Pairwise fun e e' => Disjoint e.mask e'.mask)
    (he : e ∈ es) (hi : i ∈ e.mask) : topFrame (es ++ s) i = some e := by
  induction es with
  | nil => exact absurd he List.not_mem_nil
  | cons e' es ih =>
      obtain ⟨hfirst, hrest⟩ := List.pairwise_cons.mp hdisjoint
      rw [List.cons_append]
      rcases List.mem_cons.mp he with rfl | hmem
      · exact topFrame_cons_of_mem hi
      · have hnot : i ∉ e'.mask := fun hi' =>
          Finset.disjoint_left.mp (hfirst e hmem) hi' hi
        rw [topFrame_cons_of_notMem hnot, ih hrest hmem]

theorem mem_of_topFrame (h : topFrame s i = some f) : f ∈ s ∧ i ∈ f.mask :=
  ⟨List.mem_of_find?_eq_some h, by simpa using List.find?_some h⟩

theorem topmost_map_entry : topmost (s.map Frame.entry) i = (topFrame s i).map Frame.entry := by
  rw [topmost, topFrame, List.find?_map]
  rfl

/-! ## Replacing the top frame -/

theorem Tracks.replace (new : List Frame) (h : Tracks prog n thread (T :: s))
    (hm : Moved n T.mask thread thread') (hmask : ∀ e ∈ new, e.mask ⊆ T.mask)
    (hsound : Sound prog (liveThreads n thread') (new ++ s))
    (hlocated : ∀ i ∈ liveThreads n thread', i ∈ T.mask →
      ∃ f, topFrame (new ++ s) i = some f ∧ f.At (thread' i))
    (hnew : ∀ e ∈ new, ∃ i ∈ e.mask, i ∈ liveThreads n thread')
    (hrest : (liveThreads n thread').Nonempty → ∀ f ∈ s, T.mask ⊆ f.mask →
      ∃ i ∈ f.mask, i ∈ liveThreads n thread') :
    Tracks prog n thread' (new ++ s) where
  sound := hsound
  located i hi := by
    by_cases hT : i ∈ T.mask
    · exact hlocated i hi hT
    · obtain ⟨f, hf, hat⟩ := h.located i (hm.live hi)
      rw [topFrame_cons_of_notMem hT] at hf
      rw [topFrame_append_of_notMem fun e he hie => hT (hmask e he hie), hm.other i hT]
      exact ⟨f, hf, hat⟩
  inhabited hlive f hf := by
    rcases List.mem_append.mp hf with hf | hf
    · exact hnew f hf
    · rcases h.sound.laminar f hf with hsub | hdisjoint
      · exact hrest hlive f hf hsub
      · obtain ⟨i, hi, hil⟩ :=
          h.inhabited (hlive.mono hm.live) f (List.mem_cons_of_mem _ hf)
        exact ⟨i, hi, (hm.mem_live_iff (Finset.disjoint_right.mp hdisjoint hi)).mpr hil⟩
  bounded f hf := by
    rcases List.mem_append.mp hf with hf | hf
    · exact (hmask f hf).trans (h.bounded T List.mem_cons_self)
    · exact h.bounded f (List.mem_cons_of_mem _ hf)

/-- The frame of the lanes that are left of `f`, at another PC. -/
def Frame.advance (f : Frame) (p : UInt32) (mask : Finset ℕ) (cs : List UInt32) : Frame where
  entry := { f.entry with pc := p, activeMask := mask }
  kind := f.kind
  callstack := cs

theorem Sound.advance {live live' mask : Finset ℕ} (h : Sound prog live (T :: s))
    (hsub : live' ⊆ live) (hmask : mask ⊆ T.mask) (hlive : ∀ i ∈ live', i ∈ T.mask → i ∈ mask)
    (hkind : T.kind = .base ∨ (T.kind = .calling ∧ cs = T.callstack)) :
    Sound prog live' (T.advance p mask cs :: s) := by
  cases h.under with
  | launched kind type recvgPc hall =>
      exact .launched kind type recvgPc fun i hi => hlive i hi (hall (hsub hi))
  | baseCall below caller kind type recvgPc hT hall =>
      exact .baseCall (below.mono hsub) caller kind type recvgPc (hmask.trans hT)
        fun i hi => hlive i hi (hall (hsub hi))
  | call below caller kind type recvgPc hT hTlive callstack nonempty meets =>
      have hcs : cs = T.callstack := by
        rcases hkind with hbase | ⟨-, hcs⟩
        · simp [kind] at hbase
        · exact hcs
      exact .call (below.mono hsub) caller kind type recvgPc (hmask.trans hT)
        (fun i hi hig => hlive i hi (hTlive i (hsub hi) hig)) (hcs.trans callstack) nonempty meets
  | returning _ _ _ kind => rcases hkind with hbase | ⟨hcall, -⟩ <;> simp_all
  | reconverging _ _ kind => rcases hkind with hbase | ⟨hcall, -⟩ <;> simp_all

theorem Tracks.advance (h : Tracks prog n thread (T :: s)) (hm : Moved n T.mask thread thread')
    (hkind : T.kind = .base ∨ (T.kind = .calling ∧ cs = T.callstack))
    (hat : ∀ i ∈ liveThreads n thread', i ∈ T.mask →
      (thread' i).pc = p ∧ (thread' i).callstack = cs)
    (hsome : ∃ i ∈ T.mask, i ∈ liveThreads n thread') {mask : Finset ℕ} (hmask : mask ⊆ T.mask)
    (hlive : ∀ i ∈ liveThreads n thread', i ∈ T.mask → i ∈ mask) :
    Tracks prog n thread' (T.advance p mask cs :: s) := by
  obtain ⟨j, hj, hjl⟩ := hsome
  have hnew : ∀ e ∈ [T.advance p mask cs], e.mask ⊆ T.mask := by
    intro e he
    rw [List.mem_singleton.mp he]
    exact hmask
  refine h.replace [T.advance p mask cs] hm hnew
    (h.sound.advance hm.live hmask hlive hkind) ?_ ?_ fun _ f _ hsub => ⟨j, hsub hj, hjl⟩
  · intro i hi hiT
    refine ⟨T.advance p mask cs, topFrame_cons_of_mem (hlive i hi hiT), hat i hi hiT⟩
  · intro e he
    rw [List.mem_singleton.mp he]
    exact ⟨j, hlive j hjl hj, hjl⟩

/-! ## Members of a divergence -/

theorem Sound.regroup {live live' : Finset ℕ} (es : List Frame) (h : Sound prog live (T :: s))
    (hsub : live' ⊆ live) (hkind : T.kind = .returning ∨ T.kind = .reconverging)
    (htype : ∀ e ∈ es, e.entry.type = .normal)
    (hrecvg : ∀ e ∈ es, e.entry.recvgPc = T.entry.recvgPc) (hmask : ∀ e ∈ es, e.mask ⊆ T.mask)
    (hdisjoint : es.Pairwise fun e e' => Disjoint e.mask e'.mask)
    (hes : ∀ e ∈ es, e.kind = T.kind ∧ e.callstack = T.callstack)
    (hmeets : T.kind = .reconverging → ∀ e ∈ es, prog.Meets T.entry.recvgPc e.entry.pc) :
    Sound prog live' (es ++ s) := by
  cases h.under with
  | launched kind => simp [kind] at hkind
  | baseCall _ _ kind => simp [kind] at hkind
  | call _ _ kind => simp [kind] at hkind
  | @returning P old s' below parent siblings kind callstack =>
      by_cases hne : es ++ old = []
      · obtain ⟨rfl, rfl⟩ := List.append_eq_nil_iff.mp hne
        exact below.mono hsub
      · rw [← List.append_assoc]
        refine .returning (below.mono hsub) parent
          (siblings.replace es hne htype hrecvg hmask hdisjoint) ?_ ?_
        · intro e he
          rcases List.mem_append.mp he with hnew | hold
          · exact (hes e hnew).1.trans (kind T List.mem_cons_self)
          · exact kind e (List.mem_cons_of_mem _ hold)
        · intro e he
          rcases List.mem_append.mp he with hnew | hold
          · rw [(hes e hnew).2]
            exact callstack T List.mem_cons_self
          · exact callstack e (List.mem_cons_of_mem _ hold)
  | @reconverging P old s' below siblings kind callstack meets =>
      by_cases hne : es ++ old = []
      · obtain ⟨rfl, rfl⟩ := List.append_eq_nil_iff.mp hne
        exact below.mono hsub
      · rw [← List.append_assoc]
        refine .reconverging (below.mono hsub)
          (siblings.replace es hne htype hrecvg hmask hdisjoint) ?_ ?_ ?_
        · intro e he
          rcases List.mem_append.mp he with hnew | hold
          · exact (hes e hnew).1.trans (kind T List.mem_cons_self)
          · exact kind e (List.mem_cons_of_mem _ hold)
        · intro e he
          rcases List.mem_append.mp he with hnew | hold
          · exact (hes e hnew).2.trans (callstack T List.mem_cons_self)
          · exact callstack e (List.mem_cons_of_mem _ hold)
        · intro e he
          rcases List.mem_append.mp he with hnew | hold
          · rw [← siblings.recvgPc T List.mem_cons_self]
            exact hmeets (kind T List.mem_cons_self) e hnew
          · exact meets e (List.mem_cons_of_mem _ hold)

/-- A frame with another call stack for the lanes that wait there. -/
def Frame.withCallstack (f : Frame) (cs : List UInt32) : Frame :=
  { f with callstack := cs }

theorem Sound.rebase {live : Finset ℕ} (below : Sound prog live (P :: s)) (parent : P.kind = .base)
    (cs : List UInt32) : Sound prog live (P.withCallstack cs :: s) := by
  cases below.under with
  | launched kind type recvgPc hlive => exact .launched kind type recvgPc hlive
  | baseCall lower caller kind type recvgPc hmask hlive =>
      exact .baseCall lower caller kind type recvgPc hmask hlive
  | call _ _ kind => simp [parent] at kind
  | returning _ _ _ kind => simp [parent] at kind
  | reconverging _ _ kind => simp [parent] at kind

/-- Where a lane leaves the members of a divergence and joins the frame below them: the
frame under the top one, or its parent. The lanes that join have the call stack `cs`, and
so have the lanes that wait there already. -/
def Joins (n : ℕ) (thread : ℕ → Thread) (T : Frame) (s : List Frame) (cs : List UInt32) : Prop :=
  T.kind = .returning → ∀ i ∈ T.mask, ∀ k ∈ liveThreads n thread, k ∉ T.mask →
    topFrame s k = topFrame s i → (thread k).callstack = cs

theorem Siblings.withCallstack (h : Siblings P es) (cs : List UInt32) :
    Siblings (P.withCallstack cs) es :=
  ⟨h.nonempty, h.type, h.recvgPc, h.mask, h.disjoint, h.parentPc, h.parentRecvgPc⟩

theorem Siblings.topFrame_parent (h : Siblings P (T :: es)) (hi : i ∈ T.mask) :
    topFrame (es ++ P :: s) i = some P := by
  have hnot : ∀ e ∈ es, i ∉ e.mask := fun e he hie =>
    Finset.disjoint_left.mp ((List.pairwise_cons.mp h.disjoint).1 e he) hi hie
  rw [topFrame_append_of_notMem hnot, topFrame_cons_of_mem (h.mask T List.mem_cons_self hi)]

theorem Tracks.rebase (h : Tracks prog n thread (es ++ P :: s))
    (hsound : Sound prog (liveThreads n thread) (es ++ P.withCallstack cs :: s))
    (hwait : ∀ k ∈ liveThreads n thread, (∀ e ∈ es, k ∉ e.mask) → k ∈ P.mask →
      (thread k).callstack = cs) : Tracks prog n thread (es ++ P.withCallstack cs :: s) where
  sound := hsound
  located k hk := by
    obtain ⟨f, hf, hat⟩ := h.located k hk
    by_cases hes : ∀ e ∈ es, k ∉ e.mask
    · rw [topFrame_append_of_notMem hes] at hf ⊢
      by_cases hP : k ∈ P.mask
      · rw [topFrame_cons_of_mem hP, Option.some.injEq] at hf
        subst hf
        exact ⟨P.withCallstack cs, topFrame_cons_of_mem hP, hat.1, hwait k hk hes hP⟩
      · rw [topFrame_cons_of_notMem hP] at hf
        exact ⟨f, (topFrame_cons_of_notMem (f := P.withCallstack cs) hP).trans hf, hat⟩
    · -- a lane above is found before the waiting frame is reached
      have hsome : (topFrame es k).isSome := by
        push Not at hes
        obtain ⟨e, he, hke⟩ := hes
        exact List.find?_isSome.mpr ⟨e, he, by simpa using hke⟩
      obtain ⟨f', hf'⟩ := Option.isSome_iff_exists.mp hsome
      have hfind : ∀ rest, topFrame (es ++ rest) k = some f' := fun rest => by
        rw [topFrame, List.find?_append, ← topFrame, hf']
        rfl
      rw [hfind, Option.some.injEq] at hf
      exact ⟨f', hfind _, hf ▸ hat⟩
  inhabited hlive f hf := by
    rcases List.mem_append.mp hf with hf | hf
    · exact h.inhabited hlive f (List.mem_append_left _ hf)
    · rcases List.mem_cons.mp hf with rfl | hf
      · exact h.inhabited hlive P (List.mem_append_right _ List.mem_cons_self)
      · exact h.inhabited hlive f (List.mem_append_right _ (List.mem_cons_of_mem _ hf))
  bounded f hf := by
    rcases List.mem_append.mp hf with hf | hf
    · exact h.bounded f (List.mem_append_left _ hf)
    · rcases List.mem_cons.mp hf with rfl | hf
      · exact h.bounded P (List.mem_append_right _ List.mem_cons_self)
      · exact h.bounded f (List.mem_append_right _ (List.mem_cons_of_mem _ hf))

theorem Tracks.exists_parent (h : Tracks prog n thread (T :: s))
    (hkind : T.kind = .returning ∨ T.kind = .reconverging) (hjoin : Joins n thread T s cs)
    (hcs : T.kind = .reconverging → cs = T.callstack) :
    ∃ s', s'.map Frame.entry = s.map Frame.entry ∧ Tracks prog n thread (T :: s') ∧
      ∀ i ∈ T.mask, ∃ P, topFrame s' i = some P ∧ P.entry.pc = T.entry.recvgPc ∧
        P.callstack = cs := by
  cases h.sound.under with
  | launched kind => simp [kind] at hkind
  | baseCall _ _ kind => simp [kind] at hkind
  | call _ _ kind => simp [kind] at hkind
  | @returning P es s' below parent siblings kind callstack =>
      have hrecvg := siblings.recvgPc T List.mem_cons_self
      refine ⟨es ++ P.withCallstack cs :: s', by simp [Frame.withCallstack], ?_, ?_⟩
      · rw [← List.cons_append] at h ⊢
        refine h.rebase (.returning (below.rebase parent cs) parent (siblings.withCallstack cs)
          kind callstack) fun k hk hnot hP => ?_
        have hkT : k ∉ T.mask := hnot T List.mem_cons_self
        obtain ⟨i, hi, -⟩ := h.inhabited ⟨k, hk⟩ T List.mem_cons_self
        refine hjoin (kind T List.mem_cons_self) i hi k hk hkT ?_
        rw [siblings.topFrame_parent hi, topFrame_append_of_notMem
          fun e he => hnot e (List.mem_cons_of_mem _ he), topFrame_cons_of_mem hP]
      · intro i hi
        exact ⟨_, (siblings.withCallstack cs).topFrame_parent hi, hrecvg.symm, rfl⟩
  | @reconverging P es s' below siblings kind callstack meets =>
      refine ⟨es ++ P :: s', rfl, h, fun i hi => ⟨P, siblings.topFrame_parent hi, ?_, ?_⟩⟩
      · exact (siblings.recvgPc T List.mem_cons_self).symm
      · rw [hcs (kind T List.mem_cons_self)]
        exact (callstack T List.mem_cons_self).symm

theorem Tracks.exists_joins (h : Tracks prog n thread (T :: s)) :
    ∃ cs, Joins n thread T s cs ∧ (T.kind = .reconverging → cs = T.callstack) := by
  have hother : T.kind ≠ .returning →
      ∃ cs, Joins n thread T s cs ∧ (T.kind = .reconverging → cs = T.callstack) :=
    fun hne => ⟨T.callstack, fun hkind => absurd hkind hne, fun _ => rfl⟩
  cases h.sound.under with
  | launched kind => exact hother (by simp [kind])
  | baseCall _ _ kind => exact hother (by simp [kind])
  | call _ _ kind => exact hother (by simp [kind])
  | @returning P es s' below parent siblings kind callstack =>
      refine ⟨P.callstack, fun _ i hi k hk hkT htop => ?_, fun hrec => ?_⟩
      · obtain ⟨f, hf, hat⟩ := h.located k hk
        rw [topFrame_cons_of_notMem hkT, htop, siblings.topFrame_parent hi,
          Option.some.injEq] at hf
        exact hf ▸ hat.2
      · rw [kind T List.mem_cons_self] at hrec
        cases hrec
  | reconverging _ _ kind => exact hother (by simp [kind T List.mem_cons_self])

theorem Tracks.regroup (es : List Frame) (h : Tracks prog n thread (T :: s))
    (hm : Moved n T.mask thread thread')
    (hkind : T.kind = .returning ∨ T.kind = .reconverging)
    (htype : ∀ e ∈ es, e.entry.type = .normal)
    (hrecvg : ∀ e ∈ es, e.entry.recvgPc = T.entry.recvgPc) (hmask : ∀ e ∈ es, e.mask ⊆ T.mask)
    (hdisjoint : es.Pairwise fun e e' => Disjoint e.mask e'.mask)
    (hes : ∀ e ∈ es, e.kind = T.kind ∧ e.callstack = T.callstack)
    (hmeets : T.kind = .reconverging → ∀ e ∈ es, prog.Meets T.entry.recvgPc e.entry.pc)
    (hat : ∀ i ∈ liveThreads n thread', i ∈ T.mask →
      (∃ e ∈ es, i ∈ e.mask ∧ e.At (thread' i)) ∨
        ((∀ e ∈ es, i ∉ e.mask) ∧ (thread' i).pc = T.entry.recvgPc ∧ (thread' i).callstack = cs))
    (hlive : ∀ e ∈ es, ∃ i ∈ e.mask, i ∈ liveThreads n thread')
    (hsome : ∃ i ∈ T.mask, i ∈ liveThreads n thread') (hjoin : Joins n thread T s cs)
    (hcs : T.kind = .reconverging → cs = T.callstack) :
    ∃ s', s'.map Frame.entry = s.map Frame.entry ∧ Tracks prog n thread' (es ++ s') := by
  obtain ⟨s', hmap, htracks, hparent⟩ := h.exists_parent hkind hjoin hcs
  obtain ⟨j, hj, hjl⟩ := hsome
  refine ⟨s', hmap, htracks.replace es hm hmask
    (htracks.sound.regroup es hm.live hkind htype hrecvg hmask hdisjoint hes hmeets) ?_ hlive
    fun _ f _ hsub => ⟨j, hsub hj, hjl⟩⟩
  intro i hi hiT
  rcases hat i hi hiT with ⟨e, he, hie, hate⟩ | ⟨hnot, hpc, hcallstack⟩
  · exact ⟨e, topFrame_append_of_mem hdisjoint he hie, hate⟩
  · obtain ⟨P, hP, hPpc, hPcs⟩ := hparent i hiT
    exact ⟨P, (topFrame_append_of_notMem hnot).trans hP, hpc.trans hPpc.symm,
      hcallstack.trans hPcs.symm⟩

/-! ## Finishing, calling and returning -/

theorem Sound.base_below {live : Finset ℕ} (h : Sound prog live (P :: s)) (hkind : P.kind = .base) :
    ∀ f ∈ P :: s, live ⊆ f.mask ∧ f.entry.recvgPc = nullPc := by
  induction s generalizing P with
  | nil =>
      intro f hf
      rw [List.mem_singleton.mp hf]
      exact h.of_base hkind
  | cons g s ih =>
      intro f hf
      rcases List.mem_cons.mp hf with rfl | hf
      · exact h.of_base hkind
      · have hg : g.kind = .base := by
          generalize hrest : g :: s = rest at h
          cases h.under with
          | launched => cases hrest
          | baseCall _ caller => exact (List.cons.inj hrest).1 ▸ caller
          | call _ _ kind => simp [hkind] at kind
          | returning _ _ _ kind => simp [hkind] at kind
          | reconverging _ _ kind => simp [hkind] at kind
        exact ih (h.pop (List.cons_ne_nil g s)) hg f hf

theorem Tracks.finish (h : Tracks prog n thread (T :: s)) (hm : Moved n T.mask thread thread')
    (hnone : ∀ i ∈ T.mask, i ∉ liveThreads n thread')
    (hkind : T.kind = .returning ∨ liveThreads n thread' = ∅) :
    (s = [] ∧ liveThreads n thread' = ∅) ∨ Tracks prog n thread' s := by
  by_cases hs : s = []
  · refine .inl ⟨hs, ?_⟩
    subst hs
    rcases hkind with hkind | hempty
    · generalize hnil : ([] : List Frame) = rest at h
      cases h.sound.under with
      | launched kind => simp [kind] at hkind
      | baseCall => cases hnil
      | call => cases hnil
      | returning => simp at hnil
      | reconverging => simp at hnil
    · exact hempty
  · refine .inr (h.replace [] hm (by simp) ((h.sound.pop hs).mono hm.live) ?_ (by simp) ?_)
    · exact fun i hi hiT => absurd hi (hnone i hiT)
    · intro hlive f hf hsub
      rcases hkind with hkind | hempty
      · obtain ⟨j, hj, -⟩ := h.inhabited (hlive.mono hm.live) T List.mem_cons_self
        obtain ⟨k, hk⟩ := hlive
        cases h.sound.under with
        | launched kind => simp [kind] at hkind
        | baseCall _ _ kind => simp [kind] at hkind
        | call _ _ kind => simp [kind] at hkind
        | returning below parent siblings =>
            rcases List.mem_append.mp hf with hes | hs
            · exact absurd (hsub hj) (Finset.disjoint_left.mp
                ((List.pairwise_cons.mp siblings.disjoint).1 f hes) hj)
            · exact ⟨k, (below.base_below parent f hs).1 (hm.live hk), hk⟩
        | reconverging _ _ kind => simp [hkind] at kind
      · exact absurd (hempty ▸ hlive) Finset.not_nonempty_empty

theorem Tracks.call (h : Tracks prog n thread (T :: s)) (hm : Moved n T.mask thread thread')
    (c : Frame) (htype : c.entry.type = .call) (hrecvg : c.entry.recvgPc = nullPc)
    (hmask : c.mask = T.mask) (hat : ∀ i ∈ liveThreads n thread', i ∈ T.mask → c.At (thread' i))
    (hsome : ∃ i ∈ T.mask, i ∈ liveThreads n thread')
    (hkind : (T.kind = .base ∧ c.kind = .base) ∨ (T.kind ≠ .base ∧ c.kind = .calling ∧
      c.callstack = prog.fallThrough T.entry.pc :: T.callstack ∧ T.callstack ≠ [] ∧
      (T.kind = .reconverging → T.entry.recvgPc = prog.fallThrough T.entry.pc ∨
        prog.Meets T.entry.recvgPc (prog.fallThrough T.entry.pc)))) :
    Tracks prog n thread' (c :: T :: s) := by
  obtain ⟨j, hj, hjl⟩ := hsome
  have hsound : Sound prog (liveThreads n thread') (c :: T :: s) := by
    have hbelow := h.sound.mono hm.live
    rcases hkind with ⟨hT, hc⟩ | ⟨hT, hc, hcs, hnil, hmeets⟩
    · exact .baseCall hbelow hT hc htype hrecvg hmask.subset
        (hmask ▸ (hbelow.of_base hT).1)
    · exact .call hbelow hT hc htype hrecvg hmask.subset (fun i _ hi => hmask ▸ hi) hcs hnil hmeets
  refine h.replace [c, T] hm ?_ hsound ?_ ?_ fun _ f _ hsub => ⟨j, hsub hj, hjl⟩
  · intro e he
    rcases List.mem_pair.mp he with rfl | rfl
    · exact hmask.subset
    · exact subset_rfl
  · intro i hi hiT
    exact ⟨c, topFrame_cons_of_mem (hmask ▸ hiT), hat i hi hiT⟩
  · intro e he
    rcases List.mem_pair.mp he with rfl | rfl
    · exact ⟨j, hmask ▸ hj, hjl⟩
    · exact ⟨j, hj, hjl⟩

/-- The threads of a call, put back to where its caller waits. -/
def uncalled (c g : Frame) (thread : ℕ → Thread) (i : ℕ) : Thread :=
  if i ∈ c.mask then { thread i with pc := g.entry.pc, callstack := g.callstack } else thread i

theorem Tracks.uncall (h : Tracks prog n thread (c :: g :: s)) (htype : c.entry.type = .call) :
    Tracks prog n (uncalled c g thread) (g :: s) ∧
      liveThreads n (uncalled c g thread) = liveThreads n thread ∧
      (∀ i ∈ liveThreads n thread, i ∈ g.mask → i ∈ c.mask) ∧ c.mask ⊆ g.mask := by
  have hlive : liveThreads n (uncalled c g thread) = liveThreads n thread := by
    ext i
    rw [mem_liveThreads, mem_liveThreads, uncalled]
    by_cases hi : i ∈ c.mask <;> simp [hi]
  have hm : Moved n c.mask thread (uncalled c g thread) :=
    ⟨fun i hi => by simp [uncalled, hi], hlive.subset⟩
  have hnested : (∀ i ∈ liveThreads n thread, i ∈ g.mask → i ∈ c.mask) ∧ c.mask ⊆ g.mask := by
    generalize hrest : g :: s = rest at h
    cases h.sound.under with
    | launched => cases hrest
    | baseCall below _ _ _ _ hmask hall =>
        obtain ⟨rfl, rfl⟩ := List.cons.inj hrest
        exact ⟨fun i hi _ => hall hi, hmask⟩
    | call below _ _ _ _ hmask hall =>
        obtain ⟨rfl, rfl⟩ := List.cons.inj hrest
        exact ⟨hall, hmask⟩
    | returning _ _ siblings => simp [siblings.type c List.mem_cons_self] at htype
    | reconverging _ siblings => simp [siblings.type c List.mem_cons_self] at htype
  refine ⟨?_, hlive, hnested⟩
  refine h.replace [] hm (by simp) ?_ ?_ (by simp) ?_
  · rw [hlive]
    exact h.sound.pop (List.cons_ne_nil g s)
  · intro i hi hic
    refine ⟨g, topFrame_cons_of_mem (hnested.2 hic), ?_⟩
    simp [Frame.At, uncalled, hic]
  · intro hne f hf hsub
    rw [hlive] at hne ⊢
    obtain ⟨i, hi, hil⟩ := h.inhabited hne c List.mem_cons_self
    exact ⟨i, hsub hi, hil⟩

/-! ## Divergence -/

theorem Tracks.diverge (es : List Frame) (r : UInt32) (h : Tracks prog n thread (T :: s))
    (hm : Moved n T.mask thread thread') (hlive : liveThreads n thread' = liveThreads n thread)
    (hr : r ≠ nullPc) (hrT : T.entry.recvgPc ≠ r)
    (hTmeets : T.kind = .reconverging → prog.Meets T.entry.recvgPc r)
    (htype : ∀ e ∈ es, e.entry.type = .normal) (hrecvg : ∀ e ∈ es, e.entry.recvgPc = r)
    (hmask : ∀ e ∈ es, e.mask ⊆ T.mask) (hne : es ≠ [])
    (hdisjoint : es.Pairwise fun e e' => Disjoint e.mask e'.mask)
    (hes : ∀ e ∈ es, e.callstack = T.callstack)
    (hkind : (T.kind = .base ∧ T.callstack.headD 0 = r ∧ ∀ e ∈ es, e.kind = .returning) ∨
      ∀ e ∈ es, e.kind = .reconverging ∧ prog.Meets r e.entry.pc)
    (hat : ∀ i ∈ liveThreads n thread', i ∈ T.mask →
      (∃ e ∈ es, i ∈ e.mask ∧ e.At (thread' i)) ∨
        ((∀ e ∈ es, i ∉ e.mask) ∧ (thread' i).pc = r ∧ (thread' i).callstack = T.callstack))
    (hnew : ∀ e ∈ es, ∃ i ∈ e.mask, i ∈ liveThreads n thread')
    (hsome : ∃ i ∈ T.mask, i ∈ liveThreads n thread') :
    Tracks prog n thread' (es ++ T.advance r T.mask T.callstack :: s) := by
  obtain ⟨j, hj, hjl⟩ := hsome
  have hwait : Sound prog (liveThreads n thread') (T.advance r T.mask T.callstack :: s) := by
    rcases h.sound.base_or_calling_or_member with hT | ⟨hT, htypeT⟩
    · exact h.sound.advance hlive.subset subset_rfl (fun i _ hi => hi)
        (hT.imp_right fun hcall => ⟨hcall, rfl⟩)
    · exact h.sound.regroup [T.advance r T.mask T.callstack] hlive.subset hT
        (by simpa [Frame.advance] using htypeT) (by simp [Frame.advance])
        (by simp [Frame.advance]) (List.pairwise_singleton _ _) (by simp [Frame.advance])
        (by simpa [Frame.advance] using hTmeets)
  have hsiblings : Siblings (T.advance r T.mask T.callstack) es :=
    ⟨hne, htype, hrecvg, hmask, hdisjoint, hr, hrT⟩
  have hsound : Sound prog (liveThreads n thread') (es ++ T.advance r T.mask T.callstack :: s) := by
    rcases hkind with ⟨hbase, hhead, hret⟩ | hrec
    · refine .returning hwait hbase hsiblings hret fun e he => ?_
      rw [hes e he]
      exact hhead
    · exact .reconverging hwait hsiblings (fun e he => (hrec e he).1) hes
        fun e he => (hrec e he).2
  rw [List.append_cons] at hsound ⊢
  refine h.replace (es ++ [T.advance r T.mask T.callstack]) hm ?_ hsound ?_ ?_
    fun _ f _ hsub => ⟨j, hsub hj, hjl⟩
  · intro e he
    rcases List.mem_append.mp he with he | he
    · exact hmask e he
    · rw [List.mem_singleton.mp he]
      exact subset_rfl
  · intro i hi hiT
    rw [← List.append_cons]
    rcases hat i hi hiT with ⟨e, he, hie, hate⟩ | ⟨hnot, hpc, hcs⟩
    · exact ⟨e, topFrame_append_of_mem hdisjoint he hie, hate⟩
    · exact ⟨_, (topFrame_append_of_notMem hnot).trans (topFrame_cons_of_mem hiT), hpc, hcs⟩
  · intro e he
    rcases List.mem_append.mp he with he | he
    · exact hnew e he
    · rw [List.mem_singleton.mp he]
      exact ⟨j, hj, hjl⟩

end GpuCalorie.Simt
