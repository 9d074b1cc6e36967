/-
# Frames: what the entries of a SIMT stack stand for

An entry of the stack does not say why it is there, so the soundness of the stack is
proved of frames: entries with their purpose and the call stack of the lanes they stand
for. Four kinds occur. A `base` frame has every lane of the warp that is not done and no
divergence below it: the entry of the kernel, and calls made from there. A `calling` frame
is a call made under a divergence; the frame below it waits for it to return. A
`reconverging` frame runs to the immediate post-dominator of a branch, where its parent
waits, and a `returning` frame runs to the return PC of its function.

`Sound` describes the stacks these frames build, one constructor for each way a frame
is pushed, and `Tracks` relates them to the threads.
-/

import GpuCalorie.Simt.Warp

namespace GpuCalorie.Simt

open GpuCalorie.Math

/-- Why an entry is on the stack. -/
inductive FrameKind
  | base
  | calling
  | returning
  | reconverging
  deriving DecidableEq, Repr

/-- An entry, its purpose, and the call stack of the lanes it stands for. -/
structure Frame where
  entry : SimtStackEntry
  kind : FrameKind
  callstack : List UInt32

/-- The lanes of a frame. -/
abbrev Frame.mask (f : Frame) : Finset ℕ :=
  f.entry.activeMask

/-- Every path from `pc` to the end of its function leads to `r` after `pc`. -/
def WarpProgram.Meets (prog : WarpProgram) (r pc : UInt32) : Prop :=
  StrictlyPostdominates (flow prog.instruction) none (some r) (some pc)

/-- The PC behind the instruction of a frame. -/
def WarpProgram.fallThrough (prog : WarpProgram) (pc : UInt32) : UInt32 :=
  pc + (prog.instruction pc).isize

/-- Frames of one divergence, over the frame `P` that waits at their reconvergence PC. -/
structure Siblings (P : Frame) (es : List Frame) : Prop where
  nonempty : es ≠ []
  type : ∀ e ∈ es, e.entry.type = .normal
  recvgPc : ∀ e ∈ es, e.entry.recvgPc = P.entry.pc
  mask : ∀ e ∈ es, e.mask ⊆ P.mask
  disjoint : es.Pairwise fun e e' => Disjoint e.mask e'.mask
  parentPc : P.entry.pc ≠ nullPc
  parentRecvgPc : P.entry.recvgPc ≠ P.entry.pc

/-- The stacks of frames, for the lanes that are not done. -/
inductive Sound (prog : WarpProgram) (live : Finset ℕ) : List Frame → Prop
  /-- The entry of the kernel. -/
  | launched {b : Frame} (kind : b.kind = .base) (type : b.entry.type = .normal)
      (recvgPc : b.entry.recvgPc = nullPc) (hlive : live ⊆ b.mask) : Sound prog live [b]
  /-- A call while no divergence is pending. -/
  | baseCall {c g : Frame} {s : List Frame} (below : Sound prog live (g :: s))
      (caller : g.kind = .base) (kind : c.kind = .base) (type : c.entry.type = .call)
      (recvgPc : c.entry.recvgPc = nullPc) (mask : c.mask ⊆ g.mask) (hlive : live ⊆ c.mask) :
      Sound prog live (c :: g :: s)
  /-- A call under a divergence: it returns behind the call, which still leads to where
  the caller reconverges. -/
  | call {c g : Frame} {s : List Frame} (below : Sound prog live (g :: s))
      (caller : g.kind ≠ .base) (kind : c.kind = .calling) (type : c.entry.type = .call)
      (recvgPc : c.entry.recvgPc = nullPc) (mask : c.mask ⊆ g.mask)
      (hlive : ∀ i ∈ live, i ∈ g.mask → i ∈ c.mask)
      (callstack : c.callstack = prog.fallThrough g.entry.pc :: g.callstack)
      (nonempty : g.callstack ≠ [])
      (meets : g.kind = .reconverging → g.entry.recvgPc = prog.fallThrough g.entry.pc ∨
        prog.Meets g.entry.recvgPc (prog.fallThrough g.entry.pc)) :
      Sound prog live (c :: g :: s)
  /-- A divergence that ends at the return PC, with no other one pending. -/
  | returning {P : Frame} {es s : List Frame} (below : Sound prog live (P :: s))
      (parent : P.kind = .base) (siblings : Siblings P es)
      (kind : ∀ e ∈ es, e.kind = .returning)
      (callstack : ∀ e ∈ es, e.callstack.headD 0 = P.entry.pc) : Sound prog live (es ++ P :: s)
  /-- A divergence that ends at a post-dominator. -/
  | reconverging {P : Frame} {es s : List Frame} (below : Sound prog live (P :: s))
      (siblings : Siblings P es) (kind : ∀ e ∈ es, e.kind = .reconverging)
      (callstack : ∀ e ∈ es, e.callstack = P.callstack)
      (meets : ∀ e ∈ es, prog.Meets P.entry.pc e.entry.pc) : Sound prog live (es ++ P :: s)

variable {prog : WarpProgram} {live live' : Finset ℕ} {T P c e f g : Frame} {es s : List Frame}

/-! ## Siblings -/

theorem Siblings.replace (new : List Frame) (h : Siblings P (e :: es)) (hne : new ++ es ≠ [])
    (htype : ∀ e' ∈ new, e'.entry.type = .normal)
    (hrecvg : ∀ e' ∈ new, e'.entry.recvgPc = e.entry.recvgPc)
    (hmask : ∀ e' ∈ new, e'.mask ⊆ e.mask)
    (hdisjoint : new.Pairwise fun e e' => Disjoint e.mask e'.mask) : Siblings P (new ++ es) where
  nonempty := hne
  type e' he' := by
    rcases List.mem_append.mp he' with hnew | hold
    · exact htype e' hnew
    · exact h.type e' (List.mem_cons_of_mem _ hold)
  recvgPc e' he' := by
    rcases List.mem_append.mp he' with hnew | hold
    · exact (hrecvg e' hnew).trans (h.recvgPc e List.mem_cons_self)
    · exact h.recvgPc e' (List.mem_cons_of_mem _ hold)
  mask e' he' := by
    rcases List.mem_append.mp he' with hnew | hold
    · exact (hmask e' hnew).trans (h.mask e List.mem_cons_self)
    · exact h.mask e' (List.mem_cons_of_mem _ hold)
  disjoint := by
    obtain ⟨hfirst, hrest⟩ := List.pairwise_cons.mp h.disjoint
    refine List.pairwise_append.mpr ⟨hdisjoint, hrest, fun a ha b hb => ?_⟩
    exact Disjoint.mono_left (hmask a ha) (hfirst b hb)
  parentPc := h.parentPc
  parentRecvgPc := h.parentRecvgPc

theorem Siblings.tail (h : Siblings P (e :: es)) (hne : es ≠ []) : Siblings P es :=
  h.replace [] hne (by simp) (by simp) (by simp) .nil

/-! ## The top frame -/

/-- What is below the top frame of a sound stack. -/
inductive Under (prog : WarpProgram) (live : Finset ℕ) (T : Frame) : List Frame → Prop
  | launched (kind : T.kind = .base) (type : T.entry.type = .normal)
      (recvgPc : T.entry.recvgPc = nullPc) (hlive : live ⊆ T.mask) : Under prog live T []
  | baseCall {g : Frame} {s : List Frame} (below : Sound prog live (g :: s))
      (caller : g.kind = .base) (kind : T.kind = .base) (type : T.entry.type = .call)
      (recvgPc : T.entry.recvgPc = nullPc) (mask : T.mask ⊆ g.mask) (hlive : live ⊆ T.mask) :
      Under prog live T (g :: s)
  | call {g : Frame} {s : List Frame} (below : Sound prog live (g :: s))
      (caller : g.kind ≠ .base) (kind : T.kind = .calling) (type : T.entry.type = .call)
      (recvgPc : T.entry.recvgPc = nullPc) (mask : T.mask ⊆ g.mask)
        (hlive : ∀ i ∈ live, i ∈ g.mask → i ∈ T.mask)
      (callstack : T.callstack = prog.fallThrough g.entry.pc :: g.callstack)
      (nonempty : g.callstack ≠ [])
      (meets : g.kind = .reconverging → g.entry.recvgPc = prog.fallThrough g.entry.pc ∨
        prog.Meets g.entry.recvgPc (prog.fallThrough g.entry.pc)) : Under prog live T (g :: s)
  | returning {P : Frame} {es s : List Frame} (below : Sound prog live (P :: s))
      (parent : P.kind = .base) (siblings : Siblings P (T :: es))
      (kind : ∀ e ∈ T :: es, e.kind = .returning)
      (callstack : ∀ e ∈ T :: es, e.callstack.headD 0 = P.entry.pc) :
      Under prog live T (es ++ P :: s)
  | reconverging {P : Frame} {es s : List Frame} (below : Sound prog live (P :: s))
      (siblings : Siblings P (T :: es)) (kind : ∀ e ∈ T :: es, e.kind = .reconverging)
      (callstack : ∀ e ∈ T :: es, e.callstack = P.callstack)
      (meets : ∀ e ∈ T :: es, prog.Meets P.entry.pc e.entry.pc) : Under prog live T (es ++ P :: s)

section

variable (h : Sound prog live (T :: s))
include h

theorem Sound.under : Under prog live T s := by
  generalize hstack : T :: s = frames at h
  cases h with
  | launched kind type recvgPc hlive =>
      obtain ⟨rfl, rfl⟩ := List.cons.inj hstack
      exact .launched kind type recvgPc hlive
  | baseCall below caller kind type recvgPc mask hlive =>
      obtain ⟨rfl, rfl⟩ := List.cons.inj hstack
      exact .baseCall below caller kind type recvgPc mask hlive
  | call below caller kind type recvgPc mask hlive callstack nonempty meets =>
      obtain ⟨rfl, rfl⟩ := List.cons.inj hstack
      exact .call below caller kind type recvgPc mask hlive callstack nonempty meets
  | @returning P es s' below parent siblings kind callstack =>
      cases es with
      | nil => exact absurd rfl siblings.nonempty
      | cons e es =>
          obtain ⟨rfl, rfl⟩ := List.cons.inj hstack
          exact .returning below parent siblings kind callstack
  | @reconverging P es s' below siblings kind callstack meets =>
      cases es with
      | nil => exact absurd rfl siblings.nonempty
      | cons e es =>
          obtain ⟨rfl, rfl⟩ := List.cons.inj hstack
          exact .reconverging below siblings kind callstack meets

theorem Sound.of_base (hkind : T.kind = .base) : live ⊆ T.mask ∧ T.entry.recvgPc = nullPc := by
  cases h.under with
  | launched _ _ recvgPc hlive => exact ⟨hlive, recvgPc⟩
  | baseCall _ _ _ _ recvgPc _ hlive => exact ⟨hlive, recvgPc⟩
  | call _ _ kind => simp [hkind] at kind
  | returning _ _ _ kind => simp [hkind] at kind
  | reconverging _ _ kind => simp [hkind] at kind

theorem Sound.base_or_calling_or_member : (T.kind = .base ∨ T.kind = .calling) ∨
      ((T.kind = .returning ∨ T.kind = .reconverging) ∧ T.entry.type = .normal) := by
  cases h.under with
  | launched kind => exact .inl (.inl kind)
  | baseCall _ _ kind => exact .inl (.inl kind)
  | call _ _ kind => exact .inl (.inr kind)
  | returning _ _ siblings kind =>
      exact .inr ⟨.inl (kind T List.mem_cons_self), siblings.type T List.mem_cons_self⟩
  | reconverging _ siblings kind =>
      exact .inr ⟨.inr (kind T List.mem_cons_self), siblings.type T List.mem_cons_self⟩

theorem Sound.recvgPc_eq_null
    (hkind : T.kind = .base ∨ T.kind = .calling) : T.entry.recvgPc = nullPc := by
  cases h.under with
  | launched _ _ recvgPc => exact recvgPc
  | baseCall _ _ _ _ recvgPc => exact recvgPc
  | call _ _ _ _ recvgPc => exact recvgPc
  | returning _ _ _ kind => simp [kind] at hkind
  | reconverging _ _ kind => simp [kind] at hkind

theorem Sound.exists_recvgPc (hkind : T.kind ≠ .base) : ∃ f ∈ T :: s, f.entry.recvgPc ≠ nullPc := by
  induction s generalizing T with
  | nil =>
      generalize hnil : ([] : List Frame) = rest at h
      cases h.under with
      | launched kind => exact absurd kind hkind
      | baseCall => cases hnil
      | call => cases hnil
      | returning => simp at hnil
      | reconverging => simp at hnil
  | cons g s ih =>
      generalize hrest : g :: s = rest at h
      cases h.under with
      | launched kind => exact absurd kind hkind
      | baseCall _ _ kind => exact absurd kind hkind
      | call below caller =>
          obtain ⟨rfl, rfl⟩ := List.cons.inj hrest
          obtain ⟨f, hf, hrecvg⟩ := ih below caller
          exact ⟨f, List.mem_cons_of_mem _ hf, hrecvg⟩
      | returning _ _ siblings =>
          exact ⟨T, List.mem_cons_self,
            siblings.recvgPc T List.mem_cons_self ▸ siblings.parentPc⟩
      | reconverging _ siblings =>
          exact ⟨T, List.mem_cons_self,
            siblings.recvgPc T List.mem_cons_self ▸ siblings.parentPc⟩

omit h in
theorem Sound.mono {frames : List Frame} (h : Sound prog live frames) (hsub : live' ⊆ live) :
    Sound prog live' frames := by
  induction h with
  | launched kind type recvgPc hlive => exact .launched kind type recvgPc (hsub.trans hlive)
  | baseCall below caller kind type recvgPc mask hlive ih =>
      exact .baseCall ih caller kind type recvgPc mask (hsub.trans hlive)
  | call below caller kind type recvgPc mask hlive callstack nonempty meets ih =>
      exact .call ih caller kind type recvgPc mask (fun i hi => hlive i (hsub hi)) callstack
        nonempty meets
  | returning below parent siblings kind callstack ih =>
      exact .returning ih parent siblings kind callstack
  | reconverging below siblings kind callstack meets ih =>
      exact .reconverging ih siblings kind callstack meets

theorem Sound.pop (hne : s ≠ []) : Sound prog live s := by
  cases h.under with
  | launched => exact absurd rfl hne
  | baseCall below => exact below
  | call below => exact below
  | @returning P es s' below parent siblings kind callstack =>
      cases es with
      | nil => exact below
      | cons e es =>
          exact .returning below parent (siblings.tail (List.cons_ne_nil e es))
            (fun e' he' => kind e' (List.mem_cons_of_mem _ he'))
            fun e' he' => callstack e' (List.mem_cons_of_mem _ he')
  | @reconverging P es s' below siblings kind callstack meets =>
      cases es with
      | nil => exact below
      | cons e es =>
          exact .reconverging below (siblings.tail (List.cons_ne_nil e es))
            (fun e' he' => kind e' (List.mem_cons_of_mem _ he'))
            (fun e' he' => callstack e' (List.mem_cons_of_mem _ he'))
            fun e' he' => meets e' (List.mem_cons_of_mem _ he')

end

theorem Sound.suffix {above : List Frame} (h : Sound prog live (above ++ e :: s)) :
    Sound prog live (e :: s) := by
  induction above with
  | nil => exact h
  | cons a above ih => exact ih (h.pop (by simp))

theorem nested_of_parent (hsub : T.mask ⊆ P.mask)
    (hP : ∀ f ∈ s, P.mask ⊆ f.mask ∨ Disjoint P.mask f.mask) :
    ∀ f ∈ P :: s, T.mask ⊆ f.mask ∨ Disjoint T.mask f.mask := by
  intro f hf
  rcases List.mem_cons.mp hf with rfl | hf
  · exact .inl hsub
  · exact (hP f hf).imp hsub.trans (Disjoint.mono_left hsub)

theorem nested_of_siblings (h : Siblings P (T :: es))
    (hP : ∀ f ∈ s, P.mask ⊆ f.mask ∨ Disjoint P.mask f.mask) :
    ∀ f ∈ es ++ P :: s, T.mask ⊆ f.mask ∨ Disjoint T.mask f.mask := by
  intro f hf
  rcases List.mem_append.mp hf with hes | hs
  · exact .inr ((List.pairwise_cons.mp h.disjoint).1 f hes)
  · exact nested_of_parent (h.mask T List.mem_cons_self) hP f hs

theorem Sound.laminar (h : Sound prog live (T :: s)) :
    ∀ f ∈ s, T.mask ⊆ f.mask ∨ Disjoint T.mask f.mask := by
  induction hlen : s.length using Nat.strongRecOn generalizing T s with
  | _ n ih =>
      subst hlen
      cases h.under with
      | launched => simp
      | baseCall below _ _ _ _ mask =>
          exact nested_of_parent mask (ih _ (by simp) below rfl)
      | call below _ _ _ _ mask =>
          exact nested_of_parent mask (ih _ (by simp) below rfl)
      | returning below parent siblings =>
          refine nested_of_siblings siblings (ih _ ?_ below rfl)
          simp only [List.length_append, List.length_cons]
          omega
      | reconverging below siblings =>
          refine nested_of_siblings siblings (ih _ ?_ below rfl)
          simp only [List.length_append, List.length_cons]
          omega

/-! ## Entries of one divergence -/

theorem mem_of_split {α : Type*} {Q : α → Prop} {l₁ l₂ m₁ m₂ : List α} {a b : α}
    (heq : l₁ ++ a :: l₂ = m₁ ++ b :: m₂) (hl : ∀ x ∈ l₁, Q x) (ha : Q a) (hb : ¬ Q b) :
    a ∈ m₁ := by
  induction l₁ generalizing m₁ with
  | nil =>
      cases m₁ with
      | nil => exact absurd ((List.cons.inj heq).1 ▸ ha) hb
      | cons c m₁ => exact (List.cons.inj heq).1 ▸ List.mem_cons_self
  | cons c l₁ ih =>
      cases m₁ with
      | nil => exact absurd ((List.cons.inj heq).1 ▸ hl c List.mem_cons_self) hb
      | cons d m₁ =>
          exact List.mem_cons_of_mem _
            (ih (List.cons.inj heq).2 fun x hx => hl x (List.mem_cons_of_mem _ hx))

theorem eq_of_split {α : Type*} {Q : α → Prop} {l₁ l₂ m₁ m₂ : List α} {a b : α}
    (heq : l₁ ++ a :: l₂ = m₁ ++ b :: m₂) (hl : ∀ x ∈ l₁, Q x) (hm : ∀ x ∈ m₁, Q x)
    (ha : ¬ Q a) (hb : ¬ Q b) : a = b := by
  induction l₁ generalizing m₁ with
  | nil =>
      cases m₁ with
      | nil => exact (List.cons.inj heq).1
      | cons c m₁ => exact absurd ((List.cons.inj heq).1 ▸ hm c List.mem_cons_self) ha
  | cons c l₁ ih =>
      cases m₁ with
      | nil => exact absurd ((List.cons.inj heq).1 ▸ hl c List.mem_cons_self) hb
      | cons d m₁ =>
          exact ih (List.cons.inj heq).2 (fun x hx => hl x (List.mem_cons_of_mem _ hx))
            fun x hx => hm x (List.mem_cons_of_mem _ hx)

theorem Sound.exists_siblings (h : Sound prog live (e :: s)) (htype : e.entry.type = .normal)
    (hrecvg : e.entry.recvgPc ≠ nullPc) :
    ∃ P es s', s = es ++ P :: s' ∧ Siblings P (e :: es) := by
  cases h.under with
  | launched _ _ recvgPc => exact absurd recvgPc hrecvg
  | baseCall _ _ _ _ recvgPc => exact absurd recvgPc hrecvg
  | call _ _ _ type => simp [type] at htype
  | returning _ _ siblings => exact ⟨_, _, _, rfl, siblings⟩
  | reconverging _ siblings => exact ⟨_, _, _, rfl, siblings⟩

theorem Siblings.sameDivergence (h : Siblings P (e :: es)) :
    (∀ x ∈ es, SameDivergence e.entry x.entry) ∧ ¬ SameDivergence e.entry P.entry := by
  have htype := h.type e List.mem_cons_self
  have hrecvg := h.recvgPc e List.mem_cons_self
  constructor
  · intro x hx
    exact ⟨htype, h.type x (List.mem_cons_of_mem _ hx), hrecvg ▸ h.parentPc,
      (h.recvgPc x (List.mem_cons_of_mem _ hx)).trans hrecvg.symm⟩
  · rintro ⟨-, -, -, heq⟩
    exact h.parentRecvgPc (heq.trans hrecvg)

theorem Sound.disjoint {above between : List Frame}
    (h : Sound prog live (above ++ e :: (between ++ f :: s)))
    (hbetween : ∀ x ∈ between, SameDivergence e.entry x.entry)
    (hsame : SameDivergence e.entry f.entry) : Disjoint e.mask f.mask := by
  obtain ⟨P, es, s', heq, siblings⟩ := h.suffix.exists_siblings hsame.1 hsame.2.2.1
  have hmem : f ∈ es := mem_of_split heq hbetween hsame siblings.sameDivergence.2
  exact (List.pairwise_cons.mp siblings.disjoint).1 f hmem

theorem Sound.contained {above between : List Frame}
    (h : Sound prog live (above ++ e :: (between ++ f :: s)))
    (hbetween : ∀ x ∈ between, SameDivergence e.entry x.entry) (htype : e.entry.type = .normal)
    (hrecvg : e.entry.recvgPc ≠ nullPc) (hother : ¬ SameDivergence e.entry f.entry) :
    e.mask ⊆ f.mask ∧ f.entry.pc = e.entry.recvgPc := by
  obtain ⟨P, es, s', heq, siblings⟩ := h.suffix.exists_siblings htype hrecvg
  obtain rfl : f = P :=
    eq_of_split heq hbetween siblings.sameDivergence.1 hother siblings.sameDivergence.2
  exact ⟨siblings.mask e List.mem_cons_self, (siblings.recvgPc e List.mem_cons_self).symm⟩

end GpuCalorie.Simt
