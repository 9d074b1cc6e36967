/-
# The streams of CTAs

The CTAs of a kernel make streams to launch its children. `Owned` says that such a stream
belongs to one kernel, and that nothing is pushed to it but launches of children of that kernel,
and events to wait for, which the host pushes to every stream there is.
-/

import GpuCalorie.Streams.Run

namespace GpuCalorie.Streams

namespace StreamManager

variable {cfg : StreamConfig} {s t v : StreamManager} {waiting : ℕ → ℕ} {uid sid c : ℕ}

/-- A stream of a CTA of the parent of a kernel. -/
def OfChild (s : StreamManager) (sid c : ℕ) : Prop :=
  ∃ p, (s.kernels c).parent = some p ∧ sid ∈ (s.kernels p).ctaStreams

/-- Whom the streams belong to. -/
structure Owned (s : StreamManager) : Prop where
  next_pos : 0 < s.nextStream
  fresh : ∀ sid, s.nextStream ≤ sid → (s.stream sid).operations = []
  cta : ∀ u, ∀ sid ∈ (s.kernels u).ctaStreams, 0 < sid ∧ sid < s.nextStream
  owner : ∀ u u' sid, sid ∈ (s.kernels u).ctaStreams → sid ∈ (s.kernels u').ctaStreams → u = u'
  host : ∀ sid ∈ s.hostStreams,
    0 < sid ∧ sid < s.nextStream ∧ ∀ u, sid ∉ (s.kernels u).ctaStreams
  streams : ∀ sid ∈ s.streams, sid < s.nextStream
  device : ∀ c sid, (c, sid) ∈ s.deviceLaunchOp → s.OfChild sid c
  queued : ∀ u, ∀ sid ∈ (s.kernels u).ctaStreams, ∀ op ∈ (s.stream sid).operations,
    op.isWait = true ∨ ∃ c, op = .kernelLaunch c ∧ s.OfChild sid c

/-- Streams keep their kernels when there are new streams and new kernels. -/
structure Extends (s t : StreamManager) : Prop where
  nextStream : s.nextStream ≤ t.nextStream
  owner : ∀ u sid, sid < s.nextStream → sid ∈ (t.kernels u).ctaStreams →
    sid ∈ (s.kernels u).ctaStreams
  child : ∀ sid c, s.OfChild sid c → t.OfChild sid c

/-- There are no new streams, kernels and operations. -/
structure Shrinks (s t : StreamManager) : Prop where
  nextStream : t.nextStream = s.nextStream
  ctaStreams : ∀ u, (t.kernels u).ctaStreams = (s.kernels u).ctaStreams
  parent : ∀ u, (t.kernels u).parent = (s.kernels u).parent
  operations : ∀ sid, (t.stream sid).operations <:+ (s.stream sid).operations
  host : ∀ sid ∈ t.hostStreams, sid ∈ s.hostStreams
  device : ∀ p ∈ t.deviceLaunchOp, p ∈ s.deviceLaunchOp
  streams : ∀ sid ∈ t.streams, sid ∈ s.streams

namespace Shrinks

theorem ofChild_iff (h : s.Shrinks t) : t.OfChild sid c ↔ s.OfChild sid c := by
  simp only [OfChild, h.parent, h.ctaStreams]

theorem toExtends (h : s.Shrinks t) : s.Extends t where
  nextStream := h.nextStream.ge
  owner u _ _ hmem := h.ctaStreams u ▸ hmem
  child _ _ := h.ofChild_iff.mpr

theorem trans (h : s.Shrinks t) (h' : t.Shrinks v) : s.Shrinks v where
  nextStream := h'.nextStream.trans h.nextStream
  ctaStreams u := (h'.ctaStreams u).trans (h.ctaStreams u)
  parent u := (h'.parent u).trans (h.parent u)
  operations sid := (h'.operations sid).trans (h.operations sid)
  host sid hmem := h.host sid (h'.host sid hmem)
  device p hmem := h.device p (h'.device p hmem)
  streams sid hmem := h.streams sid (h'.streams sid hmem)

theorem operations_eq_nil (h : s.Shrinks t) (hnil : (s.stream sid).operations = []) :
    (t.stream sid).operations = [] :=
  List.suffix_nil.mp (hnil ▸ h.operations sid)

end Shrinks

theorem Unwound.shrinks {uids : List ℕ} (h : s.Unwound t uids) : s.Shrinks t where
  nextStream := (congrArg StreamManager.nextStream h.frame).trans rfl
  ctaStreams := h.ctaStreams
  parent := h.parent
  operations := h.operations
  host sid hmem := by
    have hsame : t.hostStreams = s.hostStreams := (congrArg hostStreams h.frame).trans rfl
    exact hsame ▸ hmem
  device p hmem := by
    have hsame : t.deviceLaunchOp = s.deviceLaunchOp := (congrArg deviceLaunchOp h.frame).trans rfl
    exact hsame ▸ hmem
  streams sid hmem := by
    have hsame : t.streams = s.streams := (congrArg StreamManager.streams h.frame).trans rfl
    exact hsame ▸ hmem

theorem Served.shrinks (h : s.Served t) : s.Shrinks t where
  nextStream := (congrArg StreamManager.nextStream h.frame).trans rfl
  ctaStreams := h.ctaStreams
  parent := h.parent
  operations := h.operations
  host sid hmem := by
    have hsame : t.hostStreams = s.hostStreams := (congrArg hostStreams h.frame).trans rfl
    exact hsame ▸ hmem
  device p hmem := by
    have hsame : t.deviceLaunchOp = s.deviceLaunchOp := (congrArg deviceLaunchOp h.frame).trans rfl
    exact hsame ▸ hmem
  streams sid hmem := by
    have hsame : t.streams = s.streams := (congrArg StreamManager.streams h.frame).trans rfl
    exact hsame ▸ hmem

theorem finish_shrinks (s : StreamManager) (uid : ℕ) : s.Shrinks (s.finish uid) := by
  have hsame : ∀ u, ((s.finish uid).kernels u).ctaStreams = (s.kernels u).ctaStreams ∧
      ((s.finish uid).kernels u).parent = (s.kernels u).parent := by
    intro u
    by_cases heq : u = uid
    · have hself : (s.finish uid).kernels uid = { s.kernels uid with done := true } :=
        Function.update_self _ _ _
      rw [heq, hself]
      exact ⟨rfl, rfl⟩
    · have hother : (s.finish uid).kernels u = s.kernels u := Function.update_of_ne heq _ _
      rw [hother]
      exact ⟨rfl, rfl⟩
  exact ⟨rfl, fun u => (hsame u).1, fun u => (hsame u).2, fun _ => List.suffix_rfl, fun _ h => h,
    fun _ h => h, fun _ h => h⟩

namespace Owned

theorem init : ({} : StreamManager).Owned where
  next_pos := Nat.zero_lt_one
  fresh _ _ := rfl
  cta _ _ h := absurd h List.not_mem_nil
  owner _ _ _ h := absurd h List.not_mem_nil
  host _ h := absurd h List.not_mem_nil
  streams _ h := absurd h List.not_mem_nil
  device _ _ h := absurd h List.not_mem_nil
  queued _ _ h := absurd h List.not_mem_nil

theorem shrink (h : s.Owned) (hshrinks : s.Shrinks t) : t.Owned := by
  constructor
  case next_pos => exact hshrinks.nextStream ▸ h.next_pos
  case fresh =>
    intro sid hle
    rw [hshrinks.nextStream] at hle
    exact hshrinks.operations_eq_nil (h.fresh sid hle)
  case cta => simpa only [hshrinks.ctaStreams, hshrinks.nextStream] using h.cta
  case owner => simpa only [hshrinks.ctaStreams] using h.owner
  case host =>
    intro sid hmem
    simpa only [hshrinks.ctaStreams, hshrinks.nextStream] using h.host sid (hshrinks.host sid hmem)
  case streams =>
      exact fun sid hmem => hshrinks.nextStream ▸ h.streams sid (hshrinks.streams sid hmem)
  case device =>
      exact fun c sid hmem => hshrinks.ofChild_iff.mpr (h.device c sid (hshrinks.device _ hmem))
  case queued =>
    intro u sid hmem op hop
    rw [hshrinks.ctaStreams] at hmem
    simpa only [hshrinks.ofChild_iff] using h.queued u sid hmem op
      ((hshrinks.operations sid).subset hop)

theorem addStream (h : s.Owned) (hlt : sid < s.nextStream) :
    ({ s with streams := s.streams ++ [sid] } : StreamManager).Owned where
  next_pos := h.next_pos
  fresh := h.fresh
  cta := h.cta
  owner := h.owner
  host := h.host
  streams sid' hmem := by
    rcases List.mem_append.mp hmem with hold | hnew
    · exact h.streams sid' hold
    · exact List.mem_singleton.mp hnew ▸ hlt
  device := h.device
  queued := h.queued

theorem push (h : s.Owned) (hlt : sid < s.nextStream) {op : StreamOperation}
    (hop : ∀ u, sid ∈ (s.kernels u).ctaStreams →
      op.isWait = true ∨ ∃ c, op = .kernelLaunch c ∧ s.OfChild sid c) :
    (s.setStream sid ((s.stream sid).push op)).Owned where
  next_pos := h.next_pos
  fresh sid' hle := by
    have hne : sid' ≠ sid := by
      rintro rfl
      exact absurd hlt (Nat.not_lt.mpr hle)
    show (Function.update s.stream sid _ sid').operations = []
    rw [Function.update_of_ne hne]
    exact h.fresh sid' hle
  cta := h.cta
  owner := h.owner
  host := h.host
  streams := h.streams
  device := h.device
  queued u sid' hmem op' hop' := by
    change op' ∈ (Function.update s.stream sid _ sid').operations at hop'
    by_cases heq : sid' = sid
    · rw [heq, Function.update_self] at hop'
      rw [heq] at hmem ⊢
      rcases List.mem_append.mp hop' with hold | hnew
      · exact h.queued u sid hmem op' hold
      · exact List.mem_singleton.mp hnew ▸ hop u hmem
    · rw [Function.update_of_ne heq] at hop'
      exact h.queued u sid' hmem op' hop'

theorem createStream (h : s.Owned) : ({ s with
    hostStreams := s.nextStream :: s.hostStreams
    nextStream := s.nextStream + 1 } : StreamManager).Owned where
  next_pos := Nat.succ_pos _
  fresh sid hle := h.fresh sid (Nat.le_of_succ_le hle)
  cta u sid hmem := ⟨(h.cta u sid hmem).1, Nat.lt_succ_of_lt (h.cta u sid hmem).2⟩
  owner := h.owner
  host sid hmem := by
    rcases List.mem_cons.mp hmem with rfl | hold
    · exact ⟨h.next_pos, Nat.lt_succ_self _, fun u hcta => Nat.lt_irrefl _ (h.cta u _ hcta).2⟩
    · obtain ⟨hpos, hlt, hnot⟩ := h.host sid hold
      exact ⟨hpos, Nat.lt_succ_of_lt hlt, hnot⟩
  streams sid hmem := Nat.lt_succ_of_lt (h.streams sid hmem)
  device := h.device
  queued := h.queued

end Owned

/-! ## New kernels and new streams -/

theorem newKernel_ctaStreams (s : StreamManager) (cfg : StreamConfig) (parent : Option ℕ) (u : ℕ) :
    ((s.newKernel cfg parent).kernels u).ctaStreams
      = if u = s.nextUid then [] else (s.kernels u).ctaStreams := by
  split_ifs with heq
  · rw [heq, s.newKernel_self]
  · rw [s.newKernel_of_ne cfg parent heq]

theorem newKernel_extends (hfamily : Family s.kernels s.nextUid s.retired) (cfg : StreamConfig)
    (parent : Option ℕ) : s.Extends (s.newKernel cfg parent) where
  nextStream := le_rfl
  owner u sid _ hmem := by
    rw [newKernel_ctaStreams] at hmem
    split_ifs at hmem with heq
    · exact absurd hmem List.not_mem_nil
    · exact hmem
  child sid c := by
    rintro ⟨p, hparent, hmem⟩
    obtain ⟨hlt, hbelow⟩ := hfamily.parent_lt c p hparent
    refine ⟨p, ?_, ?_⟩
    · rw [s.newKernel_of_ne cfg parent (Nat.ne_of_lt hbelow)]
      exact hparent
    · rw [newKernel_ctaStreams, if_neg (Nat.ne_of_lt (hlt.trans hbelow))]
      exact hmem

theorem Owned.newKernel (h : s.Owned) (hfamily : Family s.kernels s.nextUid s.retired)
    (cfg : StreamConfig) (parent : Option ℕ) : (s.newKernel cfg parent).Owned := by
  have hextends := newKernel_extends hfamily cfg parent
  have hold : ∀ u, ∀ sid ∈ ((s.newKernel cfg parent).kernels u).ctaStreams,
      sid ∈ (s.kernels u).ctaStreams := by
    intro u sid hmem
    rw [newKernel_ctaStreams] at hmem
    split_ifs at hmem with heq
    · exact absurd hmem List.not_mem_nil
    · exact hmem
  constructor
  case next_pos => exact h.next_pos
  case fresh => exact h.fresh
  case cta => exact fun u sid hmem => h.cta u sid (hold u sid hmem)
  case owner =>
      exact fun u u' sid hmem hmem' => h.owner u u' sid (hold u sid hmem) (hold u' sid hmem')
  case host =>
    intro sid hmem
    obtain ⟨hpos, hlt, hnot⟩ := h.host sid hmem
    exact ⟨hpos, hlt, fun u hcta => hnot u (hold u sid hcta)⟩
  case streams => exact h.streams
  case device => exact fun c sid hmem => hextends.child sid c (h.device c sid hmem)
  case queued =>
    intro u sid hmem op hop
    exact (h.queued u sid (hold u sid hmem) op hop).imp_right fun ⟨c, heq, hchild⟩ =>
      ⟨c, heq, hextends.child sid c hchild⟩

theorem Owned.launchDevice (h : s.Owned) (hfamily : Family s.kernels s.nextUid s.retired)
    (cfg : StreamConfig) (hlt : uid < s.nextUid) (hmem : sid ∈ (s.kernels uid).ctaStreams) :
    ({ s.newKernel cfg (some uid) with
      deviceLaunchOp := s.deviceLaunchOp ++ [(s.nextUid, sid)] } : StreamManager).Owned := by
  have hnew := h.newKernel hfamily cfg (some uid)
  refine ⟨hnew.next_pos, hnew.fresh, hnew.cta, hnew.owner, hnew.host, hnew.streams, ?_, hnew.queued⟩
  intro c sid' hdevice
  rcases List.mem_append.mp hdevice with hold | hself
  · exact hnew.device c sid' hold
  · cases List.mem_singleton.mp hself
    refine ⟨uid, ?_, ?_⟩
    · show ((s.newKernel cfg (some uid)).kernels s.nextUid).parent = _
      rw [s.newKernel_self]
    · show sid ∈ ((s.newKernel cfg (some uid)).kernels uid).ctaStreams
      rw [newKernel_ctaStreams, if_neg (Nat.ne_of_lt hlt)]
      exact hmem

theorem mem_newCtaStream (s : StreamManager) (uid u sid : ℕ) :
    sid ∈ ((s.newCtaStream uid).kernels u).ctaStreams
      ↔ sid ∈ (s.kernels u).ctaStreams ∨ (u = uid ∧ sid = s.nextStream) := by
  show sid ∈ (Function.update s.kernels uid _ u).ctaStreams ↔ _
  by_cases heq : u = uid
  · rw [heq, Function.update_self, List.mem_append, List.mem_singleton]
    simp
  · rw [Function.update_of_ne heq]
    simp [heq]

theorem newCtaStream_parent (s : StreamManager) (uid u : ℕ) :
    ((s.newCtaStream uid).kernels u).parent = (s.kernels u).parent := by
  show (Function.update s.kernels uid _ u).parent = _
  by_cases heq : u = uid
  · rw [heq, Function.update_self]
  · rw [Function.update_of_ne heq]

theorem newCtaStream_extends (s : StreamManager) (uid : ℕ) : s.Extends (s.newCtaStream uid) where
  nextStream := Nat.le_succ _
  owner u sid hlt hmem := by
    rcases (s.mem_newCtaStream uid u sid).mp hmem with hold | ⟨-, hnew⟩
    · exact hold
    · exact absurd (hnew ▸ hlt) (Nat.lt_irrefl _)
  child sid c := by
    rintro ⟨p, hparent, hmem⟩
    exact ⟨p, (s.newCtaStream_parent uid c).trans hparent,
      (s.mem_newCtaStream uid p sid).mpr (.inl hmem)⟩

theorem Owned.newCtaStream (h : s.Owned) (uid : ℕ) : (s.newCtaStream uid).Owned := by
  have hnew : ∀ u, s.nextStream ∉ (s.kernels u).ctaStreams := fun u hmem =>
    Nat.lt_irrefl _ (h.cta u _ hmem).2
  have hmem := s.mem_newCtaStream uid
  constructor
  case next_pos => exact Nat.succ_pos _
  case fresh => exact fun sid hle => h.fresh sid (Nat.le_of_succ_le hle)
  case cta =>
    intro u sid hcta
    rcases (hmem u sid).mp hcta with hold | ⟨-, rfl⟩
    · exact ⟨(h.cta u sid hold).1, Nat.lt_succ_of_lt (h.cta u sid hold).2⟩
    · exact ⟨h.next_pos, Nat.lt_succ_self _⟩
  case owner =>
    intro u u' sid hcta hcta'
    rcases (hmem u sid).mp hcta with hold | ⟨rfl, rfl⟩
    · rcases (hmem u' sid).mp hcta' with hold' | ⟨rfl, rfl⟩
      · exact h.owner u u' sid hold hold'
      · exact absurd hold (hnew u)
    · rcases (hmem u' _).mp hcta' with hold' | ⟨rfl, -⟩
      · exact absurd hold' (hnew u')
      · rfl
  case host =>
    intro sid hhost
    obtain ⟨hpos, hlt, hnot⟩ := h.host sid hhost
    refine ⟨hpos, Nat.lt_succ_of_lt hlt, fun u hcta => ?_⟩
    exact hnot u ((s.newCtaStream_extends uid).owner u sid hlt hcta)
  case streams => exact fun sid hstream => Nat.lt_succ_of_lt (h.streams sid hstream)
  case device =>
      exact fun c sid hdevice => (s.newCtaStream_extends uid).child sid c (h.device c sid hdevice)
  case queued =>
    intro u sid hcta op hop
    rcases (hmem u sid).mp hcta with hold | ⟨-, rfl⟩
    · exact (h.queued u sid hold op hop).imp_right fun ⟨c, heq, hchild⟩ =>
        ⟨c, heq, (s.newCtaStream_extends uid).child sid c hchild⟩
    · have hnil := h.fresh s.nextStream le_rfl
      change op ∈ (s.stream s.nextStream).operations at hop
      rw [hnil] at hop
      exact absurd hop List.not_mem_nil

theorem Owned.operations_eq_nil (h : s.Owned) (hsound : s.Sound waiting)
    (hretired : uid ∈ s.retired)
    (hmem : sid ∈ (s.kernels uid).ctaStreams)
    (hwait : ∀ op ∈ (s.stream sid).operations, op.isWait = false) :
    (s.stream sid).operations = [] := by
  refine List.eq_nil_iff_forall_not_mem.mpr fun op hop => ?_
  rcases h.queued uid sid hmem op hop with hiswait | ⟨c, rfl, p, hparent, hsid⟩
  · exact Bool.noConfusion (hiswait.symm.trans (hwait op hop))
  · obtain ⟨later, before, heq⟩ := List.append_of_mem hretired
    have hbefore :=
      hsound.family.ordered later uid before heq c (h.owner p uid sid hsid hmem ▸ hparent)
    have hleft := (hsound.queues.queued sid c (List.count_pos_iff.mpr hop)).2
    rw [heq] at hleft
    exact hleft (List.mem_append_right _ (List.mem_cons_of_mem _ hbefore))

end StreamManager

end GpuCalorie.Streams
