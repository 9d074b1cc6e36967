/-
# A kernel is retired with its ancestors

When a kernel that is done has no children left it is retired, and so is its parent if the
kernel was the last child of a parent that is done. `unwinds` lists the kernels that are retired
with a kernel, and `registerFinishedKernel` retires these if all goes well before.
-/

import GpuCalorie.Streams.Family
import GpuCalorie.Streams.Queues

namespace GpuCalorie.Streams

/-- The kernels that are retired when a kernel has no children except for one that is retired. -/
def unwindFrom (kernels : ℕ → KernelInfo) : ℕ → Option ℕ → ℕ → List ℕ
  | 0, _, _ => []
  | rounds + 1, child, uid =>
    if (kernels uid).done = true ∧ ∀ c ∈ (kernels uid).children, some c = child then
      uid :: match (kernels uid).parent with
        | none => []
        | some parent => unwindFrom kernels rounds (some uid) parent
    else []

/-- The kernels that are retired when a kernel is registered as finished. -/
def StreamManager.unwinds (s : StreamManager) (uid : ℕ) : List ℕ :=
  unwindFrom s.kernels (uid + 1) none uid

/-- What holds of the stream manager and the launches that wait to be pushed. -/
structure StreamManager.Sound (s : StreamManager) (waiting : ℕ → ℕ) : Prop where
  family : Family s.kernels s.nextUid s.retired
  queues : Queues s.stream s.gridIdToStream s.nextUid s.retired waiting
  launched : Launched s.kernels s.runningKernels s.finishedKernel s.gridIdToStream s.retired

variable {kernels kernels' : ℕ → KernelInfo} {s : StreamManager} {waiting : ℕ → ℕ} {uid sid : ℕ}

/-! ## The kernels that are retired -/

theorem unwindFrom_congr (hparent : ∀ c p, (kernels c).parent = some p → p < c) (rounds : ℕ)
    (child : Option ℕ) (hsame : ∀ u ≤ uid, kernels' u = kernels u) :
    unwindFrom kernels' rounds child uid = unwindFrom kernels rounds child uid := by
  induction rounds generalizing child uid with
  | zero => rfl
  | succ rounds ih =>
      rw [unwindFrom, unwindFrom, hsame uid le_rfl]
      cases hp : (kernels uid).parent with
      | none => rfl
      | some p =>
          dsimp only
          rw [ih (some uid) fun u hle => hsame u (hle.trans (hparent uid p hp).le)]

theorem unwindFrom_removeChild (hparent : ∀ c p, (kernels c).parent = some p → p < c)
    (rounds p uid : ℕ) :
    unwindFrom (Function.update kernels p
        { kernels p with children := (kernels p).children.filter (· ≠ uid) }) rounds none p
      = unwindFrom kernels rounds (some uid) p := by
  cases rounds with
  | zero => rfl
  | succ rounds =>
      rw [unwindFrom, unwindFrom, Function.update_self]
      have hchildren : (∀ c ∈ (kernels p).children.filter (· ≠ uid), some c = none)
          ↔ ∀ c ∈ (kernels p).children, some c = some uid := by
        constructor
        · intro h c hc
          by_contra hne
          have hmem : c ∈ (kernels p).children.filter (· ≠ uid) :=
            List.mem_filter.mpr ⟨hc, decide_eq_true fun heq => hne (congrArg some heq)⟩
          cases h c hmem
        · intro h c hc
          obtain ⟨hmem, hne⟩ := List.mem_filter.mp hc
          exact absurd (Option.some.inj (h c hmem)) (of_decide_eq_true hne)
      refine if_congr (and_congr_right fun _ => hchildren) ?_ rfl
      cases hp : (kernels p).parent with
      | none => rfl
      | some g =>
          have hlt := hparent p g hp
          exact congrArg (List.cons p) (unwindFrom_congr hparent rounds (some p) fun u hle =>
            Function.update_of_ne (by omega) _ _)

theorem unwindFrom_none (rounds uid : ℕ) : unwindFrom kernels (rounds + 1) none uid
    = if (kernels uid).isFinished = true then
        uid :: match (kernels uid).parent with
          | none => []
          | some parent => unwindFrom kernels rounds (some uid) parent
      else [] := by
  rw [unwindFrom]
  refine if_congr ?_ rfl rfl
  rw [KernelInfo.isFinished, Bool.and_eq_true]
  refine and_congr_right fun _ => ?_
  cases (kernels uid).children with
  | nil => exact iff_of_true (fun c hc => absurd hc List.not_mem_nil) rfl
  | cons c rest => exact iff_of_false (fun h => by cases h c List.mem_cons_self) (by rintro ⟨⟩)

/-! ## One kernel -/

namespace StreamManager

theorem Sound.recordNextDone (h : s.Sound waiting) (hgrid : s.gridIdToStream uid = some sid) :
    ∃ t : CUstream, s.recordNextDone sid = .ok (s.setStream sid t) ∧
      t.operations = (s.stream sid).operations.tail ∧ t.pending = false ∧ t.InOrder := by
  obtain ⟨t, hdone, hops, hidle, hinOrder⟩ :=
    (h.queues.inOrder sid).recordNextDone (h.queues.front hgrid).1
  refine ⟨t, ?_, hops, hidle, hinOrder⟩
  rw [StreamManager.recordNextDone, hdone]
  rfl

theorem Sound.retire (h : s.Sound waiting) (hgrid : s.gridIdToStream uid = some sid)
    (hfinished : (s.kernels uid).isFinished = true) {t : CUstream}
    (hops : t.operations = (s.stream sid).operations.tail) (hidle : t.pending = false)
    (hinOrder : t.InOrder) (hparent : ∀ u, (kernels' u).parent = (s.kernels u).parent)
    (hdone : ∀ u, (kernels' u).done = (s.kernels u).done)
    (hchildren : ∀ p c, c ∈ (kernels' p).children ↔ c ∈ (s.kernels p).children ∧ c ≠ uid) :
    ({ s with
      stream := Function.update s.stream sid t
      gridIdToStream := Function.update s.gridIdToStream uid none
      kernels := kernels'
      retired := uid :: s.retired } : StreamManager).Sound waiting := by
  obtain ⟨hover, hempty⟩ := (Bool.and_eq_true _ _).mp hfinished
  have hnone : (s.kernels uid).children = [] := List.isEmpty_iff.mp hempty
  obtain ⟨hlt, hnot⟩ := h.queues.not_retired hgrid
  have hhead := (h.queues.front hgrid).2
  have hpos := CUstream.launches_pos_of_head hhead
  have hleft : ∀ sid', (Function.update s.stream sid t sid').launches uid = 0 := by
    intro sid'
    by_cases heq : sid' = sid
    · have htail := CUstream.launches_tail hhead hops uid
      have honce := h.queues.once sid uid
      rw [if_pos rfl] at htail
      rw [heq, Function.update_self]
      omega
    · rw [Function.update_of_ne heq]
      by_contra hother
      exact heq (h.queues.unique sid' sid uid (Nat.pos_of_ne_zero hother) hpos)
  have hwaiting : waiting uid = 0 := by
    by_contra hwaits
    have hzero := (h.queues.waiting uid (Nat.pos_of_ne_zero hwaits)).2.2 sid
    omega
  constructor
  case family => exact h.family.retire hlt hnot hnone hparent hchildren
  case queues =>
    exact (h.queues.leave hgrid (CUstream.launches_tail_le hops) hidle hinOrder).retire hleft
      hwaiting
  case launched => exact h.launched.retire h.family hover hnone hparent hdone

/-- What stays when kernels are retired. -/
structure Unwound (s t : StreamManager) (uids : List ℕ) : Prop where
  frame : t = { s with
    stream := t.stream
    gridIdToStream := t.gridIdToStream
    kernels := t.kernels
    retired := uids.reverse ++ s.retired }
  operations : ∀ sid, (t.stream sid).operations <:+ (s.stream sid).operations
  ctaStreams : ∀ u, (t.kernels u).ctaStreams = (s.kernels u).ctaStreams
  parent : ∀ u, (t.kernels u).parent = (s.kernels u).parent

theorem Unwound.refl (s : StreamManager) : s.Unwound s [] where
  frame := rfl
  operations _ := List.suffix_rfl
  ctaStreams _ := rfl
  parent _ := rfl

theorem Unwound.trans {s t v : StreamManager} {uids uids' : List ℕ} (h : s.Unwound t uids)
    (h' : t.Unwound v uids') : s.Unwound v (uids ++ uids') where
  frame := by
    rw [h'.frame, h.frame]
    simp
  operations sid := (h'.operations sid).trans (h.operations sid)
  ctaStreams u := (h'.ctaStreams u).trans (h.ctaStreams u)
  parent u := (h'.parent u).trans (h.parent u)

theorem suffix_update {t : CUstream} (h : t.operations <:+ (s.stream sid).operations) (sid' : ℕ) :
    (Function.update s.stream sid t sid').operations <:+ (s.stream sid').operations := by
  by_cases heq : sid' = sid
  · rw [heq, Function.update_self]
    exact h
  · have hsame : Function.update s.stream sid t sid' = s.stream sid' :=
      Function.update_of_ne heq _ _
    exact hsame ▸ List.suffix_rfl

theorem Sound.registerFinishedKernel {rounds : ℕ} (h : s.Sound waiting) (hrounds : uid < rounds)
    (hgrid : s.gridIdToStream uid ≠ none) :
    ∃ t, StreamManager.registerFinishedKernel rounds uid s
        = .ok ((unwindFrom s.kernels rounds none uid).reverse, t) ∧
      t.Sound waiting ∧ s.Unwound t (unwindFrom s.kernels rounds none uid) ∧
      (Waits s.kernels s.finishedKernel s.gridIdToStream (some uid) →
        (∀ u ∈ unwindFrom s.kernels rounds none uid, u ∉ s.finishedKernel) →
        Waits t.kernels t.finishedKernel t.gridIdToStream none) := by
  induction rounds generalizing s uid with
  | zero => exact absurd hrounds (Nat.not_lt_zero _)
  | succ rounds ih =>
      obtain ⟨sid, hsid⟩ := Option.ne_none_iff_exists'.mp hgrid
      have hhead := (h.queues.front hsid).2
      rw [StreamManager.registerFinishedKernel, hsid]
      dsimp only
      rw [hhead]
      dsimp only
      rw [if_neg (not_not.mpr rfl), unwindFrom_none]
      by_cases hfinished : (s.kernels uid).isFinished = true
      · obtain ⟨t, hdone, hops, hidle, hinOrder⟩ := h.recordNextDone hsid
        obtain ⟨-, hempty⟩ := (Bool.and_eq_true _ _).mp hfinished
        rw [if_pos hfinished, if_pos hfinished, hdone]
        have hsuffix : ∀ sid', (Function.update s.stream sid t sid').operations
            <:+ (s.stream sid').operations := suffix_update (hops ▸ List.tail_suffix _)
        dsimp only [bind, Except.bind, StreamManager.setStream]
        cases hp : (s.kernels uid).parent with
        | none =>
            have hchildren : ∀ p c, c ∈ (s.kernels p).children ↔
                c ∈ (s.kernels p).children ∧ c ≠ uid := by
              intro p c
              refine (and_iff_left_of_imp fun hc => ?_).symm
              rintro rfl
              have hparent := ((h.family.children_iff p c).mp hc).1
              cases hp.symm.trans hparent
            refine ⟨_, rfl, h.retire hsid hfinished hops hidle hinOrder (fun _ => rfl)
              (fun _ => rfl)
              hchildren, ⟨rfl, hsuffix, fun _ => rfl, fun _ => rfl⟩, fun hwaits hout => ?_⟩
            exact hp ▸ hwaits.retire (hout uid List.mem_cons_self) (fun _ => rfl) fun _ _ => rfl
        | some p =>
            have hbelow := (h.family.parent_lt uid p hp).1
            have hnot := (h.queues.not_retired hsid).2
            have hmem : uid ∈ (s.kernels p).children := (h.family.children_iff p uid).mpr ⟨hp, hnot⟩
            let kernels := Function.update s.kernels p
              { s.kernels p with children := (s.kernels p).children.filter (· ≠ uid) }
            have hfield : ∀ {α : Type} (field : KernelInfo → α),
                (∀ k children, field { k with children := children } = field k) →
                ∀ u, field (kernels u) = field (s.kernels u) := by
              intro α field hignores u
              by_cases heq : u = p
              · rw [heq]
                exact (congrArg field (Function.update_self _ _ _)).trans (hignores _ _)
              · exact congrArg field (Function.update_of_ne heq _ _)
            have hchildren : ∀ p' c, c ∈ (kernels p').children ↔
                c ∈ (s.kernels p').children ∧ c ≠ uid := by
              intro p' c
              by_cases heq : p' = p
              · show c ∈ (Function.update s.kernels p _ p').children ↔ _
                rw [heq, Function.update_self, List.mem_filter, decide_eq_true_iff]
              · show c ∈ (Function.update s.kernels p _ p').children ↔ _
                rw [Function.update_of_ne heq]
                refine (and_iff_left_of_imp fun hc => ?_).symm
                rintro rfl
                have hparent := ((h.family.children_iff p' c).mp hc).1
                exact heq (Option.some.inj (hparent.symm.trans hp))
            have hnext := h.retire hsid hfinished hops hidle hinOrder
              (hfield KernelInfo.parent fun _ _ => rfl)
                (hfield KernelInfo.done fun _ _ => rfl) hchildren
            have hgridp : Function.update s.gridIdToStream uid none p ≠ none := by
              rw [Function.update_of_ne (Nat.ne_of_lt hbelow)]
              exact h.launched.parent uid p hp hnot
            obtain ⟨v, hregister, hsound, hunwound, hwaits⟩ := ih hnext
              (Nat.lt_of_lt_of_le hbelow (Nat.le_of_lt_succ hrounds)) hgridp
            have hparents : ∀ c p, (s.kernels c).parent = some p → p < c := fun c p hc =>
              (h.family.parent_lt c p hc).1
            have hsame : unwindFrom kernels rounds none p =
                unwindFrom s.kernels rounds (some uid) p :=
              unwindFrom_removeChild hparents rounds p uid
            rw [hsame] at hregister hunwound hwaits
            dsimp only
            rw [removeChild, if_pos hmem]
            dsimp only
            rw [hregister]
            refine ⟨v, ?_, hsound, ?_, fun hold hout => ?_⟩
            · show Except.ok (_ ++ [uid], v) = _
              rw [List.reverse_cons]
            · show s.Unwound v ([uid] ++ _)
              refine Unwound.trans ?_ hunwound
              exact ⟨rfl, hsuffix, hfield KernelInfo.ctaStreams fun _ _ => rfl,
                hfield KernelInfo.parent fun _ _ => rfl⟩
            · refine hwaits ?_ fun u hu => hout u (List.mem_cons_of_mem _ hu)
              rw [← hp]
              refine hold.retire (hout uid List.mem_cons_self)
                (hfield KernelInfo.done fun _ _ => rfl)
                fun u hne => ?_
              have hother : u ≠ p := by
                rintro rfl
                exact hne hp
              exact congrArg KernelInfo.children (Function.update_of_ne hother _ _)
      · have hnot := (Bool.not_eq_true _).mp hfinished
        rw [if_neg hfinished, if_neg hfinished]
        exact ⟨s, rfl, h, .refl s, fun hwaits _ => hwaits.of_not_finished hnot⟩

end StreamManager

end GpuCalorie.Streams
