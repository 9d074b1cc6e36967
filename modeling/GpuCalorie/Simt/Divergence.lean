/-
# Divergence

A branch whose lanes go different ways splits the top entry into one entry for each way
that does not lead straight to the reconvergence PC. The new entries stand for members of
a new divergence over the entry that waits for them, or take the place of the top entry
in the divergence it is a member of.
-/

import GpuCalorie.Simt.Regular

namespace GpuCalorie.Simt

open GpuCalorie.Hardware GpuCalorie.Math

variable {prog : WarpProgram} {n : ℕ} {thread thread' : ℕ → Thread} {pred : ℕ → Bool}
  {T e : Frame} {s : List Frame} {i : ℕ} {p q r target : UInt32} {kind : FrameKind}
  {paths : List Path}

/-- The lanes of the top frame that are not done went different ways, within their
function. -/
structure SplitsInto (n : ℕ) (thread' : ℕ → Thread) (T : Frame) (paths : List Path) : Prop where
  disjoint : paths.Pairwise fun a b => Disjoint a.2 b.2
  mask : ∀ path ∈ paths, path.2 ⊆ T.mask
  live : ∀ path ∈ paths, ∃ i ∈ path.2, i ∈ liveThreads n thread'
  cover : ∀ i ∈ liveThreads n thread', i ∈ T.mask → ∃ path ∈ paths, i ∈ path.2
  pc : ∀ path ∈ paths, ∀ i ∈ path.2, (thread' i).pc = path.1
  callstack : ∀ i ∈ T.mask, (thread' i).callstack = T.callstack
  apart : ∃ a ∈ paths, ∃ b ∈ paths, a.1 ≠ b.1

/-! ## The frames of a divergence -/

/-- The frames for the entries of a divergence. -/
def divergedFrames (T : Frame) (kind : FrameKind) (r : UInt32) (paths : List Path) : List Frame :=
  (paths.filter fun path => path.1 ≠ r).map fun path => ⟨divergedEntry r path, kind, T.callstack⟩

theorem mem_divergedFrames : e ∈ divergedFrames T kind r paths ↔
    ∃ path ∈ paths, path.1 ≠ r ∧ e = ⟨divergedEntry r path, kind, T.callstack⟩ := by
  rw [divergedFrames, List.mem_map]
  constructor
  · rintro ⟨path, hpath, rfl⟩
    obtain ⟨hmem, hne⟩ := List.mem_filter.mp hpath
    exact ⟨path, hmem, by simpa using hne, rfl⟩
  · rintro ⟨path, hmem, hne, rfl⟩
    exact ⟨path, List.mem_filter.mpr ⟨hmem, by simpa using hne⟩, rfl⟩

theorem map_entry_divergedFrames : (divergedFrames T kind r paths).map Frame.entry =
    (paths.filter fun path => path.1 ≠ r).map (divergedEntry r) := by
  rw [divergedFrames, List.map_map]
  rfl

namespace SplitsInto

variable (h : SplitsInto n thread' T paths)
include h

theorem frames_disjoint (kind : FrameKind) (r : UInt32) :
    (divergedFrames T kind r paths).Pairwise fun e e' => Disjoint e.mask e'.mask := by
  rw [divergedFrames, List.pairwise_map]
  exact h.disjoint.filter _

theorem frames_mask : ∀ e ∈ divergedFrames T kind r paths, e.mask ⊆ T.mask := by
  intro e he
  obtain ⟨path, hpath, -, rfl⟩ := mem_divergedFrames.mp he
  exact h.mask path hpath

theorem frames_live : ∀ e ∈ divergedFrames T kind r paths,
    ∃ i ∈ e.mask, i ∈ liveThreads n thread' := by
  intro e he
  obtain ⟨path, hpath, -, rfl⟩ := mem_divergedFrames.mp he
  exact h.live path hpath

theorem frames_at (hi : i ∈ liveThreads n thread') (hiT : i ∈ T.mask) :
    (∃ e ∈ divergedFrames T kind r paths, i ∈ e.mask ∧ e.At (thread' i)) ∨
      ((∀ e ∈ divergedFrames T kind r paths, i ∉ e.mask) ∧ (thread' i).pc = r ∧
        (thread' i).callstack = T.callstack) := by
  obtain ⟨path, hpath, hip⟩ := h.cover i hi hiT
  have hpc := h.pc path hpath i hip
  by_cases hr : path.1 = r
  · refine .inr ⟨fun e he hie => ?_, hpc.trans hr, h.callstack i hiT⟩
    obtain ⟨other, hother, hne, rfl⟩ := mem_divergedFrames.mp he
    exact hne ((h.pc other hother i hie).symm.trans (hpc.trans hr))
  · exact .inl ⟨_, mem_divergedFrames.mpr ⟨path, hpath, hr, rfl⟩, hip, hpc, h.callstack i hiT⟩

theorem frames_ne_nil : divergedFrames T kind r paths ≠ [] := by
  obtain ⟨a, ha, b, hb, hne⟩ := h.apart
  by_cases har : a.1 = r
  · have hbr : b.1 ≠ r := fun hbr => hne (har.trans hbr.symm)
    exact List.ne_nil_of_mem (mem_divergedFrames.mpr ⟨b, hb, hbr, rfl⟩)
  · exact List.ne_nil_of_mem (mem_divergedFrames.mpr ⟨a, ha, har, rfl⟩)

theorem exists_live : ∃ i ∈ T.mask, i ∈ liveThreads n thread' := by
  obtain ⟨a, ha, -⟩ := h.apart
  obtain ⟨i, hi, hil⟩ := h.live a ha
  exact ⟨i, h.mask a ha hi, hil⟩

theorem settled_diverge (tracks : Tracks prog n thread (T :: s))
    (hm : Moved n T.mask thread thread') (hlive : liveThreads n thread' = liveThreads n thread)
    (hr : r ≠ nullPc) (hrT : r ≠ T.entry.recvgPc)
    (hTmeets : T.kind = .reconverging → prog.Meets T.entry.recvgPc r)
    (hkind : (T.kind = .base ∧ T.callstack.headD 0 = r ∧ kind = .returning) ∨
      (kind = .reconverging ∧ ∀ path ∈ paths, path.1 ≠ r → prog.Meets r path.1)) :
    Settled prog n thread' (diverged r paths T.entry (s.map Frame.entry)) := by
  refine .inl ⟨divergedFrames T kind r paths ++ T.advance r T.mask T.callstack :: s, ?_, ?_⟩
  · rw [List.map_append, map_entry_divergedFrames, diverged, if_neg hrT]
    rfl
  · apply tracks.diverge (divergedFrames T kind r paths) r hm hlive hr hrT.symm hTmeets
    · intro e he
      obtain ⟨path, -, -, rfl⟩ := mem_divergedFrames.mp he
      rfl
    · intro e he
      obtain ⟨path, -, -, rfl⟩ := mem_divergedFrames.mp he
      rfl
    · exact h.frames_mask
    · exact h.frames_ne_nil
    · exact h.frames_disjoint kind r
    · intro e he
      obtain ⟨path, -, -, rfl⟩ := mem_divergedFrames.mp he
      rfl
    · refine hkind.imp (fun hret => ⟨hret.1, hret.2.1, fun e he => ?_⟩) fun hrec e he => ?_
      · obtain ⟨path, -, -, rfl⟩ := mem_divergedFrames.mp he
        exact hret.2.2
      · obtain ⟨path, hpath, hne, rfl⟩ := mem_divergedFrames.mp he
        exact ⟨hrec.1, hrec.2 path hpath hne⟩
    · exact fun i hi hiT => h.frames_at hi hiT
    · exact h.frames_live
    · exact h.exists_live

theorem settled_regroup (tracks : Tracks prog n thread (T :: s))
    (hm : Moved n T.mask thread thread')
    (hkind : T.kind = .returning ∨ T.kind = .reconverging)
    (hmeets : T.kind = .reconverging → ∀ path ∈ paths, path.1 ≠ T.entry.recvgPc →
      prog.Meets T.entry.recvgPc path.1)
    (hjoin : (∃ i ∈ T.mask, i ∈ liveThreads n thread' ∧ (thread' i).pc = T.entry.recvgPc) →
      Joins n thread T s T.callstack) :
    Settled prog n thread' (diverged T.entry.recvgPc paths T.entry (s.map Frame.entry)) := by
  -- where no lane joins the parent, any call stack will do for it
  obtain ⟨cs, hcsjoin, hcsrec, hcs⟩ : ∃ cs, Joins n thread T s cs ∧
      (T.kind = .reconverging → cs = T.callstack) ∧
      ((∃ i ∈ T.mask, i ∈ liveThreads n thread' ∧ (thread' i).pc = T.entry.recvgPc) →
        cs = T.callstack) := by
    by_cases hsome :
        ∃ i ∈ T.mask, i ∈ liveThreads n thread' ∧ (thread' i).pc = T.entry.recvgPc
    · exact ⟨T.callstack, hjoin hsome, fun _ => rfl, fun _ => rfl⟩
    · obtain ⟨cs, hcsjoin, hcsrec⟩ := tracks.exists_joins
      exact ⟨cs, hcsjoin, hcsrec, fun h => absurd h hsome⟩
  obtain ⟨s', hmap, htracks⟩ : ∃ s', s'.map Frame.entry = s.map Frame.entry ∧
      Tracks prog n thread' (divergedFrames T T.kind T.entry.recvgPc paths ++ s') := by
    refine tracks.regroup (divergedFrames T T.kind T.entry.recvgPc paths) hm hkind ?_ ?_
      h.frames_mask (h.frames_disjoint T.kind T.entry.recvgPc) ?_ ?_ ?_ h.frames_live
      h.exists_live hcsjoin hcsrec
    · intro e he
      obtain ⟨path, -, -, rfl⟩ := mem_divergedFrames.mp he
      rfl
    · intro e he
      obtain ⟨path, -, -, rfl⟩ := mem_divergedFrames.mp he
      rfl
    · intro e he
      obtain ⟨path, -, -, rfl⟩ := mem_divergedFrames.mp he
      exact ⟨rfl, rfl⟩
    · intro hrec e he
      obtain ⟨path, hpath, hne, rfl⟩ := mem_divergedFrames.mp he
      exact hmeets hrec path hpath hne
    · intro i hi hiT
      refine (h.frames_at hi hiT).imp_right fun ⟨hnot, hpc, hcallstack⟩ => ⟨hnot, hpc, ?_⟩
      rw [hcs ⟨i, hiT, hi, hpc⟩]
      exact hcallstack
  refine .inl ⟨_, ?_, htracks⟩
  rw [List.map_append, map_entry_divergedFrames, hmap, diverged, if_pos rfl]

end SplitsInto

/-! ## Where the lanes of a branch meet -/

theorem convergePc_congr (inst : Instruction) (hdone : ∀ i, (thread' i).done = (thread i).done)
    (hcs : ∀ i, (thread' i).callstack = (thread i).callstack) :
    convergePc n thread' inst = convergePc n thread inst := by
  simp only [convergePc, Thread.returnPc, hdone, hcs]

namespace RegularExecuting

variable (ex : RegularExecuting prog n thread pred T s)
include ex

section

variable (hinst : (prog.instruction T.entry.pc).controlFlow = .bra target)
include hinst

theorem bra_lane (hi : i ∈ T.mask) : ∃ p, (p = target ∨ p = prog.fallThrough T.entry.pc) ∧
      flow prog.instruction (some T.entry.pc) (some p) ∧
      execMask prog T.entry.pc T.mask pred thread i = { thread i with pc := p } := by
  cases hexec : (prog.instruction T.entry.pc).executes (pred i) with
  | true =>
      refine ⟨target, .inl rfl, by simp [flow, hinst], ?_⟩
      rw [ex.exec_executed hi hexec, hinst]
  | false => exact ⟨_, .inr rfl, flow_fallThrough hexec, ex.exec_skipped hi hexec⟩

theorem bra_keeps (i : ℕ) : (execMask prog T.entry.pc T.mask pred thread i).done = (thread i).done ∧
      (execMask prog T.entry.pc T.mask pred thread i).callstack = (thread i).callstack := by
  by_cases hi : i ∈ T.mask
  · obtain ⟨p, -, -, hlane⟩ := ex.bra_lane hinst hi
    rw [hlane]
    exact ⟨rfl, rfl⟩
  · rw [execMask, if_neg hi]
    exact ⟨rfl, rfl⟩

theorem bra_live :
    liveThreads n (execMask prog T.entry.pc T.mask pred thread) = liveThreads n thread := by
  ext i
  rw [mem_liveThreads, mem_liveThreads, (ex.bra_keeps hinst i).1]

theorem updateOk_braTogether
    (htogether : ¬ Splits (execMask prog T.entry.pc T.mask pred thread) T.mask) :
    UpdateOk prog n (execMask prog T.entry.pc T.mask pred thread) T s := by
  obtain ⟨j, hj⟩ := ex.nonempty
  obtain ⟨p, -, hflow, hlane⟩ := ex.bra_lane hinst hj
  have hat : ∀ i ∈ liveThreads n (execMask prog T.entry.pc T.mask pred thread), i ∈ T.mask →
      (execMask prog T.entry.pc T.mask pred thread i).pc = p ∧
        (execMask prog T.entry.pc T.mask pred thread i).callstack = T.callstack := by
    intro i _ hi
    refine ⟨?_, (ex.bra_keeps hinst i).2.trans (ex.at_top hi).2⟩
    by_contra hne
    refine htogether ⟨i, hi, j, hj, ?_⟩
    rw [hlane]
    exact hne
  refine ex.updateOk_one (by simp [Instruction.op, hinst]) (by simp [hinst]) hat
    (fun _ => .inl rfl) (fun _ => hflow) fun _ => ⟨j, hj, ?_⟩
  rw [ex.bra_live hinst]
  exact ex.live hj

variable (hsplits : Splits (execMask prog T.entry.pc T.mask pred thread) T.mask)
include hsplits

theorem bra_meets : ∃ r, convergePc n thread (prog.instruction T.entry.pc) = r ∧ Aligned r ∧
      ((prog.Meets r T.entry.pc ∧
          (T.kind = .reconverging → r = T.entry.recvgPc ∨ prog.Meets T.entry.recvgPc r)) ∨
        (r = T.callstack.headD 0 ∧ (T.kind = .base ∨ T.kind = .returning))) := by
  obtain ⟨v, ⟨hstrict, hclosest⟩, hpc⟩ := prog.reconverges _ _ hinst
  cases v with
  | some r =>
      obtain ⟨path, hpath⟩ := prog.reaches _ _ hinst
      have haligned : Aligned r :=
        prog.aligned_of_pathTo ex.aligned_pc hpath (hstrict.2 path hpath)
      refine ⟨r, ?_, haligned, .inl ⟨hstrict, fun hkind => ?_⟩⟩
      · rw [convergePc, hpc, Option.getD_some, if_neg haligned.ne_reconvergeReturnPc]
      · have hmeets := hclosest _ (ex.tracks.sound.meets hkind)
        exact hmeets.eq_or_strictly.imp_left fun heq => (Option.some.inj heq).symm
  | none =>
      obtain ⟨hreturn, hconverged⟩ := ex.regular.returnPc target hinst hpc hsplits
      obtain ⟨j, hj⟩ := ex.nonempty
      have hhead : convergePc n thread (prog.instruction T.entry.pc) = T.callstack.headD 0 := by
        rw [← hreturn j hj, Thread.returnPc, (ex.at_top hj).2]
      refine ⟨T.callstack.headD 0, hhead, ?_, .inr ⟨rfl, ?_⟩⟩
      · rw [← (ex.at_top hj).2]
        exact (ex.wellFormed j).returnPc
      · cases ex.tracks.sound.under with
        | launched kind => exact .inl kind
        | baseCall _ _ kind => exact .inl kind
        | call _ _ _ type =>
            exact .inl (ex.tracks.sound.kind_of_converged (hconverged type))
        | returning _ _ _ kind => exact .inr (kind T List.mem_cons_self)
        | reconverging _ _ kind =>
            -- the end of the function has no post-dominator but itself
            have hmeets := hclosest _ (ex.tracks.sound.meets (kind T List.mem_cons_self))
            cases postdominates_exit_iff.mp hmeets

omit hsplits in
omit hinst in
theorem member_of_recvgPc (hr : T.entry.recvgPc ≠ nullPc) :
    T.kind = .returning ∨ T.kind = .reconverging := by
  rcases ex.tracks.sound.base_or_calling_or_member with hkind | ⟨hkind, -⟩
  · exact absurd (ex.tracks.sound.recvgPc_eq_null hkind) hr
  · exact hkind

theorem settled_split (hpaths : SplitsInto n (execMask prog T.entry.pc T.mask pred thread) T paths)
    (hflow : ∀ path ∈ paths, flow prog.instruction (some T.entry.pc) (some path.1)) :
    Settled prog n (execMask prog T.entry.pc T.mask pred thread)
      (diverged (convergePc n thread (prog.instruction T.entry.pc)) paths T.entry
        (s.map Frame.entry)) := by
  obtain ⟨r, hr, haligned, hmeets⟩ := ex.bra_meets hinst hsplits
  rw [hr]
  have hnull : r ≠ nullPc := haligned.ne_nullPc
  by_cases hrT : r = T.entry.recvgPc
  · -- the lanes meet where the top entry reconverges anyway
    have hmember := ex.member_of_recvgPc (hrT ▸ hnull)
    rw [hrT]
    apply hpaths.settled_regroup ex.tracks ex.moved hmember
    · intro hkind path hpath hne
      rcases hmeets with ⟨hstrict, -⟩ | ⟨-, hbase | hreturning⟩
      · exact (hrT ▸ hstrict.of_flow (hflow path hpath)).resolve_left hne
      · rw [hkind] at hbase
        cases hbase
      · rw [hkind] at hreturning
        cases hreturning
    · rintro ⟨j, hj, hjl, hjpc⟩ hkind i hi k hk hkT htop
      have htype : T.entry.type = .normal := by
        rcases ex.tracks.sound.base_or_calling_or_member with hother | ⟨-, htype⟩
        · simp [hkind] at hother
        · exact htype
      rw [← hpaths.callstack j hj]
      refine ex.regular.join T.entry (s.map Frame.entry) (if_neg (by simp [hinst])) htype j hj
        (mem_liveThreads.mp hjl).2 hjpc k hk hkT ?_
      rw [topmost_map_entry, topmost_map_entry, htop, ex.tracks.sound.topFrame_eq hkind hi hj]
  · have hlive := ex.bra_live hinst
    have hreconverging : prog.Meets r T.entry.pc →
        (T.kind = .reconverging → prog.Meets T.entry.recvgPc r) →
        Settled prog n (execMask prog T.entry.pc T.mask pred thread)
          (diverged r paths T.entry (s.map Frame.entry)) := fun hstrict hTmeets =>
      hpaths.settled_diverge ex.tracks ex.moved hlive hnull hrT hTmeets
        (.inr ⟨rfl, fun path hpath hne =>
          (hstrict.of_flow (hflow path hpath)).resolve_left hne⟩)
    rcases hmeets with ⟨hstrict, hTmeets⟩ | ⟨hhead, hbase | hreturning⟩
    · exact hreconverging hstrict fun hkind => (hTmeets hkind).resolve_left hrT
    · exact hpaths.settled_diverge ex.tracks ex.moved hlive hnull hrT
        (fun hkind => by simp [hbase] at hkind) (.inl ⟨hbase, hhead.symm, rfl⟩)
    · exact absurd (hhead.trans (ex.tracks.sound.returnPc_eq hreturning)) hrT

omit hsplits in
theorem splitsInto_pair (hpq : p ≠ q)
    (hp : ∃ i ∈ T.mask, (execMask prog T.entry.pc T.mask pred thread i).pc = p)
    (hq : ∃ i ∈ T.mask, (execMask prog T.entry.pc T.mask pred thread i).pc = q)
    (hall : ∀ i ∈ T.mask, (execMask prog T.entry.pc T.mask pred thread i).pc = p ∨
      (execMask prog T.entry.pc T.mask pred thread i).pc = q) :
    SplitsInto n (execMask prog T.entry.pc T.mask pred thread) T
      [(p, lanesTo (fun i => (execMask prog T.entry.pc T.mask pred thread i).done)
          (nextPcs (execMask prog T.entry.pc T.mask pred thread)) T.mask p),
        (q, lanesTo (fun i => (execMask prog T.entry.pc T.mask pred thread i).done)
          (nextPcs (execMask prog T.entry.pc T.mask pred thread)) T.mask q)] := by
  have hmem : ∀ x i, i ∈ lanesTo (fun i => (execMask prog T.entry.pc T.mask pred thread i).done)
      (nextPcs (execMask prog T.entry.pc T.mask pred thread)) T.mask x ↔
        i ∈ T.mask ∧ (execMask prog T.entry.pc T.mask pred thread i).pc = x := by
    intro x i
    rw [mem_lanesTo]
    constructor
    · rintro ⟨hi, hdone, hx⟩
      rw [nextPcs, hdone] at hx
      exact ⟨hi, hx⟩
    · rintro ⟨hi, hx⟩
      have hdone := (ex.bra_keeps hinst i).1.trans (ex.not_done hi)
      refine ⟨hi, hdone, ?_⟩
      rw [nextPcs, hdone]
      exact hx
  have hlane : ∀ x, (∃ i ∈ T.mask, (execMask prog T.entry.pc T.mask pred thread i).pc = x) →
      ∃ i ∈ lanesTo (fun i => (execMask prog T.entry.pc T.mask pred thread i).done)
        (nextPcs (execMask prog T.entry.pc T.mask pred thread)) T.mask x,
        i ∈ liveThreads n (execMask prog T.entry.pc T.mask pred thread) := by
    rintro x ⟨i, hi, hx⟩
    refine ⟨i, (hmem x i).mpr ⟨hi, hx⟩, ?_⟩
    rw [ex.bra_live hinst]
    exact ex.live hi
  constructor
  case disjoint =>
    apply List.pairwise_pair.mpr
    apply Finset.disjoint_left.mpr
    intro i hip hiq
    exact hpq (((hmem p i).mp hip).2.symm.trans ((hmem q i).mp hiq).2)
  case mask =>
    intro path hpath i hi
    rcases List.mem_pair.mp hpath with rfl | rfl
    · exact ((hmem p i).mp hi).1
    · exact ((hmem q i).mp hi).1
  case live =>
    intro path hpath
    rcases List.mem_pair.mp hpath with rfl | rfl
    · exact hlane p hp
    · exact hlane q hq
  case cover =>
    intro i _ hi
    rcases hall i hi with hip | hiq
    · exact ⟨_, List.mem_cons_self, (hmem p i).mpr ⟨hi, hip⟩⟩
    · exact ⟨_, List.mem_cons_of_mem _ List.mem_cons_self, (hmem q i).mpr ⟨hi, hiq⟩⟩
  case pc =>
    intro path hpath i hi
    rcases List.mem_pair.mp hpath with rfl | rfl
    · exact ((hmem p i).mp hi).2
    · exact ((hmem q i).mp hi).2
  case callstack => exact fun i hi => (ex.bra_keeps hinst i).2.trans (ex.at_top hi).2
  case apart => exact ⟨_, List.mem_cons_self, _, List.mem_cons_of_mem _ List.mem_cons_self, hpq⟩

theorem updateOk_braSplit : UpdateOk prog n (execMask prog T.entry.pc T.mask pred thread) T s := by
  obtain ⟨i, hi, j, hj, hij⟩ := hsplits
  obtain ⟨p, hp, hpflow, hilane⟩ := ex.bra_lane hinst hi
  obtain ⟨q, hq, hqflow, hjlane⟩ := ex.bra_lane hinst hj
  have hip : (execMask prog T.entry.pc T.mask pred thread i).pc = p := by rw [hilane]
  have hjq : (execMask prog T.entry.pc T.mask pred thread j).pc = q := by rw [hjlane]
  have hpq : p ≠ q := by
    rw [hip, hjq] at hij
    exact hij
  have hall : ∀ k ∈ T.mask, (execMask prog T.entry.pc T.mask pred thread k).pc = p ∨
      (execMask prog T.entry.pc T.mask pred thread k).pc = q := by
    intro k hk
    obtain ⟨x, hx, -, hklane⟩ := ex.bra_lane hinst hk
    rw [hklane]
    show x = p ∨ x = q
    rcases hp with rfl | rfl
    · rcases hq with rfl | rfl
      · exact absurd rfl hpq
      · exact hx
    · rcases hq with rfl | rfl
      · exact hx.symm
      · exact absurd rfl hpq
  have hall' : ∀ k ∈ T.mask, (execMask prog T.entry.pc T.mask pred thread k).pc = q ∨
      (execMask prog T.entry.pc T.mask pred thread k).pc = p := fun k hk => (hall k hk).symm
  have hsplits : Splits (execMask prog T.entry.pc T.mask pred thread) T.mask :=
    ⟨i, hi, j, hj, hij⟩
  have hpaths := ex.splitsInto_pair hinst hpq ⟨i, hi, hip⟩ ⟨j, hj, hjq⟩ hall
  have hpaths' := ex.splitsInto_pair hinst hpq.symm ⟨j, hj, hjq⟩ ⟨i, hi, hip⟩ hall'
  have hconverge : convergePc n (execMask prog T.entry.pc T.mask pred thread)
      (prog.instruction T.entry.pc) = convergePc n thread (prog.instruction T.entry.pc) :=
    convergePc_congr _ (fun i => (ex.bra_keeps hinst i).1) fun i => (ex.bra_keeps hinst i).2
  obtain ⟨r, hr, haligned, -⟩ := ex.bra_meets hinst hsplits
  have hcall : T.entry.type = .call → convergePc n
      (execMask prog T.entry.pc T.mask pred thread) (prog.instruction T.entry.pc) ≠
        T.entry.recvgPc := by
    intro htype
    rw [hconverge, hr, ex.tracks.sound.recvgPc_eq_null (ex.base_or_calling htype)]
    exact haligned.ne_nullPc
  have hshared : T.entry.type = .normal → p = T.entry.recvgPc ∨ q = T.entry.recvgPc →
      convergePc n (execMask prog T.entry.pc T.mask pred thread)
        (prog.instruction T.entry.pc) = T.entry.recvgPc := by
    intro htype hor
    rw [hconverge]
    apply ex.regular.target target hinst hsplits htype
    rcases hor with heq | heq
    · exact ⟨i, hi, hip.trans heq⟩
    · exact ⟨j, hj, hjq.trans heq⟩
  have hnextp : (lanesTo (fun i => (execMask prog T.entry.pc T.mask pred thread i).done)
      (nextPcs (execMask prog T.entry.pc T.mask pred thread)) T.mask p).Nonempty := by
    obtain ⟨k, hk, -⟩ := hpaths.live _ List.mem_cons_self
    exact ⟨k, hk⟩
  have hnextq : (lanesTo (fun i => (execMask prog T.entry.pc T.mask pred thread i).done)
      (nextPcs (execMask prog T.entry.pc T.mask pred thread)) T.mask q).Nonempty := by
    obtain ⟨k, hk, -⟩ := hpaths'.live _ List.mem_cons_self
    exact ⟨k, hk⟩
  have hnext : ∀ k ∈ liveLanes (fun i => (execMask prog T.entry.pc T.mask pred thread i).done)
      T.entry.activeMask, nextPcs (execMask prog T.entry.pc T.mask pred thread) k = p ∨
        nextPcs (execMask prog T.entry.pc T.mask pred thread) k = q := by
    intro k hk
    obtain ⟨hkT, hdone⟩ := mem_liveLanes.mp hk
    rw [nextPcs, hdone]
    exact hall k hkT
  have hcallOp : (prog.instruction T.entry.pc).op ≠ .callOps := by simp [Instruction.op, hinst]
  have hretOp : (prog.instruction T.entry.pc).op ≠ .retOps := by simp [Instruction.op, hinst]
  have hwf : ∀ i, (execMask prog T.entry.pc T.mask pred thread i).WellFormed :=
    ex.wellFormed_execMask
  have hup := ex.updatable hwf
    ⟨(prog.instruction T.entry.pc).op, (prog.instruction T.entry.pc).isize, T.entry.pc,
      convergePc n (execMask prog T.entry.pc T.mask pred thread)
        (prog.instruction T.entry.pc)⟩ rfl
  rcases hup.update_diverge hpq hnextp hnextq hnext hcallOp hretOp hcall
    hshared with hupdate | hupdate
  · refine ⟨_, hupdate, ?_⟩
    rw [hconverge]
    apply ex.settled_split hinst hsplits hpaths
    intro path hpath
    rcases List.mem_pair.mp hpath with rfl | rfl
    · exact hpflow
    · exact hqflow
  · refine ⟨_, hupdate, ?_⟩
    rw [hconverge]
    apply ex.settled_split hinst hsplits hpaths'
    intro path hpath
    rcases List.mem_pair.mp hpath with rfl | rfl
    · exact hqflow
    · exact hpflow

end

theorem updateOk : UpdateOk prog n (execMask prog T.entry.pc T.mask pred thread) T s := by
  cases hinst : (prog.instruction T.entry.pc).controlFlow with
  | bra target =>
      by_cases hsplits : Splits (execMask prog T.entry.pc T.mask pred thread) T.mask
      · exact ex.updateOk_braSplit hinst hsplits
      · exact ex.updateOk_braTogether hinst hsplits
  | call target => exact ex.updateOk_call hinst
  | ret => exact ex.updateOk_ret hinst
  | exit => exact ex.updateOk_exit hinst
  | other => exact ex.updateOk_other hinst

end RegularExecuting

end GpuCalorie.Simt
