/-
# Kernels in slots

A kernel that was launched has a slot of its own until it is done, and is in
`m_finished_kernel` once from then on. `select_kernel` leaves the kernel it chose last only
when that has no CTAs left, so that it chooses no kernel for the first time twice.
-/

import GpuCalorie.CtaDispatch.Gpu

namespace GpuCalorie.CtaDispatch

open GpuCalorie.Math

variable {cfg : GpuConfig} {n : ℕ}

theorem findSlot_eq_some {p : ℕ → Bool} (h : Gpu.findSlot cfg p = some n) :
    n < cfg.maxConcurrentKernel ∧ p n = true :=
  ⟨List.mem_range.mp (List.mem_of_find?_eq_some h), List.find?_some h⟩

theorem exists_findSlot {p : ℕ → Bool} (hn : n < cfg.maxConcurrentKernel) (hp : p n = true) :
    ∃ n', Gpu.findSlot cfg p = some n' := by
  rw [← Option.isSome_iff_exists, Gpu.findSlot, List.find?_isSome]
  exact ⟨n, List.mem_range.mpr hn, hp⟩

/-- What holds of the slots, for kernels that are done as told. -/
structure InSlots (cfg : GpuConfig) (done : ℕ → Bool) (launched : List ℕ)
    (runningKernels : ℕ → Option ℕ) (finishedKernel : List ℕ) : Prop where
  slot : ∀ n uid, runningKernels n = some uid →
    n < cfg.maxConcurrentKernel ∧ uid ∈ launched ∧ done uid = false
  slot_inj : ∀ n n' uid, runningKernels n = some uid → runningKernels n' = some uid → n = n'
  inSlot : ∀ uid ∈ launched, done uid = false → ∃ n, runningKernels n = some uid
  finished : ∀ uid, finishedKernel.count uid = if uid ∈ launched ∧ done uid = true then 1 else 0

/-- What holds of the kernels that were chosen. -/
structure Selected (cfg : GpuConfig) (kernels : ℕ → KernelInfo) (runningKernels : ℕ → Option ℕ)
    (lastIssuedKernel : ℕ) (executedKernelUids : List ℕ) : Prop where
  last_lt : lastIssuedKernel < cfg.maxConcurrentKernel
  executed : ∀ uid ∈ executedKernelUids, (kernels uid).tbLatency = 0 ∧
    ((kernels uid).noMoreCtasToRun = false → runningKernels lastIssuedKernel = some uid)

variable {done : ℕ → Bool} {launched finishedKernel executedKernelUids : List ℕ}
  {runningKernels : ℕ → Option ℕ} {kernels : ℕ → KernelInfo} {lastIssuedKernel : ℕ} {n uid : ℕ}

namespace InSlots

theorem init (cfg : GpuConfig) (done : ℕ → Bool) : InSlots cfg done [] (fun _ => none) [] where
  slot _ _ h := nomatch h
  slot_inj _ _ _ h := nomatch h
  inSlot _ h := nomatch h
  finished _ := rfl

theorem eq_none_of_free {s : Gpu}
    (h : InSlots cfg (fun uid => (s.kernels uid).done) launched s.runningKernels finishedKernel)
    (hfree : s.slotFree n = true) : s.runningKernels n = none := by
  rw [Gpu.slotFree] at hfree
  cases hrunning : s.runningKernels n with
  | none => rfl
  | some uid =>
      rw [hrunning] at hfree
      have hbusy := (h.slot n uid hrunning).2.2
      exact Bool.noConfusion (hbusy.symm.trans hfree)

variable (h : InSlots cfg done launched runningKernels finishedKernel)
include h

theorem launch
    (hn : n < cfg.maxConcurrentKernel) (hfree : runningKernels n = none) (hnew : uid ∉ launched)
    (hmore : done uid = false) :
    InSlots cfg done (uid :: launched) (Function.update runningKernels n (some uid))
      finishedKernel where
  slot n' uid' hslot := by
    rw [Function.update_apply] at hslot
    split_ifs at hslot with heq
    · cases hslot
      exact ⟨heq ▸ hn, List.mem_cons_self, hmore⟩
    · obtain ⟨hlt, hmem, hbusy⟩ := h.slot n' uid' hslot
      exact ⟨hlt, List.mem_cons_of_mem _ hmem, hbusy⟩
  slot_inj n₁ n₂ uid' h₁ h₂ := by
    rw [Function.update_apply] at h₁ h₂
    split_ifs at h₁ with heq₁ <;> split_ifs at h₂ with heq₂
    · rw [heq₁, heq₂]
    · cases h₁
      exact absurd (h.slot n₂ uid h₂).2.1 hnew
    · cases h₂
      exact absurd (h.slot n₁ uid h₁).2.1 hnew
    · exact h.slot_inj n₁ n₂ uid' h₁ h₂
  inSlot uid' hmem hbusy := by
    rcases List.mem_cons.mp hmem with rfl | hold
    · exact ⟨n, Function.update_self _ _ _⟩
    · obtain ⟨n', hn'⟩ := h.inSlot uid' hold hbusy
      have hne : n' ≠ n := by
        rintro rfl
        cases hfree.symm.trans hn'
      exact ⟨n', by rw [Function.update_of_ne hne, hn']⟩
  finished uid' := by
    rw [h.finished uid']
    refine if_congr ?_ rfl rfl
    by_cases heq : uid' = uid
    · simp [heq, hnew, hmore]
    · simp [heq]

theorem setKernelDone (hslot : runningKernels n = some uid) :
    InSlots cfg (Function.update done uid true) launched (Function.update runningKernels n none)
      (finishedKernel ++ [uid]) where
  slot n' uid' hslot' := by
    rw [Function.update_apply] at hslot'
    split_ifs at hslot' with heq
    obtain ⟨hlt, hmem, hbusy⟩ := h.slot n' uid' hslot'
    have hne : uid' ≠ uid := by
      rintro rfl
      exact heq (h.slot_inj n' n uid' hslot' hslot)
    exact ⟨hlt, hmem, by rwa [Function.update_of_ne hne]⟩
  slot_inj n₁ n₂ uid' h₁ h₂ := by
    rw [Function.update_apply] at h₁ h₂
    split_ifs at h₁ h₂
    exact h.slot_inj n₁ n₂ uid' h₁ h₂
  inSlot uid' hmem hbusy := by
    have hne : uid' ≠ uid := by
      rintro rfl
      rw [Function.update_self] at hbusy
      cases hbusy
    rw [Function.update_of_ne hne] at hbusy
    obtain ⟨n', hn'⟩ := h.inSlot uid' hmem hbusy
    have hother : n' ≠ n := by
      rintro rfl
      exact hne (Option.some.inj (hn'.symm.trans hslot))
    exact ⟨n', by rw [Function.update_of_ne hother, hn']⟩
  finished uid' := by
    obtain ⟨-, hmem, hbusy⟩ := h.slot n uid hslot
    rw [List.count_append, h.finished uid']
    by_cases heq : uid' = uid
    · simp [heq, hmem, hbusy]
    · have hne : uid ≠ uid' := Ne.symm heq
      simp [heq, hne]

end InSlots

namespace Selected

variable (h : Selected cfg kernels runningKernels lastIssuedKernel executedKernelUids)
include h

theorem mono {kernels' : ℕ → KernelInfo}
    (hlatency : ∀ uid, (kernels uid).tbLatency = 0 → (kernels' uid).tbLatency = 0)
    (hmore : ∀ uid, (kernels' uid).noMoreCtasToRun = false →
    (kernels uid).noMoreCtasToRun = false) :
    Selected cfg kernels' runningKernels lastIssuedKernel executedKernelUids where
  last_lt := h.last_lt
  executed uid hmem := by
    obtain ⟨hzero, hlast⟩ := h.executed uid hmem
    exact ⟨hlatency uid hzero, fun hleft => hlast (hmore uid hleft)⟩

theorem launch (hfree : runningKernels n = none) (uid : ℕ) :
    Selected cfg kernels (Function.update runningKernels n (some uid)) lastIssuedKernel
      executedKernelUids where
  last_lt := h.last_lt
  executed uid' hmem := by
    obtain ⟨hzero, hlast⟩ := h.executed uid' hmem
    refine ⟨hzero, fun hleft => ?_⟩
    have hne : lastIssuedKernel ≠ n := by
      rintro rfl
      cases hfree.symm.trans (hlast hleft)
    rw [Function.update_of_ne hne]
    exact hlast hleft

theorem setKernelDone (hslot : runningKernels n = some uid)
    (hnone : (kernels uid).noMoreCtasToRun = true) :
    Selected cfg kernels (Function.update runningKernels n none) lastIssuedKernel
      executedKernelUids where
  last_lt := h.last_lt
  executed uid' hmem := by
    obtain ⟨hzero, hlast⟩ := h.executed uid' hmem
    refine ⟨hzero, fun hleft => ?_⟩
    have hne : lastIssuedKernel ≠ n := by
      rintro rfl
      have hsame : uid' = uid := Option.some.inj ((hlast hleft).symm.trans hslot)
      rw [hsame, hnone] at hleft
      cases hleft
    rw [Function.update_of_ne hne]
    exact hlast hleft

end Selected

/-! ## `select_kernel` -/

namespace Gpu

variable {s : Gpu}

theorem slotReady_iff : s.slotReady n = true ↔ ∃ uid, s.runningKernels n = some uid ∧
    (s.kernels uid).noMoreCtasToRun = false ∧ (s.kernels uid).tbLatency = 0 := by
  rw [slotReady, Option.any_eq_true]
  refine exists_congr fun uid => and_congr_right fun _ => ?_
  rw [Bool.and_eq_true, Bool.not_eq_true', decide_eq_true_iff]

theorem selectKernel_spec (h :
    Selected cfg s.kernels s.runningKernels s.lastIssuedKernel s.executedKernelUids) :
    ∃ kernel lastIssuedKernel executedKernelUids,
      s.selectKernel cfg = .ok (kernel, { s with lastIssuedKernel, executedKernelUids }) ∧
      Selected cfg s.kernels s.runningKernels lastIssuedKernel executedKernelUids ∧
      ∀ uid, kernel = some uid →
        (∃ n, s.runningKernels n = some uid) ∧ (s.kernels uid).noMoreCtasToRun = false := by
  rw [selectKernel]
  by_cases hlast : s.slotReady s.lastIssuedKernel = true
  · obtain ⟨uid, hslot, hmore, hlatency⟩ := slotReady_iff.mp hlast
    rw [if_pos hlast]
    refine ⟨_, s.lastIssuedKernel, _, rfl, ⟨h.last_lt, ?_⟩, ?_⟩
    · intro uid' hmem
      rcases List.mem_append.mp hmem with hold | hnew
      · exact h.executed uid' hold
      · have hsame := (List.mem_filter.mp hnew).1
        rw [hslot, Option.toList_some, List.mem_singleton] at hsame
        rw [hsame]
        exact ⟨hlatency, fun _ => hslot⟩
    · intro uid' hkernel
      cases hslot.symm.trans hkernel
      exact ⟨⟨_, hslot⟩, hmore⟩
  · rw [if_neg hlast]
    cases hnext : s.nextSlot cfg with
    | none =>
        exact ⟨none, s.lastIssuedKernel, s.executedKernelUids, rfl, h, fun _ hnone => nomatch hnone⟩
    | some n =>
        obtain ⟨uid, hslot, hmore, hlatency⟩ := slotReady_iff.mp (List.find?_some hnext)
        obtain ⟨i, -, hn⟩ := List.mem_map.mp (List.mem_of_find?_eq_some hnext)
        -- the kernels that were chosen before have no CTAs left
        have hdrained : ∀ uid' ∈ s.executedKernelUids, (s.kernels uid').noMoreCtasToRun = true := by
          intro uid' hmem
          obtain ⟨hzero, hkept⟩ := h.executed uid' hmem
          by_contra hleft
          have hleft' := Bool.eq_false_of_not_eq_true hleft
          exact hlast (slotReady_iff.mpr ⟨uid', hkept hleft', hleft', hzero⟩)
        have hnew : uid ∉ s.executedKernelUids := by
          intro hmem
          cases hmore.symm.trans (hdrained uid hmem)
        dsimp only
        rw [hslot, if_neg (by simpa using hnew)]
        refine ⟨_, n, _, rfl, ⟨hn ▸ Nat.mod_lt _ cfg.maxConcurrentKernel_pos, ?_⟩, ?_⟩
        · intro uid' hmem
          rcases List.mem_append.mp hmem with hold | hself
          · refine ⟨(h.executed uid' hold).1, fun hleft => ?_⟩
            cases hleft.symm.trans (hdrained uid' hold)
          · rw [Option.toList_some, List.mem_singleton] at hself
            rw [hself]
            exact ⟨hlatency, fun _ => hslot⟩
        · intro uid' hkernel
          cases hkernel
          exact ⟨⟨n, hslot⟩, hmore⟩

theorem setKernelDone_spec (hn : n < cfg.maxConcurrentKernel)
    (hslot : s.runningKernels n = some uid) :
    ∃ n', s.runningKernels n' = some uid ∧ s.setKernelDone cfg uid = .ok { s with
      finishedKernel := s.finishedKernel ++ [uid]
      runningKernels := Function.update s.runningKernels n' none } := by
  obtain ⟨n', hfind⟩ := exists_findSlot (p := fun n => s.runningKernels n = some uid) hn
    (decide_eq_true hslot)
  refine ⟨n', of_decide_eq_true (findSlot_eq_some hfind).2, ?_⟩
  rw [setKernelDone, hfind]

end Gpu

end GpuCalorie.CtaDispatch
