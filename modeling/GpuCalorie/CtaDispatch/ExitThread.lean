/-
# A thread exits

`fetch` registers the exit of a thread with the CTA and the kernel it finds for it, which are
those it began with. The last thread of a CTA takes the CTA from the core.
-/

import GpuCalorie.CtaDispatch.Occupancy

namespace GpuCalorie.CtaDispatch

open GpuCalorie.Math Finset

namespace ShaderCore

variable {cfg : ShaderCoreConfig} {s : ShaderCore} {r : Resident} {tid : ℕ} {r' : Resident}

/-- A core after a thread of a CTA has exited. -/
def exited (s : ShaderCore) (r : Resident) (tid : ℕ) : ShaderCore :=
  { s with
    threads := Function.update s.threads tid { s.threads tid with active := false }
    ctaStatus := Function.update s.ctaStatus r.ctaId (s.ctaStatus r.ctaId - 1)
    notCompleted := s.notCompleted - 1
    activeThreads := Function.update s.activeThreads tid false }

/-- A core after the last thread of a CTA has exited. -/
def finished (s : ShaderCore) (r : Resident) (tid : ℕ) : ShaderCore :=
  { s.exited r tid with
    nActiveCta := s.nActiveCta - 1
    resident := s.resident.filter fun r' => r'.ctaId ≠ r.ctaId }

/-! ## What the exit of a thread changes -/

theorem active_exited {other : ℕ} (h : ((s.exited r tid).threads other).active = true) :
    other ≠ tid ∧ (s.exited r tid).threads other = s.threads other := by
  have hne : other ≠ tid := by
    rintro rfl
    have hself : ((s.exited r other).threads other).active = false := by
      show (Function.update s.threads other _ other).active = false
      rw [Function.update_self]
    rw [hself] at h
    cases h
  exact ⟨hne, Function.update_of_ne hne _ _⟩

theorem activeIn_exited_of_not_has (h : ¬ r'.Has tid) :
    (s.exited r tid).activeIn r' = s.activeIn r' := by
  refine countActive_congr fun other hother => Function.update_of_ne (fun heq => h ?_) _ _
  rw [← heq]
  exact mem_Ico.mp hother

theorem activeIn_exited (hhas : r.Has tid) (hactive : (s.threads tid).active = true) :
    (s.exited r tid).activeIn r + 1 = s.activeIn r :=
  countActive_exit (mem_Ico.mpr hhas) hactive

namespace Occupancy

variable (h : s.Occupancy cfg) (hr : r ∈ s.resident)
include h hr

theorem status_exited (hhas : r.Has tid)
    (hactive : (s.threads tid).active = true) (hr' : r' ∈ s.resident) :
    (s.exited r tid).ctaStatus r'.ctaId = (s.exited r tid).activeIn r' := by
  show Function.update s.ctaStatus r.ctaId (s.ctaStatus r.ctaId - 1) r'.ctaId = _
  by_cases heq : r' = r
  · rw [heq, Function.update_self, (h.status r hr).1]
    have hexit := activeIn_exited (r := r) hhas hactive
    omega
  · have hne : r'.ctaId ≠ r.ctaId := fun hid => heq (h.eq_of_ctaId hr' hr hid)
    have hapart := h.apart r hr r' hr' (Ne.symm heq)
    rw [Function.update_of_ne hne, activeIn_exited_of_not_has (hapart.not_has hhas)]
    exact (h.status r' hr').1

omit hr in
theorem activeThreads_exited (r : Resident) (tid other : ℕ) :
    (s.exited r tid).activeThreads other = ((s.exited r tid).threads other).active := by
  show Function.update s.activeThreads tid false other
    = (Function.update s.threads tid { s.threads tid with active := false } other).active
  by_cases heq : other = tid
  · rw [heq, Function.update_self, Function.update_self]
  · rw [Function.update_of_ne heq, Function.update_of_ne heq]
    exact h.activeThreads other

theorem notCompleted_exited (hhas : r.Has tid) (hactive : (s.threads tid).active = true) :
    (s.exited r tid).notCompleted
      = countActive (s.exited r tid).threads (range cfg.nThreadPerShader) := by
  have hmem : tid ∈ range cfg.nThreadPerShader :=
    mem_range.mpr (lt_of_lt_of_le (hhas.lt_stop cfg) (h.placed r hr).2)
  have hexit := countActive_exit hmem hactive
  have hcount := h.notCompleted
  show s.notCompleted - 1 = countActive (Function.update s.threads tid _) _
  omega

theorem notCompleted_status_exited (tid : ℕ) : (s.exited r tid).notCompleted
      = ∑ ctaId ∈ range maxCtaPerShader, (s.exited r tid).ctaStatus ctaId := by
  have hmem : r.ctaId ∈ range maxCtaPerShader := mem_range.mpr (h.id_lt r hr)
  have hpos := (h.status r hr).2
  have hcount := h.notCompleted_status
  rw [sum_eq_add_sum_sdiff_singleton_of_mem hmem] at hcount
  show s.notCompleted - 1 = ∑ ctaId ∈ _, Function.update s.ctaStatus r.ctaId _ ctaId
  rw [sum_update_of_mem hmem]
  omega

omit hr in
theorem owner_exited (r : Resident) (tid : ℕ) {other : ℕ}
    (hother : ((s.exited r tid).threads other).active = true) :
    ∃ r' ∈ s.resident, r'.Has other ∧ s.warpCtaId (other / cfg.warpSize) = r'.ctaId ∧
      ((s.exited r tid).threads other).kernel = r'.kernel := by
  obtain ⟨-, hsame⟩ := active_exited hother
  rw [hsame] at hother ⊢
  exact h.owner other hother

theorem exited (hhas : r.Has tid)
    (hactive : (s.threads tid).active = true) (hmany : 1 < s.ctaStatus r.ctaId) :
    (s.exited r tid).Occupancy cfg where
  ids := h.ids
  id_lt := h.id_lt
  placed := h.placed
  apart := h.apart
  status r' hr' := by
    refine ⟨h.status_exited hr hhas hactive hr', ?_⟩
    show 0 < Function.update s.ctaStatus r.ctaId (s.ctaStatus r.ctaId - 1) r'.ctaId
    by_cases heq : r'.ctaId = r.ctaId
    · rw [heq, Function.update_self]
      omega
    · rw [Function.update_of_ne heq]
      exact (h.status r' hr').2
  status_free ctaId hnone := by
    show Function.update s.ctaStatus r.ctaId _ ctaId = 0
    rw [Function.update_of_ne (hnone r hr).symm]
    exact h.status_free ctaId hnone
  owner _ hother := h.owner_exited r tid hother
  activeThreads := h.activeThreads_exited r tid
  nActiveCta := h.nActiveCta
  notCompleted := h.notCompleted_exited hr hhas hactive
  notCompleted_status := h.notCompleted_status_exited hr tid

theorem mem_filter_iff :
    r' ∈ s.resident.filter (fun r' => r'.ctaId ≠ r.ctaId) ↔ r' ∈ s.resident ∧ r' ≠ r := by
  rw [List.mem_filter, decide_eq_true_iff]
  refine and_congr_right fun hr' => not_congr ⟨fun heq => h.eq_of_ctaId hr' hr heq, ?_⟩
  rintro rfl
  rfl

theorem perm_filter : s.resident.Perm (r :: s.resident.filter fun r' => r'.ctaId ≠ r.ctaId) := by
  have hnodup : s.resident.Nodup := h.ids.of_map _
  have hcons : (r :: s.resident.filter fun r' => r'.ctaId ≠ r.ctaId).Nodup :=
    List.nodup_cons.mpr ⟨fun hmem => ((h.mem_filter_iff hr).mp hmem).2 rfl, hnodup.filter _⟩
  refine (List.perm_ext_iff_of_nodup hnodup hcons).mpr fun r' => ?_
  rw [List.mem_cons, h.mem_filter_iff hr]
  by_cases heq : r' = r
  · simp [heq, hr]
  · simp [heq]

theorem finished (hhas : r.Has tid)
    (hactive : (s.threads tid).active = true) (hone : s.ctaStatus r.ctaId = 1) :
    (s.finished r tid).Occupancy cfg where
  ids := h.ids.sublist (List.filter_sublist.map _)
  id_lt r' hr' := h.id_lt r' ((h.mem_filter_iff hr).mp hr').1
  placed r' hr' := h.placed r' ((h.mem_filter_iff hr).mp hr').1
  apart r₁ h₁ r₂ h₂ := h.apart r₁ ((h.mem_filter_iff hr).mp h₁).1 r₂ ((h.mem_filter_iff hr).mp h₂).1
  status r' hr' := by
    obtain ⟨hold, hne⟩ := (h.mem_filter_iff hr).mp hr'
    refine ⟨h.status_exited hr hhas hactive hold, ?_⟩
    show 0 < Function.update s.ctaStatus r.ctaId _ r'.ctaId
    rw [Function.update_of_ne fun hid => hne (h.eq_of_ctaId hold hr hid)]
    exact (h.status r' hold).2
  status_free ctaId hnone := by
    show Function.update s.ctaStatus r.ctaId (s.ctaStatus r.ctaId - 1) ctaId = 0
    by_cases heq : ctaId = r.ctaId
    · rw [heq, Function.update_self, hone]
    · rw [Function.update_of_ne heq]
      refine h.status_free ctaId fun r' hr' hid => ?_
      refine hnone r' ((h.mem_filter_iff hr).mpr ⟨hr', fun hself => heq ?_⟩) hid
      rw [← hid, hself]
  owner other hother := by
    obtain ⟨r', hr', hhas', hwarp, hkernel⟩ := h.owner_exited r tid hother
    refine ⟨r', (h.mem_filter_iff hr).mpr ⟨hr', ?_⟩, hhas', hwarp, hkernel⟩
    rintro rfl
    have hexit := activeIn_exited (r := r') hhas hactive
    have hstatus := (h.status r' hr).1
    have hnone : countActive (s.exited r' tid).threads (Ico r'.start (r'.start + r'.size)) = 0 := by
      change (s.exited r' tid).activeIn r' = 0
      omega
    have hidle := active_false_of_countActive hnone (mem_Ico.mpr hhas')
    exact Bool.noConfusion (hidle.symm.trans hother)
  activeThreads := h.activeThreads_exited r tid
  nActiveCta := by
    have hlength := (h.perm_filter hr).length_eq
    have hcount := h.nActiveCta
    rw [List.length_cons] at hlength
    show s.nActiveCta - 1 = (s.resident.filter _).length
    omega
  notCompleted := h.notCompleted_exited hr hhas hactive
  notCompleted_status := h.notCompleted_status_exited hr tid

end Occupancy

/-! ## `register_cta_thread_exit` -/

variable {kernels : ℕ → KernelInfo}

theorem exitThread_many (hwarp : s.warpCtaId (tid / cfg.warpSize) = r.ctaId)
    (hkernel : (s.threads tid).kernel = r.kernel) (hmany : 1 < s.ctaStatus r.ctaId) :
    s.exitThread cfg kernels tid = .ok (s.exited r tid, kernels r.kernel, false) := by
  have hpos : ¬ s.ctaStatus r.ctaId = 0 := by omega
  have hleft : ¬ Function.update s.ctaStatus r.ctaId (s.ctaStatus r.ctaId - 1) r.ctaId = 0 := by
    rw [Function.update_self]
    omega
  rw [exitThread, hwarp, hkernel, registerCtaThreadExit]
  dsimp only
  rw [if_neg hpos, if_neg hleft]
  rfl

theorem exitThread_one (hwarp : s.warpCtaId (tid / cfg.warpSize) = r.ctaId)
    (hkernel : (s.threads tid).kernel = r.kernel) (hone : s.ctaStatus r.ctaId = 1)
    {kernel : Option ℕ} (hafter : s.kernelAfter kernels r.kernel = .ok kernel)
    {occupied : Resources}
    (hrelease : s.occupied.releaseShaderResource1block cfg r.ctaId (kernels r.kernel) =
    .ok occupied)
    {k : KernelInfo} (hdec : (kernels r.kernel).decRunning = .ok k) :
    s.exitThread cfg kernels tid = .ok (
      { s.finished r tid with
        kernel := if k.done ∧ kernel = some r.kernel then none else kernel
        occupied := occupied }, k, k.done) := by
  have hleft : Function.update s.ctaStatus r.ctaId (s.ctaStatus r.ctaId - 1) r.ctaId = 0 := by
    rw [Function.update_self, hone]
  rw [exitThread, hwarp, hkernel, registerCtaThreadExit]
  dsimp only
  rw [if_neg (by omega), if_pos hleft, finishCta]
  show ((s.kernelAfter kernels r.kernel >>= _) >>= _) = _
  rw [hafter]
  show ((s.occupied.releaseShaderResource1block cfg r.ctaId (kernels r.kernel) >>= _) >>= _) = _
  rw [hrelease]
  show (((kernels r.kernel).decRunning >>= _) >>= _) = _
  rw [hdec]
  rfl

end ShaderCore

end GpuCalorie.CtaDispatch
