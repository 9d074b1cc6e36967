/-
# Kernels and their children

`Family` says of the kernels that their lists of children have those that are not retired, and
that a kernel is retired once and after its children. `Launched` says that kernels which run,
are done or have children have begun and are not retired, unless they are done and retired.
-/

import GpuCalorie.Streams.Manager
import Mathlib.Data.List.Nodup
import Mathlib.Data.Nat.Basic
import Mathlib.Order.Basic

namespace GpuCalorie.Streams

/-- What holds of the kernels and their children. -/
structure Family (kernels : ℕ → KernelInfo) (nextUid : ℕ) (retired : List ℕ) : Prop where
  parent_lt : ∀ c p, (kernels c).parent = some p → p < c ∧ c < nextUid
  children_iff : ∀ p c, c ∈ (kernels p).children ↔ (kernels c).parent = some p ∧ c ∉ retired
  retired_nodup : retired.Nodup
  retired_lt : ∀ u ∈ retired, u < nextUid
  ordered : ∀ pre u post, retired = pre ++ u :: post →
    ∀ c, (kernels c).parent = some u → c ∈ post

/-- What holds of the kernels on the GPU. -/
structure Launched (kernels : ℕ → KernelInfo) (runningKernels finishedKernel : List ℕ)
    (gridIdToStream : ℕ → Option ℕ) (retired : List ℕ) : Prop where
  running_nodup : runningKernels.Nodup
  running : ∀ u ∈ runningKernels,
    gridIdToStream u ≠ none ∧ (kernels u).done = false ∧ u ∉ finishedKernel
  finished_nodup : finishedKernel.Nodup
  finished : ∀ u ∈ finishedKernel, u ∈ retired ∨ gridIdToStream u ≠ none
  done : ∀ u, (kernels u).done = true → u ∈ retired ∨ gridIdToStream u ≠ none
  retired_done : ∀ u ∈ retired, (kernels u).done = true
  parent : ∀ c p, (kernels c).parent = some p → c ∉ retired → gridIdToStream p ≠ none

/-- The kernels whose uids have been taken from `m_finished_kernel` wait for their children,
with one exception. -/
structure Waits (kernels : ℕ → KernelInfo) (finishedKernel : List ℕ) (gridIdToStream : ℕ → Option ℕ)
    (exception : Option ℕ) : Prop where
  finished : ∀ u ∈ finishedKernel, gridIdToStream u ≠ none
  waits : ∀ u, (kernels u).done = true → gridIdToStream u ≠ none → u ∉ finishedKernel →
    some u ≠ exception → (kernels u).children ≠ []

variable {kernels kernels' : ℕ → KernelInfo} {nextUid uid : ℕ}
    {retired runningKernels finishedKernel : List ℕ}
  {gridIdToStream gridIdToStream' : ℕ → Option ℕ} {exception : Option ℕ} {s : StreamManager}

/-! ## New kernels -/

namespace StreamManager

variable (s : StreamManager) (cfg : StreamConfig) (parent : Option ℕ)

theorem newKernel_self : (s.newKernel cfg parent).kernels s.nextUid
    = { parent := parent, launchLatency := cfg.kernelLaunchLatency } :=
  Function.update_self _ _ _

theorem newKernel_of_ne {u : ℕ} (hne : u ≠ s.nextUid) : (s.newKernel cfg parent).kernels u
    = { s.kernels u with
      children := (s.kernels u).children ++ if parent = some u then [s.nextUid] else [] } := by
  show Function.update (s.setChild parent s.nextUid) s.nextUid _ u = _
  rw [Function.update_of_ne hne]
  cases parent with
  | none => simp [setChild]
  | some p =>
      by_cases heq : u = p
      · simp [setChild, heq]
      · have hne' : p ≠ u := Ne.symm heq
        simp [setChild, heq, hne']

end StreamManager

/-! ## Families -/

namespace Family

theorem init : Family (fun _ => {}) 1 [] where
  parent_lt _ _ h := nomatch h
  children_iff _ _ := iff_of_false List.not_mem_nil fun h => nomatch h.1
  retired_nodup := List.nodup_nil
  retired_lt _ h := absurd h List.not_mem_nil
  ordered pre u post h := by
    have hlength := congrArg List.length h
    simp at hlength

section

variable (h : Family kernels nextUid retired)
include h

theorem congr (hparent : ∀ u, (kernels' u).parent = (kernels u).parent)
    (hchildren : ∀ u, (kernels' u).children = (kernels u).children) :
    Family kernels' nextUid retired where
  parent_lt := by simpa only [hparent] using h.parent_lt
  children_iff := by simpa only [hparent, hchildren] using h.children_iff
  retired_nodup := h.retired_nodup
  retired_lt := h.retired_lt
  ordered := by simpa only [hparent] using h.ordered

theorem retired_of_children (hnone : (kernels uid).children = [])
    {c : ℕ} (hparent : (kernels c).parent = some uid) : c ∈ retired := by
  by_contra hnot
  have hmem := (h.children_iff uid c).mpr ⟨hparent, hnot⟩
  rw [hnone] at hmem
  exact List.not_mem_nil hmem

theorem retire (hlt : uid < nextUid) (hnot : uid ∉ retired)
    (hnone : (kernels uid).children = []) (hparent : ∀ u, (kernels' u).parent = (kernels u).parent)
    (hchildren : ∀ p c, c ∈ (kernels' p).children ↔ c ∈ (kernels p).children ∧ c ≠ uid) :
    Family kernels' nextUid (uid :: retired) where
  parent_lt := by simpa only [hparent] using h.parent_lt
  children_iff p c := by
    rw [hchildren p c, hparent c, h.children_iff p c, List.mem_cons, not_or, and_assoc]
    exact and_congr_right fun _ => and_comm
  retired_nodup := List.nodup_cons.mpr ⟨hnot, h.retired_nodup⟩
  retired_lt u hmem := by
    rcases List.mem_cons.mp hmem with rfl | hold
    · exact hlt
    · exact h.retired_lt u hold
  ordered pre u post heq c hc := by
    rw [hparent c] at hc
    cases pre with
    | nil =>
        cases heq
        exact h.retired_of_children hnone hc
    | cons first rest =>
        cases heq
        exact h.ordered rest u post rfl c hc

end

theorem newKernel (h : Family s.kernels s.nextUid retired) (cfg : StreamConfig)
    {parent : Option ℕ} (hlt : ∀ p ∈ parent, p < s.nextUid) (hlive : ∀ p ∈ parent, p ∉ retired) :
    Family (s.newKernel cfg parent).kernels (s.nextUid + 1) retired := by
  have hnew : s.nextUid ∉ retired := fun hmem => Nat.lt_irrefl _ (h.retired_lt _ hmem)
  -- nothing speaks of the new kernel before
  have hnone : ∀ c, (s.kernels c).parent ≠ some s.nextUid := by
    intro c hc
    obtain ⟨hbelow, hbound⟩ := h.parent_lt c _ hc
    omega
  have hself := s.newKernel_self cfg parent
  have hparent : ∀ c, c ≠ s.nextUid → ((s.newKernel cfg parent).kernels c).parent =
      (s.kernels c).parent := by
    intro c hne
    rw [s.newKernel_of_ne cfg parent hne]
  have hchildren : ∀ p, p ≠ s.nextUid → ((s.newKernel cfg parent).kernels p).children
      = (s.kernels p).children ++ if parent = some p then [s.nextUid] else [] := by
    intro p hne
    rw [s.newKernel_of_ne cfg parent hne]
  constructor
  case parent_lt =>
    intro c p hc
    by_cases heq : c = s.nextUid
    · rw [heq, hself] at hc
      exact ⟨heq ▸ hlt p hc, heq ▸ Nat.lt_succ_self _⟩
    · rw [hparent c heq] at hc
      obtain ⟨hbelow, hbound⟩ := h.parent_lt c p hc
      exact ⟨hbelow, Nat.lt_succ_of_lt hbound⟩
  case children_iff =>
    intro p c
    by_cases hp : p = s.nextUid
    · rw [hp, hself]
      refine iff_of_false List.not_mem_nil fun hboth => ?_
      by_cases hc : c = s.nextUid
      · rw [hc, hself] at hboth
        exact Nat.lt_irrefl _ (hlt _ hboth.1)
      · rw [hparent c hc] at hboth
        exact hnone c hboth.1
    · rw [hchildren p hp, List.mem_append, h.children_iff p c]
      by_cases hc : c = s.nextUid
      · have hold : (s.kernels s.nextUid).parent ≠ some p := by
          intro hparent
          exact Nat.lt_irrefl _ (h.parent_lt _ p hparent).2
        rw [hc, hself]
        by_cases hpar : parent = some p
        · simp [hpar, hnew]
        · simp [hpar, hold]
      · rw [hparent c hc]
        by_cases hpar : parent = some p
        · simp [hpar, hc]
        · simp [hpar]
  case retired_nodup => exact h.retired_nodup
  case retired_lt => exact fun u hmem => Nat.lt_succ_of_lt (h.retired_lt u hmem)
  case ordered =>
    intro pre u post heq c hc
    by_cases hcnew : c = s.nextUid
    · rw [hcnew, hself] at hc
      refine absurd ?_ (hlive u hc)
      rw [heq]
      exact List.mem_append_right _ List.mem_cons_self
    · rw [hparent c hcnew] at hc
      exact h.ordered pre u post heq c hc

end Family

namespace Launched

theorem init : Launched (fun _ => {}) [] [] (fun _ => none) [] where
  running_nodup := List.nodup_nil
  running _ h := absurd h List.not_mem_nil
  finished_nodup := List.nodup_nil
  finished _ h := absurd h List.not_mem_nil
  done _ h := nomatch h
  retired_done _ h := absurd h List.not_mem_nil
  parent _ _ h := nomatch h

variable (h : Launched kernels runningKernels finishedKernel gridIdToStream retired)
include h

theorem not_running (hgrid : gridIdToStream uid = none) (hnot : uid ∉ retired) :
    uid ∉ runningKernels ∧ uid ∉ finishedKernel ∧ (kernels uid).done = false := by
  refine ⟨fun hmem => (h.running uid hmem).1 hgrid, fun hmem => ?_, ?_⟩
  · exact (h.finished uid hmem).elim hnot fun hsome => hsome hgrid
  · cases hdone : (kernels uid).done with
    | false => rfl
    | true =>
        exact (h.done uid hdone).elim (fun hmem => absurd hmem hnot) fun hsome => absurd hgrid hsome

theorem congr (hparent : ∀ u, (kernels' u).parent = (kernels u).parent)
    (hdone : ∀ u, (kernels' u).done = (kernels u).done) :
    Launched kernels' runningKernels finishedKernel gridIdToStream retired where
  running_nodup := h.running_nodup
  running := by simpa only [hdone] using h.running
  finished_nodup := h.finished_nodup
  finished := h.finished
  done := by simpa only [hdone] using h.done
  retired_done := by simpa only [hdone] using h.retired_done
  parent := by simpa only [hparent] using h.parent

theorem begin (hgrid : ∀ u, gridIdToStream u ≠ none → gridIdToStream' u ≠ none) :
    Launched kernels runningKernels finishedKernel gridIdToStream' retired where
  running_nodup := h.running_nodup
  running u hmem := ⟨hgrid u (h.running u hmem).1, (h.running u hmem).2⟩
  finished_nodup := h.finished_nodup
  finished u hmem := (h.finished u hmem).imp_right (hgrid u)
  done u hdone := (h.done u hdone).imp_right (hgrid u)
  retired_done := h.retired_done
  parent c p hparent hnot := hgrid p (h.parent c p hparent hnot)

section

variable (hbefore : Launched kernels runningKernels finishedKernel gridIdToStream' retired)
include hbefore

theorem cancel (hgrid : gridIdToStream' uid = none) (hnot : uid ∉ retired) :
    Launched kernels runningKernels finishedKernel
      (Function.update gridIdToStream uid none) retired := by
  obtain ⟨hidle, hopen, hdone⟩ := hbefore.not_running hgrid hnot
  have hother : ∀ u, u ≠ uid → gridIdToStream u ≠ none →
      Function.update gridIdToStream uid none u ≠ none := by
    intro u hne hsome
    rwa [Function.update_of_ne hne]
  constructor
  case running_nodup => exact h.running_nodup
  case running =>
    intro u hmem
    exact ⟨hother u (fun heq => hidle (heq ▸ hmem)) (h.running u hmem).1, (h.running u hmem).2⟩
  case finished_nodup => exact h.finished_nodup
  case finished =>
    intro u hmem
    exact (h.finished u hmem).imp_right (hother u fun heq => hopen (heq ▸ hmem))
  case done =>
    intro u hdone'
    refine (h.done u hdone').imp_right (hother u fun heq => ?_)
    rw [heq, hdone] at hdone'
    cases hdone'
  case retired_done => exact h.retired_done
  case parent =>
    intro c p hparent hleft
    refine hother p (fun heq => ?_) (h.parent c p hparent hleft)
    exact hbefore.parent c p hparent hleft (heq ▸ hgrid)

theorem launch (hgrid' : gridIdToStream' uid = none) (hgrid : gridIdToStream uid ≠ none)
    (hnot : uid ∉ retired) :
    Launched kernels (runningKernels ++ [uid]) finishedKernel gridIdToStream retired := by
  obtain ⟨hidle, hopen, hdone⟩ := hbefore.not_running hgrid' hnot
  constructor
  case running_nodup =>
    rw [← List.concat_eq_append]
    exact h.running_nodup.concat hidle
  case running =>
    intro u hmem
    rcases List.mem_append.mp hmem with hold | hself
    · exact h.running u hold
    · rw [List.mem_singleton.mp hself]
      exact ⟨hgrid, hdone, hopen⟩
  case finished_nodup => exact h.finished_nodup
  case finished => exact h.finished
  case done => exact h.done
  case retired_done => exact h.retired_done
  case parent => exact h.parent

end

omit h in
theorem finish (h : Launched s.kernels s.runningKernels s.finishedKernel s.gridIdToStream retired)
    (hmem : uid ∈ s.runningKernels) :
    Launched (s.finish uid).kernels (s.finish uid).runningKernels (s.finish uid).finishedKernel
      s.gridIdToStream retired := by
  obtain ⟨hgrid, hdone, hopen⟩ := h.running uid hmem
  have hkernels : ∀ u, u ≠ uid → (s.finish uid).kernels u = s.kernels u := fun u hne =>
    Function.update_of_ne hne _ _
  have hself : (s.finish uid).kernels uid = { s.kernels uid with done := true } :=
    Function.update_self _ _ _
  constructor
  case running_nodup => exact h.running_nodup.filter _
  case running =>
    intro u hu
    obtain ⟨hold, hne⟩ := List.mem_filter.mp hu
    have hne' : u ≠ uid := of_decide_eq_true hne
    obtain ⟨hsome, hbusy, hout⟩ := h.running u hold
    refine ⟨hsome, by rw [hkernels u hne', hbusy], fun hin => ?_⟩
    rcases List.mem_append.mp hin with hin | hin
    · exact hout hin
    · exact hne' (List.mem_singleton.mp hin)
  case finished_nodup =>
    show (s.finishedKernel ++ [uid]).Nodup
    rw [← List.concat_eq_append]
    exact h.finished_nodup.concat hopen
  case finished =>
    intro u hu
    rcases List.mem_append.mp hu with hold | hnew
    · exact h.finished u hold
    · rw [List.mem_singleton.mp hnew]
      exact .inr hgrid
  case done =>
    intro u hu
    by_cases heq : u = uid
    · rw [heq]
      exact .inr hgrid
    · rw [hkernels u heq] at hu
      exact h.done u hu
  case retired_done =>
    intro u hu
    by_cases heq : u = uid
    · rw [heq, hself]
    · rw [hkernels u heq]
      exact h.retired_done u hu
  case parent =>
    intro c p hc
    by_cases heq : c = uid
    · rw [heq, hself] at hc
      rw [heq]
      exact h.parent uid p hc
    · rw [hkernels c heq] at hc
      exact h.parent c p hc

theorem stopRunning :
    Launched kernels [] (finishedKernel ++ runningKernels) gridIdToStream retired where
  running_nodup := List.nodup_nil
  running _ hmem := absurd hmem List.not_mem_nil
  finished_nodup := h.finished_nodup.append h.running_nodup fun u hin hout =>
    (h.running u hout).2.2 hin
  finished u hmem := by
    rcases List.mem_append.mp hmem with hold | hnew
    · exact h.finished u hold
    · exact .inr (h.running u hnew).1
  done := h.done
  retired_done := h.retired_done
  parent := h.parent

omit h in
theorem pop (h : Launched kernels runningKernels (uid :: finishedKernel) gridIdToStream retired) :
    Launched kernels runningKernels finishedKernel gridIdToStream retired where
  running_nodup := h.running_nodup
  running u hmem := by
    obtain ⟨hgrid, hdone, hout⟩ := h.running u hmem
    exact ⟨hgrid, hdone, fun hin => hout (List.mem_cons_of_mem _ hin)⟩
  finished_nodup := (List.nodup_cons.mp h.finished_nodup).2
  finished u hmem := h.finished u (List.mem_cons_of_mem _ hmem)
  done := h.done
  retired_done := h.retired_done
  parent := h.parent

theorem retire (hfamily : Family kernels nextUid retired) (hdone : (kernels uid).done = true)
    (hnone : (kernels uid).children = []) (hparent : ∀ u, (kernels' u).parent = (kernels u).parent)
    (hsame : ∀ u, (kernels' u).done = (kernels u).done) :
    Launched kernels' runningKernels finishedKernel (Function.update gridIdToStream uid none)
      (uid :: retired) := by
  have hother : ∀ u, u ≠ uid → gridIdToStream u ≠ none →
      Function.update gridIdToStream uid none u ≠ none := by
    intro u hne hsome
    rwa [Function.update_of_ne hne]
  have hor : ∀ u, (u ∈ retired ∨ gridIdToStream u ≠ none) →
      u ∈ uid :: retired ∨ Function.update gridIdToStream uid none u ≠ none := by
    intro u hu
    by_cases heq : u = uid
    · exact .inl (heq ▸ List.mem_cons_self)
    · exact hu.imp (List.mem_cons_of_mem _) (hother u heq)
  refine Launched.congr ?_ hparent hsame
  constructor
  case running_nodup => exact h.running_nodup
  case running =>
    intro u hmem
    obtain ⟨hgrid, hbusy, hout⟩ := h.running u hmem
    have hne : u ≠ uid := by
      rintro rfl
      rw [hdone] at hbusy
      cases hbusy
    exact ⟨hother u hne hgrid, hbusy, hout⟩
  case finished_nodup => exact h.finished_nodup
  case finished => exact fun u hmem => hor u (h.finished u hmem)
  case done => exact fun u hu => hor u (h.done u hu)
  case retired_done =>
    intro u hmem
    rcases List.mem_cons.mp hmem with rfl | hold
    · exact hdone
    · exact h.retired_done u hold
  case parent =>
    intro c p hc hleft
    have hleft' : c ∉ retired := fun hmem => hleft (List.mem_cons_of_mem _ hmem)
    refine hother p (fun heq => ?_) (h.parent c p hc hleft')
    exact hleft' (hfamily.retired_of_children hnone (heq ▸ hc))

end Launched

namespace Waits

theorem init : Waits (fun _ => {}) [] (fun _ => none) none where
  finished _ h := absurd h List.not_mem_nil
  waits _ h := nomatch h

theorem congr (h : Waits kernels finishedKernel gridIdToStream exception)
    (hdone : ∀ u, (kernels' u).done = (kernels u).done)
    (hchildren : ∀ u, (kernels u).children ≠ [] → (kernels' u).children ≠ []) :
    Waits kernels' finishedKernel gridIdToStream exception where
  finished := h.finished
  waits u hu hgrid hout hne := hchildren u (h.waits u ((hdone u).symm.trans hu) hgrid hout hne)

theorem grid (h : Waits kernels finishedKernel gridIdToStream exception)
    (hfinished : ∀ u ∈ finishedKernel, gridIdToStream u ≠ none → gridIdToStream' u ≠ none)
    (hdone : ∀ u, (kernels u).done = true → gridIdToStream' u ≠ none → gridIdToStream u ≠ none) :
    Waits kernels finishedKernel gridIdToStream' exception where
  finished u hmem := hfinished u hmem (h.finished u hmem)
  waits u hu hgrid := h.waits u hu (hdone u hu hgrid)

theorem pop (h : Waits kernels (uid :: finishedKernel) gridIdToStream none) :
    Waits kernels finishedKernel gridIdToStream (some uid) where
  finished u hmem := h.finished u (List.mem_cons_of_mem _ hmem)
  waits u hu hgrid hout hne := by
    refine h.waits u hu hgrid (fun hmem => ?_) fun hnone => nomatch hnone
    rcases List.mem_cons.mp hmem with rfl | hold
    · exact hne rfl
    · exact hout hold

theorem of_not_finished (h : Waits kernels finishedKernel gridIdToStream (some uid))
    (hnot : (kernels uid).isFinished = false) :
    Waits kernels finishedKernel gridIdToStream none where
  finished := h.finished
  waits u hu hgrid hout _ := by
    by_cases heq : u = uid
    · intro hnone
      rw [← heq, KernelInfo.isFinished, hu, hnone] at hnot
      cases hnot
    · exact h.waits u hu hgrid hout fun hsome => heq (Option.some.inj hsome)

theorem stopRunning (h : Waits kernels finishedKernel gridIdToStream exception)
    (hrunning : ∀ u ∈ runningKernels, gridIdToStream u ≠ none) :
    Waits kernels (finishedKernel ++ runningKernels) gridIdToStream exception where
  finished u hmem := (List.mem_append.mp hmem).elim (h.finished u) (hrunning u)
  waits u hu hgrid hout := h.waits u hu hgrid fun hmem => hout (List.mem_append_left _ hmem)

theorem finish (h : Waits s.kernels s.finishedKernel s.gridIdToStream exception)
    (hgrid : s.gridIdToStream uid ≠ none) :
    Waits (s.finish uid).kernels (s.finish uid).finishedKernel s.gridIdToStream exception where
  finished u hmem := by
    rcases List.mem_append.mp hmem with hold | hnew
    · exact h.finished u hold
    · rwa [List.mem_singleton.mp hnew]
  waits u hu hsome hout hne := by
    have hother : u ≠ uid := by
      rintro rfl
      exact hout (List.mem_append_right _ List.mem_cons_self)
    have hsame : (s.finish uid).kernels u = s.kernels u := Function.update_of_ne hother _ _
    rw [hsame] at hu ⊢
    exact h.waits u hu hsome (fun hmem => hout (List.mem_append_left _ hmem)) hne

theorem retire (h : Waits kernels finishedKernel gridIdToStream (some uid))
    (hout : uid ∉ finishedKernel)
    (hdone : ∀ u, (kernels' u).done = (kernels u).done)
    (hchildren : ∀ u, (kernels uid).parent ≠ some u →
    (kernels' u).children = (kernels u).children) :
    Waits kernels' finishedKernel (Function.update gridIdToStream uid none)
      (kernels uid).parent where
  finished u hmem := by
    have hne : u ≠ uid := fun heq => hout (heq ▸ hmem)
    rw [Function.update_of_ne hne]
    exact h.finished u hmem
  waits u hu hgrid hin hne := by
    have hother : u ≠ uid := by
      rintro rfl
      rw [Function.update_self] at hgrid
      exact hgrid rfl
    rw [Function.update_of_ne hother] at hgrid
    rw [hdone u] at hu
    rw [hchildren u fun hparent => hne hparent.symm]
    exact h.waits u hu hgrid hin fun hsome => hother (Option.some.inj hsome)

end Waits

end GpuCalorie.Streams
