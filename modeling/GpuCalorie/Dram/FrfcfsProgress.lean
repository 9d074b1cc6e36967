/-
# When the FR-FCFS scheduler makes progress

The channel asks the scheduler for one bank after the other, until a request comes back.
Every call updates the mode first, and looks at the queues of that mode only, so whether
any call returns a request is a matter of the modes that the calls go through. These
depend on the number of pending writes and the watermarks alone.

Nothing in the update of the mode looks at the queues. In read mode with no reads and
fewer writes than the high watermark all calls return nothing, now and later; the same
happens to reads in write mode when the low watermark is zero.
-/

import GpuCalorie.Dram.FrfcfsQueue

namespace GpuCalorie.Dram

open GpuCalorie.Math

namespace Frfcfs

/-- Some request is queued for a bank. -/
def HasPending (s : Frfcfs) (b : ℕ) : Prop :=
  ∃ mode, (s.bank mode b).queue ≠ []

/-- Ask for one bank after the other until a request comes back. -/
def scan (cfg : DramConfig) (currRow : ℕ → ℕ) :
    List ℕ → Frfcfs → Except SchedFailure (Option (ℕ × DramReq) × Frfcfs)
  | [], s => .ok (none, s)
  | b :: banks, s => do
      match ← s.schedule cfg b (currRow b) with
      | (some req, next) => pure (some (b, req), next)
      | (none, next) => scan cfg currRow banks next

/-- One of the banks has a request to serve. -/
def Returns (cfg : DramConfig) (currRow : ℕ → ℕ) (s : Frfcfs) (banks : List ℕ) : Prop :=
  ∃ b ∈ banks, ∃ req next, scan cfg currRow banks s = .ok (some (b, req), next)

/-- The mode in which call number `i` of a scan that found nothing looks for a request. -/
def modeAt (cfg : DramConfig) (s : Frfcfs) (i : ℕ) : MemoryMode :=
  (switch cfg s.numWritePending)^[i + 1] s.mode

/-- When a scan of the banks with requests returns one. If the high watermark is reached
but the low one is not, the mode changes with every call. -/
def Serviceable (cfg : DramConfig) (s : Frfcfs) (banks : List ℕ) : Prop :=
  if cfg.seperateWriteQueueEnabled = false then True
  else if cfg.writeHighWatermark ≤ s.numWritePending ∧
      s.numWritePending < cfg.writeLowWatermark then
    ∃ i b, banks[i]? = some b ∧ (s.bank (MemoryMode.flip^[i + 1] s.mode) b).queue ≠ []
  else if cfg.writeLowWatermark ≤ s.numWritePending ∧
      (cfg.writeHighWatermark ≤ s.numWritePending ∨ s.mode = .write) then
    0 < s.numWritePending
  else 0 < s.numPending

variable {cfg : DramConfig} {s : Frfcfs}

/-! ## The calls of a scan -/

theorem Scheduled.of_none {b : ℕ} {next : Frfcfs} (h : Scheduled cfg s b none next) :
    (∀ i, modeAt cfg next i = modeAt cfg s (i + 1)) ∧
      ∀ mode i, (next.bank mode i).queue = (s.bank mode i).queue := by
  refine ⟨fun i => ?_, h.queue⟩
  have hwrites : next.numWritePending = s.numWritePending := h.pending .write
  rw [modeAt, modeAt, Function.iterate_succ_apply _ (i + 1), hwrites, h.mode_eq]
  rfl

theorem Ok.scan (h : s.Ok cfg) (currRow : ℕ → ℕ) (banks : List ℕ) :
    (∃ b ∈ banks, ∃ req next, Frfcfs.scan cfg currRow banks s = .ok (some (b, req), next) ∧
        ∃ i b, banks[i]? = some b ∧ (s.bank (modeAt cfg s i) b).queue ≠ []) ∨
      ∃ next, Frfcfs.scan cfg currRow banks s = .ok (none, next) ∧
        ∀ i b, banks[i]? = some b → (s.bank (modeAt cfg s i) b).queue = [] := by
  induction banks generalizing s with
  | nil => exact .inr ⟨s, rfl, fun i b hb => by simp at hb⟩
  | cons b banks ih =>
      obtain ⟨result, next, hcall, hnext, hspec⟩ := h.schedule b (currRow b)
      cases result with
      | some req =>
          apply Or.inl
          refine ⟨b, List.mem_cons_self, req, next, ?_, 0, b, rfl, ?_⟩
          · rw [Frfcfs.scan, hcall]
            rfl
          · show (s.bank (s.nextMode cfg) b).queue ≠ []
            exact fun hempty => Option.some_ne_none req (hspec.found.mpr hempty)
      | none =>
          have hscan : Frfcfs.scan cfg currRow (b :: banks) s =
              Frfcfs.scan cfg currRow banks next := by
            rw [Frfcfs.scan, hcall]
            rfl
          obtain ⟨hmode, hqueue⟩ := hspec.of_none
          rw [hscan]
          cases ih hnext with
          | inl hfound =>
              obtain ⟨c, hc, req, last, heq, i, d, hd, hne⟩ := hfound
              rw [hmode, hqueue] at hne
              exact .inl ⟨c, List.mem_cons_of_mem _ hc, req, last, heq, i + 1, d, hd, hne⟩
          | inr hnone =>
              obtain ⟨last, heq, hempty⟩ := hnone
              refine .inr ⟨last, heq, fun i d hd => ?_⟩
              cases i with
              | zero =>
                  cases hd
                  exact hspec.found.mp rfl
              | succ i =>
                  rw [← hmode, ← hqueue]
                  exact hempty i d hd

theorem Ok.returns_iff (h : s.Ok cfg) (currRow : ℕ → ℕ) (banks : List ℕ) :
    Returns cfg currRow s banks ↔
      ∃ i b, banks[i]? = some b ∧ (s.bank (modeAt cfg s i) b).queue ≠ [] := by
  cases h.scan currRow banks with
  | inl hsome =>
      obtain ⟨b, hb, req, next, heq, hfound⟩ := hsome
      exact ⟨fun _ => hfound, fun _ => ⟨b, hb, req, next, heq⟩⟩
  | inr hnone =>
      obtain ⟨next, heq, hempty⟩ := hnone
      constructor
      · intro hreturns
        obtain ⟨b, _, req, other, hother⟩ := hreturns
        rw [heq] at hother
        cases hother
      · intro hfound
        obtain ⟨i, b, hb, hne⟩ := hfound
        exact absurd (hempty i b hb) hne

/-! ## The modes of the calls -/

theorem modeAt_of_fixed {m : MemoryMode} (hfirst : s.nextMode cfg = m)
    (hfixed : switch cfg s.numWritePending m = m) (i : ℕ) : modeAt cfg s i = m := by
  rw [modeAt, Function.iterate_succ_apply]
  show (switch cfg s.numWritePending)^[i] (s.nextMode cfg) = m
  rw [hfirst]
  exact Function.iterate_fixed hfixed i

theorem modeAt_of_flip (hsep : cfg.seperateWriteQueueEnabled = true)
    (hhigh : cfg.writeHighWatermark ≤ s.numWritePending)
    (hlow : s.numWritePending < cfg.writeLowWatermark) (i : ℕ) :
    modeAt cfg s i = MemoryMode.flip^[i + 1] s.mode := by
  have hflip : switch cfg s.numWritePending = MemoryMode.flip := by
    funext mode
    cases mode <;> simp [switch, hsep, hhigh, hlow, MemoryMode.flip]
  rw [modeAt, hflip]

theorem Ok.pending_pos_iff (h : s.Ok cfg) (mode : MemoryMode) :
    0 < s.pending mode ↔ ∃ b, (s.bank mode b).queue ≠ [] := by
  rw [h.counted mode, Finset.sum_pos_iff]
  constructor
  · intro hpos
    obtain ⟨b, _, hb⟩ := hpos
    exact ⟨b, List.ne_nil_of_length_pos hb⟩
  · intro hsome
    obtain ⟨b, hb⟩ := hsome
    obtain ⟨req, hreq⟩ := List.exists_mem_of_ne_nil _ hb
    exact ⟨b, Finset.mem_range.mpr (h.homed mode b req hreq).2.2, List.length_pos_of_ne_nil hb⟩

theorem Ok.returns_iff_of_mode (h : s.Ok cfg) {m : MemoryMode} {banks : List ℕ}
    (hmode : ∀ i, modeAt cfg s i = m) (hbanks : ∀ b, b ∈ banks ↔ s.HasPending b)
    (currRow : ℕ → ℕ) : Returns cfg currRow s banks ↔ 0 < s.pending m := by
  rw [h.returns_iff, h.pending_pos_iff]
  constructor
  · intro hfound
    obtain ⟨i, b, _, hne⟩ := hfound
    exact ⟨b, hmode i ▸ hne⟩
  · intro hsome
    obtain ⟨b, hne⟩ := hsome
    obtain ⟨i, hi⟩ := List.mem_iff_getElem?.mp ((hbanks b).mpr ⟨m, hne⟩)
    exact ⟨i, b, hi, (hmode i).symm ▸ hne⟩

/-- Exactly when asking for the banks that have requests returns one, in every reachable
state that has any. -/
theorem returns_iff_serviceable (reached : (frfcfsSystem cfg).Reachable (.ok s)) {banks : List ℕ}
    (hbanks : ∀ b, b ∈ banks ↔ s.HasPending b) (hpending : ∃ b, s.HasPending b)
    (currRow : ℕ → ℕ) : Returns cfg currRow s banks ↔ Serviceable cfg s banks := by
  have h : s.Ok cfg := ok_of_reachable reached
  unfold Serviceable
  split_ifs with hsep hflip hwrite
  · -- the only queues are those of the read mode
    have hkept : ∀ mode, switch cfg s.numWritePending mode = mode := fun mode => by
      simp [switch, hsep]
    have hmode : ∀ i, modeAt cfg s i = .read :=
      modeAt_of_fixed ((hkept _).trans (h.reading hsep)) (hkept _)
    rw [h.returns_iff_of_mode hmode hbanks, h.pending_pos_iff, iff_true]
    obtain ⟨b, mode, hne⟩ := hpending
    obtain ⟨req, hreq⟩ := List.exists_mem_of_ne_nil _ hne
    have hread : modeOf cfg req = .read := by simp [modeOf, hsep]
    have hmode : mode = .read := (h.homed mode b req hreq).1.symm.trans hread
    exact ⟨b, hmode ▸ hne⟩
  · have hsep : cfg.seperateWriteQueueEnabled = true := by simpa using hsep
    rw [h.returns_iff]
    simp only [modeAt_of_flip hsep hflip.1 hflip.2]
  · have hsep : cfg.seperateWriteQueueEnabled = true := by simpa using hsep
    have hkept : switch cfg s.numWritePending .write = .write := by
      simp [switch, hsep, hwrite.1]
    have hfirst : s.nextMode cfg = .write := by
      cases hmode : s.mode with
      | write => rw [nextMode, hmode, hkept]
      | read =>
          have hhigh : cfg.writeHighWatermark ≤ s.numWritePending := by
            simpa [hmode] using hwrite.2
          simp [nextMode, hmode, switch, hsep, hhigh]
    exact h.returns_iff_of_mode (modeAt_of_fixed hfirst hkept) hbanks currRow
  · have hsep : cfg.seperateWriteQueueEnabled = true := by simpa using hsep
    have hbelow : s.numWritePending < cfg.writeHighWatermark := by
      by_contra hhigh
      have hlow : cfg.writeLowWatermark ≤ s.numWritePending :=
        not_lt.mp fun hlow => hflip ⟨not_lt.mp hhigh, hlow⟩
      exact hwrite ⟨hlow, .inl (not_lt.mp hhigh)⟩
    have hkept : switch cfg s.numWritePending .read = .read := by
      simp [switch, hsep, hbelow]
    have hfirst : s.nextMode cfg = .read := by
      cases hmode : s.mode with
      | read => rw [nextMode, hmode, hkept]
      | write =>
          have hlow : s.numWritePending < cfg.writeLowWatermark :=
            not_le.mp fun hlow => hwrite ⟨hlow, .inr hmode⟩
          simp [nextMode, hmode, switch, hsep, hlow]
    exact h.returns_iff_of_mode (modeAt_of_fixed hfirst hkept) hbanks currRow

/-! ## A single request with separate queues -/

/-- A request to bank 0. -/
def request (isWrite : Bool) : DramReq where
  id := 0
  data := ⟨0, 0, 0, isWrite, if isWrite then .globalAccW else .globalAccR, 32, 0, 0⟩

/-- The scheduler that holds one request. -/
def holding (isWrite : Bool) : Frfcfs :=
  let queues :=
    Function.update (fun _ => BankQueue.empty) 0 (BankQueue.empty.addReq (request isWrite))
  if isWrite then ⟨fun _ => .empty, queues, 0, 1, .read⟩ else ⟨queues, fun _ => .empty, 1, 0, .read⟩

theorem reachable_holding (isWrite : Bool) :
    (frfcfsSystem splitQueues).Reachable (.ok (holding isWrite)) := by
  have hadd : Frfcfs.new.addReq splitQueues (request isWrite) = .ok (holding isWrite) := by
    cases isWrite <;> rfl
  have hfresh : Frfcfs.new.Fresh (request isWrite) := by
    intro mode b other hother
    cases mode <;> exact absurd hother List.not_mem_nil
  have henabled : Enabled splitQueues .new (.addReq (request isWrite)) :=
    ⟨hfresh, by cases isWrite <;> decide⟩
  have hstart : (frfcfsSystem splitQueues).Reachable (.ok .new) := .init ⟨.new, rfl, rfl⟩
  exact hstart.step ⟨.new, rfl, henabled, hadd⟩

theorem hasPending_holding (isWrite : Bool) (b : ℕ) :
    b ∈ [0] ↔ (holding isWrite).HasPending b := by
  rw [List.mem_singleton]
  constructor
  · intro hb
    subst hb
    cases isWrite
    · exact ⟨.read, List.cons_ne_nil _ _⟩
    · exact ⟨.write, List.cons_ne_nil _ _⟩
  · intro hpending
    obtain ⟨mode, hne⟩ := hpending
    by_contra hb
    cases isWrite <;> cases mode <;> simp [holding, bank, hb, BankQueue.empty] at hne

/-- A single read is returned. -/
theorem returns_iff_serviceable_oneRead :
    Returns splitQueues (fun _ => 0) (holding false) [0] :=
  (returns_iff_serviceable (reachable_holding false) (hasPending_holding false)
    ⟨0, (hasPending_holding false 0).mp List.mem_cons_self⟩ _).mpr (by
      simp [Serviceable, splitQueues, holding])

/-- A single write is not returned. -/
theorem not_returns_oneWrite :
    ∃ s banks, (frfcfsSystem splitQueues).Reachable (.ok s) ∧ (∀ b, b ∈ banks ↔ s.HasPending b) ∧
      (∃ b, s.HasPending b) ∧ ¬ Returns splitQueues (fun _ => 0) s banks := by
  refine ⟨holding true, [0], reachable_holding true, hasPending_holding true,
    ⟨0, (hasPending_holding true 0).mp List.mem_cons_self⟩, ?_⟩
  intro hreturns
  obtain ⟨b, _, req, next, hscan⟩ := hreturns
  have hnone : scan splitQueues (fun _ => 0) [0] (holding true) = .ok (none, holding true) := rfl
  rw [hnone] at hscan
  cases hscan

end Frfcfs

end GpuCalorie.Dram
