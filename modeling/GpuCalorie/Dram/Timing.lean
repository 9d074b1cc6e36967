/-
# The timing of commands

What a DRAM demands of the commands on its buses, stated of the commands alone: which
command must keep which distance from an earlier one, and that a burst is for the row that
the commands before it have opened.

The channel keeps to it by its counters. Seen through its counters and open rows it is a
small machine that issues commands which are ready and counts down, and everything else a
channel does leaves these alone.
-/

import GpuCalorie.Dram.Channel
import GpuCalorie.Math.Timers

namespace GpuCalorie.Dram

open GpuCalorie.Math

/-! ## What is demanded -/

namespace Command

/-- The bank and row of a column command. -/
def column : Command → Option (ℕ × ℕ)
  | .read b row => some (b, row)
  | .write b row => some (b, row)
  | _ => none

/-- The row that a sequence of commands, the last one first, leaves open in a bank. -/
def openRow (b : ℕ) : List Command → Option ℕ
  | [] => none
  | .activate b' row :: earlier => if b = b' then some row else openRow b earlier
  | .precharge b' :: earlier => if b = b' then none else openRow b earlier
  | _ :: earlier => openRow b earlier

end Command

/-- A command may follow an earlier one by some cycles. -/
structure Separated (cfg : DramConfig) (first second : Command) (cycles : ℕ) : Prop where
  rrd : ∀ b row b' row', first = .activate b row → second = .activate b' row' → cfg.tRRD ≤ cycles
  rc : ∀ b row row', first = .activate b row → second = .activate b row' → cfg.tRC ≤ cycles
  ras : ∀ b row, first = .activate b row → second = .precharge b → cfg.tRAS ≤ cycles
  rp : ∀ b row, first = .precharge b → second = .activate b row → cfg.tRP ≤ cycles
  rcd : ∀ b row row', first = .activate b row → second = .read b row' → cfg.tRCD ≤ cycles
  rcdwr : ∀ b row row', first = .activate b row → second = .write b row' → cfg.tRCDWR ≤ cycles
  ccd : first.column.isSome → second.column.isSome → cfg.tCCD ≤ cycles
  ccdl : ∀ b row b' row', first.column = some (b, row) → second.column = some (b', row') →
    Channel.bankgrpNumber cfg b = Channel.bankgrpNumber cfg b' → cfg.tCCDL ≤ cycles
  rtw : ∀ b row b' row', first = .read b row → second = .write b' row' → cfg.tRTW ≤ cycles
  wtr : ∀ b row b' row', first = .write b row → second = .read b' row' → cfg.tWTR ≤ cycles
  wtp : ∀ b row, first = .write b row → second = .precharge b → cfg.tWTP ≤ cycles
  rtp : ∀ b row, first = .read b row → second = .precharge b →
    cfg.bl / cfg.dataCommandFreqRatio ≤ cycles
  rtpl : ∀ b row b', first = .read b row → second = .precharge b' →
    Channel.bankgrpNumber cfg b = Channel.bankgrpNumber cfg b' → cfg.tRTPL ≤ cycles

/-- A command, with its cycle, may follow the commands before it, the last one first. -/
structure MayFollow (cfg : DramConfig) (earlier : List (ℕ × Command)) (e : ℕ × Command) : Prop where
  separated : ∀ first ∈ earlier, first.1 ≤ e.1 ∧ Separated cfg first.2 e.2 (e.1 - first.1)
  row : ∀ b row, e.2.column = some (b, row) →
    Command.openRow b (earlier.map Prod.snd) = some row

/-- Every command of a sequence, the last one first, may follow those before it. -/
def Legal (cfg : DramConfig) : List (ℕ × Command) → Prop
  | [] => True
  | e :: earlier => MayFollow cfg earlier e ∧ Legal cfg earlier

/-! ## The counters -/

/-- The timing counters of a channel, its banks and its bank groups. -/
inductive DramTimer
  | ccd
  | rrd
  | rtw
  | wtr
  | rcd (b : ℕ)
  | rcdwr (b : ℕ)
  | ras (b : ℕ)
  | rp (b : ℕ)
  | rc (b : ℕ)
  | wtp (b : ℕ)
  | rtp (b : ℕ)
  | ccdl (grp : ℕ)
  | rtpl (grp : ℕ)
  deriving DecidableEq

/-- What the counters are loaded with. -/
def DramConfig.period (cfg : DramConfig) : DramTimer → ℕ
  | .ccd => cfg.tCCD
  | .rrd => cfg.tRRD
  | .rtw => cfg.tRTW
  | .wtr => cfg.tWTR
  | .rcd _ => cfg.tRCD
  | .rcdwr _ => cfg.tRCDWR
  | .ras _ => cfg.tRAS
  | .rp _ => cfg.tRP
  | .rc _ => cfg.tRC
  | .wtp _ => cfg.tWTP
  | .rtp _ => cfg.bl / cfg.dataCommandFreqRatio
  | .ccdl _ => cfg.tCCDL
  | .rtpl _ => cfg.tRTPL

namespace Command

/-- The counters that a command loads. -/
def loads (cfg : DramConfig) : Command → List DramTimer
  | .activate b _ => [.rrd, .rcd b, .rcdwr b, .ras b, .rc b]
  | .precharge b => [.rp b]
  | .read b _ =>
      [.ccd, .rtw, .rtp b, .ccdl (Channel.bankgrpNumber cfg b), .rtpl (Channel.bankgrpNumber cfg b)]
  | .write b _ => [.ccd, .wtr, .wtp b, .ccdl (Channel.bankgrpNumber cfg b)]

/-- The counters that a command waits for. -/
def waits (cfg : DramConfig) : Command → List DramTimer
  | .activate b _ => [.rrd, .rp b, .rc b]
  | .precharge b => [.ras b, .wtp b, .rtp b, .rtpl (Channel.bankgrpNumber cfg b)]
  | .read b _ => [.ccd, .rcd b, .wtr, .ccdl (Channel.bankgrpNumber cfg b)]
  | .write b _ => [.ccd, .rcdwr b, .rtw, .ccdl (Channel.bankgrpNumber cfg b)]

end Command

theorem Command.mem_loads (cfg : DramConfig) (c : Command) (k : DramTimer) :
    k ∈ c.loads cfg ↔
      match c, k with
      | .activate _ _, .rrd => True
      | .activate b _, .rcd b' => b' = b
      | .activate b _, .rcdwr b' => b' = b
      | .activate b _, .ras b' => b' = b
      | .activate b _, .rc b' => b' = b
      | .precharge b, .rp b' => b' = b
      | .read _ _, .ccd => True
      | .read _ _, .rtw => True
      | .read b _, .rtp b' => b' = b
      | .read b _, .ccdl grp => grp = Channel.bankgrpNumber cfg b
      | .read b _, .rtpl grp => grp = Channel.bankgrpNumber cfg b
      | .write _ _, .ccd => True
      | .write _ _, .wtr => True
      | .write b _, .wtp b' => b' = b
      | .write b _, .ccdl grp => grp = Channel.bankgrpNumber cfg b
      | _, _ => False := by
  cases c <;> cases k <;> simp [Command.loads]

/-- The counters of a channel keep its commands apart. -/
def timerSpec (cfg : DramConfig) : TimerSpec Command DramTimer where
  period := cfg.period
  starts c k := k ∈ c.loads cfg
  waits c k := k ∈ c.waits cfg

theorem separated_of_spaced {cfg : DramConfig} {later earlier : ℕ × Command}
    (h : (timerSpec cfg).Spaced later earlier) :
    Separated cfg earlier.2 later.2 (later.1 - earlier.1) := by
  obtain ⟨t, first⟩ := earlier
  obtain ⟨t', second⟩ := later
  have hkeep : ∀ k, k ∈ first.loads cfg → k ∈ second.waits cfg → cfg.period k ≤ t' - t := by
    intro k hloads hwaits
    have hspaced : t + cfg.period k ≤ t' := h.2 k hloads hwaits
    omega
  constructor
  · rintro b row b' row' rfl rfl
    exact hkeep .rrd (by simp [Command.loads]) (by simp [Command.waits])
  · rintro b row row' rfl rfl
    exact hkeep (.rc b) (by simp [Command.loads]) (by simp [Command.waits])
  · rintro b row rfl rfl
    exact hkeep (.ras b) (by simp [Command.loads]) (by simp [Command.waits])
  · rintro b row rfl rfl
    exact hkeep (.rp b) (by simp [Command.loads]) (by simp [Command.waits])
  · rintro b row row' rfl rfl
    exact hkeep (.rcd b) (by simp [Command.loads]) (by simp [Command.waits])
  · rintro b row row' rfl rfl
    exact hkeep (.rcdwr b) (by simp [Command.loads]) (by simp [Command.waits])
  · intro hfirst hsecond
    apply hkeep .ccd
    · cases first <;> simp [Command.column, Command.loads] at hfirst ⊢
    · cases second <;> simp [Command.column, Command.waits] at hsecond ⊢
  · intro b row b' row' hfirst hsecond hgrp
    apply hkeep (.ccdl (Channel.bankgrpNumber cfg b))
    · cases first <;> simp [Command.column, Command.loads] at hfirst ⊢ <;> simp [hfirst.1]
    · cases second <;> simp [Command.column, Command.waits] at hsecond ⊢ <;>
        simp [hsecond.1, hgrp]
  · rintro b row b' row' rfl rfl
    exact hkeep .rtw (by simp [Command.loads]) (by simp [Command.waits])
  · rintro b row b' row' rfl rfl
    exact hkeep .wtr (by simp [Command.loads]) (by simp [Command.waits])
  · rintro b row rfl rfl
    exact hkeep (.wtp b) (by simp [Command.loads]) (by simp [Command.waits])
  · rintro b row rfl rfl
    exact hkeep (.rtp b) (by simp [Command.loads]) (by simp [Command.waits])
  · rintro b row b' rfl rfl hgrp
    exact hkeep (.rtpl (Channel.bankgrpNumber cfg b)) (by simp [Command.loads])
      (by simp [Command.waits, hgrp])

/-! ## A channel as counters and open rows -/

/-- What matters of a channel for its timing. -/
@[ext]
structure Timing where
  counter : DramTimer → ℕ
  openRow : ℕ → Option ℕ

namespace Timing

/-- A command can be issued. -/
structure Ready (cfg : DramConfig) (T : Timing) (c : Command) : Prop where
  waits : ∀ k ∈ c.waits cfg, T.counter k = 0
  row : ∀ b row, c.column = some (b, row) → T.openRow b = some row

/-- A command is issued. -/
def issue (cfg : DramConfig) (T : Timing) (c : Command) : Timing where
  counter k := if k ∈ c.loads cfg then cfg.period k else T.counter k
  openRow b :=
    match c with
    | .activate b' row => if b = b' then some row else T.openRow b
    | .precharge b' => if b = b' then none else T.openRow b
    | _ => T.openRow b

/-- The commands so far were legal, and the counters and open rows are those they leave. -/
structure Sound (cfg : DramConfig) (T : Timing) (now : ℕ) (trace : List (ℕ × Command)) : Prop where
  running : (timerSpec cfg).Running T.counter now trace
  openRow : ∀ b, T.openRow b = Command.openRow b (trace.map Prod.snd)
  legal : Legal cfg trace

variable {cfg : DramConfig} {T : Timing} {now : ℕ} {trace : List (ℕ × Command)}

theorem Sound.issue (h : T.Sound cfg now trace) {c : Command} (hready : T.Ready cfg c) :
    (T.issue cfg c).Sound cfg now ((now, c) :: trace) where
  running := by
    apply h.running.issue hready.waits
    · intro k hk
      exact (if_pos hk).ge
    · intro k hk
      exact (if_neg hk).ge
  openRow b := by
    cases c <;> simp only [Timing.issue, List.map_cons, Command.openRow, h.openRow]
  legal := by
    refine ⟨⟨fun first hfirst => ?_, fun b row hcolumn => ?_⟩, h.legal⟩
    · refine ⟨h.running.past first hfirst, separated_of_spaced ⟨h.running.past first hfirst, ?_⟩⟩
      intro k hstarts hwaits
      have hcount := h.running.counting first hfirst k hstarts
      have hzero : T.counter k = 0 := hready.waits k hwaits
      show first.1 + _ ≤ now
      omega
    · rw [← h.openRow]
      exact hready.row b row hcolumn

theorem Sound.tick (h : T.Sound cfg now trace) {T' : Timing}
    (hless : ∀ k, T.counter k ≤ T'.counter k + 1) (hrow : T'.openRow = T.openRow) :
    T'.Sound cfg (now + 1) trace where
  running := h.running.tick hless
  openRow b := by rw [hrow, h.openRow]
  legal := h.legal

end Timing

namespace Channel

/-- The timing of a channel. -/
def timing (s : Channel) : Timing where
  counter
    | .ccd => s.ccdc
    | .rrd => s.rrdc
    | .rtw => s.rtwc
    | .wtr => s.wtrc
    | .rcd b => (s.bk b).rcdc
    | .rcdwr b => (s.bk b).rcdwrc
    | .ras b => (s.bk b).rasc
    | .rp b => (s.bk b).rpc
    | .rc b => (s.bk b).rcc
    | .wtp b => (s.bk b).wtpc
    | .rtp b => (s.bk b).rtpc
    | .ccdl grp => (s.bkgrp grp).ccdlc
    | .rtpl grp => (s.bkgrp grp).rtplc
  openRow b := if (s.bk b).state = .active then some (s.bk b).currRow else none

variable {cfg : DramConfig} {s : Channel}

@[simp]
theorem timing_setMrq (b : ℕ) (mrq : Option DramReq) : (s.setMrq b mrq).timing = s.timing := by
  have hbank : ∀ i, (s.setMrq b mrq).bk i = { s.bk i with mrq := ((s.setMrq b mrq).bk i).mrq } := by
    intro i
    by_cases hi : i = b
    · subst hi
      simp [setMrq, setBank]
    · simp [setMrq, setBank, hi]
  apply Timing.ext
  · funext k
    cases k <;> first | rfl | (simp only [timing]; rw [hbank])
  · funext i
    simp only [timing]
    rw [hbank]

/-! ## What changes nothing -/

/-- The timing is as before. -/
abbrev KeepsTiming (s next : Channel) : Prop := next.timing = s.timing

/-- Any failure. -/
abbrev anyFailure {ε : Type} : ε → Prop := fun _ => True

theorem okOr_any {α : Type} {ε : Type} (x : Except ε α) : OkOr (fun _ => True) anyFailure x :=
  .intro (fun _ _ => trivial) fun _ _ => trivial

theorem drain_timing (cfg : DramConfig) (s : Channel) :
    OkOr (fun r => KeepsTiming s r.2) anyFailure (drain cfg s) := by
  apply OkOr.ite
  · exact fun _ => rfl
  · intro _
    apply (okOr_any _).bind
    rintro ⟨cmd | cmd, rwq⟩ -
    · rfl
    · apply (okOr_any _).bind
      intro obj _
      apply OkOr.ite
      · exact fun _ => (okOr_any _).bind fun returnq _ => rfl
      · exact fun _ => rfl

theorem schedulerFifo_timing (cfg : DramConfig) (s : Channel) :
    OkOr (KeepsTiming s) anyFailure (schedulerFifo cfg s) := by
  apply OkOr.ite
  · exact fun _ => rfl
  · intro _
    cases s.mrqq.top with
    | none => trivial
    | some head =>
        apply (okOr_any _).bind
        intro obj _
        apply OkOr.ite
        · exact fun _ => trivial
        · intro _
          apply OkOr.ite
          · exact fun _ => rfl
          · intro _
            apply (okOr_any _).bind
            intro r _
            exact timing_setMrq ..

theorem acceptAll_timing (cfg : DramConfig) (s : Channel) (rounds : ℕ) :
    OkOr (KeepsTiming s) anyFailure (acceptAll cfg s rounds) := by
  induction rounds generalizing s with
  | zero => rfl
  | succ rounds ih =>
      apply OkOr.ite
      · exact fun _ => rfl
      · intro _
        apply (okOr_any _).bind
        rintro ⟨req | req, mrqq⟩ -
        · trivial
        · apply (okOr_any _).bind
          intro obj _
          apply OkOr.ite
          · exact fun _ => trivial
          · intro _
            apply (okOr_any _).bind
            intro sched _
            exact ih _

theorem fillBank_timing (cfg : DramConfig) (places : List ℕ) (s : Channel) :
    OkOr (KeepsTiming s) anyFailure (fillBank cfg places s) := by
  induction places generalizing s with
  | nil => rfl
  | cons i rest ih =>
      apply OkOr.ite
      · exact fun _ => ih s
      · intro _
        apply (okOr_any _).bind
        rintro ⟨req | req, sched⟩ -
        · exact ih _
        · apply (okOr_any _).bind
          intro obj _
          exact timing_setMrq ..

theorem scheduler_timing (cfg : DramConfig) (s : Channel) :
    OkOr (KeepsTiming s) anyFailure (scheduler cfg s) := by
  unfold scheduler
  cases cfg.schedulerType with
  | fifo => exact schedulerFifo_timing cfg s
  | frfcfs =>
      apply (acceptAll_timing cfg s _).bind
      intro next hnext
      exact (fillBank_timing cfg _ next).imp fun last hlast => hlast.trans hnext

theorem sendBurst_timing (cfg : DramConfig) (s : Channel) (j : ℕ) (mrq : DramReq) :
    OkOr (KeepsTiming s) anyFailure (sendBurst cfg s j mrq) := by
  apply (okOr_any _).bind
  intro obj _
  apply (okOr_any _).bind
  intro rwq _
  apply (okOr_any _).bind
  intro rwq _
  exact timing_setMrq ..

/-! ## What issues a command -/

/-- A command that is ready is issued, or nothing changes. -/
def IssuesReady (cfg : DramConfig) (s : Channel) (r : Option Command × Channel) : Prop :=
  match r.1 with
  | none => KeepsTiming s r.2
  | some c => s.timing.Ready cfg c ∧ r.2.timing = s.timing.issue cfg c

theorem update_bank {α : Type} (f : ℕ → α) (j i : ℕ) (new : α) :
    Function.update f j new i = if i = j then new else f i :=
  Function.update_apply f j new i

theorem timing_startRead (cfg : DramConfig) (s : Channel) (j row : ℕ) :
    (startRead cfg s j).timing = s.timing.issue cfg (.read j row) := by
  apply Timing.ext
  · funext k
    cases k with
    | rcd b | rcdwr b | ras b | rp b | rc b | wtp b | rtp b =>
        by_cases hb : b = j <;>
          simp only [timing, Timing.issue, startRead, Command.mem_loads, update_bank, hb,
          DramConfig.period, if_true, if_false]
    | ccdl grp | rtpl grp =>
        by_cases hgrp : grp = bankgrpNumber cfg j <;> simp only [timing, Timing.issue, startRead,
          Command.mem_loads, update_bank, hgrp, DramConfig.period, if_true, if_false]
    | _ =>
        simp only [timing, Timing.issue, startRead, Command.mem_loads, DramConfig.period, if_true,
          if_false]
  · funext b
    by_cases hb : b = j <;>
      simp only [timing, Timing.issue, startRead, update_bank, hb, if_true, if_false]

theorem timing_startWrite (cfg : DramConfig) (s : Channel) (j row : ℕ) :
    (startWrite cfg s j).timing = s.timing.issue cfg (.write j row) := by
  apply Timing.ext
  · funext k
    cases k with
    | rcd b | rcdwr b | ras b | rp b | rc b | wtp b | rtp b =>
        by_cases hb : b = j <;>
          simp only [timing, Timing.issue, startWrite, Command.mem_loads, update_bank, hb,
          DramConfig.period, if_true, if_false]
    | ccdl grp | rtpl grp =>
        by_cases hgrp : grp = bankgrpNumber cfg j <;> simp only [timing, Timing.issue, startWrite,
          Command.mem_loads, update_bank, hgrp, DramConfig.period, if_true, if_false]
    | _ =>
        simp only [timing, Timing.issue, startWrite, Command.mem_loads, DramConfig.period, if_true,
          if_false]
  · funext b
    by_cases hb : b = j <;>
      simp only [timing, Timing.issue, startWrite, update_bank, hb, if_true, if_false]

theorem issueColCommand_timing (cfg : DramConfig) (s : Channel) (j : ℕ) :
    OkOr (IssuesReady cfg s) anyFailure (issueColCommand cfg s j) := by
  unfold issueColCommand
  cases s.bk j |>.mrq with
  | none => rfl
  | some mrq =>
      apply (okOr_any _).bind
      intro obj _
      apply OkOr.ite
      · intro hread
        obtain ⟨⟨hccd, hccdl, hrow, hactive, _⟩, hrcd, _, hwtr⟩ := hread
        apply (sendBurst_timing cfg s j mrq).bind
        intro next hnext
        refine ⟨⟨?_, ?_⟩, ?_⟩
        · simp [Command.waits, timing, hccd, hrcd, hwtr, hccdl]
        · intro b row hcolumn
          cases hcolumn
          exact (if_pos hactive).trans (congrArg some hrow)
        · rw [timing_startRead, hnext]
      · intro _
        apply OkOr.ite
        · intro hwrite
          obtain ⟨⟨hccd, hccdl, hrow, hactive, _⟩, hrcdwr, _, hrtw⟩ := hwrite
          apply (sendBurst_timing cfg s j mrq).bind
          intro next hnext
          refine ⟨⟨?_, ?_⟩, ?_⟩
          · simp [Command.waits, timing, hccd, hrcdwr, hrtw, hccdl]
          · intro b row hcolumn
            cases hcolumn
            exact (if_pos hactive).trans (congrArg some hrow)
          · rw [timing_startWrite, hnext]
        · exact fun _ => rfl

theorem timing_activateRow (cfg : DramConfig) (s : Channel) (j row : ℕ) :
    (activateRow cfg s j row).timing = s.timing.issue cfg (.activate j row) := by
  apply Timing.ext
  · funext k
    cases k with
    | rcd b | rcdwr b | ras b | rp b | rc b | wtp b | rtp b =>
        by_cases hb : b = j <;> simp only [timing, Timing.issue, activateRow, Command.mem_loads,
          update_bank, hb, DramConfig.period, if_true, if_false]
    | _ =>
        simp only [timing, Timing.issue, activateRow, Command.mem_loads, DramConfig.period, if_true,
          if_false]
  · funext b
    by_cases hb : b = j <;>
      simp only [timing, Timing.issue, activateRow, update_bank, hb, if_true, if_false]

theorem timing_prechargeBank (cfg : DramConfig) (s : Channel) (j : ℕ) :
    (prechargeBank cfg s j).timing = s.timing.issue cfg (.precharge j) := by
  apply Timing.ext
  · funext k
    cases k with
    | rcd b | rcdwr b | ras b | rp b | rc b | wtp b | rtp b =>
        by_cases hb : b = j <;> simp only [timing, Timing.issue, prechargeBank, Command.mem_loads,
          update_bank, hb, DramConfig.period, if_true, if_false]
    | _ => simp only [timing, Timing.issue, prechargeBank, Command.mem_loads, if_false]
  · funext b
    by_cases hb : b = j <;>
      simp only [timing, Timing.issue, prechargeBank, update_bank, hb, if_true, if_false,
        reduceCtorEq]

theorem issueRowCommand_timing (cfg : DramConfig) (s : Channel) (j : ℕ) :
    OkOr (IssuesReady cfg s) anyFailure (issueRowCommand cfg s j) := by
  unfold issueRowCommand
  cases s.bk j |>.mrq with
  | none => rfl
  | some mrq =>
      apply (okOr_any _).bind
      intro obj _
      apply OkOr.ite
      · intro hactivate
        obtain ⟨hrrd, hidle, hrp, hrc⟩ := hactivate
        refine ⟨⟨?_, nofun⟩, timing_activateRow ..⟩
        simp [Command.waits, timing, hrrd, hrp, hrc]
      · intro _
        apply OkOr.ite
        · intro hprecharge
          obtain ⟨_, hactive, hras, hwtp, hrtp, hrtpl⟩ := hprecharge
          refine ⟨⟨?_, nofun⟩, timing_prechargeBank ..⟩
          simp [Command.waits, timing, hras, hwtp, hrtp, hrtpl]
        · exact fun _ => rfl

theorem le_countDown (cfg : DramConfig) (s : Channel) (b : ℕ) (counter : Bank → ℕ)
    (h : counter (s.bk b).countDown = counter (s.bk b) - 1) :
    counter (s.bk b) ≤ counter ((countDown cfg s).bk b) + 1 := by
  have hbank : (countDown cfg s).bk b = if b < cfg.nbk then (s.bk b).countDown else s.bk b := rfl
  rw [hbank]
  split_ifs
  · rw [h]
    omega
  · omega

theorem timing_countDown (cfg : DramConfig) (s : Channel) :
    (∀ k, s.timing.counter k ≤ (countDown cfg s).timing.counter k + 1) ∧
      (countDown cfg s).timing.openRow = s.timing.openRow := by
  constructor
  · intro k
    cases k with
    | ccd => exact Nat.sub_le_iff_le_add.mp le_rfl
    | rrd => exact Nat.sub_le_iff_le_add.mp le_rfl
    | rtw => exact Nat.sub_le_iff_le_add.mp le_rfl
    | wtr => exact Nat.sub_le_iff_le_add.mp le_rfl
    | rcd b => exact le_countDown cfg s b Bank.rcdc rfl
    | rcdwr b => exact le_countDown cfg s b Bank.rcdwrc rfl
    | ras b => exact le_countDown cfg s b Bank.rasc rfl
    | rp b => exact le_countDown cfg s b Bank.rpc rfl
    | rc b => exact le_countDown cfg s b Bank.rcc rfl
    | wtp b => exact le_countDown cfg s b Bank.wtpc rfl
    | rtp b => exact le_countDown cfg s b Bank.rtpc rfl
    | ccdl grp =>
        have hgrp : (countDown cfg s).timing.counter (.ccdl grp) =
            (if grp < cfg.nbkgrp then (⟨(s.bkgrp grp).ccdlc - 1, (s.bkgrp grp).rtplc - 1⟩ : BankGrp)
              else s.bkgrp grp).ccdlc := rfl
        rw [hgrp]
        split_ifs
        · exact Nat.sub_le_iff_le_add.mp le_rfl
        · exact Nat.le_succ _
    | rtpl grp =>
        have hgrp : (countDown cfg s).timing.counter (.rtpl grp) =
            (if grp < cfg.nbkgrp then (⟨(s.bkgrp grp).ccdlc - 1, (s.bkgrp grp).rtplc - 1⟩ : BankGrp)
              else s.bkgrp grp).rtplc := rfl
        rw [hgrp]
        split_ifs
        · exact Nat.sub_le_iff_le_add.mp le_rfl
        · exact Nat.le_succ _
  · funext b
    by_cases hb : b < cfg.nbk <;> simp [timing, countDown, Bank.countDown, hb]

/-! ## Runs -/

theorem issueCommands_timing {now : ℕ} {trace : List (ℕ × Command)}
    (h : s.timing.Sound cfg now trace) :
    OkOr (fun t => t.dram.timing.Sound cfg now (t.commands.map (Prod.mk now) ++ trace)) anyFailure
      (issueCommands cfg s) := by
  have hissue : ∀ (s : Channel) commands (x : Except DramFailure (Option Command × Channel)),
      OkOr (IssuesReady cfg s) anyFailure x →
      s.timing.Sound cfg now (commands.map (Prod.mk now) ++ trace) →
      OkOr (fun r => r.2.timing.Sound cfg now
        ((r.1.toList ++ commands).map (Prod.mk now) ++ trace)) anyFailure x := by
    intro s commands x hx hs
    apply hx.imp
    rintro ⟨_ | c, next⟩ hnext
    · have hsame : next.timing = s.timing := hnext
      rw [← hsame] at hs
      exact hs
    · obtain ⟨hready, hsame⟩ := hnext
      have hsound := hs.issue hready
      rw [← hsame] at hsound
      exact hsound
  apply issueCommands_keeps (P := fun s commands =>
    s.timing.Sound cfg now (commands.map (Prod.mk now) ++ trace))
  · intro s commands j hs
    exact hissue s commands _ (issueColCommand_timing cfg s j) hs
  · intro s commands j hs
    exact hissue s commands _ (issueRowCommand_timing cfg s j) hs
  · exact h

theorem Log.timing_step {log : Log} (h : log.dram.timing.Sound cfg log.now log.commands)
    (a : Action) :
    OkOr (fun next => next.dram.timing.Sound cfg next.now next.commands) anyFailure
      (Log.step cfg log a) := by
  cases a with
  | push data =>
      have hpush : OkOr (KeepsTiming log.dram) anyFailure (log.dram.push data) := by
        apply OkOr.ite
        · exact fun _ => trivial
        · exact fun _ => (okOr_any _).bind fun mrqq _ => rfl
      apply hpush.bind
      intro next hnext
      have hsame : next.timing = log.dram.timing := hnext
      show next.timing.Sound cfg log.now log.commands
      rw [hsame]
      exact h
  | returnQueuePop =>
      have hpop : OkOr (fun r => KeepsTiming log.dram r.2) anyFailure log.dram.returnQueuePop :=
        (okOr_any _).bind fun r _ => rfl
      apply hpop.bind
      intro r hr
      have hsame : r.2.timing = log.dram.timing := hr
      show r.2.timing.Sound cfg log.now log.commands
      rw [hsame]
      exact h
  | cycle =>
      have hcycle : OkOr (fun r => r.dram.timing.Sound cfg (log.now + 1)
          (r.commands.map (Prod.mk log.now) ++ log.commands)) anyFailure (log.dram.cycle cfg) := by
        apply (drain_timing cfg log.dram).bind
        intro r hr
        apply (scheduler_timing cfg r.2).bind
        intro s hs
        have hsame : s.timing = log.dram.timing := hs.trans hr
        rw [← hsame] at h
        apply (issueCommands_timing h).bind
        intro t ht
        obtain ⟨hless, hrow⟩ := timing_countDown cfg t.dram
        exact ht.tick hless hrow
      exact hcycle.bind fun r hr => hr

theorem timing_new {id : ℕ} (h : Channel.new cfg id = .ok s) : s.timing.Sound cfg 0 [] := by
  have hnew : OkOr (fun s => ∀ b, s.timing.openRow b = none) anyFailure (Channel.new cfg id) := by
    apply (okOr_any _).bind
    intro rwq _
    apply (okOr_any _).bind
    intro mrqq _
    apply (okOr_any _).bind
    intro returnq _ b
    rfl
  exact ⟨TimerSpec.running_nil _ _ _, hnew.of_ok h, trivial⟩

/-- In every run the commands keep all distances, and bursts are for open rows. -/
theorem legal_of_reachable {log : Log} (reached : (dramSystem cfg).Reachable (.ok log)) :
    Legal cfg log.commands := by
  have hsound : OkOr (fun log => log.dram.timing.Sound cfg log.now log.commands) anyFailure
      (.ok log : Except DramFailure Log) := by
    apply reached.invariant_ofExcept_all
    · intro log hlog
      obtain ⟨id, dram, hnew, heq⟩ := hlog
      rw [heq]
      exact timing_new hnew
    · exact fun log a h _ => Log.timing_step h a
  exact hsound.legal

/-- The row is opened, and the bursts keep the distance within a bank group. -/
theorem legal_of_reachable_longRead :
    ∃ log, (dramSystem twoBanks).Reachable (.ok log) ∧
      log.commands = [(5, .read 0 3), (2, .read 0 3), (0, .activate 0 3)] ∧
      Legal twoBanks log.commands := by
  have hrun : (replay twoBanks 0 (.push longRead :: List.replicate 8 .cycle)).map Log.commands =
      some [(5, .read 0 3), (2, .read 0 3), (0, .activate 0 3)] := by decide
  obtain ⟨log, hlog, hcommands⟩ := Option.map_eq_some_iff.mp hrun
  have hreached : (dramSystem twoBanks).Reachable (.ok log) := reachable_of_replay hlog
  exact ⟨log, hreached, hcommands, legal_of_reachable hreached⟩

end Channel

end GpuCalorie.Dram
