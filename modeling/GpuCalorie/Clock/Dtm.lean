/-
# Dynamic thermal management

`dtm` goes through the clocks that the configuration lists, one further while the chip is at its
ceiling and one back while it is below. The list is read into an array for eighteen clocks, and
that is also how many `dtm` takes there to be.

Numbers are of any type with the operations of the source, and `stod` is a parameter.
-/

import GpuCalorie.Math.Outcome
import GpuCalorie.Math.Text
import Mathlib.Algebra.Order.Ring.Rat
import Mathlib.Data.List.Infix
import Mathlib.Data.Nat.Cast.Defs
import Mathlib.Logic.Function.Basic
import Mathlib.Order.Basic

namespace GpuCalorie.Clock

universe u

variable {K : Type u}

/-! ## The list of clocks -/

/-- Where `init_clock_domains` aborts, or writes beyond `temp`. -/
inductive ClockFailure
  /-- `invalid format of names` -/
  | invalidFormat
  | overrun
  /-- What `stod` throws. -/
  | invalidArgument
  deriving DecidableEq, Repr

/-- `num_supported_clocks`, and the length of `core_supported_clocks`. -/
def numSupportedClocks : ℕ := 18

/-- `ispunct`. -/
def ispunct (c : Char) : Bool :=
  33 ≤ c.toNat && c.toNat ≤ 47 || 58 ≤ c.toNat && c.toNat ≤ 64 ||
    91 ≤ c.toNat && c.toNat ≤ 96 || 123 ≤ c.toNat && c.toNat ≤ 126

/-- What `sscanf` reads with `%[^,]`. -/
def clockWord (src : List Char) : List Char := src.takeWhile (· ≠ ',')

/-- `src` after a clock, and after the punctuation that follows it. -/
def afterClock (src : List Char) : List Char :=
  (src.drop (clockWord src).length).dropWhile ispunct

/-- The loop of `init_clock_domains`, with the room that is left from position `i` on. -/
def readClocks (stod : List Char → Option K) :
    ℕ → ℕ → List Char → (ℕ → K) → Except ClockFailure (ℕ → K)
  | 0, _, _, clocks => .ok clocks
  | _ + 1, _, [], clocks => .ok clocks
  | left + 1, i, c :: text, clocks =>
    let temp := clockWord (c :: text)
    if temp = [] then .error .invalidFormat
    else if 4 < temp.length then .error .overrun
    else
      match stod temp with
      | none => .error .invalidArgument
      | some clock =>
        readClocks stod left (i + 1) (afterClock (c :: text)) (Function.update clocks i clock)

theorem length_afterClock_lt (c : Char) (text : List Char) :
    (afterClock (c :: text)).length < (c :: text).length := by
  have hdrop := (List.dropWhile_suffix (l := (c :: text).drop (clockWord (c :: text)).length)
    ispunct).length_le
  rw [afterClock]
  by_cases hcomma : c = ','
  · subst hcomma
    have hword : clockWord (',' :: text) = [] := List.takeWhile_cons_of_neg (by decide)
    have hpunct : (',' :: text).dropWhile ispunct = text.dropWhile ispunct :=
      List.dropWhile_cons_of_pos (by decide)
    rw [hword, List.length_nil, List.drop_zero, hpunct]
    exact lt_of_le_of_lt (List.dropWhile_suffix ispunct).length_le (Nat.lt_succ_self _)
  · have hword : clockWord (c :: text) = c :: clockWord text :=
      List.takeWhile_cons_of_pos (decide_eq_true hcomma)
    rw [hword, List.length_cons, List.drop_succ_cons]
    rw [hword, List.length_cons, List.drop_succ_cons] at hdrop
    rw [List.length_drop] at hdrop
    rw [List.length_cons]
    omega

/-- The entries of a list: the words between the commas, each without the punctuation before it,
and those left out that are nothing else. -/
def clockWords : List Char → List (List Char)
  | [] => []
  | c :: text => clockWord (c :: text) :: clockWords (afterClock (c :: text))
  termination_by src => src.length
  decreasing_by exact length_afterClock_lt c text

variable {stod : List Char → Option K} {src : List Char}

@[simp] theorem clockWords_nil : clockWords [] = [] := by
  rw [clockWords]

@[simp] theorem clockWords_cons (c : Char) (text : List Char) :
    clockWords (c :: text) = clockWord (c :: text) :: clockWords (afterClock (c :: text)) := by
  rw [clockWords]

theorem readClocks_spec {left i : ℕ} {clocks clocks' : ℕ → K}
    (h : readClocks stod left i src clocks = .ok clocks') :
    (∀ j < i, clocks' j = clocks j) ∧
      ∀ j < left, ∀ word, (clockWords src)[j]? = some word →
        stod word = some (clocks' (i + j)) := by
  induction left generalizing i src clocks with
  | zero =>
    rw [readClocks] at h
    obtain rfl := Except.ok.inj h
    exact ⟨fun _ _ => rfl, fun j hj => absurd hj (Nat.not_lt_zero j)⟩
  | succ left ih =>
    cases src with
    | nil =>
      rw [readClocks] at h
      obtain rfl := Except.ok.inj h
      refine ⟨fun _ _ => rfl, fun j _ word hword => ?_⟩
      rw [clockWords_nil] at hword
      cases hword
    | cons c text =>
      rw [readClocks] at h
      split_ifs at h with hempty hlong
      cases hstod : stod (clockWord (c :: text)) with
      | none =>
        rw [hstod] at h
        cases h
      | some clock =>
        rw [hstod] at h
        obtain ⟨hbefore, hread⟩ := ih h
        have hclock : clocks' i = clock := by
          rw [hbefore i (Nat.lt_succ_self i), Function.update_self]
        refine ⟨fun j hj => ?_, fun j hj word hword => ?_⟩
        · rw [hbefore j (by omega), Function.update_of_ne (by omega)]
        · rw [clockWords_cons] at hword
          cases j with
          | zero =>
            obtain rfl : clockWord (c :: text) = word := Option.some.inj hword
            rw [hstod, Nat.add_zero, hclock]
          | succ j =>
            have hnext := hread j (by omega) word (by simpa using hword)
            rwa [Nat.add_right_comm, Nat.add_assoc] at hnext

/-- A clock of the list. -/
def Entry (stod : List Char → Option K) (src : List Char) (j : ℕ) (clock : K) : Prop :=
  ∃ word, (clockWords src)[j]? = some word ∧ stod word = some clock

/-! ## The clocks -/

/-- A frequency and its period. -/
structure ClockRate (K : Type u) where
  freq : K
  period : K

/-- The clocks of `gpgpu_sim`, with `init` of `dtm`. -/
structure DtmState (K : Type u) where
  coreSupportedClocks : ℕ → K
  currentClockIndex : ℕ
  init : Bool
  core : ClockRate K
  icnt : ClockRate K
  l2 : ClockRate K
  dram : ClockRate K

section

variable [Mul K] [Div K] [NatCast K]

/-- `core_supported_clocks[current_clock_index] MhZ`, and one over it. -/
def DtmState.rate (s : DtmState K) : ClockRate K :=
  let freq := s.coreSupportedClocks s.currentClockIndex * (1000000 : ℕ)
  ⟨freq, (1 : ℕ) / freq⟩

/-- All clocks get the current frequency. -/
def DtmState.setClocks (s : DtmState K) : DtmState K :=
  { s with core := s.rate, icnt := s.rate, l2 := s.rate, dram := s.rate }

/-- `init_clock_domains`. What it reads of `gpgpu_clock_domains` it writes over. -/
def initClockDomains (stod : List Char → Option K) (src : List Char) (s : DtmState K) :
    Except ClockFailure (DtmState K) := do
  let clocks ← readClocks stod numSupportedClocks 0 src s.coreSupportedClocks
  .ok (DtmState.setClocks { s with coreSupportedClocks := clocks, currentClockIndex := 0 })

/-- A rate is that of a clock in megahertz. -/
def ClockRate.IsOf (rate : ClockRate K) (clock : K) : Prop :=
  rate.freq = clock * (1000000 : ℕ) ∧ rate.period = (1 : ℕ) / rate.freq

/-- All clocks run at the current entry of the list. -/
structure Legal (stod : List Char → Option K) (src : List Char) (s : DtmState K) : Prop where
  lt : s.currentClockIndex < (clockWords src).length
  entry : ∃ clock, Entry stod src s.currentClockIndex clock ∧
    s.core.IsOf clock ∧ s.icnt.IsOf clock ∧ s.l2.IsOf clock ∧ s.dram.IsOf clock

end

section

variable [Preorder K]

/-- What a call of `dtm` sees. -/
structure Thermal (K : Type u) where
  maxChipTemp : K
  thermalCeiling : K

/-- The list goes from fast to slow. -/
def FastestFirst (stod : List Char → Option K) (src : List Char) : Prop :=
  ∀ i j, i ≤ j → ∀ fast slow, Entry stod src i fast → Entry stod src j slow → slow ≤ fast

variable {seen : Thermal K} {s s' : DtmState K}

/-- A call moves by one entry at most: on at the ceiling, which is to slower clocks where the list
goes from fast to slow, and back below it. -/
structure Moves (stod : List Char → Option K) (src : List Char) (seen : Thermal K)
    (s s' : DtmState K) : Prop where
  hot : seen.thermalCeiling ≤ seen.maxChipTemp →
    s'.currentClockIndex = s.currentClockIndex ∨ s'.currentClockIndex = s.currentClockIndex + 1
  cool : ¬ seen.thermalCeiling ≤ seen.maxChipTemp →
    s'.currentClockIndex = s.currentClockIndex ∨ s'.currentClockIndex + 1 = s.currentClockIndex
  slower : FastestFirst stod src → seen.thermalCeiling ≤ seen.maxChipTemp →
    ∀ clock clock', Entry stod src s.currentClockIndex clock →
      Entry stod src s'.currentClockIndex clock' → clock' ≤ clock
  faster : FastestFirst stod src → ¬ seen.thermalCeiling ≤ seen.maxChipTemp →
    ∀ clock clock', Entry stod src s.currentClockIndex clock →
      Entry stod src s'.currentClockIndex clock' → clock ≤ clock'

theorem Moves.intro (hhot : seen.thermalCeiling ≤ seen.maxChipTemp →
      s'.currentClockIndex = s.currentClockIndex ∨ s'.currentClockIndex = s.currentClockIndex + 1)
    (hcool : ¬ seen.thermalCeiling ≤ seen.maxChipTemp →
      s'.currentClockIndex = s.currentClockIndex ∨ s'.currentClockIndex + 1 = s.currentClockIndex) :
    Moves stod src seen s s' where
  hot := hhot
  cool := hcool
  slower horder hceiling clock clock' hclock hclock' := by
    refine horder _ _ ?_ _ _ hclock hclock'
    have hindex := hhot hceiling
    omega
  faster horder hceiling clock clock' hclock hclock' := by
    refine horder _ _ ?_ _ _ hclock' hclock
    have hindex := hcool hceiling
    omega

end

section

variable [Mul K] [Div K] [NatCast K] [Preorder K] [DecidableLE K] [DecidableLT K]

/-- `dtm`. -/
def dtm (s : DtmState K) (seen : Thermal K) : DtmState K :=
  if s.init then { s with init := false }
  else if seen.thermalCeiling ≤ seen.maxChipTemp ∧ s.currentClockIndex < numSupportedClocks - 1 then
    { s with currentClockIndex := s.currentClockIndex + 1 }.setClocks
  else if seen.maxChipTemp < seen.thermalCeiling ∧ 0 < s.currentClockIndex then
    { s with currentClockIndex := s.currentClockIndex - 1 }.setClocks
  else s

/-- The calls of a run. -/
def dtmRun (s : DtmState K) (calls : List (Thermal K)) : DtmState K := calls.foldl dtm s

variable {s before : DtmState K} {seen : Thermal K} {calls : List (Thermal K)}

theorem dtm_cases (s : DtmState K) (seen : Thermal K) :
    (s.init = true ∧ dtm s seen = { s with init := false }) ∨
    (s.init = false ∧ seen.thermalCeiling ≤ seen.maxChipTemp ∧ s.currentClockIndex < 17 ∧
      dtm s seen = { s with currentClockIndex := s.currentClockIndex + 1 }.setClocks) ∨
    (s.init = false ∧ seen.maxChipTemp < seen.thermalCeiling ∧ 0 < s.currentClockIndex ∧
      dtm s seen = { s with currentClockIndex := s.currentClockIndex - 1 }.setClocks) ∨
    (s.init = false ∧ ¬ (seen.thermalCeiling ≤ seen.maxChipTemp ∧ s.currentClockIndex < 17) ∧
      dtm s seen = s) := by
  have hlast : numSupportedClocks - 1 = 17 := rfl
  rw [dtm, hlast]
  by_cases hinit : s.init = true
  · rw [if_pos hinit]
    exact .inl ⟨hinit, rfl⟩
  · have hfalse := Bool.eq_false_iff.2 hinit
    rw [if_neg hinit]
    split_ifs with hhot hcool
    · exact .inr (.inl ⟨hfalse, hhot.1, hhot.2, rfl⟩)
    · exact .inr (.inr (.inl ⟨hfalse, hcool.1, hcool.2, rfl⟩))
    · exact .inr (.inr (.inr ⟨hfalse, hhot, rfl⟩))

theorem dtm_moves (s : DtmState K) (seen : Thermal K) : Moves stod src seen s (dtm s seen) := by
  obtain ⟨-, hdtm⟩ | ⟨-, hhot, -, hdtm⟩ | ⟨-, hcool, hpos, hdtm⟩ | ⟨-, -, hdtm⟩ := dtm_cases s seen
  · rw [hdtm]
    exact .intro (fun _ => .inl rfl) fun _ => .inl rfl
  · rw [hdtm]
    exact .intro (fun _ => .inr rfl) fun hnot => absurd hhot hnot
  · rw [hdtm]
    exact .intro (fun hhot => absurd hhot (not_le_of_gt hcool))
      fun _ => .inr (Nat.sub_add_cancel hpos)
  · rw [hdtm]
    exact .intro (fun _ => .inl rfl) fun _ => .inl rfl

end

/-! ## Every run -/

section

variable [Mul K] [Div K] [NatCast K]

/-- The array holds the list, the index is a position of both, and all clocks run at its entry. -/
structure Kept (stod : List Char → Option K) (src : List Char) (s : DtmState K) : Prop where
  read : ∀ j < numSupportedClocks, ∀ word, (clockWords src)[j]? = some word →
    stod word = some (s.coreSupportedClocks j)
  lt : s.currentClockIndex < (clockWords src).length
  lt_clocks : s.currentClockIndex < numSupportedClocks
  set : s.setClocks = s

variable {before s : DtmState K}

theorem Kept.of_init (hinit : initClockDomains stod src before = .ok s)
    (hwords : clockWords src ≠ []) : Kept stod src s := by
  obtain ⟨clocks, hread, hset⟩ := Math.bind_eq_ok.1 hinit
  obtain rfl := Except.ok.inj hset
  refine ⟨fun j hj word hword => ?_, List.length_pos_of_ne_nil hwords, Nat.succ_pos 17, rfl⟩
  have hclock := (readClocks_spec hread).2 j hj word hword
  rwa [Nat.zero_add] at hclock

theorem Kept.legal (h : Kept stod src s) : Legal stod src s := by
  have hword := List.getElem?_eq_getElem h.lt
  have hclock := h.read _ h.lt_clocks _ hword
  refine ⟨h.lt, _, ⟨_, hword, hclock⟩, ?_⟩
  rw [← h.set]
  exact ⟨⟨rfl, rfl⟩, ⟨rfl, rfl⟩, ⟨rfl, rfl⟩, ⟨rfl, rfl⟩⟩

theorem Kept.goTo (h : Kept stod src s) {j : ℕ} (hj : j < (clockWords src).length)
    (hclocks : j < numSupportedClocks) :
    Kept stod src (DtmState.setClocks { s with currentClockIndex := j }) :=
  ⟨h.read, hj, hclocks, rfl⟩

variable [Preorder K] [DecidableLE K] [DecidableLT K]

/-- The call that goes beyond the list: the chip is at its ceiling at the last clock. -/
def Overruns (src : List Char) (s : DtmState K) (seen : Thermal K) : Prop :=
  s.init = false ∧ seen.thermalCeiling ≤ seen.maxChipTemp ∧
    s.currentClockIndex + 1 = (clockWords src).length

/-- The run has legal frequencies all along, and each call moves as it may. -/
def KeepsLegal (stod : List Char → Option K) (src : List Char) (s : DtmState K)
    (calls : List (Thermal K)) : Prop :=
  (∀ prior, prior <+: calls → Legal stod src (dtmRun s prior)) ∧
    ∀ prior seen, prior ++ [seen] <+: calls →
      Moves stod src seen (dtmRun s prior) (dtmRun s (prior ++ [seen]))

variable {seen : Thermal K} {calls : List (Thermal K)}

theorem dtmRun_append : dtmRun s (calls ++ [seen]) = dtm (dtmRun s calls) seen := by
  rw [dtmRun, List.foldl_append, dtmRun]
  rfl

theorem Kept.dtm (h : Kept stod src s)
    (hlist : numSupportedClocks ≤ (clockWords src).length ∨ ¬ Overruns src s seen) :
    Kept stod src (dtm s seen) := by
  obtain ⟨-, hdtm⟩ | ⟨hinit, hhot, hlt, hdtm⟩ | ⟨-, -, hpos, hdtm⟩ | ⟨-, -, hdtm⟩ :=
    dtm_cases s seen
  · rw [hdtm]
    have hset := congrArg (fun t : DtmState K => { t with init := false }) h.set
    exact ⟨h.read, h.lt, h.lt_clocks, hset⟩
  · rw [hdtm]
    have hclocks : s.currentClockIndex + 1 < numSupportedClocks := Nat.succ_lt_succ hlt
    refine h.goTo ?_ hclocks
    obtain hlong | hover := hlist
    · exact lt_of_lt_of_le hclocks hlong
    · have hne : s.currentClockIndex + 1 ≠ (clockWords src).length :=
        fun heq => hover ⟨hinit, hhot, heq⟩
      have hlt' := h.lt
      omega
  · rw [hdtm]
    have hlt := h.lt
    have hclocks := h.lt_clocks
    exact h.goTo (by omega) (by omega)
  · rwa [hdtm]

theorem Overruns.not_legal (h : Overruns src s seen)
    (hshort : (clockWords src).length < numSupportedClocks) : ¬ Legal stod src (dtm s seen) := by
  obtain ⟨hinit, hhot, hlast⟩ := h
  have hclocks : numSupportedClocks = 18 := rfl
  intro hlegal
  obtain ⟨htrue, -⟩ | ⟨-, -, -, hdtm⟩ | ⟨-, hcool, -⟩ | ⟨-, hnot, -⟩ := dtm_cases s seen
  · rw [hinit] at htrue
    cases htrue
  · have hlt := hlegal.lt
    rw [hdtm] at hlt
    exact absurd hlast hlt.ne
  · exact absurd hhot (not_le_of_gt hcool)
  · exact hnot ⟨hhot, by omega⟩

/-- A run keeps to legal frequencies exactly where the list has eighteen clocks, or where no call
finds the chip at its ceiling at the last one. -/
theorem keepsLegal_iff (hinit : initClockDomains stod src before = .ok s)
    (hwords : clockWords src ≠ []) :
    KeepsLegal stod src s calls ↔ numSupportedClocks ≤ (clockWords src).length ∨
      ∀ prior seen, prior ++ [seen] <+: calls → ¬ Overruns src (dtmRun s prior) seen := by
  constructor
  · rintro ⟨hlegal, -⟩
    by_cases hshort : (clockWords src).length < numSupportedClocks
    · refine .inr fun prior seen hprior hover => ?_
      have hnext := hlegal _ hprior
      rw [dtmRun_append] at hnext
      exact hover.not_legal hshort hnext
    · exact .inl (not_lt.1 hshort)
  · intro hlist
    refine ⟨fun prior hprior => Kept.legal ?_, fun prior seen _ => ?_⟩
    · induction prior using List.reverseRecOn with
      | nil => exact .of_init hinit hwords
      | append_singleton prior seen ih =>
        rw [dtmRun_append]
        exact (ih ((List.prefix_append _ _).trans hprior)).dtm
          (hlist.imp_right fun hover => hover prior seen hprior)
    · rw [dtmRun_append]
      exact dtm_moves _ _

end

/-! ## Two clocks -/

/-- `stod`, on digits. -/
def stodDigits (text : List Char) : Option ℚ := some (Math.readDigits 10 0 text)

/-- The clocks before anything is read. -/
def noClocks : DtmState ℚ where
  coreSupportedClocks _ := 0
  currentClockIndex := 0
  init := true
  core := ⟨0, 0⟩
  icnt := ⟨0, 0⟩
  l2 := ⟨0, 0⟩
  dram := ⟨0, 0⟩

theorem clockWords_two : clockWords ['9', ',', '5'] = [['9'], ['5']] := by
  rw [clockWords_cons, show afterClock ['9', ',', '5'] = ['5'] from rfl, clockWords_cons,
    show afterClock ['5'] = [] from rfl, clockWords_nil]
  rfl

theorem keepsLegal_two : ∃ s, initClockDomains stodDigits ['9', ',', '5'] noClocks = .ok s ∧
    (KeepsLegal stodDigits ['9', ',', '5'] s [⟨90, 80⟩] ↔
      numSupportedClocks ≤ (clockWords ['9', ',', '5']).length ∨
        ∀ prior seen, prior ++ [seen] <+: [⟨90, 80⟩] →
          ¬ Overruns ['9', ',', '5'] (dtmRun s prior) seen) :=
  ⟨_, rfl, keepsLegal_iff rfl (by rw [clockWords_two]; decide)⟩

/-- The third call at the ceiling goes to a third clock. -/
theorem not_keepsLegal_two : ∃ s, initClockDomains stodDigits ['9', ',', '5'] noClocks = .ok s ∧
    ¬ KeepsLegal stodDigits ['9', ',', '5'] s [⟨90, 80⟩, ⟨90, 80⟩, ⟨90, 80⟩] := by
  refine ⟨_, rfl, fun h => ?_⟩
  have hlt := (h.1 _ List.prefix_rfl).lt
  rw [clockWords_two] at hlt
  exact absurd hlt (by decide)

end GpuCalorie.Clock
