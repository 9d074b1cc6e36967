/-
# Checkpoints of a warp

At a checkpoint `functionalCoreSim::execute` writes the SIMT stack of each warp to a
file, a line for each entry. The PCs of the threads are not written: a warp that resumes
reads its stack back and puts all its threads at the PC of the top entry.

So the threads of a resumed warp are where its stack says if and only if the topmost
entry of every lane was at that PC (`resumesInStep_iff`). A diverged warp resumes with the
lanes of its waiting entries at a PC where the stack does not expect them.
-/

import GpuCalorie.Simt.Soundness
import Mathlib.Data.List.TakeWhile

namespace GpuCalorie.Simt

open GpuCalorie.Math

/-! ## The text of a stack -/

/-- A PC as `%d` prints it, which takes an `int`. -/
def printPc (pc : UInt32) : String :=
  pc.toInt32.toInt.repr

/-- The number a text of digits stands for, up to the first that is none. -/
def digitsValue (text : List Char) : ℕ :=
  Nat.ofDigitChars 10 (text.takeWhile Char.isDigit) 0

/-- `atoi`, of a word that starts without a blank. -/
def atoi (word : String) : ℤ :=
  match word.toList with
  | '-' :: digits => -digitsValue digits
  | '+' :: digits => digitsValue digits
  | digits => digitsValue digits

/-- `stack_entry_type` as a number. -/
def StackEntryType.number : StackEntryType → ℕ
  | .normal => 0
  | .call => 1

/-- The line `print_checkpoint` writes for an entry, as the words between its blanks. The
cycle the entry was pushed at would stand before its type. -/
def printEntry (warpSize warpId : ℕ) (entry : SimtStackEntry) : List String :=
  (List.range warpSize).map (fun j => if j ∈ entry.activeMask then "1" else "0") ++
    [printPc entry.pc, entry.calldepth.repr, printPc entry.recvgPc, entry.type.number.repr,
      warpId.repr, warpSize.repr]

/-- `simt_stack::print_checkpoint`: the bottom of the stack comes first. -/
def printCheckpoint (warpSize warpId : ℕ) (stack : List SimtStackEntry) : List (List String) :=
  stack.reverse.map (printEntry warpSize warpId)

/-- What goes wrong when a warp is stored or resumed. -/
inductive CheckpointFailure
  /-- A use of `m_thread[i]` for a lane that has no thread. -/
  | nullThread
  /-- `strtok` found no further word in a line. -/
  | missingWord
  /-- `m_stack.size() > 0` in `get_pdom_stack_top_info` -/
  | emptyStack
  deriving DecidableEq, Repr

/-- The entry of a line. Any mask word but one that starts with `1` clears its lane, and
any type word but one that starts with `0` makes a call. -/
def parseEntry (warpSize : ℕ) (line : List String) : Except CheckpointFailure SimtStackEntry :=
  match line.drop warpSize with
  | pc :: calldepth :: recvgPc :: type :: _ =>
    .ok
      { pc := (Int32.ofInt (atoi pc)).toUInt32
        calldepth := (atoi calldepth).toNat
        activeMask :=
          (Finset.range warpSize).filter fun j => (line.getD j "").toList.head? = some '1'
        recvgPc := (Int32.ofInt (atoi recvgPc)).toUInt32
        type := if type.toList.head? = some '0' then .normal else .call }
  | _ => .error .missingWord

/-- `simt_stack::resume`: the entries of a file are pushed one after another. -/
def resume (warpSize : ℕ) (file : List (List String)) :
    Except CheckpointFailure (List SimtStackEntry) :=
  file.foldlM (fun stack line => (· :: stack) <$> parseEntry warpSize line) []

/-! ## Storing and resuming a warp -/

/-- The part of `functionalCoreSim::execute` that stores a warp, whose threads are those of
`lanes`. Before the stacks it writes the registers of 32 threads for each warp. -/
def storeWarp (warpSize warpId : ℕ) (lanes : Finset ℕ) (w : Warp) :
    Except CheckpointFailure (List (List String)) :=
  if Finset.range 32 ⊆ lanes then .ok (printCheckpoint warpSize warpId w.stack)
  else .error .nullThread

/-- `createWarp` with `cp_cta_resume == 1`: the threads of a warp that was launched go to
the PC on top of the stack that was stored. `init_warps` resumes a warp with the same
statements. -/
def createWarp (warpSize : ℕ) (startPc : UInt32) (lanes : Finset ℕ) (file : List (List String)) :
    Except CheckpointFailure Warp := do
  let launched := launchWarp startPc lanes
  match ← resume warpSize file with
  | [] => throw .emptyStack
  | top :: rest =>
    if Finset.range warpSize ⊆ lanes then
      return {
        stack := top :: rest
        thread := fun i =>
          if i < warpSize then { launched.thread i with pc := top.pc } else launched.thread i }
    else throw .nullThread

/-- A warp as it is after it was stored and resumed. -/
def checkpointed (warpSize warpId : ℕ) (startPc : UInt32) (lanes : Finset ℕ) (w : Warp) :
    Except CheckpointFailure Warp :=
  storeWarp warpSize warpId lanes w >>= createWarp warpSize startPc lanes

/-! ## Threads in step with their stack -/

/-- Every thread that is not done is at the PC of the topmost entry that has its lane. -/
def InStep (warpSize : ℕ) (w : Warp) : Prop :=
  ∀ i ∈ w.live warpSize, ∃ entry, topmost w.stack i = some entry ∧ (w.thread i).pc = entry.pc

/-- The warp can be stored and resumed. Then its threads are in step with its stack, and the
check of `ptx_exec_inst` against the PC of the next instruction holds. -/
def ResumesInStep (warpSize warpId : ℕ) (startPc : UInt32) (lanes : Finset ℕ) (w : Warp) : Prop :=
  ∃ w', checkpointed warpSize warpId startPc lanes w = .ok w' ∧ InStep warpSize w' ∧
    ∀ prog pred, executeWarp prog warpSize w' pred ≠ .error .threadPc

/-- The topmost entry of every lane is at the PC of the top entry. -/
def AtTopPc (warpSize : ℕ) (stack : List SimtStackEntry) : Prop :=
  ∃ top rest, stack = top :: rest ∧
    ∀ i < warpSize, ∃ entry, topmost stack i = some entry ∧ entry.pc = top.pc

/-- No divergence is pending, and the top entry has all lanes. -/
def Whole (warpSize : ℕ) (stack : List SimtStackEntry) : Prop :=
  Converged stack ∧
    ∃ top rest, stack = top :: rest ∧ Finset.range warpSize ⊆ top.activeMask

/-- The runs of a warp from where it was launched or resumed. -/
def warpSystemFrom (prog : WarpProgram) (warpSize : ℕ) (start : Warp) :
    TransitionSystem (Except SimtFailure Warp) (ℕ → Bool) :=
  .ofExcept (· = start) (fun w _ => (w.live warpSize).Nonempty) (executeWarp prog warpSize)

/-- All threads of the warp run, and none is inside a call. -/
def InKernel (warpSize : ℕ) (w : Warp) : Prop :=
  ∀ i < warpSize, (w.thread i).done = false ∧ (w.thread i).callstack = [0]

variable {prog : WarpProgram} {n warpId i : ℕ} {startPc : UInt32} {lanes : Finset ℕ} {w : Warp}
  {entry top : SimtStackEntry} {rest stack : List SimtStackEntry} {file : List (List String)}
  {s : List Frame} {pc : UInt32} {T : Frame}

/-! ## The round trip of the text -/

theorem digitsValue_toDigits (k : ℕ) : digitsValue (Nat.toDigits 10 k) = k := by
  have hdigits : (Nat.toDigits 10 k).takeWhile Char.isDigit = Nat.toDigits 10 k := by
    rw [List.takeWhile_eq_self_iff]
    intro c hc
    exact Nat.isDigit_of_mem_toDigits (by decide) (by decide) hc
  rw [digitsValue, hdigits, Nat.ofDigitChars_ten_toDigits]

theorem atoi_of_isDigit {word : String} (h : ∀ c ∈ word.toList, c.isDigit = true) :
    atoi word = digitsValue word.toList := by
  unfold atoi
  split
  · rename_i hminus
    exact absurd (h '-' (hminus ▸ List.mem_cons_self)) (by decide)
  · rename_i hplus
    exact absurd (h '+' (hplus ▸ List.mem_cons_self)) (by decide)
  · rfl

@[simp]
theorem atoi_repr (k : ℕ) : atoi k.repr = k := by
  rw [atoi_of_isDigit, Nat.toList_repr, digitsValue_toDigits]
  intro c hc
  rw [Nat.toList_repr] at hc
  exact Nat.isDigit_of_mem_toDigits (by decide) (by decide) hc

@[simp]
theorem atoi_intRepr (x : ℤ) : atoi x.repr = x := by
  rw [Int.repr_eq_if]
  split
  case isTrue h => rw [atoi_repr, Int.toNat_of_nonneg h]
  case isFalse h =>
    have htext : ("-" ++ (-x).toNat.repr).toList = '-' :: Nat.toDigits 10 (-x).toNat := by
      rw [String.toList_append, Nat.toList_repr]
      rfl
    simp only [atoi, htext, digitsValue_toDigits]
    omega

@[simp]
theorem ofInt_atoi_printPc (pc : UInt32) : (Int32.ofInt (atoi (printPc pc))).toUInt32 = pc := by
  rw [printPc, atoi_intRepr, Int32.ofInt_toInt, UInt32.toUInt32_toInt32]

/-- What a line keeps of an entry: of its mask, the lanes of the warp. -/
def SimtStackEntry.stored (warpSize : ℕ) (entry : SimtStackEntry) : SimtStackEntry :=
  { entry with activeMask := (Finset.range warpSize).filter fun j => j ∈ entry.activeMask }

theorem SimtStackEntry.stored_eq_self (h : entry.activeMask ⊆ Finset.range n) :
    entry.stored n = entry := by
  have hmask : ((Finset.range n).filter fun j => j ∈ entry.activeMask) = entry.activeMask := by
    ext j
    rw [Finset.mem_filter]
    exact ⟨And.right, fun hj => ⟨h hj, hj⟩⟩
  rw [stored, hmask]

theorem drop_printEntry : (printEntry n warpId entry).drop n =
    [printPc entry.pc, entry.calldepth.repr, printPc entry.recvgPc, entry.type.number.repr,
      warpId.repr, n.repr] := by
  rw [printEntry, List.drop_left' (by simp)]

theorem getD_printEntry (hi : i < n) :
    (printEntry n warpId entry).getD i "" = if i ∈ entry.activeMask then "1" else "0" := by
  simp [printEntry, List.getD_eq_getElem?_getD, List.getElem?_append, hi]

theorem parseEntry_printEntry :
    parseEntry n (printEntry n warpId entry) = .ok (entry.stored n) := by
  have hmask : ((Finset.range n).filter fun j =>
      ((printEntry n warpId entry).getD j "").toList.head? = some '1') =
      (Finset.range n).filter fun j => j ∈ entry.activeMask := by
    refine Finset.filter_congr fun j hj => ?_
    rw [getD_printEntry (Finset.mem_range.mp hj)]
    split_ifs with h <;> simp [h]
  have htype : (if entry.type.number.repr.toList.head? = some '0' then StackEntryType.normal
      else .call) = entry.type := by
    cases entry.type <;> decide
  simp only [parseEntry, drop_printEntry, hmask, htype, ofInt_atoi_printPc, atoi_repr,
    Int.toNat_natCast]
  rfl

theorem resume_printCheckpoint :
    resume n (printCheckpoint n warpId stack) = .ok (stack.map (·.stored n)) := by
  have hpush : ∀ (entries acc : List SimtStackEntry),
      (entries.map (printEntry n warpId)).foldlM
        (fun stack line => (· :: stack) <$> parseEntry n line) acc =
      (.ok ((entries.map (·.stored n)).reverse ++ acc) :
        Except CheckpointFailure (List SimtStackEntry)) := by
    intro entries
    induction entries with
    | nil => exact fun acc => rfl
    | cons entry entries ih =>
        intro acc
        rw [List.map_cons, List.foldlM_cons, parseEntry_printEntry]
        refine (ih (entry.stored n :: acc)).trans ?_
        simp
  refine (hpush stack.reverse []).trans ?_
  simp

/-! ## What a resumed warp is -/

theorem topmost_stored (hi : i < n) :
    topmost (stack.map (·.stored n)) i = (topmost stack i).map (·.stored n) := by
  rw [topmost, List.find?_map]
  congr 2
  funext entry
  simp [SimtStackEntry.stored, hi]

theorem checkpointed_eq (hstored : Finset.range 32 ⊆ lanes) (hlanes : Finset.range n ⊆ lanes)
    (hstack : w.stack = top :: rest) :
    checkpointed n warpId startPc lanes w = .ok
      { stack := w.stack.map (·.stored n)
        thread := fun i =>
          if i < n then { (launchWarp startPc lanes).thread i with pc := top.pc }
          else (launchWarp startPc lanes).thread i } := by
  have hresume : resume n (printCheckpoint n warpId w.stack) = .ok (w.stack.map (·.stored n)) :=
    resume_printCheckpoint
  rw [hstack, List.map_cons] at hresume
  simp only [checkpointed, storeWarp, if_pos hstored]
  show createWarp n startPc lanes (printCheckpoint n warpId w.stack) = _
  rw [hstack, createWarp, hresume]
  show (if Finset.range n ⊆ lanes then _ else _) = _
  rw [if_pos hlanes]
  rfl

theorem of_checkpointed {w' : Warp} (h : checkpointed n warpId startPc lanes w = .ok w') :
    Finset.range 32 ⊆ lanes ∧ Finset.range n ⊆ lanes ∧ w.stack ≠ [] := by
  by_cases hstored : Finset.range 32 ⊆ lanes
  case neg =>
    rw [checkpointed, storeWarp, if_neg hstored] at h
    cases h
  simp only [checkpointed, storeWarp, if_pos hstored] at h
  have h : createWarp n startPc lanes (printCheckpoint n warpId w.stack) = .ok w' := h
  rw [createWarp, resume_printCheckpoint] at h
  cases hstack : w.stack with
  | nil =>
      rw [hstack] at h
      cases h
  | cons top rest =>
      rw [hstack] at h
      have h : (if Finset.range n ⊆ lanes then _ else _) = Except.ok w' := h
      split_ifs at h with hlanes
      exact ⟨hstored, hlanes, List.cons_ne_nil top rest⟩

/-! ## The check of `ptx_exec_inst` -/

theorem divergentPaths_ne_threadPc {done : ℕ → Bool} {nextPc : ℕ → UInt32} (fuel : ℕ)
    (mask : Finset ℕ) (paths : List Path) :
    OkOr (fun _ => True) (· ≠ .threadPc) (divergentPaths n done nextPc fuel mask paths) := by
  induction fuel generalizing mask paths with
  | zero =>
      rw [divergentPaths]
      split_ifs
      · trivial
      · exact SimtFailure.noConfusion
  | succ fuel ih =>
      rw [divergentPaths]
      split_ifs
      · trivial
      · dsimp only
        split_ifs
        · trivial
        · exact SimtFailure.noConfusion
        · exact ih _ _

theorem handlePaths_ne_threadPc {inst : UpdateInst} {numPaths : ℕ} (k : ℕ) (paths : List Path)
    (u : UpdateState) :
    OkOr (fun _ => True) (· ≠ .threadPc) (handlePaths inst numPaths top k paths u) := by
  induction k generalizing paths u with
  | zero =>
      rw [handlePaths]
      cases u.stack with
      | nil => exact SimtFailure.noConfusion
      | cons entry rest => trivial
  | succ k ih =>
      rw [handlePaths]
      cases takePath (inst.pc + inst.isize) paths with
      | none => exact SimtFailure.noConfusion
      | some path =>
          dsimp only
          split_ifs
          · trivial
          · exact SimtFailure.noConfusion
          · unfold popCall
            split
            · exact SimtFailure.noConfusion
            · exact SimtFailure.noConfusion
            · split_ifs
              · trivial
              · exact SimtFailure.noConfusion
              · trivial
          · exact SimtFailure.noConfusion
          · exact ih _ _

theorem update_ne_threadPc {done : ℕ → Bool} {nextPc : ℕ → UInt32} {inst : UpdateInst} :
    OkOr (fun _ => True) (· ≠ .threadPc) (update n stack done nextPc inst) := by
  unfold update
  split
  · exact SimtFailure.noConfusion
  · split_ifs
    · exact SimtFailure.noConfusion
    · exact SimtFailure.noConfusion
    · refine (divergentPaths_ne_threadPc _ _ _).bind fun paths _ => ?_
      split_ifs
      · exact SimtFailure.noConfusion
      · exact handlePaths_ne_threadPc _ _ _

theorem InStep.executeWarp_ne_threadPc (h : InStep n w)
    (hbounded : ∀ entry ∈ w.stack, entry.activeMask ⊆ Finset.range n) (pred : ℕ → Bool) :
    executeWarp prog n w pred ≠ .error .threadPc := by
  obtain ⟨stack, thread⟩ := w
  cases stack with
  | nil => exact fun hfails => by cases hfails
  | cons top rest =>
      have hpc : ¬ ∃ i ∈ top.activeMask, (thread i).pc ≠ top.pc ∧ (thread i).done = false := by
        rintro ⟨i, hi, hne, hdone⟩
        have hlt := Finset.mem_range.mp (hbounded top List.mem_cons_self hi)
        obtain ⟨entry, htop, hat⟩ := h i (mem_liveThreads.mpr ⟨hlt, hdone⟩)
        have hentry : topmost (top :: rest) i = some top := by simp [topmost, hi]
        rw [hentry, Option.some.injEq] at htop
        exact hne (htop ▸ hat)
      intro hfails
      have hexec : OkOr (fun _ => True) (· ≠ .threadPc)
          (executeWarpInst (prog.instruction top.pc) top.pc top.activeMask pred thread) := by
        rw [executeWarpInst, if_neg hpc]
        split_ifs
        · exact SimtFailure.noConfusion
        · trivial
      have hstep : OkOr (fun _ => True) (· ≠ .threadPc)
          (executeWarp prog n ⟨top :: rest, thread⟩ pred) :=
        hexec.bind fun thread' _ => update_ne_threadPc.bind fun stack _ => trivial
      exact hstep.of_error hfails rfl

/-! ## When a warp resumes in step -/

theorem resumesInStep_iff_atTopPc :
    ResumesInStep n warpId startPc lanes w ↔
      Finset.range 32 ⊆ lanes ∧ Finset.range n ⊆ lanes ∧ AtTopPc n w.stack := by
  constructor
  · rintro ⟨w', hresumed, hinStep, -⟩
    obtain ⟨hstored, hlanes, hne⟩ := of_checkpointed hresumed
    obtain ⟨top, rest, hstack⟩ := List.exists_cons_of_ne_nil hne
    rw [checkpointed_eq hstored hlanes hstack, Except.ok.injEq] at hresumed
    subst hresumed
    refine ⟨hstored, hlanes, top, rest, hstack, fun i hi => ?_⟩
    have hlive : (launchWarp startPc lanes).thread i = ⟨startPc, [0], false⟩ := by
      simp [launchWarp, hlanes (Finset.mem_range.mpr hi)]
    obtain ⟨entry, htop, hpc⟩ := hinStep i (mem_liveThreads.mpr ⟨hi, by simp [hi, hlive]⟩)
    rw [topmost_stored hi, Option.map_eq_some_iff] at htop
    obtain ⟨old, hold, rfl⟩ := htop
    exact ⟨old, hold, by simpa [hi, SimtStackEntry.stored] using hpc.symm⟩
  · rintro ⟨hstored, hlanes, top, rest, hstack, hat⟩
    have hinStep : InStep n ⟨w.stack.map (·.stored n), fun i =>
        if i < n then { (launchWarp startPc lanes).thread i with pc := top.pc }
        else (launchWarp startPc lanes).thread i⟩ := by
      intro i hlive
      have hi := (mem_liveThreads.mp hlive).1
      obtain ⟨entry, htop, hpc⟩ := hat i hi
      refine ⟨entry.stored n, ?_, ?_⟩
      · rw [topmost_stored hi, htop]
        rfl
      · simp [hi, SimtStackEntry.stored, hpc]
    refine ⟨_, checkpointed_eq hstored hlanes hstack, hinStep, fun prog pred => ?_⟩
    refine hinStep.executeWarp_ne_threadPc ?_ pred
    intro entry hentry
    obtain ⟨old, -, rfl⟩ := List.mem_map.mp hentry
    exact Finset.filter_subset _ _

/-! ## Runs of a resumed warp -/

theorem Sound.restart {live live' : Finset ℕ}
    (h : Sound prog live (T :: s)) (hkind : T.kind = .base) (hlive : live' ⊆ T.mask)
    (cs : List UInt32) : Sound prog live' (T.withCallstack cs :: s) := by
  induction s generalizing T cs with
  | nil =>
      generalize hnil : ([] : List Frame) = rest at h
      cases h.under with
      | launched kind type recvgPc => exact .launched kind type recvgPc hlive
      | baseCall => cases hnil
      | call => cases hnil
      | returning => simp at hnil
      | reconverging => simp at hnil
  | cons g s ih =>
      generalize hrest : g :: s = rest at h
      cases h.under with
      | launched => cases hrest
      | baseCall below caller kind type recvgPc mask =>
          obtain ⟨rfl, rfl⟩ := List.cons.inj hrest
          exact .baseCall (ih below caller (hlive.trans mask) g.callstack) caller kind type
            recvgPc mask hlive
      | call _ _ kind => simp [hkind] at kind
      | returning _ _ _ kind => simp [hkind] at kind
      | reconverging _ _ kind => simp [hkind] at kind

/-- The threads of a resumed warp. -/
def resumedThread (n : ℕ) (startPc : UInt32) (lanes : Finset ℕ) (pc : UInt32) (i : ℕ) : Thread :=
  if i < n then { (launchWarp startPc lanes).thread i with pc := pc }
  else (launchWarp startPc lanes).thread i

theorem resumedThread_of_lt (hlanes : Finset.range n ⊆ lanes) (hi : i < n) :
    resumedThread n startPc lanes pc i = ⟨pc, [0], false⟩ := by
  simp [resumedThread, launchWarp, hi, hlanes (Finset.mem_range.mpr hi)]

theorem liveThreads_resumedThread (hlanes : Finset.range n ⊆ lanes) :
    liveThreads n (resumedThread n startPc lanes pc) = Finset.range n := by
  ext i
  rw [mem_liveThreads, Finset.mem_range]
  exact ⟨And.left, fun hi => ⟨hi, by rw [resumedThread_of_lt hlanes hi]⟩⟩

theorem wellFormed_resumedThread (hstart : Aligned startPc) (hpc : Aligned pc)
    (i : ℕ) : (resumedThread n startPc lanes pc i).WellFormed := by
  have hzero : ∀ r ∈ ([0] : List UInt32), Aligned r := by
    intro r hr
    rw [List.mem_singleton.mp hr]
    decide
  rw [resumedThread]
  split
  · exact ⟨hpc, hzero, fun _ => List.cons_ne_nil 0 []⟩
  · exact ⟨hstart, hzero, fun _ => List.cons_ne_nil 0 []⟩

theorem Tracks.restart (h : Tracks prog n w.thread (T :: s))
    (hkind : T.kind = .base) (hlanes : Finset.range n ⊆ lanes) (htop : Finset.range n ⊆ T.mask)
    (hn : 0 < n) :
    Tracks prog n (resumedThread n startPc lanes T.entry.pc) (T.withCallstack [0] :: s) := by
  have hsound : Sound prog (Finset.range n) (T.withCallstack [0] :: s) :=
    h.sound.restart hkind htop [0]
  constructor
  case sound => rwa [liveThreads_resumedThread hlanes]
  case located =>
    intro i hi
    rw [liveThreads_resumedThread hlanes] at hi
    refine ⟨T.withCallstack [0], topFrame_cons_of_mem (htop hi), ?_⟩
    rw [resumedThread_of_lt hlanes (Finset.mem_range.mp hi)]
    exact ⟨rfl, rfl⟩
  case inhabited =>
    rintro - f hf
    rw [liveThreads_resumedThread hlanes]
    have hzero := Finset.mem_range.mpr hn
    exact ⟨0, (hsound.base_below hkind f hf).1 hzero, hzero⟩
  case bounded =>
    intro f hf
    rcases List.mem_cons.mp hf with rfl | hf
    · exact h.bounded T List.mem_cons_self
    · exact h.bounded f (List.mem_cons_of_mem _ hf)

theorem Tracks.resumedThread (h : Tracks prog n w.thread (T :: s))
    (hkernel : InKernel n w) (hlanes : Finset.range n ⊆ lanes)
    (hat : AtTopPc n ((T :: s).map Frame.entry)) :
    Tracks prog n (resumedThread n startPc lanes T.entry.pc) (T :: s) := by
  have hlive : liveThreads n (Simt.resumedThread n startPc lanes T.entry.pc) =
      liveThreads n w.thread := by
    rw [liveThreads_resumedThread hlanes]
    ext i
    rw [mem_liveThreads, Finset.mem_range]
    exact ⟨fun hi => ⟨hi, (hkernel i hi).1⟩, And.left⟩
  constructor
  case sound => exact hlive ▸ h.sound
  case located =>
    intro i hi
    have hlt := (mem_liveThreads.mp hi).1
    obtain ⟨f, hf, -, hcallstack⟩ := h.located i (hlive ▸ hi)
    obtain ⟨top, rest, hstack, hpc⟩ := hat
    obtain ⟨entry, hentry, hentryPc⟩ := hpc i hlt
    obtain ⟨rfl, -⟩ := List.cons.inj hstack
    rw [topmost_map_entry, hf] at hentry
    have hentry : f.entry = entry := Option.some.inj hentry
    rw [resumedThread_of_lt hlanes hlt]
    exact ⟨f, hf, (hentry ▸ hentryPc).symm, (hkernel i hlt).2.symm.trans hcallstack⟩
  case inhabited => exact hlive ▸ h.inhabited
  case bounded => exact h.bounded

theorem WarpInvariant.resumed (h : WarpInvariant prog n w) (hstart : Aligned startPc)
    (hlive : (w.live n).Nonempty) (hlanes : Finset.range n ⊆ lanes) (hstack : w.stack = top :: rest)
    (hat : AtTopPc n w.stack) (hruns : Whole n w.stack ∨ InKernel n w) :
    WarpInvariant prog n
      ⟨w.stack.map (·.stored n), Simt.resumedThread n startPc lanes top.pc⟩ := by
  rcases h.settled with ⟨frames, hframes, tracks⟩ | ⟨hnil, -⟩
  case inr =>
    rw [hnil] at hstack
    cases hstack
  obtain ⟨T, s, rfl⟩ : ∃ T s, frames = T :: s := by
    cases frames with
    | nil =>
        rw [hframes] at hstack
        cases hstack
    | cons T s => exact ⟨T, s, rfl⟩
  have htop : T.entry = top := by
    rw [hframes] at hstack
    exact (List.cons.inj hstack).1
  obtain ⟨i, hi, hiLive⟩ := tracks.inhabited hlive T List.mem_cons_self
  have hpc : Aligned top.pc := by
    obtain ⟨f, hf, hat⟩ := tracks.located i hiLive
    rw [topFrame_cons_of_mem hi, Option.some.injEq] at hf
    rw [← htop, hf, ← hat.1]
    exact (h.wellFormed i).pc
  have hsame : w.stack.map (·.stored n) = (T :: s).map Frame.entry := by
    rw [hframes, List.map_map]
    refine List.map_congr_left fun f hf => ?_
    exact SimtStackEntry.stored_eq_self (tracks.bounded f hf)
  refine ⟨wellFormed_resumedThread hstart hpc, .inl ?_⟩
  rw [hsame, ← htop]
  rcases hruns with ⟨hconverged, top', rest', hstack', hall⟩ | hkernel
  · have hkind : T.kind = .base := by
      by_contra hne
      obtain ⟨f, hf, hrecvg⟩ := tracks.sound.exists_recvgPc hne
      exact hrecvg (hconverged f.entry (hframes ▸ List.mem_map_of_mem hf))
    have hmask : Finset.range n ⊆ T.mask := by
      rw [hframes] at hstack'
      obtain ⟨rfl, -⟩ := List.cons.inj hstack'
      exact hall
    have hn : 0 < n := Nat.zero_lt_of_lt (mem_liveThreads.mp hiLive).1
    exact ⟨T.withCallstack [0] :: s, rfl, tracks.restart hkind hlanes hmask hn⟩
  · exact ⟨T :: s, rfl, tracks.resumedThread hkernel hlanes (hframes ▸ hat)⟩

theorem WarpInvariant.reachable (h : WarpInvariant prog n w) {r : Except SimtFailure Warp}
    (reached : ((warpSystemFrom prog n w).restrict
      (TransitionSystem.onOk (Regular prog n))).Reachable r) :
    OkOr (WarpInvariant prog n) (· = SimtFailure.threadDone) r := by
  apply TransitionSystem.Reachable.invariant_ofExcept ?_ ?_ reached
  · rintro w' rfl
    exact h
  · intro w' pred hw hregular hlive
    exact hw.executeWarp hregular hlive

/-- Lane 1 of a full warp takes the branch. -/
def divergedRun : Option Warp :=
  TransitionSystem.execOk (fun w _ => (w.live 32).Nonempty) (executeWarp exitInCallee 32)
    (launchWarp 8 (Finset.range 32)) [(· == 1)]

theorem divergedRun_eq :
    divergedRun.map (fun w => (w.stack.head?.map (·.pc), (topmost w.stack 1).map (·.pc))) =
      some (some 16, some 24) := by
  decide +kernel

end GpuCalorie.Simt
