/-
# The file of a thread's registers

`print_reg_thread` writes a line for each register of the innermost frame of a thread: its name, its
value, where it was declared and its size. `resume_reg_thread` reads the lines with a buffer of 200
characters, looks the names up in the symbol table of the kernel, and reads the values as numbers of
32 bits. So a thread gets its registers back exactly when it is in one frame, all of whose registers
are found under their names, hold 32 bits and have lines that fit the buffer.
-/

import GpuCalorie.Math.Outcome
import GpuCalorie.Simt.StackFile
import Mathlib.Data.List.AList

namespace GpuCalorie.FunctionalSim.RegisterFile

open GpuCalorie.Math
open GpuCalorie.Simt.StackFile (atoi atoi_printInt signed32)

/-! ## Symbols -/

/-- The characters of an identifier behind its first. -/
def isFollow (c : Char) : Bool := c.isAlphanum || c == '_' || c == '$'

/-- What the lexer takes for an identifier. -/
def isIdentifier : List Char → Bool
  | [] => false
  | c :: text => text.all isFollow &&
      (c.isAlpha || c == '_' || ((c == '$' || c == '%') && !text.isEmpty))

/-- `symbol`, as far as it is printed. -/
structure Symbol where
  uid : ℕ
  name : List Char
  /-- The name of the PTX file. -/
  filename : List Char
  line : UInt32
  sizeInBytes : UInt32
  isIdentifier_name : isIdentifier name
  noBlank_filename : NoBlank filename
  noNewline_filename : '\n' ∉ filename
  deriving DecidableEq

/-- `decl_location`, as `snprintf` leaves it in a buffer of 1024 characters. -/
def Symbol.declLocation (reg : Symbol) : List Char :=
  (reg.filename ++ ':' :: Nat.toDigits 10 reg.line.toNat).take 1023

/-- `symbol_table`: the symbols of a scope, under their names. -/
structure SymbolScope where
  symbols : List Char → Option Symbol
  name_eq : ∀ {key reg}, symbols key = some reg → reg.name = key

/-- `symbol_table::lookup`, in a scope and in those around it. -/
def lookup : List SymbolScope → List Char → Option Symbol
  | [], _ => none
  | scope :: parents, identifier => match scope.symbols identifier with
    | some reg => some reg
    | none => lookup parents identifier

/-- `reg_map_t`. The key of a register is a pointer. -/
abbrev RegMap := AList fun _ : Option Symbol => UInt64

/-! ## What is written, and what is read -/

inductive RegisterFailure
  | nullPointer
  | outOfBounds
  /-- A file is not there. -/
  | noFile
  deriving DecidableEq, Repr

/-- The line of a register, without its end. -/
def printReg (reg : Symbol) (value : UInt64) : List Char :=
  reg.name ++ ' ' :: (Nat.toDigits 10 value.toNat ++ ' ' :: (reg.declLocation ++ ' ' ::
    printInt (signed32 reg.sizeInBytes)))

/-- The line of an entry. -/
def printEntry (entry : Sigma fun _ : Option Symbol => UInt64) :
    Except RegisterFailure (List Char) :=
  match entry.1 with
  | none => .error .nullPointer
  | some reg => .ok (printReg reg entry.2 ++ ['\n'])

/-- `print_reg_thread`, with the innermost frame first. -/
def printRegThread : List RegMap → Except RegisterFailure (List Char)
  | [] => .ok []
  | regs :: _ => List.flatten <$> regs.entries.mapM printEntry

def nextWord (text : List Char) : Except RegisterFailure (List Char × List Char) :=
  match strtok text with
  | none => .error .nullPointer
  | some word => .ok word

/-- A number is read as an `int`, and becomes the low half of a register. -/
def readValue (pch : List Char) : UInt64 := .ofBitVec ((atoi pch).setWidth 64)

/-- The register of a line. -/
def resumeLine (symtab : List SymbolScope) (regs : RegMap) (line : List Char) :
    Except RegisterFailure RegMap := do
  let (name, rest) ← nextWord line
  let (pch, _) ← nextWord rest
  return regs.insert (lookup symtab name) (readValue pch)

/-- `resume_reg_thread`. -/
def resumeRegThread (symtab : List SymbolScope) (file : List Char) :
    List RegMap → Except RegisterFailure (List RegMap)
  | [] => .error .nullPointer
  | regs :: frames => do
    let regs ← (lines 200 file).foldlM (resumeLine symtab) regs
    return regs :: frames

/-! ## What is restored -/

/-- The same registers with the same contents. -/
def SameRegs (regs regs' : RegMap) : Prop := ∀ reg, regs.lookup reg = regs'.lookup reg

/-- The same frames, one by one. -/
def SameFrames : List RegMap → List RegMap → Prop := List.Forall₂ SameRegs

/-- A line fits the buffer. -/
def Fits (reg : Symbol) (value : UInt64) : Prop := (printReg reg value).length + 1 < 200

/-- A register that comes back. -/
structure Restorable (symtab : List SymbolScope) (reg : Symbol) (value : UInt64) : Prop where
  found : lookup symtab reg.name = some reg
  half : value.toNat < 2 ^ 32
  fits : Fits reg value

/-- A thread in one frame, all of whose registers come back. -/
def Plain (symtab : List SymbolScope) (frames : List RegMap) : Prop :=
  ∃ regs : RegMap, frames = [regs] ∧
    ∀ entry ∈ regs.entries, ∃ reg, entry.1 = some reg ∧ Restorable symtab reg entry.2

/-! ## Identifiers -/

section Identifiers

variable {text : List Char} {c : Char}

theorem ne_nil_of_isIdentifier (h : isIdentifier text) : text ≠ [] := by
  rintro rfl
  cases h

theorem isFollow_of_mem (h : isIdentifier text) (hc : c ∈ text) : isFollow c ∨ c = '%' := by
  cases text with
  | nil => cases hc
  | cons d text =>
    simp only [isIdentifier, Bool.and_eq_true, Bool.or_eq_true, beq_iff_eq, List.all_eq_true] at h
    obtain ⟨hfollow, hfirst⟩ := h
    obtain rfl | hc := List.mem_cons.1 hc
    · obtain (halpha | rfl) | ⟨rfl | rfl, -⟩ := hfirst
      · exact .inl (by simp [isFollow, Char.isAlphanum, halpha])
      · exact .inl rfl
      · exact .inl rfl
      · exact .inr rfl
    · exact .inl (hfollow c hc)

theorem notMem_of_isIdentifier (h : isIdentifier text) (hfollow : isFollow c = false)
    (hne : c ≠ '%') : c ∉ text := by
  intro hc
  obtain hc | rfl := isFollow_of_mem h hc
  · rw [hfollow] at hc
    cases hc
  · exact hne rfl

theorem not_isAlpha_of_isDigit (h : c.isDigit) : c.isAlpha = false := by
  change (decide (48 ≤ c.val) && decide (c.val ≤ 57)) = true at h
  change (decide (65 ≤ c.val ∧ c.val ≤ 90) ||
    (decide (97 ≤ c.val) && decide (c.val ≤ 122))) = false
  simp only [Bool.and_eq_true, Bool.or_eq_false_iff, Bool.and_eq_false_iff, decide_eq_true_eq,
    decide_eq_false_iff_not, UInt32.le_iff_toNat_le, UInt32.reduceToNat] at h ⊢
  omega

theorem isIdentifier_of_isDigit (h : c.isDigit) : isIdentifier (c :: text) = false := by
  have hne : ∀ d : Char, d.isDigit = false → (c == d) = false := by
    intro d hd
    rw [beq_eq_false_iff_ne]
    rintro rfl
    rw [h] at hd
    cases hd
  rw [isIdentifier, not_isAlpha_of_isDigit h, hne '_' rfl, hne '$' rfl, hne '%' rfl]
  simp

theorem isDigit_of_mem_toDigits {n : ℕ} (h : c ∈ Nat.toDigits 10 n) : c.isDigit :=
  Nat.isDigit_of_mem_toDigits (by decide) (by decide) h

theorem noBlank_toDigits (n : ℕ) : NoBlank (Nat.toDigits 10 n) := fun hmem => by
  cases isDigit_of_mem_toDigits hmem

end Identifiers

namespace Symbol

variable (reg : Symbol)

theorem exists_name_eq_cons : ∃ c text, reg.name = c :: text :=
  List.exists_cons_of_ne_nil (ne_nil_of_isIdentifier reg.isIdentifier_name)

theorem noBlank_name : NoBlank reg.name :=
  notMem_of_isIdentifier reg.isIdentifier_name rfl (by decide)

theorem notMem_declLocation {c : Char} (hfile : c ∉ reg.filename) (hc : c.isDigit = false)
    (hne : c ≠ ':') : c ∉ reg.declLocation := by
  intro hmem
  have hmem := List.mem_of_mem_take hmem
  rw [List.mem_append, List.mem_cons] at hmem
  obtain hmem | rfl | hmem := hmem
  · exact hfile hmem
  · exact hne rfl
  · rw [isDigit_of_mem_toDigits hmem] at hc
    cases hc

theorem noBlank_declLocation : NoBlank reg.declLocation :=
  reg.notMem_declLocation reg.noBlank_filename rfl (by decide)

theorem not_isIdentifier_of_declLocation {start rest : List Char}
    (h : reg.declLocation = start ++ rest) (hne : rest ≠ [])
    (hlength : reg.declLocation.length < 1023) : isIdentifier rest = false := by
  rw [declLocation, List.length_take] at hlength
  rw [declLocation, List.take_of_length_le (by omega)] at h
  have hdigits (text : List Char) (hsuffix : text <:+ Nat.toDigits 10 reg.line.toNat)
      (hne : text ≠ []) : isIdentifier text = false := by
    obtain ⟨c, text, rfl⟩ := List.exists_cons_of_ne_nil hne
    exact isIdentifier_of_isDigit
      (isDigit_of_mem_toDigits (hsuffix.subset List.mem_cons_self))
  have hcolon (text : List Char) (hmem : ':' ∈ text) : isIdentifier text = false := by
    by_contra hnot
    rw [Bool.not_eq_false] at hnot
    exact notMem_of_isIdentifier hnot rfl (by decide) hmem
  obtain ⟨text, rfl, hrest⟩ | ⟨text, hstart, hrest⟩ := List.append_eq_append_iff.1 h
  · -- the colon is in the rest or behind its start
    cases text with
    | nil =>
      obtain rfl : ':' :: Nat.toDigits 10 reg.line.toNat = rest := hrest
      exact hcolon _ List.mem_cons_self
    | cons c text =>
      obtain ⟨rfl, htail⟩ := List.cons.inj hrest
      exact hdigits rest ⟨text, htail.symm⟩ hne
  · rw [hrest]
    exact hcolon _ (List.mem_append_right _ List.mem_cons_self)

end Symbol

/-! ## Lines that fit -/

variable {symtab : List SymbolScope} {reg : Symbol} {value : UInt64} {regs regs' : RegMap}
  {pairs : List (Symbol × UInt64)}

theorem name_eq_of_lookup {identifier : List Char} (h : lookup symtab identifier = some reg) :
    reg.name = identifier := by
  induction symtab with
  | nil => cases h
  | cons scope parents ih =>
    rw [lookup] at h
    split at h
    · rename_i hscope
      obtain rfl := Option.some.inj h
      exact scope.name_eq hscope
    · exact ih h

theorem lookup_of_not_isIdentifier {identifier : List Char} (h : isIdentifier identifier = false) :
    lookup symtab identifier = none := by
  rw [Option.eq_none_iff_forall_not_mem]
  intro reg hreg
  have hname := name_eq_of_lookup hreg
  rw [← hname, reg.isIdentifier_name] at h
  cases h

theorem notMem_printReg (reg : Symbol) (value : UInt64) : '\n' ∉ printReg reg value := by
  have hname : '\n' ∉ reg.name := notMem_of_isIdentifier reg.isIdentifier_name rfl (by decide)
  have hdigits : '\n' ∉ Nat.toDigits 10 value.toNat := by
    intro hmem
    cases isDigit_of_mem_toDigits hmem
  have hlocation : '\n' ∉ reg.declLocation :=
    reg.notMem_declLocation reg.noNewline_filename rfl (by decide)
  have hsize : '\n' ∉ printInt (signed32 reg.sizeInBytes) :=
    notMem_printInt (by decide) (by decide) _
  simp only [printReg, List.mem_append, List.mem_cons, hname, hdigits, hlocation, hsize, or_false,
    show ('\n' = ' ') = False from eq_false (by decide)]
  exact not_false

theorem resumeLine_printReg (symtab : List SymbolScope) (regs : RegMap) (reg : Symbol)
    (value : UInt64) :
    resumeLine symtab regs (printReg reg value ++ ['\n']) =
      .ok (regs.insert (lookup symtab reg.name) (readValue (Nat.toDigits 10 value.toNat))) := by
  obtain ⟨c, text, hname⟩ := reg.exists_name_eq_cons
  obtain ⟨d, digits, hdigits⟩ := toDigits_eq_cons value.toNat
  have hblank := noBlank_toDigits value.toNat
  have hword := strtok_word (hname ▸ reg.noBlank_name)
    (Nat.toDigits 10 value.toNat ++ ' ' :: (reg.declLocation ++ ' ' ::
      (printInt (signed32 reg.sizeInBytes) ++ ['\n'])))
  have hvalue := strtok_word (hdigits ▸ hblank)
    (reg.declLocation ++ ' ' :: (printInt (signed32 reg.sizeInBytes) ++ ['\n']))
  rw [← hname] at hword
  rw [← hdigits] at hvalue
  have hline : printReg reg value ++ ['\n'] = reg.name ++ ' ' :: (Nat.toDigits 10 value.toNat ++
      ' ' :: (reg.declLocation ++ ' ' :: (printInt (signed32 reg.sizeInBytes) ++ ['\n']))) := by
    simp [printReg]
  rw [resumeLine, hline, nextWord, hword]
  dsimp only [bind, Except.bind]
  rw [nextWord, hvalue]
  rfl

theorem toNat_readValue (pch : List Char) : (readValue pch).toNat < 2 ^ 32 := by
  rw [readValue, UInt64.toNat_ofBitVec, BitVec.toNat_setWidth]
  exact lt_of_le_of_lt (Nat.mod_le _ _) (atoi pch).isLt

theorem readValue_toDigits (h : value.toNat < 2 ^ 32) :
    readValue (Nat.toDigits 10 value.toNat) = value := by
  have hprint : Nat.toDigits 10 value.toNat = printInt (value.toNat : ℤ) := by
    rw [printInt, if_neg (by omega), Int.natAbs_natCast]
  have hvalue := value.toBitVec.isLt
  rw [readValue, hprint, atoi_printInt (by omega) (by omega), ← UInt64.toNat_inj,
    UInt64.toNat_ofBitVec, BitVec.toNat_setWidth, BitVec.ofInt_natCast, BitVec.toNat_ofNat,
    Nat.mod_eq_of_lt h, Nat.mod_eq_of_lt (by omega)]

/-! ## Lines that do not fit -/

theorem of_resumeLine {line : List Char} (h : resumeLine symtab regs line = .ok regs') :
    ∃ name rest pch last, strtok line = some (name, rest) ∧ strtok rest = some (pch, last) ∧
      regs' = regs.insert (lookup symtab name) (readValue pch) := by
  rw [resumeLine, nextWord] at h
  cases hword : strtok line with
  | none => rw [hword] at h; cases h
  | some word =>
    obtain ⟨name, rest⟩ := word
    rw [hword] at h
    dsimp only [bind, Except.bind] at h
    rw [nextWord] at h
    cases hnext : strtok rest with
    | none => rw [hnext] at h; cases h
    | some word' =>
      obtain ⟨pch, last⟩ := word'
      rw [hnext] at h
      exact ⟨name, rest, pch, last, rfl, hnext, (Except.ok.inj h).symm⟩

theorem eq_nil_of_blank {text start rest word more : List Char} {n : ℕ} (hblank : NoBlank text)
    (h : ' ' :: text = start ++ rest) (hword : strtok (rest.take n) = some (word, more)) :
    more = [] := by
  cases start with
  | nil =>
    obtain rfl : rest = ' ' :: text := h.symm
    cases n with
    | zero => cases hword
    | succ n =>
      rw [List.take_succ_cons, strtok_blank] at hword
      exact eq_nil_of_strtok (fun hmem => hblank (List.mem_of_mem_take hmem)) hword
  | cons c start =>
    obtain ⟨-, rfl⟩ := List.cons.inj h
    exact eq_nil_of_strtok
      (fun hmem => hblank (List.mem_append_right _ (List.mem_of_mem_take hmem))) hword

theorem Symbol.not_isIdentifier_of_location (start : List Char)
    {size rest word more word' more' : List Char} {n : ℕ} (hsize : NoBlank size)
    (h : reg.declLocation ++ ' ' :: size = start ++ rest)
    (hlength : start.length + n < 1023) (hword : strtok (rest.take n) = some (word, more))
    (hnext : strtok more = some (word', more')) : isIdentifier word = false := by
  have hmore : more ≠ [] := by
    rintro rfl
    cases hnext
  obtain ⟨text, -, hrest⟩ | ⟨text, hlocation, rfl⟩ := List.append_eq_append_iff.1 h
  · exact absurd (eq_nil_of_blank hsize hrest hword) hmore
  · by_cases hne : text = []
    · have hrest : ' ' :: size = [] ++ (text ++ ' ' :: size) := by
        rw [hne]
        rfl
      exact absurd (eq_nil_of_blank hsize hrest hword) hmore
    · have hblank : NoBlank text := fun hmem => reg.noBlank_declLocation (by
        rw [hlocation]
        exact List.mem_append_right _ hmem)
      obtain ⟨rfl, htext⟩ := eq_of_strtok_take hblank hne hword hnext
      refine reg.not_isIdentifier_of_declLocation hlocation hne ?_
      rw [hlocation, List.length_append]
      omega

theorem not_isIdentifier_of_behind
    {start rest name more pch last name' more' pch' last' : List Char}
    (h : start ++ rest = printReg reg value ++ ['\n']) (hlength : start.length = 199)
    (hname : strtok start = some (name, more)) (hvalue : strtok more = some (pch, last))
    (hname' : strtok (rest.take 199) = some (name', more'))
    (hvalue' : strtok more' = some (pch', last')) : isIdentifier name' = false := by
  have hmore : more ≠ [] := by
    rintro rfl
    cases hvalue
  have hsize : NoBlank (printInt (signed32 reg.sizeInBytes) ++ ['\n']) := by
    rw [NoBlank, List.mem_append, not_or]
    exact ⟨notMem_printInt (by decide) (by decide) _, by decide⟩
  simp only [printReg, List.append_assoc, List.cons_append] at h
  -- not in the name, nor at its end
  obtain ⟨text, hreg, -⟩ | ⟨text, rfl, hbehind⟩ := List.append_eq_append_iff.1 h
  · exact absurd (eq_nil_of_strtok (fun hmem => reg.noBlank_name (by
      rw [hreg]
      exact List.mem_append_left _ hmem)) hname) hmore
  cases text with
  | nil =>
    rw [List.append_nil] at hname
    exact absurd (eq_nil_of_strtok reg.noBlank_name hname) hmore
  | cons c text =>
  obtain ⟨hc, hdeclared⟩ := List.cons.inj hbehind
  subst hc
  obtain ⟨text', htext, hrest⟩ | ⟨text', hdigits, hrest⟩ :=
    List.append_eq_append_iff.1 hdeclared
  · -- behind the value
    cases text' with
    | nil =>
      obtain rfl : rest = ' ' :: _ := hrest.symm
      rw [List.take_succ_cons, strtok_blank] at hname'
      exact reg.not_isIdentifier_of_location [] hsize rfl (by decide) hname' hvalue'
    | cons c text' =>
      obtain ⟨-, hlocation⟩ := List.cons.inj hrest
      refine reg.not_isIdentifier_of_location text' hsize hlocation ?_ hname' hvalue'
      rw [htext] at hlength
      simp only [List.length_append, List.length_cons] at hlength
      omega
  · cases text' with
    | nil =>
      obtain rfl : rest = ' ' :: _ := hrest
      rw [List.take_succ_cons, strtok_blank] at hname'
      exact reg.not_isIdentifier_of_location [] hsize rfl (by decide) hname' hvalue'
    | cons d text' =>
      -- in the value
      have hblank : NoBlank (d :: text') := fun hmem => noBlank_toDigits value.toNat (by
        rw [hdigits]
        exact List.mem_append_right _ hmem)
      rw [hrest] at hname'
      rw [(eq_of_strtok_take hblank (List.cons_ne_nil _ _) hname' hvalue').1]
      refine isIdentifier_of_isDigit (@isDigit_of_mem_toDigits _ value.toNat ?_)
      rw [hdigits]
      exact List.mem_append_right _ List.mem_cons_self

theorem isSome_of_foldlM {lines : List (List Char)}
    (h : lines.foldlM (resumeLine symtab) regs = .ok regs') (hnone : (regs.lookup none).isSome) :
    (regs'.lookup none).isSome := by
  induction lines generalizing regs with
  | nil =>
    obtain rfl := Except.ok.inj h
    exact hnone
  | cons line lines ih =>
    rw [List.foldlM_cons] at h
    obtain ⟨regs₁, hline, h⟩ := bind_eq_ok.1 h
    obtain ⟨name, rest, pch, last, -, -, rfl⟩ := of_resumeLine hline
    refine ih h ?_
    by_cases hname : lookup symtab name = none
    · rw [hname, AList.lookup_insert]
      rfl
    · rwa [AList.lookup_insert_ne (Ne.symm hname)]

theorem isSome_of_not_fits (hfits : ¬ Fits reg value)
    (h : (lines 200 (printReg reg value ++ ['\n'])).foldlM (resumeLine symtab) regs = .ok regs') :
    (regs'.lookup none).isSome := by
  have hlength : 199 ≤ (printReg reg value).length := by
    rw [Fits] at hfits
    omega
  have hrest : (printReg reg value ++ ['\n']).drop 199 = (printReg reg value).drop 199 ++ ['\n'] :=
    List.drop_append_of_le_length hlength
  have hfirst := lines_eq_cons (show 1 < 200 by decide) (notMem_printReg reg value) []
  rw [min_eq_left (by omega), hrest] at hfirst
  have hbehind : '\n' ∉ (printReg reg value).drop 199 := fun hmem =>
    notMem_printReg reg value (List.mem_of_mem_drop hmem)
  have hsecond := lines_eq_cons (show 1 < 200 by decide) hbehind []
  rw [hfirst, List.foldlM_cons] at h
  obtain ⟨regs₁, hline, h⟩ := bind_eq_ok.1 h
  rw [hsecond, List.foldlM_cons] at h
  obtain ⟨regs₂, hline', h⟩ := bind_eq_ok.1 h
  obtain ⟨name, more, pch, last, hname, hvalue, -⟩ := of_resumeLine hline
  obtain ⟨name', more', pch', last', hname', hvalue', rfl⟩ := of_resumeLine hline'
  refine isSome_of_foldlM h ?_
  have hline : (printReg reg value ++ ['\n']).take 199 ++
      ((printReg reg value).drop 199 ++ ['\n']) = printReg reg value ++ ['\n'] := by
    rw [← hrest, List.take_append_drop]
  have hstart : ((printReg reg value ++ ['\n']).take 199).length = 199 := by
    rw [List.length_take, List.length_append]
    omega
  have hidentifier := not_isIdentifier_of_behind hline hstart hname hvalue hname' hvalue'
  rw [lookup_of_not_isIdentifier hidentifier, AList.lookup_insert]
  rfl

/-! ## Files -/

/-- What a line does that fits. -/
def insertReg (symtab : List SymbolScope) (regs : RegMap) (p : Symbol × UInt64) : RegMap :=
  regs.insert (lookup symtab p.1.name) (readValue (Nat.toDigits 10 p.2.toNat))

theorem foldlM_lines_of_fits (h : ∀ p ∈ pairs, Fits p.1 p.2) :
    (lines 200 (pairs.flatMap fun p => printReg p.1 p.2 ++ ['\n'])).foldlM (resumeLine symtab)
      regs = .ok (pairs.foldl (insertReg symtab) regs) := by
  rw [lines_flatMap _ _ fun p hp => ⟨notMem_printReg p.1 p.2, h p hp⟩]
  clear h
  induction pairs generalizing regs with
  | nil => rfl
  | cons p pairs ih =>
    rw [List.map_cons, List.foldlM_cons, resumeLine_printReg]
    exact ih

theorem fits_of_foldlM_lines
    (h : (lines 200 (pairs.flatMap fun p => printReg p.1 p.2 ++ ['\n'])).foldlM (resumeLine symtab)
      regs = .ok regs') (hnone : regs'.lookup none = none) : ∀ p ∈ pairs, Fits p.1 p.2 := by
  induction pairs generalizing regs with
  | nil => exact fun p hp => nomatch hp
  | cons p pairs ih =>
    rw [List.flatMap_cons, List.append_assoc, List.singleton_append, lines_newline,
      List.foldlM_append] at h
    obtain ⟨regs₁, hline, h⟩ := bind_eq_ok.1 h
    rw [List.forall_mem_cons]
    refine ⟨?_, ih h⟩
    by_contra hfits
    have hsome := isSome_of_foldlM h (isSome_of_not_fits hfits hline)
    rw [hnone] at hsome
    cases hsome

theorem lookup_foldl_of_ne {key : Option Symbol} (h : ∀ p ∈ pairs, lookup symtab p.1.name ≠ key) :
    (pairs.foldl (insertReg symtab) regs).lookup key = regs.lookup key := by
  induction pairs generalizing regs with
  | nil => rfl
  | cons p pairs ih =>
    rw [List.forall_mem_cons] at h
    rw [List.foldl_cons, ih h.2, insertReg, AList.lookup_insert_ne (Ne.symm h.1)]

theorem lookup_foldl_of_mem {p : Symbol × UInt64}
    (hfound : ∀ p ∈ pairs, lookup symtab p.1.name = some p.1)
    (hnodup : (pairs.map Prod.fst).Nodup) (hp : p ∈ pairs) :
    (pairs.foldl (insertReg symtab) regs).lookup (some p.1) =
      some (readValue (Nat.toDigits 10 p.2.toNat)) := by
  induction pairs generalizing regs with
  | nil => cases hp
  | cons q pairs ih =>
    rw [List.forall_mem_cons] at hfound
    rw [List.map_cons, List.nodup_cons] at hnodup
    rw [List.foldl_cons]
    obtain rfl | hp := List.mem_cons.1 hp
    · have hne : ∀ q ∈ pairs, lookup symtab q.1.name ≠ some p.1 := by
        intro q hq heq
        rw [hfound.2 q hq] at heq
        exact hnodup.1 (Option.some.inj heq ▸ List.mem_map_of_mem hq)
      rw [lookup_foldl_of_ne hne, insertReg, hfound.1, AList.lookup_insert]
    · exact ih hfound.2 hnodup.2 hp

/-- The entry of a register. -/
def regEntry (p : Symbol × UInt64) : Sigma fun _ : Option Symbol => UInt64 := ⟨some p.1, p.2⟩

theorem mapM_printEntry (pairs : List (Symbol × UInt64)) :
    (pairs.map regEntry).mapM printEntry = .ok (pairs.map fun p => printReg p.1 p.2 ++ ['\n']) := by
  induction pairs with
  | nil => rfl
  | cons p pairs ih =>
    rw [List.map_cons, List.mapM_cons, ih]
    rfl

theorem named_of_mapM {entries : List (Sigma fun _ : Option Symbol => UInt64)}
    {texts : List (List Char)} (h : entries.mapM printEntry = .ok texts) :
    ∀ entry ∈ entries, ∃ reg, entry.1 = some reg := by
  induction entries generalizing texts with
  | nil => exact fun entry hentry => nomatch hentry
  | cons entry entries ih =>
    rw [List.mapM_cons] at h
    obtain ⟨text, htext, h⟩ := bind_eq_ok.1 h
    obtain ⟨texts', htexts, -⟩ := bind_eq_ok.1 h
    rw [List.forall_mem_cons]
    refine ⟨?_, ih htexts⟩
    obtain ⟨key, value⟩ := entry
    cases key with
    | none => cases htext
    | some reg => exact ⟨reg, rfl⟩

/-- The registers of a frame, all with a name. -/
structure Registers (regs : RegMap) (pairs : List (Symbol × UInt64)) : Prop where
  entries_eq : regs.entries = pairs.map regEntry

theorem exists_registers (h : ∀ entry ∈ regs.entries, ∃ reg, entry.1 = some reg) :
    ∃ pairs, Registers regs pairs := by
  have hrange : regs.entries ∈ Set.range (List.map regEntry) := by
    rw [Set.range_list_map]
    rintro ⟨key, value⟩ hentry
    obtain ⟨reg, rfl⟩ := h _ hentry
    exact ⟨(reg, value), rfl⟩
  obtain ⟨pairs, hpairs⟩ := hrange
  exact ⟨pairs, ⟨hpairs.symm⟩⟩

namespace Registers

variable {pairs : List (Symbol × UInt64)} (h : Registers regs pairs)
include h

theorem nodup : (pairs.map Prod.fst).Nodup := by
  have hkeys : regs.entries.NodupKeys := regs.nodupKeys
  rw [h.entries_eq, List.NodupKeys, List.keys, List.map_map] at hkeys
  exact List.Nodup.of_map some (by rwa [List.map_map])

theorem mem_pairs_iff {p : Symbol × UInt64} : regs.lookup (some p.1) = some p.2 ↔ p ∈ pairs := by
  have hmem : p.2 ∈ regs.lookup (some p.1) ↔ regEntry p ∈ regs.entries := AList.mem_lookup_iff
  rw [← Option.mem_def, hmem, h.entries_eq, List.mem_map_of_injective]
  rintro ⟨reg, value⟩ ⟨reg', value'⟩ heq
  cases heq
  rfl

theorem lookup_none : regs.lookup none = none := by
  rw [Option.eq_none_iff_forall_not_mem]
  intro value hvalue
  have hmem := AList.mem_lookup_iff.1 hvalue
  rw [h.entries_eq, List.mem_map] at hmem
  obtain ⟨p, -, hp⟩ := hmem
  cases hp

theorem print (frames : List RegMap) : printRegThread (regs :: frames) =
      .ok (pairs.flatMap fun p => printReg p.1 p.2 ++ ['\n']) := by
  rw [printRegThread, h.entries_eq, mapM_printEntry]
  rfl

theorem sameRegs_iff : SameRegs (pairs.foldl (insertReg symtab) ∅) regs ↔
      ∀ p ∈ pairs, lookup symtab p.1.name = some p.1 ∧ p.2.toNat < 2 ^ 32 := by
  constructor
  · intro hsame
    have hfound : ∀ p ∈ pairs, lookup symtab p.1.name = some p.1 := by
      intro p hp
      by_contra hnot
      have hne : ∀ q ∈ pairs, lookup symtab q.1.name ≠ some p.1 := by
        intro q hq heq
        rw [← name_eq_of_lookup heq] at heq
        exact hnot heq
      have hsome := hsame (some p.1)
      rw [lookup_foldl_of_ne hne, h.mem_pairs_iff.2 hp] at hsome
      cases hsome
    intro p hp
    refine ⟨hfound p hp, ?_⟩
    have hvalue := hsame (some p.1)
    rw [lookup_foldl_of_mem hfound h.nodup hp, h.mem_pairs_iff.2 hp] at hvalue
    rw [← Option.some.inj hvalue]
    exact toNat_readValue _
  · intro hpairs key
    by_cases hkey : ∃ p ∈ pairs, some p.1 = key
    · obtain ⟨p, hp, rfl⟩ := hkey
      rw [lookup_foldl_of_mem (fun p hp => (hpairs p hp).1) h.nodup hp, h.mem_pairs_iff.2 hp,
        readValue_toDigits (hpairs p hp).2]
    · push Not at hkey
      have hne : ∀ p ∈ pairs, lookup symtab p.1.name ≠ key := by
        intro p hp
        rw [(hpairs p hp).1]
        exact hkey p hp
      rw [lookup_foldl_of_ne hne, AList.lookup_empty, eq_comm, Option.eq_none_iff_forall_not_mem]
      intro value hvalue
      have hmem := AList.mem_lookup_iff.1 hvalue
      rw [h.entries_eq, List.mem_map] at hmem
      obtain ⟨p, hp, heq⟩ := hmem
      exact hkey p hp (congrArg Sigma.fst heq)

end Registers

/-! ## One thread -/

/-- The registers of a thread come back. -/
def Restores (symtab : List SymbolScope) (frames : List RegMap) : Prop :=
  ∃ file, printRegThread frames = .ok file ∧
    ∃ frames', resumeRegThread symtab file [∅] = .ok frames' ∧ SameFrames frames' frames

theorem restoresFrames_iff (symtab : List SymbolScope) (frames : List RegMap) :
    Restores symtab frames ↔ Plain symtab frames := by
  constructor
  · rintro ⟨file, hprint, frames', hresume, hsame⟩
    rw [resumeRegThread] at hresume
    obtain ⟨regs', hlines, hresume⟩ := bind_eq_ok.1 hresume
    obtain rfl := Except.ok.inj hresume
    cases hsame with
    | cons hregs hframes =>
    rename_i regs frames
    cases hframes
    obtain ⟨texts, htexts, -⟩ := map_eq_ok.1 hprint
    obtain ⟨pairs, hregisters⟩ := exists_registers (named_of_mapM htexts)
    rw [hregisters.print] at hprint
    obtain rfl := Except.ok.inj hprint
    have hfits := fits_of_foldlM_lines hlines ((hregs none).trans hregisters.lookup_none)
    rw [foldlM_lines_of_fits hfits] at hlines
    obtain rfl := Except.ok.inj hlines
    have hpairs := hregisters.sameRegs_iff.1 hregs
    refine ⟨regs, rfl, fun entry hentry => ?_⟩
    rw [hregisters.entries_eq] at hentry
    obtain ⟨p, hp, rfl⟩ := List.mem_map.1 hentry
    exact ⟨p.1, rfl, (hpairs p hp).1, (hpairs p hp).2, hfits p hp⟩
  · rintro ⟨regs, rfl, h⟩
    obtain ⟨pairs, hregisters⟩ := exists_registers fun entry hentry =>
      (h entry hentry).imp fun reg hreg => hreg.1
    have hpairs : ∀ p ∈ pairs, Restorable symtab p.1 p.2 := by
      intro p hp
      obtain ⟨reg, hreg, h⟩ := h (regEntry p) (by
        rw [hregisters.entries_eq]
        exact List.mem_map_of_mem hp)
      obtain rfl := Option.some.inj hreg
      exact h
    refine ⟨_, hregisters.print [], [pairs.foldl (insertReg symtab) ∅], ?_, ?_⟩
    · rw [resumeRegThread, foldlM_lines_of_fits fun p hp => (hpairs p hp).fits]
      rfl
    · have hsame := hregisters.sameRegs_iff.2 fun p hp => ⟨(hpairs p hp).found, (hpairs p hp).half⟩
      exact .cons hsame .nil

end GpuCalorie.FunctionalSim.RegisterFile
