/-
# Text of numbers, words and lines

Text files as lists of characters: numbers printed to a base, with zeros before them up to a width,
and read up to the first other character; words between blanks; and lines of at most some length.
What was printed is read back.
-/

import Mathlib.Algebra.Group.Nat.Defs
import Mathlib.Data.List.TakeWhile
import Mathlib.Tactic.Common

namespace GpuCalorie.Math

/-! ## Numbers -/

/-- The value of a digit to some base up to 16. -/
def digitValue (c : Char) : Option ℕ :=
  if '0' ≤ c ∧ c ≤ '9' then some (c.toNat - '0'.toNat)
  else if 'a' ≤ c ∧ c ≤ 'f' then some (c.toNat - 'a'.toNat + 10)
  else if 'A' ≤ c ∧ c ≤ 'F' then some (c.toNat - 'A'.toNat + 10)
  else none

/-- The number that the digits at the start of a text are, behind some others. -/
def readDigits (base : ℕ) : ℕ → List Char → ℕ
  | n, [] => n
  | n, c :: text =>
    match digitValue c with
    | some d => if d < base then readDigits base (n * base + d) text else n
    | none => n

/-- A number with zeros before it. -/
def padDigits (base width n : ℕ) : List Char :=
  List.leftpad width '0' (Nat.toDigits base n)

/-- Texts of digits. -/
def AllDigits (base : ℕ) (text : List Char) : Prop := ∀ c ∈ text, ∃ d < base, digitValue c = some d

variable {base n m width : ℕ} {text rest : List Char} {c : Char} {size : ℕ}

theorem digitValue_digitChar (hn : n < 16) : digitValue n.digitChar = some n := by
  have h : ∀ k < 16, digitValue k.digitChar = some k := by decide
  exact h n hn

theorem allDigits_toDigits (hbase : 1 < base) (hle : base ≤ 16) (n : ℕ) :
    AllDigits base (Nat.toDigits base n) := by
  induction n using Nat.strongRecOn with
  | _ n ih =>
    have hmod : n % base < base := Nat.mod_lt n (by omega)
    rw [Nat.toDigits_eq_if hbase]
    split_ifs with hlt
    · rintro c hc
      obtain rfl := List.mem_singleton.1 hc
      exact ⟨n, hlt, digitValue_digitChar (by omega)⟩
    · intro c hc
      obtain hc | hc := List.mem_append.1 hc
      · exact ih (n / base) (Nat.div_lt_self (by omega) hbase) c hc
      · obtain rfl := List.mem_singleton.1 hc
        exact ⟨n % base, hmod, digitValue_digitChar (by omega)⟩

theorem allDigits_padDigits (hbase : 1 < base) (hle : base ≤ 16) (width n : ℕ) :
    AllDigits base (padDigits base width n) := by
  intro c hc
  obtain hc | hc := List.mem_append.1 hc
  · obtain rfl := List.eq_of_mem_replicate hc
    exact ⟨0, by omega, rfl⟩
  · exact allDigits_toDigits hbase hle n c hc

theorem AllDigits.notMem (h : AllDigits base text) (hc : digitValue c = none) : c ∉ text := by
  intro hmem
  obtain ⟨d, -, hvalue⟩ := h c hmem
  rw [hc] at hvalue
  cases hvalue

theorem readDigits_append (h : AllDigits base text) (n : ℕ) (rest : List Char) :
    readDigits base n (text ++ rest) = readDigits base (readDigits base n text) rest := by
  induction text generalizing n with
  | nil => rfl
  | cons c text ih =>
    obtain ⟨d, hd, hvalue⟩ := h c List.mem_cons_self
    rw [List.cons_append, readDigits, readDigits, hvalue]
    dsimp only
    rw [if_pos hd, if_pos hd]
    exact ih (fun c hc => h c (List.mem_cons_of_mem _ hc)) _

theorem readDigits_of_none (hc : digitValue c = none) (n : ℕ) (rest : List Char) :
    readDigits base n (c :: rest) = n := by
  rw [readDigits, hc]

theorem readDigits_digitChar (hm : m < base) (hle : base ≤ 16) (n : ℕ) :
    readDigits base n [m.digitChar] = n * base + m := by
  rw [readDigits, digitValue_digitChar (by omega)]
  dsimp only
  rw [if_pos hm, readDigits]

theorem readDigits_toDigits (hbase : 1 < base) (hle : base ≤ 16) (n : ℕ) :
    readDigits base 0 (Nat.toDigits base n) = n := by
  induction n using Nat.strongRecOn with
  | _ n ih =>
    rw [Nat.toDigits_eq_if hbase]
    split_ifs with hlt
    · rw [readDigits_digitChar hlt hle, Nat.zero_mul, Nat.zero_add]
    · rw [readDigits_append (allDigits_toDigits hbase hle _),
        ih (n / base) (Nat.div_lt_self (by omega) hbase),
        readDigits_digitChar (Nat.mod_lt n (by omega)) hle, Nat.mul_comm]
      exact Nat.div_add_mod n base

theorem readDigits_replicate_zero (hbase : 0 < base) (k : ℕ) :
    readDigits base 0 (List.replicate k '0') = 0 := by
  induction k with
  | zero => rfl
  | succ k ih =>
    rw [List.replicate_succ, readDigits]
    show (if 0 < base then readDigits base (0 * base + 0) _ else 0) = 0
    rw [if_pos hbase, Nat.zero_mul]
    exact ih

theorem readDigits_padDigits (hbase : 1 < base) (hle : base ≤ 16) (width n : ℕ) :
    readDigits base 0 (padDigits base width n) = n := by
  have hzeros : AllDigits base (List.replicate (width - (Nat.toDigits base n).length) '0') := by
    intro c hc
    obtain rfl := List.eq_of_mem_replicate hc
    exact ⟨0, by omega, rfl⟩
  rw [padDigits, List.leftpad, readDigits_append hzeros, readDigits_replicate_zero (by omega),
    readDigits_toDigits hbase hle]

theorem length_padDigits (hbase : 1 < base) (hwidth : 0 < width) (hn : n < base ^ width) :
    (padDigits base width n).length = width := by
  rw [padDigits, List.length_leftpad]
  exact Nat.max_eq_left ((Nat.length_toDigits_le_iff hbase hwidth).2 hn)

/-! ### Numbers with a sign -/

/-- An integer in decimal. -/
def printInt (n : ℤ) : List Char :=
  if n < 0 then '-' :: Nat.toDigits 10 n.natAbs else Nat.toDigits 10 n.natAbs

/-- The integer at the start of a text, behind white space. -/
def readInt (text : List Char) : ℤ :=
  match text.dropWhile Char.isWhitespace with
  | '-' :: digits => -readDigits 10 0 digits
  | '+' :: digits => readDigits 10 0 digits
  | digits => readDigits 10 0 digits

theorem toDigits_eq_cons (n : ℕ) : ∃ c digits, Nat.toDigits 10 n = c :: digits := by
  cases h : Nat.toDigits 10 n with
  | nil => exact absurd h Nat.toDigits_ne_nil
  | cons c digits => exact ⟨c, digits, rfl⟩

theorem not_isWhitespace_of_digit {d : ℕ} (h : digitValue c = some d) : c.isWhitespace = false := by
  have hspace : ∀ s ∈ [' ', '\t', '\r', '\n'], digitValue s = none := by
    intro s hs
    simp only [List.mem_cons, List.not_mem_nil, or_false] at hs
    obtain rfl | rfl | rfl | rfl := hs <;> rfl
  by_contra hnot
  have hmem : c ∈ [' ', '\t', '\r', '\n'] := by
    simp only [Char.isWhitespace, Bool.not_eq_false, Bool.or_eq_true, decide_eq_true_eq] at hnot
    simpa [or_assoc] using hnot
  rw [hspace c hmem] at h
  cases h

theorem readInt_printInt (n : ℤ) : readInt (printInt n) = n := by
  have hread := readDigits_toDigits (by decide : 1 < 10) (by decide) n.natAbs
  obtain ⟨c, digits, hdigits⟩ := toDigits_eq_cons n.natAbs
  rw [printInt]
  split_ifs with hneg
  · rw [readInt, List.dropWhile_cons_of_neg (by decide)]
    change -((readDigits 10 0 (Nat.toDigits 10 n.natAbs) : ℕ) : ℤ) = n
    rw [hread]
    omega
  · obtain ⟨d, -, hvalue⟩ := allDigits_toDigits (by decide : 1 < 10) (by decide) n.natAbs c (by
      rw [hdigits]
      exact List.mem_cons_self)
    rw [hdigits] at hread ⊢
    rw [readInt, List.dropWhile_cons_of_neg (by rw [not_isWhitespace_of_digit hvalue]; decide)]
    split
    · rename_i heq
      obtain ⟨rfl, -⟩ := List.cons.inj heq
      cases hvalue
    · rename_i heq
      obtain ⟨rfl, -⟩ := List.cons.inj heq
      cases hvalue
    · rw [hread]
      omega

theorem length_printInt {n : ℤ} (hwidth : 0 < width) (hn : n.natAbs < 10 ^ width) :
    (printInt n).length ≤ width + 1 := by
  have hdigits := (Nat.length_toDigits_le_iff (by decide) hwidth).2 hn
  rw [printInt]
  split_ifs
  · rw [List.length_cons]
    omega
  · omega

theorem notMem_printInt (hc : digitValue c = none) (hne : c ≠ '-') (n : ℤ) : c ∉ printInt n := by
  have hdigits := (allDigits_toDigits (by decide : 1 < 10) (by decide) n.natAbs).notMem hc
  rw [printInt]
  split_ifs
  · rw [List.mem_cons]
    exact not_or.2 ⟨hne, hdigits⟩
  · exact hdigits

/-! ## Words -/

/-- The next word of a text, as `strtok` with a blank as delimiter finds it, and what comes behind
the blank after it. -/
def strtok (text : List Char) : Option (List Char × List Char) :=
  match text.dropWhile (· = ' ') with
  | [] => none
  | c :: text => some (c :: text.takeWhile (· ≠ ' '), (text.dropWhile (· ≠ ' ')).tail)

/-- Texts without blanks. -/
def NoBlank (text : List Char) : Prop := ' ' ∉ text

theorem takeWhile_append_blank (h : NoBlank text) :
    (text ++ ' ' :: rest).takeWhile (· ≠ ' ') = text ∧
      (text ++ ' ' :: rest).dropWhile (· ≠ ' ') = ' ' :: rest := by
  have hall : ∀ c ∈ text, decide (c ≠ ' ') = true := fun c hc => by
    rw [decide_eq_true_iff]
    rintro rfl
    exact h hc
  rw [List.takeWhile_append_of_pos hall, List.dropWhile_append_of_pos hall]
  constructor <;> simp

theorem strtok_word (h : NoBlank (c :: text)) (rest : List Char) :
    strtok (c :: text ++ ' ' :: rest) = some (c :: text, rest) := by
  have hc : c ≠ ' ' := by
    rintro rfl
    exact h List.mem_cons_self
  have htext : NoBlank text := fun hmem => h (List.mem_cons_of_mem c hmem)
  obtain ⟨htake, hdrop⟩ := @takeWhile_append_blank text rest htext
  rw [strtok, List.cons_append, List.dropWhile_cons_of_neg (by simpa using hc)]
  dsimp only
  rw [htake, hdrop, List.tail_cons]

theorem strtok_last (h : NoBlank (c :: text)) : strtok (c :: text) = some (c :: text, []) := by
  have hc : c ≠ ' ' := by
    rintro rfl
    exact h List.mem_cons_self
  have hall : ∀ c ∈ text, decide (c ≠ ' ') = true := fun c' hc' => by
    rw [decide_eq_true_iff]
    rintro rfl
    exact h (List.mem_cons_of_mem c hc')
  rw [strtok, List.dropWhile_cons_of_neg (by simpa using hc)]
  dsimp only
  rw [List.takeWhile_eq_self_iff.2 hall, List.dropWhile_eq_nil_iff.2 hall, List.tail_nil]

theorem strtok_blank (text : List Char) : strtok (' ' :: text) = strtok text := rfl

theorem eq_nil_of_strtok {word : List Char} (h : NoBlank text)
    (hword : strtok text = some (word, rest)) : rest = [] := by
  cases text with
  | nil => cases hword
  | cons c text =>
    rw [strtok_last h] at hword
    exact (Prod.mk.inj (Option.some.inj hword)).2.symm

theorem eq_of_strtok_take {word word' text' rest' : List Char} (h : NoBlank text) (hne : text ≠ [])
    (hword : strtok ((text ++ ' ' :: text').take n) = some (word, rest))
    (hnext : strtok rest = some (word', rest')) : word = text ∧ text.length < n := by
  by_cases hlt : text.length < n
  · refine ⟨?_, hlt⟩
    obtain ⟨k, rfl⟩ : ∃ k, n = text.length + (k + 1) := ⟨n - text.length - 1, by omega⟩
    obtain ⟨c, text, rfl⟩ := List.exists_cons_of_ne_nil hne
    rw [List.take_length_add_append, List.take_succ_cons, strtok_word h] at hword
    exact (Prod.mk.inj (Option.some.inj hword)).1.symm
  · rw [List.take_append_of_le_length (not_lt.1 hlt)] at hword
    obtain rfl := eq_nil_of_strtok (fun hmem => h (List.mem_of_mem_take hmem)) hword
    cases hnext

theorem strtok_printInt (n : ℤ) (rest : List Char) :
    strtok (printInt n ++ ' ' :: rest) = some (printInt n, rest) := by
  have hblank : NoBlank (printInt n) := notMem_printInt (by decide) (by decide) n
  obtain ⟨c, text, htext⟩ : ∃ c text, printInt n = c :: text := by
    obtain ⟨c, digits, hdigits⟩ := toDigits_eq_cons n.natAbs
    rw [printInt]
    split_ifs
    · exact ⟨_, _, rfl⟩
    · exact ⟨c, digits, hdigits⟩
  rw [htext] at hblank ⊢
  exact strtok_word hblank rest

/-! ## Lines -/

/-- The lines that `fgets` reads with a buffer of some size, behind the start of one: a line ends
behind a newline, or when the buffer is full. -/
def linesFrom (size : ℕ) : List Char → List Char → List (List Char)
  | line, [] => if line = [] then [] else [line]
  | line, c :: text =>
    if c = '\n' ∨ line.length + 2 = size then (line ++ [c]) :: linesFrom size [] text
    else linesFrom size (line ++ [c]) text

/-- The lines that `fgets` reads. -/
def lines (size : ℕ) (text : List Char) : List (List Char) := linesFrom size [] text

theorem linesFrom_append {line : List Char} (h : '\n' ∉ text)
    (hlength : line.length + text.length + 1 < size) (rest : List Char) :
    linesFrom size line (text ++ '\n' :: rest) =
      (line ++ text ++ ['\n']) :: linesFrom size [] rest := by
  induction text generalizing line with
  | nil => rw [List.nil_append, linesFrom, if_pos (.inl rfl), List.append_nil]
  | cons c text ih =>
    have hc : c ≠ '\n' := by
      rintro rfl
      exact h List.mem_cons_self
    rw [List.length_cons] at hlength
    rw [List.cons_append, linesFrom, if_neg (not_or.2 ⟨hc, by omega⟩),
      ih (fun hmem => h (List.mem_cons_of_mem c hmem)) ?_]
    · simp
    · rw [List.length_append, List.length_singleton]
      omega

theorem lines_line (h : '\n' ∉ text) (hlength : text.length + 1 < size)
    (rest : List Char) : lines size (text ++ '\n' :: rest) = (text ++ ['\n']) :: lines size rest :=
  linesFrom_append h (by simpa using hlength) rest

theorem lines_flatMap {α : Type*} (line : α → List Char) (items : List α)
    (h : ∀ a ∈ items, '\n' ∉ line a ∧ (line a).length + 1 < size) :
    lines size (items.flatMap fun a => line a ++ ['\n']) = items.map fun a => line a ++ ['\n'] := by
  induction items with
  | nil => rfl
  | cons a items ih =>
    obtain ⟨hnewline, hlength⟩ := h a List.mem_cons_self
    rw [List.flatMap_cons, List.map_cons, List.append_assoc, List.singleton_append,
      lines_line hnewline hlength, ih fun b hb => h b (List.mem_cons_of_mem a hb)]

theorem linesFrom_newline (line text rest : List Char) :
    linesFrom size line (text ++ '\n' :: rest) =
      linesFrom size line (text ++ ['\n']) ++ lines size rest := by
  induction text generalizing line with
  | nil => simp [linesFrom, lines]
  | cons c text ih =>
    rw [List.cons_append, List.cons_append, linesFrom, linesFrom]
    split_ifs
    · rw [ih, List.cons_append]
    · exact ih _

theorem lines_newline (text rest : List Char) :
    lines size (text ++ '\n' :: rest) = lines size (text ++ ['\n']) ++ lines size rest :=
  linesFrom_newline [] text rest

theorem linesFrom_eq_cons {line : List Char} (hsize : line.length + 1 < size)
    (h : '\n' ∉ text) (rest : List Char) :
    linesFrom size line (text ++ '\n' :: rest) =
      (line ++ (text ++ ['\n']).take (size - 1 - line.length)) ::
        lines size ((text ++ '\n' :: rest).drop
          (min (size - 1 - line.length) (text.length + 1))) := by
  induction text generalizing line with
  | nil =>
    obtain ⟨k, hk⟩ : ∃ k, size - 1 - line.length = k + 1 := ⟨size - 2 - line.length, by omega⟩
    simp [linesFrom, lines, hk]
  | cons c text ih =>
    have hc : c ≠ '\n' := by
      rintro rfl
      exact h List.mem_cons_self
    obtain ⟨k, hk⟩ : ∃ k, size - 1 - line.length = k + 1 := ⟨size - 2 - line.length, by omega⟩
    rw [List.cons_append, linesFrom]
    split_ifs with hfull
    · obtain rfl : k = 0 := by
        have := hfull.resolve_left hc
        omega
      simp [hk, lines]
    · have hlen := (not_or.1 hfull).2
      rw [ih (by rw [List.length_append, List.length_singleton]; omega)
        fun hmem => h (List.mem_cons_of_mem c hmem)]
      have hk' : size - 1 - (line ++ [c]).length = k := by
        rw [List.length_append, List.length_singleton]
        omega
      rw [hk', hk, List.cons_append, List.take_succ_cons, List.length_cons,
        Nat.succ_min_succ, List.drop_succ_cons, List.append_assoc, List.singleton_append]

theorem lines_eq_cons (hsize : 1 < size) (h : '\n' ∉ text) (rest : List Char) :
    lines size (text ++ '\n' :: rest) =
      (text ++ ['\n']).take (size - 1) ::
        lines size ((text ++ '\n' :: rest).drop (min (size - 1) (text.length + 1))) :=
  @linesFrom_eq_cons _ _ [] hsize h rest

end GpuCalorie.Math
