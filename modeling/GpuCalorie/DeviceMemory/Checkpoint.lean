/-
# Files of memory

A checkpoint writes the blocks of a memory to a file: a line with the name of the memory and the
number of the block, and a line for each of its words. The file is read line by line. The variable
of the number of the block is declared within the loop and is not given a value there, so that at
a line with a word it holds what its storage happens to hold, a parameter of the loop here. That
the number of the line before is still there is one case of it.
-/

import GpuCalorie.DeviceMemory.Flat
import GpuCalorie.Math.Bytes
import GpuCalorie.Math.Text

namespace GpuCalorie.DeviceMemory

open GpuCalorie.Math

/-! ## What is written -/

/-- The memories that checkpoints are made of, with the numbers in their names. -/
inductive SavedMemory
  /-- `m_global_mem`. -/
  | globalMem
  /-- `m_shared_mem`. -/
  | sharedMem (sid : UInt32)
  /-- `m_local_mem`. -/
  | localMem (sid hwTid : UInt32)

namespace SavedMemory

/-- `BSIZE`. -/
def block : SavedMemory → BlockSize
  | globalMem => globalBlock
  | sharedMem _ => sharedBlock
  | localMem _ _ => localBlock

/-- `m_name`: `global`, `shared_%u` or `local_%u_%u`. -/
def name : SavedMemory → List Char
  | globalMem => "global".toList
  | sharedMem sid => "shared_".toList ++ Nat.toDigits 10 sid.toNat
  | localMem sid hwTid =>
    "local_".toList ++ (Nat.toDigits 10 sid.toNat ++ '_' :: Nat.toDigits 10 hwTid.toNat)

end SavedMemory

/-- A block of a memory, with its number. -/
abbrev Page := Sigma fun _ : ℕ => MemStorage

namespace MemStorage

variable (b : BlockSize) (storage : MemStorage)

/-- `i_data[d]`. -/
def word (d : ℕ) : ℕ := ofBytes (cells storage (4 * d) 4)

/-- `print` with the format `%08x`. -/
def print : List Char :=
  ((List.range (b.size / 4)).flatMap fun d => '\n' :: (padDigits 16 8 (storage.word d) ++ [' '])) ++
    ['\n']

end MemStorage

namespace MemorySpaceImpl

variable {b : BlockSize}

/-- `print`, with the blocks in the order of the map. -/
def print (b : BlockSize) (name : List Char) (pages : List Page) : List Char :=
  pages.flatMap fun page => name ++ ' ' :: (padDigits 16 8 page.1 ++ ':' :: page.2.print b)

/-- The blocks of a memory in the order of its map, which may be any order. -/
structure PageOrder (m : MemorySpaceImpl b) where
  pages : List Page
  perm : pages.Perm m.data.entries
  /-- The blocks are those of addresses. -/
  inRange : ∀ page ∈ pages, page.1 * b.size < 2 ^ 32

end MemorySpaceImpl

/-! ## What is read -/

/-- The ways to fail of `load_global_mem`. -/
inductive LoadFailure
  | memory (e : MemoryFailure)
  /-- `strtok` has returned `NULL`. -/
  | word
  deriving DecidableEq, Repr

/-- The variables of `load_global_mem`, with the memory. -/
structure LoadState (b : BlockSize) where
  mem : MemorySpaceImpl b
  index : UInt32
  offset : UInt32

/-- A number to the base 16 as `>>` reads it, which is the greatest one if it is too large. -/
def readHex (text : List Char) : ℕ := min (readDigits 16 0 text) (2 ^ 32 - 1)

namespace LoadState

variable {b : BlockSize} (st : LoadState b)

/-- A line that begins with the name of the memory. -/
def readHeader (rest : List Char) : Except LoadFailure (LoadState b) :=
  match strtok rest with
  | none => .error .word
  | some (pch, _) => .ok { st with index := .ofNat (readHex pch), offset := 0 }

/-- `write_only` of a word. -/
def writeOnly (data : ℕ) : Except LoadFailure (LoadState b) :=
  match st.mem.writeBlock st.index.toNat st.offset.toNat 4 (toBytes 4 data) with
  | .error e => .error (.memory e)
  | .ok mem => .ok { st with mem, offset := st.offset + 4 }

/-- A line. -/
def readLine (line : List Char) : Except LoadFailure (LoadState b) :=
  match strtok line with
  | none => .error .word
  | some (pch, rest) =>
    if pch.head? = some 'g' ∨ pch.head? = some 's' ∨ pch.head? = some 'l' then st.readHeader rest
    else st.writeOnly (readHex pch)

end LoadState

variable {b : BlockSize}

/-- The lines of a file. In line `k` the storage of `index` holds what `stale` says, for the value
that the line before has left. -/
def loadLines (stale : ℕ → UInt32 → UInt32) :
    ℕ → LoadState b → List (List Char) → Except LoadFailure (LoadState b)
  | _, st, [] => .ok st
  | k, st, line :: rest => do
    let st ← { st with index := stale k st.index }.readLine line
    loadLines stale (k + 1) st rest

/-- `load_global_mem` to a memory that is new. -/
def loadGlobalMem (b : BlockSize) (stale : ℕ → UInt32 → UInt32) (offset : UInt32)
    (file : List Char) :
    Except LoadFailure (LoadState b) :=
  loadLines stale 0 { mem := {}, index := 0, offset } (lines 128 file)

/-- The storage of `index` is left alone from one line to the next. -/
def leftAlone : ℕ → UInt32 → UInt32 := fun _ index => index

/-- The file of a memory gives a memory that reads as it does. -/
def Restores (saved : SavedMemory) {m : MemorySpaceImpl saved.block} (order : m.PageOrder)
    (stale : ℕ → UInt32 → UInt32) (offset : UInt32) : Prop :=
  ∃ st, loadGlobalMem saved.block stale offset
    (MemorySpaceImpl.print saved.block saved.name order.pages) = .ok st ∧
    ∀ addr < 2 ^ 32, ∀ length, st.mem.read addr length = m.read addr length

/-! ## The lines of a file -/

/-- What a line of a file stands for. -/
inductive FileLine
  | header (index : ℕ)
  | word (data : ℕ)

namespace FileLine

/-- The line without its end. -/
def text (name : List Char) : FileLine → List Char
  | header index => name ++ ' ' :: (padDigits 16 8 index ++ [':'])
  | word data => padDigits 16 8 data ++ [' ']

/-- What the line is to do. -/
def apply (st : LoadState b) : FileLine → Except LoadFailure (LoadState b)
  | header index => .ok { st with index := .ofNat index, offset := 0 }
  | word data => st.writeOnly data

/-- The numbers are of 32 bits. -/
def Fits : FileLine → Prop
  | header index => index < 2 ^ 32
  | word data => data < 2 ^ 32

end FileLine

/-- The lines of a block. -/
def pageLines (b : BlockSize) (page : Page) : List FileLine :=
  .header page.1 :: (List.range (b.size / 4)).map fun d => .word (page.2.word d)

def fileLines (b : BlockSize) (pages : List Page) : List FileLine := pages.flatMap (pageLines b)

theorem flatMap_newline {α : Type*} (f : α → List Char) (items : List α) :
    (items.flatMap fun a => '\n' :: f a) ++ ['\n'] = '\n' :: items.flatMap fun a =>
    f a ++ ['\n'] := by
  induction items with
  | nil => rfl
  | cons a items ih =>
      rw [List.flatMap_cons, List.flatMap_cons, List.append_assoc, ih]
      simp

theorem print_eq (b : BlockSize) (name : List Char) (pages : List Page) :
    MemorySpaceImpl.print b name pages = (fileLines b pages).flatMap fun line =>
      line.text name ++ ['\n'] := by
  rw [MemorySpaceImpl.print, fileLines, List.flatMap_assoc]
  refine List.flatMap_congr fun page _ => ?_
  rw [pageLines, List.flatMap_cons, List.flatMap_map, MemStorage.print, flatMap_newline]
  simp [FileLine.text]

/-! ## The name of a memory -/

namespace SavedMemory

/-- What is known of a name. -/
structure IsName (text : List Char) : Prop where
  head : text.head? = some 'g' ∨ text.head? = some 's' ∨ text.head? = some 'l'
  noBlank : NoBlank text
  noNewline : '\n' ∉ text
  length : text.length ≤ 64

theorem length_toDigits_le (n : UInt32) : (Nat.toDigits 10 n.toNat).length ≤ 10 := by
  have hlt : n.toNat < 2 ^ 32 := n.toNat_lt
  exact (Nat.length_toDigits_le_iff (by decide) (by decide)).2 (by omega)

theorem notMem_toDigits {c : Char} (hc : digitValue c = none) (n : UInt32) :
    c ∉ Nat.toDigits 10 n.toNat :=
  (allDigits_toDigits (by decide) (by decide) n.toNat).notMem hc

theorem IsName.append {start rest : List Char} (h : IsName start) (hblank : ' ' ∉ rest)
    (hnewline : '\n' ∉ rest) (hlength : start.length + rest.length ≤ 64) :
    IsName (start ++ rest) where
  head := by
    have hhead := h.head
    cases start with
    | nil => simp at hhead
    | cons c start => exact hhead
  noBlank := fun hmem => (List.mem_append.1 hmem).elim h.noBlank hblank
  noNewline := fun hmem => (List.mem_append.1 hmem).elim h.noNewline hnewline
  length := by
    rw [List.length_append]
    exact hlength

theorem isName (saved : SavedMemory) : IsName saved.name := by
  cases saved with
  | globalMem =>
      exact ⟨.inl (by decide), show ' ' ∉ "global".toList by decide,
        show '\n' ∉ "global".toList by decide, show "global".toList.length ≤ 64 by decide⟩
  | sharedMem sid =>
      have hstart : IsName "shared_".toList :=
        ⟨.inr (.inl (by decide)), show ' ' ∉ "shared_".toList by decide, by decide, by decide⟩
      have hlength := length_toDigits_le sid
      have hfirst : "shared_".toList.length = 7 := by decide
      exact hstart.append (notMem_toDigits (by decide) sid) (notMem_toDigits (by decide) sid)
        (by omega)
  | localMem sid hwTid =>
      have hstart : IsName "local_".toList :=
        ⟨.inr (.inr (by decide)), show ' ' ∉ "local_".toList by decide, by decide, by decide⟩
      have hsid := length_toDigits_le sid
      have htid := length_toDigits_le hwTid
      have hfirst : "local_".toList.length = 6 := by decide
      have hrest {c : Char} (hc : digitValue c = none) (hne : c ≠ '_') :
          c ∉ Nat.toDigits 10 sid.toNat ++ '_' :: Nat.toDigits 10 hwTid.toNat := by
        rw [List.mem_append, List.mem_cons]
        exact not_or.2 ⟨notMem_toDigits hc sid, not_or.2 ⟨hne, notMem_toDigits hc hwTid⟩⟩
      refine hstart.append (hrest (by decide) (by decide)) (hrest (by decide) (by decide)) ?_
      rw [List.length_append, List.length_cons]
      omega

end SavedMemory

/-! ## Each line is read as it was written -/

section Lines

variable {name : List Char} (hname : SavedMemory.IsName name) {line : FileLine} {b : BlockSize}

theorem notMem_padDigits {c : Char} (hc : digitValue c = none) (n : ℕ) : c ∉ padDigits 16 8 n :=
  (allDigits_padDigits (by decide) (by decide) 8 n).notMem hc

theorem length_padHex {n : ℕ} (hn : n < 2 ^ 32) : (padDigits 16 8 n).length = 8 :=
  length_padDigits (by decide) (by decide) (by omega)

include hname

theorem notMem_text (line : FileLine) : '\n' ∉ line.text name := by
  cases line with
  | header index =>
      rw [FileLine.text, List.mem_append, List.mem_cons, List.mem_append]
      exact not_or.2 ⟨hname.noNewline, not_or.2 ⟨by decide,
        not_or.2 ⟨notMem_padDigits (by decide) index, by decide⟩⟩⟩
  | word data =>
      rw [FileLine.text, List.mem_append]
      exact not_or.2 ⟨notMem_padDigits (by decide) data, by decide⟩

theorem length_text (hline : line.Fits) : (line.text name).length + 1 < 128 := by
  cases line with
  | header index =>
      have hlength := hname.length
      rw [FileLine.text, List.length_append, List.length_cons, List.length_append,
        length_padHex hline,
        List.length_singleton]
      omega
  | word data =>
      rw [FileLine.text, List.length_append, length_padHex hline, List.length_singleton]
      decide

theorem readLine_header (st : LoadState b) {index : ℕ} (hindex : index < 2 ^ 32) :
    st.readLine ((FileLine.header index).text name ++ ['\n']) =
      (FileLine.header index).apply st := by
  obtain ⟨c, rest, rfl⟩ : ∃ c rest, name = c :: rest := by
    cases name with
    | nil => simpa using hname.head
    | cons c rest => exact ⟨c, rest, rfl⟩
  have hfile : (FileLine.header index).text (c :: rest) ++ ['\n']
      = c :: rest ++ ' ' :: (padDigits 16 8 index ++ [':', '\n']) := by
    simp [FileLine.text]
  have hblank : NoBlank (padDigits 16 8 index ++ [':', '\n']) := by
    rw [NoBlank, List.mem_append]
    exact not_or.2 ⟨notMem_padDigits (by decide) index, by decide⟩
  obtain ⟨d, text, htext⟩ : ∃ d text, padDigits 16 8 index ++ [':', '\n'] = d :: text := by
    cases hpad : padDigits 16 8 index with
    | nil => exact ⟨':', ['\n'], rfl⟩
    | cons d text => exact ⟨d, text ++ [':', '\n'], rfl⟩
  have hread : readHex (padDigits 16 8 index ++ [':', '\n']) = index := by
    rw [readHex, readDigits_append (allDigits_padDigits (by decide) (by decide) 8 index),
      readDigits_padDigits (by decide) (by decide), readDigits_of_none (by decide)]
    omega
  rw [hfile, LoadState.readLine, strtok_word hname.noBlank]
  dsimp only
  rw [if_pos hname.head, LoadState.readHeader]
  rw [htext] at hblank hread ⊢
  rw [strtok_last hblank]
  dsimp only
  rw [hread]
  rfl

omit hname in
theorem readLine_word (st : LoadState b) {data : ℕ} (hdata : data < 2 ^ 32) :
    st.readLine ((FileLine.word data).text name ++ ['\n']) = (FileLine.word data).apply st := by
  have hall : AllDigits 16 (padDigits 16 8 data) :=
    allDigits_padDigits (by decide) (by decide) 8 data
  obtain ⟨c, rest, hpad⟩ : ∃ c rest, padDigits 16 8 data = c :: rest := by
    cases hpad : padDigits 16 8 data with
    | nil =>
        have hlength := length_padHex hdata
        rw [hpad] at hlength
        cases hlength
    | cons c rest => exact ⟨c, rest, rfl⟩
  have hread : readHex (padDigits 16 8 data) = data := by
    rw [readHex, readDigits_padDigits (by decide) (by decide)]
    omega
  have hblank : NoBlank (padDigits 16 8 data) := notMem_padDigits (by decide) data
  have hfile : (FileLine.word data).text name ++ ['\n'] = padDigits 16 8 data ++ ' ' :: ['\n'] := by
    simp [FileLine.text]
  have hletter {g : Char} (hg : digitValue g = none) : (c :: rest).head? ≠ some g := by
    intro hhead
    obtain rfl := Option.some.inj hhead
    rw [hpad] at hall
    exact hall.notMem hg List.mem_cons_self
  rw [hfile]
  rw [hpad] at hblank hread ⊢
  rw [LoadState.readLine, strtok_word hblank]
  dsimp only
  rw [if_neg (not_or.2 ⟨hletter (by decide), not_or.2 ⟨hletter (by decide), hletter (by decide)⟩⟩),
    hread]
  rfl

theorem readLine_text (st : LoadState b) (hline : line.Fits) :
    st.readLine (line.text name ++ ['\n']) = line.apply st := by
  cases line with
  | header index => exact readLine_header hname st hline
  | word data => exact readLine_word st hline

theorem lines_print (b : BlockSize) {pages : List Page}
    (hlines : ∀ line ∈ fileLines b pages, line.Fits) :
    lines 128 (MemorySpaceImpl.print b name pages)
      = (fileLines b pages).map fun line => line.text name ++ ['\n'] := by
  rw [print_eq]
  exact lines_flatMap _ _ fun line hline =>
    ⟨notMem_text hname line, length_text hname (hlines line hline)⟩

end Lines

end GpuCalorie.DeviceMemory
