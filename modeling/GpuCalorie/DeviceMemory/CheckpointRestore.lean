/-
# What a file of memory restores

If the number of a block stays where it is from one line to the next, every memory is restored from
its file. The language does not say that it does: other values put the words elsewhere, and only a
memory without a byte that is not zero is restored whatever they are.
-/

import GpuCalorie.DeviceMemory.Checkpoint
import GpuCalorie.Math.Outcome

namespace GpuCalorie.DeviceMemory

open GpuCalorie.Math

variable {b : BlockSize} {stale : ℕ → UInt32 → UInt32} {k n : ℕ} {st st' : LoadState b}

/-! ## Lines one after the other -/

/-- What the lines of a file do. -/
def runLines (stale : ℕ → UInt32 → UInt32) :
    ℕ → LoadState b → List FileLine → Except LoadFailure (LoadState b)
  | _, st, [] => .ok st
  | k, st, line :: rest => do
    let st ← line.apply { st with index := stale k st.index }
    runLines stale (k + 1) st rest

theorem loadLines_text {name : List Char} (hname : SavedMemory.IsName name) {items : List FileLine}
    (hitems : ∀ line ∈ items, line.Fits) (k : ℕ) (st : LoadState b) :
    loadLines stale k st (items.map fun line => line.text name ++ ['\n']) =
      runLines stale k st items := by
  induction items generalizing k st with
  | nil => rfl
  | cons line items ih =>
      rw [List.map_cons, loadLines, runLines,
        readLine_text hname _ (hitems line List.mem_cons_self)]
      refine congrArg _ (funext fun st => ?_)
      exact ih (fun line hline => hitems line (List.mem_cons_of_mem _ hline)) (k + 1) st

theorem runLines_append (first rest : List FileLine) (k : ℕ) (st : LoadState b) :
    runLines stale k st (first ++ rest)
      = runLines stale k st first >>= fun st => runLines stale (k + first.length) st rest := by
  induction first generalizing k st with
  | nil => rfl
  | cons line first ih =>
      rw [List.cons_append, runLines, runLines, bind_assoc]
      refine congrArg _ (funext fun st => ?_)
      rw [ih, List.length_cons, Nat.add_assoc, Nat.add_comm 1]

theorem runLines_range (I : ℕ → LoadState b → Prop) (line : ℕ → FileLine)
    (hstep : ∀ d < n, ∀ st, I d st →
      ∃ st', (line d).apply { st with index := stale (k + d) st.index } = .ok st' ∧ I (d + 1) st')
    (hst : I 0 st) : ∃ st', runLines stale k st ((List.range n).map line) = .ok st' ∧ I n st' := by
  induction n with
  | zero => exact ⟨st, rfl, hst⟩
  | succ n ih =>
      obtain ⟨st₁, hrun, hI⟩ := ih fun d hd => hstep d (Nat.lt_succ_of_lt hd)
      obtain ⟨st₂, happly, hI'⟩ := hstep n (Nat.lt_succ_self n) st₁ hI
      refine ⟨st₂, ?_, hI'⟩
      rw [List.range_succ, List.map_append, runLines_append, hrun, List.length_map,
        List.length_range]
      show runLines stale (k + n) st₁ [line n] = _
      rw [runLines, happly]
      rfl

/-! ## One word -/

theorem block_insert (m : MemorySpaceImpl b) (index : ℕ) (storage : MemStorage) :
    ({ data := m.data.insert index storage } : MemorySpaceImpl b).block =
    Function.update m.block index storage := by
  funext i
  rw [MemorySpaceImpl.block, Function.update_apply]
  split_ifs with heq
  · rw [heq, AList.lookup_insert, Option.getD_some]
  · rw [AList.lookup_insert_ne heq]
    rfl

namespace LoadState

theorem writeOnly_ok {data : ℕ} (hoffset : st.offset.toNat + 4 ≤ b.size) :
    ∃ st', st.writeOnly data = .ok st' ∧ st'.index = st.index ∧
      st'.offset.toNat = st.offset.toNat + 4 ∧
      st'.mem.block = Function.update st.mem.block st.index.toNat
        (overwrite (st.mem.block st.index.toNat) st.offset.toNat (toBytes 4 data)) := by
  have hsize := b.size_lt
  rw [writeOnly, MemorySpaceImpl.writeBlock, MemStorage.write, if_pos hoffset,
    List.take_of_length_le (by rw [length_toBytes])]
  refine ⟨_, rfl, rfl, ?_, block_insert _ _ _⟩
  show (st.offset + 4).toNat = _
  rw [UInt32.toNat_add]
  exact Nat.mod_eq_of_lt (by show st.offset.toNat + 4 < _; omega)

end LoadState

theorem FileLine.block_eq {line : FileLine} (h : line.apply st = .ok st') {i : ℕ}
    (hi : i ≠ st.index.toNat) :
    st'.mem.block i = st.mem.block i := by
  cases line with
  | header index =>
      obtain rfl := Except.ok.inj h
      rfl
  | word data =>
      rw [FileLine.apply, LoadState.writeOnly, MemorySpaceImpl.writeBlock, MemStorage.write] at h
      split_ifs at h with hoffset
      · obtain rfl := Except.ok.inj h
        show ({ data := _ } : MemorySpaceImpl b).block i = _
        rw [block_insert, Function.update_of_ne hi]
      · cases h

/-! ## One block -/

theorem BlockSize.words_eq (hlog : 2 ≤ b.log2) : 4 * (b.size / 4) = b.size :=
  Nat.mul_div_cancel' (Nat.pow_dvd_pow 2 hlog)

theorem toBytes_word (storage : MemStorage) (d : ℕ) :
    toBytes 4 (storage.word d) = cells storage (4 * d) 4 := by
  have h := toBytes_ofBytes (cells storage (4 * d) 4)
  rw [length_cells] at h
  exact h

theorem runLines_page (hlog : 2 ≤ b.log2) {page : Page} (hindex : page.1 < 2 ^ 32) (k : ℕ)
    (st : LoadState b) :
    ∃ st', runLines leftAlone k st (pageLines b page) = .ok st' ∧
      st'.mem.block = Function.update st.mem.block page.1
        (overwrite (st.mem.block page.1) 0 (cells page.2 0 b.size)) := by
  have hwords := b.words_eq hlog
  have hnat : (UInt32.ofNat page.1).toNat = page.1 := UInt32.toNat_ofNat_of_lt hindex
  obtain ⟨st', hrun, -, -, hblock⟩ := @runLines_range b leftAlone (k + 1) (b.size / 4)
    { st with index := .ofNat page.1, offset := 0 }
    (fun d st₁ => st₁.index = .ofNat page.1 ∧ st₁.offset.toNat = 4 * d ∧
      st₁.mem.block = Function.update st.mem.block page.1
        (overwrite (st.mem.block page.1) 0 (cells page.2 0 (4 * d))))
    (fun d => .word (page.2.word d))
    (by
      rintro d hd st₁ ⟨hpage, hoffset, hblock⟩
      obtain ⟨st₂, hwrite, hpage', hoffset', hblock'⟩ :=
        @LoadState.writeOnly_ok b st₁ (page.2.word d) (by omega)
      refine ⟨st₂, hwrite, hpage'.trans hpage, by omega, ?_⟩
      rw [hblock', hpage, hnat, hblock, Function.update_self, Function.update_idem, hoffset,
        toBytes_word,
        Nat.mul_succ, cells_add, overwrite_append, length_cells, Nat.zero_add])
    ⟨rfl, rfl, by
      rw [Nat.mul_zero, cells_zero, overwrite_nil]
      exact (Function.update_eq_self _ _).symm⟩
  rw [hwords] at hblock
  exact ⟨st', hrun, hblock⟩

/-! ## All blocks -/

theorem runLines_pages (hlog : 2 ≤ b.log2) {pages : List Page}
    (hindex : ∀ page ∈ pages, page.1 < 2 ^ 32)
    (hnodup : pages.NodupKeys) (k : ℕ) (st : LoadState b) :
    ∃ st', runLines leftAlone k st (fileLines b pages) = .ok st' ∧
      (∀ i, i ∉ pages.keys → st'.mem.block i = st.mem.block i) ∧
        ∀ page ∈ pages, ∀ o < b.size, st'.mem.block page.1 o = page.2 o := by
  induction pages generalizing k st with
  | nil => exact ⟨st, rfl, fun _ _ => rfl, nofun⟩
  | cons page pages ih =>
      obtain ⟨hnew, hnodup'⟩ := List.nodupKeys_cons.1 hnodup
      obtain ⟨st₁, hpage, hblock⟩ := runLines_page hlog (hindex page List.mem_cons_self) k st
      obtain ⟨st₂, hrest, hother, hpages⟩ :=
        ih (fun p hp => hindex p (List.mem_cons_of_mem _ hp)) hnodup'
        (k + (pageLines b page).length) st₁
      refine ⟨st₂, ?_, ?_, ?_⟩
      · rw [fileLines, List.flatMap_cons, runLines_append, hpage]
        exact hrest
      · intro i hi
        rw [List.keys_cons, List.mem_cons, not_or] at hi
        rw [hother i hi.2, hblock, Function.update_of_ne hi.1]
      · intro p hp o ho
        obtain rfl | hp := List.mem_cons.1 hp
        · rw [hother _ hnew, hblock, Function.update_self]
          have hbyte :=
            @overwrite_add _ (st.mem.block p.1) 0 (cells p.2 0 b.size) o
            (by rw [length_cells]; exact ho)
          rw [Nat.zero_add] at hbyte
          rw [hbyte]
          simp [cells]
        · exact hpages p hp o ho

namespace MemorySpaceImpl.PageOrder

variable {m : MemorySpaceImpl b} (order : m.PageOrder)

theorem index_lt {page : Page} (h : page ∈ order.pages) : page.1 < 2 ^ 32 := by
  have hrange := order.inRange page h
  have hpos := b.size_pos
  exact lt_of_le_of_lt (Nat.le_mul_of_pos_right _ hpos) hrange

theorem nodupKeys : order.pages.NodupKeys := (List.perm_nodupKeys order.perm).2 m.data.nodupKeys

theorem mem_pages {page : Page} : page ∈ order.pages ↔ m.data.lookup page.1 = some page.2 := by
  rw [order.perm.mem_iff]
  exact AList.mem_lookup_iff.symm

theorem block_eq {page : Page} (h : page ∈ order.pages) : m.block page.1 = page.2 := by
  rw [block, order.mem_pages.1 h, Option.getD_some]

theorem block_of_notMem {i : ℕ} (h : i ∉ order.pages.keys) : m.block i = fun _ => 0 := by
  rw [block]
  cases hlookup : m.data.lookup i with
  | none => rfl
  | some storage =>
      have hmem : (⟨i, storage⟩ : Page) ∈ order.pages := order.mem_pages.2 hlookup
      exact absurd (List.mem_keys_of_mem hmem) h

theorem fits : ∀ line ∈ fileLines b order.pages, line.Fits := by
  intro line hline
  obtain ⟨page, hpage, hline⟩ := List.mem_flatMap.1 hline
  obtain rfl | hline := List.mem_cons.1 hline
  · exact order.index_lt hpage
  · obtain ⟨d, -, rfl⟩ := List.mem_map.1 hline
    have hlt := ofBytes_lt (cells page.2 (4 * d) 4)
    rw [length_cells] at hlt
    exact hlt

theorem loadGlobalMem_eq {name : List Char} (hname : SavedMemory.IsName name) (offset : UInt32) :
    loadGlobalMem b stale offset (print b name order.pages)
      = runLines stale 0 { mem := {}, index := 0, offset } (fileLines b order.pages) := by
  rw [loadGlobalMem, lines_print hname b order.fits]
  exact loadLines_text hname order.fits 0 _

end MemorySpaceImpl.PageOrder

/-! ## Any memory, if the index stays where it is -/

namespace SavedMemory

theorem log2_mem (saved : SavedMemory) : saved.block.log2 ∈ [13, 14, 5] := by
  cases saved with
  | globalMem => exact List.mem_cons_self
  | sharedMem sid => exact List.mem_cons_of_mem _ List.mem_cons_self
  | localMem sid hwTid => exact List.mem_cons_of_mem _ (List.mem_cons_of_mem _ List.mem_cons_self)

theorem two_le_log2 (saved : SavedMemory) : 2 ≤ saved.block.log2 := by
  have h : ∀ n ∈ [13, 14, 5], 2 ≤ n := by decide
  exact h _ saved.log2_mem

theorem two_mul_size_le (saved : SavedMemory) : 2 * saved.block.size ≤ 2 ^ 32 := by
  have h : ∀ n ∈ [13, 14, 5], 2 * 2 ^ n ≤ 2 ^ 32 := by decide
  exact h _ saved.log2_mem

end SavedMemory

theorem restores_leftAlone (saved : SavedMemory) {m : MemorySpaceImpl saved.block}
    (order : m.PageOrder)
    (offset : UInt32) : Restores saved order leftAlone offset := by
  obtain ⟨st, hrun, hother, hpages⟩ := runLines_pages saved.two_le_log2 (fun page => order.index_lt)
    order.nodupKeys 0 { mem := {}, index := 0, offset }
  refine ⟨st, (order.loadGlobalMem_eq saved.isName offset).trans hrun, fun addr haddr length => ?_⟩
  refine MemorySpaceImpl.read_congr (fun a _ => ?_) haddr length
  rw [MemorySpaceImpl.content, MemorySpaceImpl.content]
  by_cases hmem : saved.block.page a ∈ order.pages.keys
  · obtain ⟨page, hpage, hindex⟩ := List.mem_map.1 hmem
    rw [← hindex, hpages page hpage _ (saved.block.offset_lt a), order.block_eq hpage]
  · rw [hother _ hmem, order.block_of_notMem hmem]
    rfl

/-! ## A memory of zeros, whatever the index is -/

theorem overwrite_zero {a : ℕ} {data : List UInt8} (h : ∀ byte ∈ data, byte = 0) :
    overwrite (fun _ : ℕ => (0 : UInt8)) a data = fun _ => 0 := by
  funext i
  rw [overwrite]
  split_ifs
  · cases hget : data[i - a]? with
    | none => rfl
    | some byte => exact h byte (List.mem_of_getElem? hget)
  · rfl

theorem runLines_zeros (hlog : 2 ≤ b.log2) {page : Page} (hzero : ∀ o < b.size, page.2 o = 0)
    (k : ℕ)
    (hst : st.mem.block = fun _ _ => 0) :
    ∃ st', runLines stale k st (pageLines b page) = .ok st' ∧ st'.mem.block = fun _ _ => 0 := by
  have hwords := b.words_eq hlog
  obtain ⟨st', hrun, -, hblock⟩ := @runLines_range b stale (k + 1) (b.size / 4)
    { st with index := .ofNat page.1, offset := 0 }
    (fun d st₁ => st₁.offset.toNat = 4 * d ∧ st₁.mem.block = fun _ _ => 0)
    (fun d => .word (page.2.word d))
    (by
      rintro d hd st₁ ⟨hoffset, hblock⟩
      obtain ⟨st₂, hwrite, -, hoffset', hblock'⟩ := @LoadState.writeOnly_ok b
        { st₁ with index := stale (k + 1 + d) st₁.index } (page.2.word d)
        (show st₁.offset.toNat + 4 ≤ b.size by omega)
      refine ⟨st₂, hwrite, hoffset'.trans (show st₁.offset.toNat + 4 = _ by omega), ?_⟩
      have hbytes : ∀ byte ∈ toBytes 4 (page.2.word d), byte = 0 := by
        rw [toBytes_word]
        intro byte hbyte
        obtain ⟨i, hi, rfl⟩ := List.mem_map.1 hbyte
        have hlt := List.mem_range.1 hi
        exact hzero _ (by omega)
      rw [hblock']
      dsimp only
      rw [hblock, overwrite_zero hbytes]
      exact Function.update_eq_self _ _)
    ⟨rfl, hst⟩
  exact ⟨st', hrun, hblock⟩

theorem runLines_allZeros (hlog : 2 ≤ b.log2) {pages : List Page}
    (hzero : ∀ page ∈ pages, ∀ o < b.size, page.2 o = 0) (k : ℕ)
    (hst : st.mem.block = fun _ _ => 0) :
    ∃ st', runLines stale k st (fileLines b pages) = .ok st' ∧ st'.mem.block = fun _ _ => 0 := by
  induction pages generalizing k st with
  | nil => exact ⟨st, rfl, hst⟩
  | cons page pages ih =>
      obtain ⟨st₁, hpage, hst₁⟩ :=
        @runLines_zeros b stale st hlog page (hzero page List.mem_cons_self) k hst
      obtain ⟨st₂, hrest, hst₂⟩ := ih (fun p hp => hzero p (List.mem_cons_of_mem _ hp))
        (k + (pageLines b page).length) hst₁
      refine ⟨st₂, ?_, hst₂⟩
      rw [fileLines, List.flatMap_cons, runLines_append, hpage]
      exact hrest

theorem content_page (m : MemorySpaceImpl b) (index : ℕ) {o : ℕ} (ho : o < b.size) :
    m.content (index * b.size + o) = m.block index o := by
  have hpage : b.page (index * b.size + o) = index := by
    rw [b.page_eq, Nat.mul_comm, Nat.mul_add_div b.size_pos, Nat.div_eq_of_lt ho, Nat.add_zero]
  have hoffset : b.offset (index * b.size + o) = o := by
    rw [b.offset_eq, Nat.mul_comm, Nat.mul_add_mod, Nat.mod_eq_of_lt ho]
  rw [MemorySpaceImpl.content, hpage, hoffset]

theorem restores_of_zero (saved : SavedMemory) {m : MemorySpaceImpl saved.block}
    (order : m.PageOrder)
    (hzero : ∀ addr < 2 ^ 32, m.content addr = 0) (stale : ℕ → UInt32 → UInt32) (offset : UInt32) :
    Restores saved order stale offset := by
  have hpages : ∀ page ∈ order.pages, ∀ o < saved.block.size, page.2 o = 0 := by
    intro page hpage o ho
    rw [← order.block_eq hpage, ← content_page m page.1 ho]
    -- blocks end before the addresses do
    obtain ⟨n, hn⟩ := saved.block.size_dvd
    have hlt : page.1 < n := by
      have hrange := order.inRange page hpage
      rw [hn, Nat.mul_comm] at hrange
      exact Nat.lt_of_mul_lt_mul_left hrange
    have hle : (page.1 + 1) * saved.block.size ≤ n * saved.block.size := Nat.mul_le_mul_right _ hlt
    rw [Nat.mul_comm n, ← hn, Nat.add_mul, Nat.one_mul] at hle
    exact hzero _ (by omega)
  obtain ⟨st, hrun, hst⟩ := @runLines_allZeros saved.block stale { mem := {}, index := 0, offset }
    saved.two_le_log2 order.pages hpages 0 rfl
  refine ⟨st, (order.loadGlobalMem_eq saved.isName offset).trans hrun, fun addr haddr length => ?_⟩
  refine MemorySpaceImpl.read_congr (fun a ha => ?_) haddr length
  rw [hzero a ha, MemorySpaceImpl.content, hst]

/-! ## Other values of the index -/

theorem runLines_block {c : UInt32} {items : List FileLine}
    (h : runLines stale k st items = .ok st')
    (hstale : ∀ j < items.length, ∀ i, stale (k + j) i = c) {i : ℕ} (hi : i ≠ c.toNat) :
    st'.mem.block i = st.mem.block i := by
  induction items generalizing k st with
  | nil =>
      obtain rfl := Except.ok.inj h
      rfl
  | cons line items ih =>
      obtain ⟨st₁, hline, hrest⟩ := bind_eq_ok.1 h
      have hindex := hstale 0 (Nat.zero_lt_succ _) st.index
      rw [Nat.add_zero] at hindex
      rw [hindex] at hline
      rw [ih hrest fun j hj i => by
        rw [Nat.add_assoc, Nat.add_comm 1]
        exact hstale (j + 1) (Nat.succ_lt_succ hj) i]
      exact FileLine.block_eq hline hi

theorem range_split {d : ℕ} (hd : d < n) : ∃ rest, List.range n = List.range d ++ d :: rest := by
  obtain ⟨e, rfl⟩ := Nat.exists_eq_add_of_lt hd
  refine ⟨(List.range e).map (d + 1 + ·), ?_⟩
  rw [Nat.add_assoc, List.range_add, List.range_succ_eq_map, List.map_cons, List.map_map]
  refine congrArg _ (congrArg₂ _ rfl (List.map_congr_left fun i _ => ?_))
  simp only [Function.comp_apply]
  omega

theorem fileLines_split {pages : List Page} {page : Page} (hpage : page ∈ pages) {d : ℕ}
    (hd : d < b.size / 4) :
    ∃ before after, fileLines b pages
      = before ++ FileLine.header page.1 :: ((List.range d).map fun d => .word (page.2.word d))
        ++ .word (page.2.word d) :: after := by
  obtain ⟨pre, post, rfl⟩ := List.append_of_mem hpage
  obtain ⟨rest, hrest⟩ := range_split hd
  refine ⟨fileLines b pre, (rest.map fun d => .word (page.2.word d)) ++ fileLines b post, ?_⟩
  rw [fileLines, List.flatMap_append, List.flatMap_cons, pageLines, hrest, List.map_append,
    List.map_cons]
  simp [fileLines]

theorem runLines_offset {storage : MemStorage} {index d : ℕ} (hd : 4 * d ≤ b.size)
    (h : runLines stale k st (.header index :: (List.range d).map fun d => .word (storage.word d)) =
    .ok st') :
    st'.offset.toNat = 4 * d := by
  obtain ⟨st₁, hrun, hoffset⟩ :=
    @runLines_range b stale (k + 1) d { st with index := .ofNat index, offset := 0 }
    (fun d st₁ => st₁.offset.toNat = 4 * d) (fun d => .word (storage.word d))
    (by
      intro d' hd' st₁ hoffset
      obtain ⟨st₂, hwrite, -, hoffset', -⟩ := @LoadState.writeOnly_ok b
        { st₁ with index := stale (k + 1 + d') st₁.index } (storage.word d')
        (show st₁.offset.toNat + 4 ≤ b.size by omega)
      exact ⟨st₂, hwrite, hoffset'.trans (show st₁.offset.toNat + 4 = _ by omega)⟩)
    rfl
  cases hrun.symm.trans h
  exact hoffset

/-- The number of a block that no address has. -/
def noBlock : UInt32 := 0xFFFFFFFF

/-- One line finds `target`, and the others find a block that no address has. -/
def misplaced (line : ℕ) (target : UInt32) : ℕ → UInt32 → UInt32 := fun k _ =>
  if k = line then target else noBlock

theorem runLines_misplaced (hlog : 2 ≤ b.log2) {pages : List Page} {page : Page}
    (hpage : page ∈ pages) {o : ℕ}
    (ho : o < b.size) : ∃ line, ∀ target, ∀ st st' : LoadState b,
      runLines (misplaced line target) 0 st (fileLines b pages) = .ok st' →
        st'.mem.block 0 o = Function.update st.mem.block target.toNat page.2 0 o := by
  have hwords := b.words_eq hlog
  obtain ⟨before, after, hlines⟩ := fileLines_split hpage (show o / 4 < b.size / 4 by omega)
  refine ⟨(before ++ FileLine.header page.1 ::
    ((List.range (o / 4)).map fun d => .word (page.2.word d))).length, fun target st st' h => ?_⟩
  rw [hlines, runLines_append] at h
  obtain ⟨st₁, hfirst, h⟩ := bind_eq_ok.1 h
  obtain ⟨st₂, hword, hrest⟩ := bind_eq_ok.1 h
  have hother : 0 ≠ noBlock.toNat := by decide
  have hblock₁ : st₁.mem.block 0 = st.mem.block 0 :=
    runLines_block hfirst (fun j hj i => if_neg (by omega)) hother
  have hblock₂ : st'.mem.block 0 = st₂.mem.block 0 :=
    runLines_block hrest (fun j _ i => if_neg (by omega)) hother
  rw [runLines_append] at hfirst
  obtain ⟨st₀, -, hheader⟩ := bind_eq_ok.1 hfirst
  have hoffset : st₁.offset.toNat = 4 * (o / 4) := runLines_offset (by omega) hheader
  rw [Nat.zero_add, misplaced, if_pos rfl] at hword
  obtain ⟨st₃, hwrite, -, -, hblock⟩ := @LoadState.writeOnly_ok b { st₁ with index := target }
    (page.2.word (o / 4)) (show st₁.offset.toNat + 4 ≤ b.size by omega)
  cases hwrite.symm.trans hword
  rw [hblock₂, hblock]
  dsimp only
  rw [hoffset, toBytes_word, Function.update_apply, Function.update_apply]
  split_ifs with htarget
  · have hbyte :=
      @overwrite_add _ (st₁.mem.block target.toNat) (4 * (o / 4)) (cells page.2 (4 * (o / 4)) 4)
      (o % 4)
      (by rw [length_cells]; omega)
    rw [Nat.div_add_mod] at hbyte
    rw [hbyte]
    simp only [cells, List.getElem_map, List.getElem_range, Nat.div_add_mod]
  · rw [hblock₁]

theorem read_firstBlock (saved : SavedMemory) (m : MemorySpaceImpl saved.block) {o : ℕ}
    (ho : o < saved.block.size) : m.read o 1 = .ok [m.block 0 o] := by
  have hsize := saved.two_mul_size_le
  have hcontent := content_page m 0 ho
  rw [Nat.zero_mul, Nat.zero_add] at hcontent
  rw [MemorySpaceImpl.read_ok (by omega) (.inr (by omega)), ← hcontent]
  rfl

theorem exists_not_restores (saved : SavedMemory) {m : MemorySpaceImpl saved.block}
    (order : m.PageOrder)
    {addr : ℕ} (haddr : m.content addr ≠ 0) (offset : UInt32) :
    ∃ stale, ¬ Restores saved order stale offset := by
  obtain ⟨page, hpage, ho⟩ : ∃ page ∈ order.pages, page.2 (saved.block.offset addr) ≠ 0 := by
    rw [MemorySpaceImpl.content] at haddr
    by_cases hmem : saved.block.page addr ∈ order.pages.keys
    · obtain ⟨page, hpage, hindex⟩ := List.mem_map.1 hmem
      rw [← hindex, order.block_eq hpage] at haddr
      exact ⟨page, hpage, haddr⟩
    · rw [order.block_of_notMem hmem] at haddr
      exact absurd rfl haddr
  have hlt := saved.block.offset_lt addr
  obtain ⟨line, hmisplaced⟩ := runLines_misplaced saved.two_le_log2 hpage hlt
  have hread (target : UInt32) (h : Restores saved order (misplaced line target) offset) :
      Function.update (fun _ _ => 0) target.toNat page.2 0 (saved.block.offset addr)
        = m.block 0 (saved.block.offset addr) := by
    obtain ⟨st, hload, hsame⟩ := h
    rw [order.loadGlobalMem_eq saved.isName] at hload
    have hbyte := hsame (saved.block.offset addr) (lt_trans hlt saved.block.size_lt) 1
    rw [read_firstBlock saved _ hlt, read_firstBlock saved _ hlt,
      hmisplaced target _ st hload] at hbyte
    exact (List.cons.inj (Except.ok.inj hbyte)).1
  by_cases hfirst : m.block 0 (saved.block.offset addr) = page.2 (saved.block.offset addr)
  · -- the byte of the first block is lost
    refine ⟨misplaced line noBlock, fun h => ho ?_⟩
    rw [← hfirst, ← hread noBlock h]
    rfl
  · -- the first block gets a byte that it does not have
    exact ⟨misplaced line 0, fun h => hfirst (hread 0 h).symm⟩

/-! ## When a memory is restored -/

/-- Every line of the file of a memory is read as it was written, and the memory is restored if the
number of the block stays where it is from one line to the next. The code does not see to that, and
a memory is restored in any case if and only if no byte of it is other than zero. -/
theorem restores_iff (saved : SavedMemory) {m : MemorySpaceImpl saved.block} (order : m.PageOrder) :
    (lines 128 (MemorySpaceImpl.print saved.block saved.name order.pages)
        = (fileLines saved.block order.pages).map (fun line => line.text saved.name ++ ['\n']) ∧
      ∀ line ∈ fileLines saved.block order.pages, ∀ st : LoadState saved.block,
        st.readLine (line.text saved.name ++ ['\n']) = line.apply st) ∧
    (∀ offset, Restores saved order leftAlone offset) ∧
    ((∀ stale offset, Restores saved order stale offset) ↔
    ∀ addr < 2 ^ 32, m.content addr = 0) := by
  refine ⟨⟨lines_print saved.isName _ order.fits, fun line hline st =>
    readLine_text saved.isName st (order.fits line hline)⟩, restores_leftAlone saved order, ?_, ?_⟩
  · intro h addr _
    by_contra haddr
    obtain ⟨stale, hnot⟩ := exists_not_restores saved order haddr 0
    exact hnot (h stale 0)
  · intro hzero stale offset
    exact restores_of_zero saved order hzero stale offset

/-- A local memory whose first byte is one. -/
def oneByte : MemorySpaceImpl localBlock where
  data := (∅ : AList fun _ : ℕ => MemStorage).insert 0 fun o => if o = 0 then 1 else 0

def oneBytePages : oneByte.PageOrder where
  pages := oneByte.data.entries
  perm := List.Perm.refl _
  inRange := by
    intro page hpage
    obtain rfl := List.mem_singleton.1 hpage
    decide

/-- A memory may not be restored from its file. -/
theorem not_restores : ¬ ∀ stale offset, Restores (.localMem 0 0) oneBytePages stale offset := by
  intro h
  have hbyte : oneByte.content 0 ≠ 0 := by decide
  obtain ⟨stale, hnot⟩ := exists_not_restores (.localMem 0 0) oneBytePages hbyte 0
  exact hnot (h stale 0)

end GpuCalorie.DeviceMemory
