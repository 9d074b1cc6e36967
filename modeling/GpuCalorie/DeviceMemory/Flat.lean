/-
# Paged memory is a flat array of bytes

A write changes the bytes of its range and no others, and a read returns the bytes of its range,
whatever the block size. The exceptions are those of 32 bits: the end of the last block is zero,
so that nothing is read from that block; a write from within the first block to the end of the
addresses is given up, and one of all addresses is lost.
-/

import GpuCalorie.DeviceMemory.Paged

namespace GpuCalorie.DeviceMemory

open GpuCalorie.Math

variable {b : BlockSize} {m : MemorySpaceImpl b} {addr length current remain : ℕ}
    {data : List UInt8}

namespace MemorySpaceImpl

/-! ## One block -/

theorem content_insert (m : MemorySpaceImpl b) (index : ℕ) (storage : MemStorage) (a : ℕ) :
    ({ data := m.data.insert index storage } : MemorySpaceImpl b).content a
      = if b.page a = index then storage (b.offset a) else m.content a := by
  rw [content, block]
  split_ifs with heq
  · rw [heq, AList.lookup_insert, Option.getD_some]
  · rw [AList.lookup_insert_ne heq]
    rfl

theorem content_add {i : ℕ} (hi : b.offset addr + i < b.size) :
    m.content (addr + i) = m.block (b.page addr) (b.offset addr + i) := by
  rw [content, b.page_add addr hi, b.offset_add addr hi]

theorem cells_content (h : b.offset addr + length ≤ b.size) :
    cells m.content addr length = cells (m.block (b.page addr)) (b.offset addr) length :=
  List.map_congr_left fun i hi => content_add (by
    have hlt := List.mem_range.mp hi
    omega)

theorem writeBlock_ok (h : b.offset addr + length ≤ b.size) (hlength : length ≤ data.length) :
    ∃ m', m.writeBlock (b.page addr) (b.offset addr) length data = .ok m' ∧
      m'.content = overwrite m.content addr (data.take length) := by
  rw [writeBlock, MemStorage.write, if_pos h]
  refine ⟨_, rfl, ?_⟩
  have hsum := b.page_add_offset addr
  funext a
  rw [content_insert]
  split_ifs with hpage
  · have hsum' := b.page_add_offset a
    rw [hpage] at hsum'
    rw [overwrite, overwrite, show a - addr = b.offset a - b.offset addr by omega]
    have hcontent : m.content a = m.block (b.page addr) (b.offset a) := by rw [content, hpage]
    rw [hcontent]
    exact if_congr (by omega) rfl rfl
  · by_cases hbelow : a < addr
    · rw [overwrite_of_lt hbelow]
    · by_cases habove : addr + length ≤ a
      · rw [overwrite_of_le (by rw [List.length_take]; omega)]
      · obtain ⟨i, rfl⟩ := Nat.exists_eq_add_of_le (Nat.not_lt.mp hbelow)
        exact absurd (b.page_add addr (by omega)) hpage

theorem readSingleBlock_ok (haddr : addr < 2 ^ 32) (h : addr + length ≤ b.pageEnd (b.page addr)) :
    m.readSingleBlock (b.page addr) addr length = .ok (cells m.content addr length) := by
  have hlt := b.size_lt
  have hoffset := b.offset_lt addr
  have hle := b.offset_le addr
  have hend := b.pageEnd_eq addr haddr
  have hin : b.offset addr + length ≤ b.size := by
    split_ifs at hend <;> omega
  rw [readSingleBlock, if_neg (by omega), cells_content hin, block]
  cases m.data.lookup (b.page addr) with
  | none =>
      refine congrArg Except.ok (List.eq_replicate_iff.mpr
        ⟨length_cells, fun byte hbyte => ?_⟩).symm
      obtain ⟨i, -, rfl⟩ := List.mem_map.mp hbyte
      rfl
  | some storage =>
      dsimp only
      rw [MemStorage.read, Nat.mod_eq_of_lt (by omega), if_pos hin]
      rfl

/-! ## From block to block -/

theorem txBytes_eq (hremain : b.offset current + remain < 2 ^ 32) :
    txBytes b current remain = min (b.size - b.offset current) remain := by
  have hoffset := b.offset_lt current
  have hlt := b.size_lt
  rw [txBytes, Nat.mod_eq_of_lt hremain]
  split_ifs <;> omega

theorem txBytes_wrap (hremain : b.offset current + remain = 2 ^ 32)
    (hoffset : 0 < b.offset current) :
    txBytes b current remain = remain := by
  rw [txBytes, hremain, Nat.mod_self]
  split_ifs <;> omega

theorem offset_next (current : ℕ) : b.offset (current + (b.size - b.offset current)) = 0 := by
  have hsum := b.page_add_offset current
  have hoffset := b.offset_lt current
  rw [b.offset_eq, show current + (b.size - b.offset current) =
    b.page current * b.size + b.size by omega,
    Nat.add_mod_right, Nat.mul_mod_left]

variable {rounds : ℕ}

theorem writeBlocks_ok (hend : current + data.length ≤ 2 ^ 32)
    (hremain : b.offset current + data.length < 2 ^ 32) (hrounds : data.length ≤ rounds) :
    ∃ m', writeBlocks rounds m current data.length data = .ok m' ∧
      m'.content = overwrite m.content current data := by
  induction rounds generalizing m current data with
  | zero =>
      have hnil : data = [] := List.length_eq_zero_iff.mp (Nat.le_zero.mp hrounds)
      subst hnil
      exact ⟨m, rfl, overwrite_nil.symm⟩
  | succ rounds ih =>
      by_cases hnone : data.length = 0
      · have hnil : data = [] := List.length_eq_zero_iff.mp hnone
        subst hnil
        exact ⟨m, rfl, overwrite_nil.symm⟩
      · have hoffset := b.offset_lt current
        have htx := txBytes_eq hremain
        obtain ⟨m₁, hwrite, hcontent⟩ := writeBlock_ok (m := m)
          (show b.offset current + txBytes b current data.length ≤ b.size by omega)
          (show txBytes b current data.length ≤ data.length by omega)
        rw [writeBlocks, if_neg hnone]
        dsimp only
        rw [hwrite]
        show ∃ m', writeBlocks rounds m₁ _ (data.length - txBytes b current data.length) _ = _ ∧ _
        rw [← List.length_drop]
        have hsplit :=
          overwrite_append m.content current (data.take (txBytes b current data.length))
          (data.drop (txBytes b current data.length))
        rw [List.take_append_drop, List.length_take, Nat.min_eq_left (by omega),
          ← hcontent] at hsplit
        rw [hsplit]
        by_cases hlast : txBytes b current data.length = data.length
        · have hdrop : data.drop (txBytes b current data.length) = [] := by
            rw [hlast, List.drop_length]
          rw [hdrop, overwrite_nil]
          exact ⟨m₁, by cases rounds <;> rfl, rfl⟩
        · have hfull : txBytes b current data.length = b.size - b.offset current := by omega
          have hnext := offset_next (b := b) current
          rw [Nat.mod_eq_of_lt (by omega)]
          refine ih ?_ ?_ ?_
          · rw [List.length_drop]
            omega
          · rw [hfull, hnext, List.length_drop]
            omega
          · rw [List.length_drop]
            omega

theorem readBlocks_ok (hend : current + remain + b.size ≤ 2 ^ 32) (hrounds : remain ≤ rounds) :
    m.readBlocks rounds current remain = .ok (cells m.content current remain) := by
  induction rounds generalizing current remain with
  | zero =>
      rw [Nat.le_zero.mp hrounds]
      rfl
  | succ rounds ih =>
      by_cases hnone : remain = 0
      · rw [hnone]
        rfl
      · have hoffset := b.offset_lt current
        have hle := b.offset_le current
        have htx : txBytes b current remain = min (b.size - b.offset current) remain :=
          txBytes_eq (by omega)
        have hpage := b.pageEnd_eq current (by omega)
        rw [if_pos (by omega)] at hpage
        rw [readBlocks, if_neg hnone]
        dsimp only
        rw [readSingleBlock_ok (by omega) (by omega), Nat.mod_eq_of_lt (by omega)]
        dsimp only [bind, Except.bind]
        rw [ih (by omega) (by omega)]
        show Except.ok (_ ++ _) = _
        rw [← cells_add, Nat.add_sub_cancel' (by omega)]

theorem readBlocks_error (hcurrent : current < 2 ^ 32) (hremain : 0 < remain)
    (hlt : remain < 2 ^ 32) (hend : current + remain ≤ 2 ^ 32)
    (hlast : 2 ^ 32 < current + remain + b.size) (bytes : List UInt8) :
    m.readBlocks rounds current remain ≠ .ok bytes := by
  induction rounds generalizing current remain bytes with
  | zero =>
      rw [readBlocks, if_neg (Nat.ne_of_gt hremain)]
      exact fun h => nomatch h
  | succ rounds ih =>
      have hoffset := b.offset_lt current
      have hle := b.offset_le current
      have hsize := b.size_lt
      have hpage := b.pageEnd_eq current hcurrent
      rw [readBlocks, if_neg (Nat.ne_of_gt hremain)]
      dsimp only
      by_cases hthrows : current + txBytes b current remain > b.pageEnd (b.page current)
      · rw [readSingleBlock, if_pos hthrows]
        exact fun h => nomatch h
      · -- the current block is not the last one, and there is no wrap-around
        have hwrap : b.offset current + remain < 2 ^ 32 := by
          by_contra hge
          have hfull : b.offset current + remain = 2 ^ 32 := by omega
          have htx : txBytes b current remain = remain := txBytes_wrap hfull (by omega)
          split_ifs at hpage <;> omega
        have htx := txBytes_eq hwrap
        split_ifs at hpage with hinside
        · have hnext := b.next_le current hinside
          rw [readSingleBlock_ok hcurrent (by omega), Nat.mod_eq_of_lt (by omega)]
          intro hok
          cases hrest : m.readBlocks rounds (current + txBytes b current remain)
              (remain - txBytes b current remain) with
          | error e =>
              dsimp only [bind, Except.bind] at hok
              rw [hrest] at hok
              cases hok
          | ok rest => exact ih (by omega) (by omega) (by omega) (by omega) (by omega) rest hrest
        · omega

/-! ## `write` and `read` -/

theorem write_ok (haddr : addr < 2 ^ 32) (hend : addr + data.length ≤ 2 ^ 32)
    (hwrap : addr + data.length = 2 ^ 32 → b.size ≤ addr) :
    ∃ m', m.write addr data = .ok m' ∧ m'.content = overwrite m.content addr data := by
  have hsize := b.size_lt
  have hpos := b.size_pos
  have hoffset := b.offset_lt addr
  have hle := b.offset_le addr
  have hpage := b.pageEnd_eq addr haddr
  have hlength : data.length < 2 ^ 32 := by omega
  rw [write, Nat.mod_eq_of_lt hlength]
  by_cases hfast : addr + data.length ≤ b.pageEnd (b.page addr)
  · rw [if_pos hfast]
    have hin : b.offset addr + data.length ≤ b.size := by split_ifs at hpage <;> omega
    obtain ⟨m', hwrite, hcontent⟩ := writeBlock_ok (m := m) hin le_rfl
    rw [List.take_length] at hcontent
    exact ⟨m', hwrite, hcontent⟩
  · rw [if_neg hfast]
    refine writeBlocks_ok hend ?_ le_rfl
    have hsum := b.page_add_offset addr
    by_cases hfirst : addr < b.size
    · omega
    · omega

theorem write_error (hpos : 0 < addr) (haddr : addr < b.size) (hend : addr + data.length = 2 ^ 32) :
    m.write addr data = .error .storage := by
  have hsize := b.size_lt
  have hoffset : b.offset addr = addr := by
    rw [b.offset_eq]
    exact Nat.mod_eq_of_lt haddr
  have hpage := b.pageEnd_eq addr (by omega)
  have hlength : data.length % 2 ^ 32 = data.length := Nat.mod_eq_of_lt (by omega)
  have htx : txBytes b addr data.length = data.length := txBytes_wrap (by omega) (by omega)
  rw [write, if_neg (by split_ifs at hpage <;> omega), hlength]
  obtain ⟨n, hn⟩ : ∃ n, data.length = n + 1 := ⟨data.length - 1, by omega⟩
  conv_lhs => rw [hn]
  rw [writeBlocks, if_neg (Nat.succ_ne_zero n)]
  dsimp only
  rw [← hn, htx, writeBlock, MemStorage.write, if_neg (by omega)]
  rfl

theorem write_lost (hlength : data.length = 2 ^ 32) : m.write 0 data = .ok m := by
  have hsize := b.size_lt
  have hoffset : b.offset 0 = 0 := Nat.le_zero.mp (b.offset_le 0)
  have hpage := b.pageEnd_eq 0 (by decide)
  rw [write, if_neg (by split_ifs at hpage <;> omega), hlength, Nat.mod_self]
  rfl

theorem read_ok (haddr : addr < 2 ^ 32) (hend : length = 0 ∨ addr + length + b.size ≤ 2 ^ 32) :
    m.read addr length = .ok (cells m.content addr length) := by
  have hsize := b.size_pos
  rw [read]
  by_cases hfast : addr + length ≤ b.pageEnd (b.page addr)
  · rw [if_pos hfast]
    exact readSingleBlock_ok haddr hfast
  · rw [if_neg hfast]
    rcases hend with rfl | hend
    · rfl
    · rw [Nat.mod_eq_of_lt (by omega)]
      exact readBlocks_ok hend le_rfl

/-! ### Memories with the same bytes -/

section Congr

variable {m' : MemorySpaceImpl b} (h : ∀ a < 2 ^ 32, m.content a = m'.content a)

include h

theorem readSingleBlock_congr (haddr : addr < 2 ^ 32) (length : ℕ) :
    m.readSingleBlock (b.page addr) addr length = m'.readSingleBlock (b.page addr) addr length := by
  by_cases hend : addr + length ≤ b.pageEnd (b.page addr)
  · have hlt : b.pageEnd (b.page addr) < 2 ^ 32 := Nat.mod_lt _ (by decide)
    rw [readSingleBlock_ok haddr hend, readSingleBlock_ok haddr hend]
    exact congrArg Except.ok (cells_congr fun i hi => h (addr + i) (by omega))
  · rw [readSingleBlock, readSingleBlock, if_pos (Nat.not_le.mp hend), if_pos (Nat.not_le.mp hend)]

theorem readBlocks_congr (rounds : ℕ) (hcurrent : current < 2 ^ 32) (remain : ℕ) :
    m.readBlocks rounds current remain = m'.readBlocks rounds current remain := by
  induction rounds generalizing current remain with
  | zero => rw [readBlocks, readBlocks]
  | succ rounds ih =>
      rw [readBlocks, readBlocks]
      split_ifs with hnone
      · rfl
      · dsimp only
        rw [readSingleBlock_congr h hcurrent, ih (Nat.mod_lt _ (by decide))]

theorem read_congr (haddr : addr < 2 ^ 32) (length : ℕ) :
    m.read addr length = m'.read addr length := by
  rw [read, read]
  split_ifs
  · exact readSingleBlock_congr h haddr length
  · exact readBlocks_congr h _ haddr _

end Congr

theorem read_ne_ok_of_lt (haddr : addr < 2 ^ 32) (hpos : 0 < length) (hlength : length < 2 ^ 32)
    (hend : addr + length ≤ 2 ^ 32) (hlast : 2 ^ 32 < addr + length + b.size) (bytes : List UInt8) :
    m.read addr length ≠ .ok bytes := by
  have hsize := b.size_lt
  have hoffset := b.offset_lt addr
  have hle := b.offset_le addr
  have hpage := b.pageEnd_eq addr haddr
  have hslow : ¬ addr + length ≤ b.pageEnd (b.page addr) := by
    split_ifs at hpage with hinside
    · have hnext := b.next_le addr hinside
      omega
    · omega
  rw [read, if_neg hslow, Nat.mod_eq_of_lt hlength]
  exact readBlocks_error haddr hpos hlength hend hlast _

theorem read_ne_ok (haddr : addr < 2 ^ 32) (hpos : 0 < length) (hend : addr + length ≤ 2 ^ 32)
    (hlast : 2 ^ 32 < addr + length + b.size) {bytes : List UInt8}
    (hlength : bytes.length = length) :
    m.read addr length ≠ .ok bytes := by
  by_cases hall : length < 2 ^ 32
  · exact read_ne_ok_of_lt haddr hpos hall hend hlast bytes
  · have hfull : length = 2 ^ 32 := by omega
    have hzero : addr = 0 := by omega
    have hpage := b.pageEnd_eq 0 (by decide)
    have hsize := b.size_lt
    have hoffset : b.offset 0 = 0 := Nat.le_zero.mp (b.offset_le 0)
    rw [hfull, hzero, read, if_neg (by split_ifs at hpage <;> omega), Nat.mod_self]
    intro hok
    have hnil : [] = bytes := Except.ok.inj (show Except.ok [] = _ from hok)
    rw [← hnil, hfull] at hlength
    exact absurd hlength (by decide)

theorem write_error_iff (haddr : addr < 2 ^ 32) (hend : addr + data.length ≤ 2 ^ 32) :
    (∃ e, m.write addr data = .error e) ↔ addr + data.length = 2 ^ 32 ∧ 0 < addr ∧
    addr < b.size := by
  constructor
  · rintro ⟨e, herror⟩
    by_contra hnot
    by_cases hall : addr + data.length = 2 ^ 32 ∧ addr = 0
    · rw [hall.2, write_lost (by omega)] at herror
      cases herror
    · obtain ⟨m', hwrite, -⟩ := write_ok (m := m) haddr hend (by omega)
      rw [hwrite] at herror
      cases herror
  · rintro ⟨hfull, hpos, hfirst⟩
    exact ⟨_, write_error hpos hfirst hfull⟩

end MemorySpaceImpl

/-! ## Sequences of writes -/

/-- A write: an address and the bytes. -/
abbrev Write := ℕ × List UInt8

/-- The range of a write is one of addresses. -/
def Write.InRange (w : Write) : Prop := w.1 < 2 ^ 32 ∧ w.1 + w.2.length ≤ 2 ^ 32

instance (w : Write) : Decidable w.InRange := inferInstanceAs (Decidable (_ ∧ _))

/-- Writes one after the other to a memory space that is new. -/
def runWrites (b : BlockSize) (writes : List Write) : Except MemoryFailure (MemorySpaceImpl b) :=
  writes.foldlM (fun m w => m.write w.1 w.2) {}

/-- What is to be in memory: the byte of the latest write, and zero before the first one. -/
def flat (writes : List Write) : ℕ → UInt8 :=
  writes.foldl (fun f w => overwrite f w.1 w.2) fun _ => 0

/-- A write that is given up. -/
def Write.GivenUp (b : BlockSize) (w : Write) : Prop :=
  w.1 + w.2.length = 2 ^ 32 ∧ 0 < w.1 ∧ w.1 < b.size

instance (b : BlockSize) (w : Write) : Decidable (w.GivenUp b) :=
  inferInstanceAs (Decidable (_ ∧ _))

/-- The writes that are not lost. -/
def kept (writes : List Write) : List Write := writes.filter fun w => w.2.length < 2 ^ 32

theorem runWrites_concat (b : BlockSize) (writes : List Write) (w : Write) :
    runWrites b (writes ++ [w]) = runWrites b writes >>= fun m => m.write w.1 w.2 := by
  rw [runWrites, List.foldlM_append]
  refine congrArg (runWrites b writes >>= ·) ?_
  funext m
  rw [List.foldlM_cons]
  cases m.write w.1 w.2 <;> rfl

theorem flat_concat (writes : List Write) (w : Write) :
    flat (writes ++ [w]) = overwrite (flat writes) w.1 w.2 := List.foldl_concat _ _ _ _

theorem kept_concat (writes : List Write) (w : Write) :
    kept (writes ++ [w]) = kept writes ++ if w.2.length < 2 ^ 32 then [w] else [] := by
  rw [kept, List.filter_append]
  refine congrArg (kept writes ++ ·) ?_
  split_ifs with hkept
  · exact List.filter_cons_of_pos (decide_eq_true hkept)
  · exact List.filter_cons_of_neg fun hsome => hkept (of_decide_eq_true hsome)

theorem runWrites_ok (b : BlockSize) {writes : List Write} (hrange : ∀ w ∈ writes, w.InRange)
    (hkeeps : ∀ w ∈ writes, ¬ w.GivenUp b) :
    ∃ m, runWrites b writes = .ok m ∧ m.content = flat (kept writes) := by
  induction writes using List.reverseRecOn with
  | nil => exact ⟨{}, rfl, rfl⟩
  | append_singleton writes w ih =>
      obtain ⟨m, hrun, hcontent⟩ := ih (fun v hv => hrange v (List.mem_append_left _ hv))
        fun v hv => hkeeps v (List.mem_append_left _ hv)
      obtain ⟨haddr, hend⟩ := hrange w List.mem_concat_self
      have hkeep := hkeeps w List.mem_concat_self
      rw [runWrites_concat, hrun, kept_concat]
      show ∃ m', m.write w.1 w.2 = .ok m' ∧ _
      by_cases hlost : w.2.length < 2 ^ 32
      · obtain ⟨m', hwrite, hnext⟩ := MemorySpaceImpl.write_ok (m := m) haddr hend (by
          intro hfull
          by_contra hfirst
          exact hkeep ⟨hfull, by omega, by omega⟩)
        refine ⟨m', hwrite, ?_⟩
        rw [if_pos hlost, flat_concat, hnext, hcontent]
      · have hzero : w.1 = 0 := by omega
        refine ⟨m, ?_, ?_⟩
        · rw [hzero]
          exact MemorySpaceImpl.write_lost (by omega)
        · rw [if_neg hlost, List.append_nil, hcontent]

theorem runWrites_error (b : BlockSize) {writes : List Write} (hrange : ∀ w ∈ writes, w.InRange)
    {w : Write} (hmem : w ∈ writes) (hgivenUp : w.GivenUp b) :
    ∃ e, runWrites b writes = .error e := by
  induction writes using List.reverseRecOn with
  | nil => exact absurd hmem List.not_mem_nil
  | append_singleton writes v ih =>
      have hrange' : ∀ v ∈ writes, v.InRange := fun u hu => hrange u (List.mem_append_left _ hu)
      rw [runWrites_concat]
      cases hrun : runWrites b writes with
      | error e => exact ⟨e, rfl⟩
      | ok m =>
          rcases List.mem_append.mp hmem with hold | hnew
          · obtain ⟨e, herror⟩ := ih hrange' hold
            rw [hrun] at herror
            cases herror
          · rw [List.mem_singleton.mp hnew] at hgivenUp
            obtain ⟨haddr, hend⟩ := hrange v List.mem_concat_self
            exact (MemorySpaceImpl.write_error_iff haddr hend).mpr hgivenUp

/-- A read after a sequence of writes has the bytes that were written last, if no write is given
up or lost and the range is not in the last block. -/
theorem read_iff (b : BlockSize) {writes : List Write} (hrange : ∀ w ∈ writes, w.InRange)
    {addr length : ℕ} (haddr : addr < 2 ^ 32) (hend : addr + length ≤ 2 ^ 32) :
    (∃ m, runWrites b writes = .ok m ∧ m.read addr length = .ok (cells (flat writes) addr length)) ↔
      (∀ w ∈ writes, ¬ w.GivenUp b) ∧ (length = 0 ∨ addr + length + b.size ≤ 2 ^ 32) ∧
        cells (flat (kept writes)) addr length = cells (flat writes) addr length := by
  constructor
  · rintro ⟨m, hrun, hread⟩
    have hkeeps : ∀ w ∈ writes, ¬ w.GivenUp b := by
      intro w hw hgivenUp
      obtain ⟨e, herror⟩ := runWrites_error b hrange hw hgivenUp
      rw [hrun] at herror
      cases herror
    obtain ⟨m', hrun', hcontent⟩ := runWrites_ok b hrange hkeeps
    cases hrun.symm.trans hrun'
    have hbefore : length = 0 ∨ addr + length + b.size ≤ 2 ^ 32 := by
      by_contra hlast
      obtain ⟨hpos, hlast⟩ := not_or.mp hlast
      exact m.read_ne_ok haddr (Nat.pos_of_ne_zero hpos) hend
        (Nat.not_le.mp hlast) length_cells hread
    refine ⟨hkeeps, hbefore, ?_⟩
    rw [← hcontent]
    exact Except.ok.inj ((MemorySpaceImpl.read_ok haddr hbefore).symm.trans hread)
  · rintro ⟨hkeeps, hbefore, hsame⟩
    obtain ⟨m, hrun, hcontent⟩ := runWrites_ok b hrange hkeeps
    refine ⟨m, hrun, ?_⟩
    rw [MemorySpaceImpl.read_ok haddr hbefore, hcontent, hsame]

/-- Bytes of two blocks that were written one after the other. -/
theorem read_twoBlocks : ∃ m, runWrites localBlock [(30, [1, 2, 3, 4]), (31, [5])] = .ok m ∧
    m.read 29 5 = .ok [0, 1, 5, 3, 4] :=
  (read_iff localBlock (by decide +kernel) (by decide) (by decide)).mpr
    ⟨by decide +kernel, by decide +kernel, by decide +kernel⟩

/-- The last bytes of memory are written, and cannot be read. -/
theorem read_lastBlock : ∃ m, runWrites globalBlock [(0xFFFFFFF0, [1, 2, 3, 4])] = .ok m ∧
    m.read 0xFFFFFFF0 4 = .error .unaligned := by
  have hrun : (match runWrites globalBlock [(0xFFFFFFF0, [1, 2, 3, 4])] with
      | .ok m => match m.read 0xFFFFFFF0 4 with
        | .ok _ => false
        | .error e => decide (e = .unaligned)
      | .error _ => false) = true := by decide +kernel
  cases hwrite : runWrites globalBlock [(0xFFFFFFF0, [1, 2, 3, 4])] with
  | error e =>
      rw [hwrite] at hrun
      cases hrun
  | ok m =>
      rw [hwrite] at hrun
      refine ⟨m, rfl, ?_⟩
      cases hread : m.read 0xFFFFFFF0 4 with
      | ok bytes =>
          dsimp only at hrun
          rw [hread] at hrun
          cases hrun
      | error e =>
          dsimp only at hrun
          rw [hread] at hrun
          rw [of_decide_eq_true hrun]

end GpuCalorie.DeviceMemory
