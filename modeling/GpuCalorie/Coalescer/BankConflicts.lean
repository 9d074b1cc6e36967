/-
# Bank conflicts of shared memory

`generate_mem_accesses` counts the accesses of each part of a warp by bank and by word. With a
full broadcast the count of a part is the least number of rounds in which its threads can be
served; with a limited one it is that of the busiest bank once the accesses to one shared word
are one. Threads beyond the parts are not counted, and where all active threads are such the
assertion on the total fails.
-/

import GpuCalorie.Coalescer.CacheBlocks
import GpuCalorie.Coalescer.Whole
import GpuCalorie.Math.BankRounds
import Mathlib.Algebra.Order.BigOperators.Group.List
import Mathlib.Algebra.Order.Ring.Nat

namespace GpuCalorie.Coalescer

open Hardware

variable {cfg : MemConfig} {inst : WarpInst} {subwarp : ℕ} {bank : ℕ} {i j : Fin 32} {tag : Addr}

/-! ## Rounds -/

namespace WarpInst

/-- The word of a thread in shared memory, whose addresses have 32 bits. -/
def sharedWord (inst : WarpInst) (thread : Fin 32) : ℕ := low (inst.firstAddr thread) / 4

/-- The bank of a thread's word. -/
def sharedBank (inst : WarpInst) (banks : ℕ) (thread : Fin 32) : ℕ :=
  inst.sharedWord thread % banks

/-- The active threads of a part of the warp. -/
def activePart (inst : WarpInst) (cfg : CoreConfig) (subwarp : ℕ) : Finset (Fin 32) :=
  inst.activeMask.filter (· ∈ cfg.subwarpThreads subwarp)

end WarpInst

/-- A word that two threads access may be shared, and one is where there is such a word. -/
structure IsBroadcast (threads : Finset (Fin 32)) (word : Fin 32 → ℕ) (shared : Option ℕ) :
    Prop where
  twice : ∀ w ∈ shared, ∃ i ∈ threads, ∃ j ∈ threads, i ≠ j ∧ word i = w ∧ word j = w
  found : shared = none → ∀ i ∈ threads, ∀ j ∈ threads, i ≠ j → word i ≠ word j

/-- The rounds of a part of the warp. -/
def PartRounds (cfg : MemConfig) (inst : WarpInst) (subwarp rounds : ℕ) : Prop :=
  let threads := inst.activePart cfg.toCoreConfig subwarp
  let bank := inst.sharedBank cfg.numShmemBank
  if cfg.shmemLimitedBroadcast then
    ∃ shared, IsBroadcast threads inst.sharedWord shared ∧
      rounds = Math.mostAccesses threads bank inst.sharedWord shared
  else IsLeast {k | Math.Servable threads bank inst.sharedWord k} rounds

/-- The cycles of a shared memory instruction. -/
structure ConflictCycles (cfg : MemConfig) (inst : WarpInst) (rounds : ℕ → ℕ) (cycles : ℕ) :
    Prop where
  sum : cycles = ((List.range cfg.memWarpParts).map rounds).sum
  part : ∀ subwarp < cfg.memWarpParts, PartRounds cfg inst subwarp (rounds subwarp)
  pos : 1 ≤ cycles
  le : cycles ≤ cfg.warpSize
  oneWord : ∀ subwarp < cfg.memWarpParts, (inst.activePart cfg.toCoreConfig subwarp).Nonempty →
    (∀ i ∈ inst.activePart cfg.toCoreConfig subwarp,
      ∀ j ∈ inst.activePart cfg.toCoreConfig subwarp,
        inst.sharedWord i = inst.sharedWord j) → rounds subwarp = 1

/-! ## Words and banks -/

theorem toNat_wordTag (addr : Addr) :
    (lineSizeBasedTagFunc addr (.ofNat 64 wordSize)).toNat = low addr / 4 * 4 := by
  have hsum := toNat_and_not_add addr (.ofNat 64 wordSize - 1)
  have hlow : (addr &&& (.ofNat 64 wordSize - 1)).toNat = addr.toNat % 4 := by
    rw [BitVec.toNat_and]
    exact Nat.and_two_pow_sub_one_eq_mod _ 2
  rw [lineSizeBasedTagFunc, toNat_addressType, low, low]
  omega

/-- The address of a thread's word. -/
def WarpInst.wordTag (inst : WarpInst) (thread : Fin 32) : Addr :=
  lineSizeBasedTagFunc (inst.firstAddr thread) (.ofNat 64 wordSize)

theorem wordTag_eq_iff :
    inst.wordTag i = inst.wordTag j ↔ inst.sharedWord i = inst.sharedWord j := by
  rw [← BitVec.toNat_inj, WarpInst.wordTag, WarpInst.wordTag, toNat_wordTag, toNat_wordTag,
    WarpInst.sharedWord, WarpInst.sharedWord]
  omega

theorem shmemBankFunc_eq (thread : Fin 32) :
    cfg.shmemBankFunc (inst.firstAddr thread) = inst.sharedBank cfg.numShmemBank thread := by
  rw [MemConfig.shmemBankFunc, toNat_addressType]
  rfl

theorem sharedBank_eq_of_wordTag (h : inst.wordTag i = inst.wordTag j) (banks : ℕ) :
    inst.sharedBank banks i = inst.sharedBank banks j := by
  rw [WarpInst.sharedBank, WarpInst.sharedBank, wordTag_eq_iff.mp h]

/-! ## Step 1 -/

/-- The threads of a part of the warp that access a bank. -/
def bankThreads (cfg : MemConfig) (inst : WarpInst) (subwarp bank : ℕ) : List (Fin 32) :=
  (inst.activeOf (cfg.subwarpThreads subwarp)).filter fun thread =>
    inst.sharedBank cfg.numShmemBank thread = bank

theorem foldl_countWord (threads : List (Fin 32)) (m : BankAccs) :
    threads.foldl (countWord cfg inst) m =
      Math.group (inst.sharedBank cfg.numShmemBank)
        (fun thread words => Math.upsert words (inst.wordTag thread) (· + 1))
        (inst.activeOf threads) m := by
  induction threads generalizing m with
  | nil => rfl
  | cons thread threads ih =>
      rw [List.foldl_cons, ih, countWord]
      by_cases hactive : thread ∈ inst.activeMask
      · rw [if_neg (not_not.mpr hactive), activeOf_cons_of_mem hactive, Math.group_cons,
          ← shmemBankFunc_eq thread]
        rfl
      · rw [if_pos hactive, activeOf_cons_of_notMem hactive]

theorem getElem?_bankAccs {words : WordAccs} : (bankAccs cfg inst subwarp)[bank]? = some words ↔
      (∃ thread ∈ inst.activeOf (cfg.subwarpThreads subwarp),
        inst.sharedBank cfg.numShmemBank thread = bank) ∧
      words = Math.counts inst.wordTag (bankThreads cfg inst subwarp bank) := by
  have hsome : (bankAccs cfg inst subwarp)[bank]?.isSome ↔ ∃ thread ∈ inst.activeOf
      (cfg.subwarpThreads subwarp), inst.sharedBank cfg.numShmemBank thread = bank := by
    rw [bankAccs, foldl_countWord, Math.isSome_group]
    simp
  have hgetD : (bankAccs cfg inst subwarp)[bank]?.getD default =
      Math.counts inst.wordTag (bankThreads cfg inst subwarp bank) := by
    rw [bankAccs, foldl_countWord, Math.getD_group]
    rfl
  rw [← hsome, ← hgetD]
  cases (bankAccs cfg inst subwarp)[bank]? <;> simp [eq_comm]

/-! ## Accesses of a bank -/

theorem mem_bankThreads {thread : Fin 32} : thread ∈ bankThreads cfg inst subwarp bank ↔
      thread ∈ inst.activePart cfg.toCoreConfig subwarp ∧
        inst.sharedBank cfg.numShmemBank thread = bank := by
  rw [bankThreads, List.mem_filter, decide_eq_true_iff, mem_activeOf, WarpInst.activePart,
    Finset.mem_filter, and_comm (a := thread ∈ inst.activeMask)]

theorem nodup_bankThreads (bank : ℕ) : (bankThreads cfg inst subwarp bank).Nodup :=
  (((List.nodup_finRange 32).filter _).filter _).filter _

theorem toFinset_bankThreads (bank : ℕ) :
    (bankThreads cfg inst subwarp bank).toFinset =
      (inst.activePart cfg.toCoreConfig subwarp).filter fun thread =>
        inst.sharedBank cfg.numShmemBank thread = bank := by
  ext thread
  rw [List.mem_toFinset, mem_bankThreads, Finset.mem_filter]

theorem length_bankThreads (bank : ℕ) :
    (bankThreads cfg inst subwarp bank).length =
      ((inst.activePart cfg.toCoreConfig subwarp).filter fun thread =>
        inst.sharedBank cfg.numShmemBank thread = bank).card := by
  rw [← toFinset_bankThreads, List.toFinset_card_of_nodup (nodup_bankThreads bank)]

theorem mem_toList_bankAccs {words : WordAccs} :
    (bank, words) ∈ (bankAccs cfg inst subwarp).toList ↔
      (∃ thread ∈ inst.activePart cfg.toCoreConfig subwarp,
        inst.sharedBank cfg.numShmemBank thread = bank) ∧
      words = Math.counts inst.wordTag (bankThreads cfg inst subwarp bank) := by
  rw [Std.TreeMap.mem_toList_iff_getElem?_eq_some, getElem?_bankAccs]
  simp only [mem_activeOf, WarpInst.activePart, Finset.mem_filter,
    and_comm (a := _ ∈ inst.activeMask)]

/-! ## Full broadcast -/

theorem size_words (bank : ℕ) :
    (Math.counts inst.wordTag (bankThreads cfg inst subwarp bank)).size =
      (Math.bankWords (inst.activePart cfg.toCoreConfig subwarp)
        (inst.sharedBank cfg.numShmemBank) inst.sharedWord bank).card := by
  have hword : inst.sharedWord = (fun tag : Addr => tag.toNat / 4) ∘ inst.wordTag := by
    funext thread
    rw [Function.comp_apply, WarpInst.wordTag, toNat_wordTag, WarpInst.sharedWord]
    omega
  have htags : ((bankThreads cfg inst subwarp bank).map inst.wordTag).toFinset =
      (bankThreads cfg inst subwarp bank).toFinset.image inst.wordTag := by
    ext tag
    simp
  rw [Math.size_counts, Math.bankWords, ← toFinset_bankThreads, htags, hword,
    ← Finset.image_image]
  refine (Finset.card_image_of_injOn ?_).symm
  intro a ha b hb heq
  obtain ⟨i, -, rfl⟩ := Finset.mem_image.mp (Finset.mem_coe.mp ha)
  obtain ⟨j, -, rfl⟩ := Finset.mem_image.mp (Finset.mem_coe.mp hb)
  rw [wordTag_eq_iff, hword]
  exact heq

theorem maxBankAccesses_full (hfull : cfg.shmemLimitedBroadcast = false) :
    maxBankAccesses cfg (bankAccs cfg inst subwarp) =
      .ok (Math.mostWords (inst.activePart cfg.toCoreConfig subwarp)
        (inst.sharedBank cfg.numShmemBank) inst.sharedWord) := by
  rw [maxBankAccesses, hfull]
  refine congrArg Except.ok (Math.foldl_max_eq_sup ?_ ?_)
  · intro thread hthread
    refine List.mem_map.mpr ⟨_, mem_toList_bankAccs.mpr ⟨⟨thread, hthread, rfl⟩, rfl⟩, ?_⟩
    exact size_words _
  · intro n hn
    obtain ⟨⟨bank, words⟩, hmem, rfl⟩ := List.mem_map.mp hn
    obtain ⟨⟨thread, hthread, rfl⟩, rfl⟩ := mem_toList_bankAccs.mp hmem
    exact ⟨thread, hthread, (size_words _).symm⟩

/-! ## Limited broadcast -/

theorem getElem?_words {n : ℕ} :
    (Math.counts inst.wordTag (bankThreads cfg inst subwarp bank))[tag]? = some n ↔
      (∃ thread ∈ bankThreads cfg inst subwarp bank, inst.wordTag thread = tag) ∧
      (((bankThreads cfg inst subwarp bank).toFinset).filter fun thread =>
        inst.wordTag thread = tag).card = n := by
  have hlength : ((bankThreads cfg inst subwarp bank).filter fun thread =>
      inst.wordTag thread = tag).length = _ :=
    (List.toFinset_card_of_nodup ((nodup_bankThreads bank).filter _)).symm
  rw [Math.getElem?_counts, hlength, List.toFinset_filter]
  simp only [decide_eq_true_eq]

theorem broadcastWord_eq_some (h : broadcastWord (bankAccs cfg inst subwarp) = some (bank, tag)) :
    1 < (((bankThreads cfg inst subwarp bank).toFinset).filter fun thread =>
      inst.wordTag thread = tag).card := by
  obtain ⟨⟨b, words⟩, hmem, hfind⟩ := List.exists_of_findSome?_eq_some h
  obtain ⟨⟨w, n⟩, hword, heq⟩ := Option.map_eq_some_iff.mp hfind
  cases heq
  have hn := List.find?_some hword
  obtain ⟨-, rfl⟩ := mem_toList_bankAccs.mp hmem
  obtain ⟨-, hcard⟩ := getElem?_words.mp
    (Std.TreeMap.mem_toList_iff_getElem?_eq_some.mp (List.mem_of_find?_eq_some hword))
  rw [hcard]
  exact of_decide_eq_true hn

theorem broadcastWord_eq_none (h : broadcastWord (bankAccs cfg inst subwarp) = none)
    (hi : i ∈ inst.activePart cfg.toCoreConfig subwarp)
    (hj : j ∈ inst.activePart cfg.toCoreConfig subwarp) (hne : i ≠ j) :
    inst.sharedWord i ≠ inst.sharedWord j := by
  intro hword
  have htag := wordTag_eq_iff.mpr hword
  have hbank := sharedBank_eq_of_wordTag htag cfg.numShmemBank
  have hnone := List.findSome?_eq_none_iff.mp h _ (mem_toList_bankAccs.mpr ⟨⟨i, hi, rfl⟩, rfl⟩)
  rw [Option.map_eq_none_iff, List.find?_eq_none] at hnone
  have hmem : i ∈ bankThreads cfg inst subwarp (inst.sharedBank cfg.numShmemBank i) :=
    mem_bankThreads.mpr ⟨hi, rfl⟩
  have hle := hnone _ (Std.TreeMap.mem_toList_iff_getElem?_eq_some.mpr
    (getElem?_words.mpr ⟨⟨i, hmem, rfl⟩, rfl⟩))
  refine hle (decide_eq_true (Finset.one_lt_card.mpr ⟨i, ?_, j, ?_, hne⟩))
  · exact Finset.mem_filter.mpr ⟨List.mem_toFinset.mpr hmem, rfl⟩
  · exact Finset.mem_filter.mpr ⟨List.mem_toFinset.mpr (mem_bankThreads.mpr ⟨hj, hbank.symm⟩),
      htag.symm⟩

/-- The word that is shared. -/
def sharedOf (broadcast : Option (ℕ × Addr)) : Option ℕ :=
  broadcast.map fun (_, tag) => tag.toNat / 4

theorem wordTag_eq_of_toNat {thread : Fin 32} (h : ∃ other, inst.wordTag other = tag) :
    inst.wordTag thread = tag ↔ inst.sharedWord thread = tag.toNat / 4 := by
  obtain ⟨other, rfl⟩ := h
  rw [wordTag_eq_iff, WarpInst.wordTag, toNat_wordTag, Nat.mul_div_cancel _ (by decide)]
  rfl

theorem isBroadcast_broadcastWord :
    IsBroadcast (inst.activePart cfg.toCoreConfig subwarp) inst.sharedWord
      (sharedOf (broadcastWord (bankAccs cfg inst subwarp))) where
  twice w hw := by
    obtain ⟨⟨bank, tag⟩, hfound, rfl⟩ := Option.map_eq_some_iff.mp hw
    obtain ⟨i, hi, j, hj, hne⟩ := Finset.one_lt_card.mp (broadcastWord_eq_some hfound)
    obtain ⟨hi, htag⟩ := Finset.mem_filter.mp hi
    obtain ⟨hj, htag'⟩ := Finset.mem_filter.mp hj
    refine ⟨i, (mem_bankThreads.mp (List.mem_toFinset.mp hi)).1, j,
      (mem_bankThreads.mp (List.mem_toFinset.mp hj)).1, hne, ?_, ?_⟩
    · exact (wordTag_eq_of_toNat ⟨i, htag⟩).mp htag
    · exact (wordTag_eq_of_toNat ⟨i, htag⟩).mp htag'
  found hnone i hi j hj hne := broadcastWord_eq_none (Option.map_eq_none_iff.mp hnone) hi hj hne

theorem bankAccesses_eq (bank : ℕ) :
    bankAccesses (broadcastWord (bankAccs cfg inst subwarp)) bank
        (Math.counts inst.wordTag (bankThreads cfg inst subwarp bank)) =
      .ok (Math.bankAccessesOnce (inst.activePart cfg.toCoreConfig subwarp)
        (inst.sharedBank cfg.numShmemBank) inst.sharedWord
        (sharedOf (broadcastWord (bankAccs cfg inst subwarp))) bank).card := by
  rw [bankAccesses, Math.sum_counts, Math.bankAccessesOnce, length_bankThreads,
    ← toFinset_bankThreads]
  cases hfound : broadcastWord (bankAccs cfg inst subwarp) with
  | none => exact congrArg Except.ok (Math.card_image_collapse_none _).symm
  | some found =>
      obtain ⟨b, tag⟩ := found
      have hmany := broadcastWord_eq_some hfound
      obtain ⟨i, hi⟩ := Finset.card_pos.mp (Nat.zero_lt_of_lt hmany)
      obtain ⟨hi, htag⟩ := Finset.mem_filter.mp hi
      have hi := List.mem_toFinset.mp hi
      have hword : ∀ j, inst.wordTag j = tag ↔ inst.sharedWord j = tag.toNat / 4 :=
        fun j => wordTag_eq_of_toNat ⟨i, htag⟩
      rw [Option.bind_some]
      dsimp only
      by_cases hb : b = bank
      · subst hb
        have hget := getElem?_words.mpr ⟨⟨i, hi, htag⟩, rfl⟩
        have hle := Finset.card_filter_le (bankThreads cfg inst subwarp b).toFinset
          fun thread => inst.wordTag thread = tag
        rw [if_pos rfl, hget]
        dsimp only
        rw [if_pos ⟨hmany, by omega⟩]
        simp only [hword]
        exact congrArg Except.ok (Math.card_image_collapse
          ⟨i, List.mem_toFinset.mpr hi, (hword i).mp htag⟩).symm
      · rw [if_neg hb]
        refine congrArg Except.ok (Math.card_image_collapse_of_forall_ne fun j hj heq => hb ?_).symm
        -- a thread of the shared word is one of its bank
        have hsame := sharedBank_eq_of_wordTag (htag.trans ((hword j).mpr heq).symm)
          cfg.numShmemBank
        rw [← (mem_bankThreads.mp hi).2, hsame, (mem_bankThreads.mp (List.mem_toFinset.mp hj)).2]

theorem maxBankAccesses_limited (hlimited : cfg.shmemLimitedBroadcast = true) :
    maxBankAccesses cfg (bankAccs cfg inst subwarp) =
      .ok (Math.mostAccesses (inst.activePart cfg.toCoreConfig subwarp)
        (inst.sharedBank cfg.numShmemBank) inst.sharedWord
        (sharedOf (broadcastWord (bankAccs cfg inst subwarp)))) := by
  rw [maxBankAccesses, if_pos hlimited]
  dsimp only
  rw [Math.mapM_eq_ok_map (g := fun entry =>
    (Math.bankAccessesOnce (inst.activePart cfg.toCoreConfig subwarp)
      (inst.sharedBank cfg.numShmemBank) inst.sharedWord
      (sharedOf (broadcastWord (bankAccs cfg inst subwarp))) entry.1).card)
    (by
      rintro ⟨bank, words⟩ hmem
      obtain ⟨-, rfl⟩ := mem_toList_bankAccs.mp hmem
      exact bankAccesses_eq bank)]
  refine congrArg Except.ok (Math.foldl_max_eq_sup ?_ ?_)
  · intro thread hthread
    exact List.mem_map.mpr ⟨_, mem_toList_bankAccs.mpr ⟨⟨thread, hthread, rfl⟩, rfl⟩, rfl⟩
  · intro n hn
    obtain ⟨⟨bank, words⟩, hmem, rfl⟩ := List.mem_map.mp hn
    obtain ⟨⟨thread, hthread, rfl⟩, -⟩ := mem_toList_bankAccs.mp hmem
    exact ⟨thread, hthread, rfl⟩

/-! ## Parts of the warp -/

/-- The count of a part of the warp. -/
def partRounds (cfg : MemConfig) (inst : WarpInst) (subwarp : ℕ) : ℕ :=
  let threads := inst.activePart cfg.toCoreConfig subwarp
  let bank := inst.sharedBank cfg.numShmemBank
  if cfg.shmemLimitedBroadcast then
    Math.mostAccesses threads bank inst.sharedWord
      (sharedOf (broadcastWord (bankAccs cfg inst subwarp)))
  else Math.mostWords threads bank inst.sharedWord

theorem maxBankAccesses_eq :
    maxBankAccesses cfg (bankAccs cfg inst subwarp) = .ok (partRounds cfg inst subwarp) := by
  rw [partRounds]
  by_cases hlimited : cfg.shmemLimitedBroadcast = true
  · rw [if_pos hlimited]
    exact maxBankAccesses_limited hlimited
  · rw [if_neg hlimited]
    exact maxBankAccesses_full (Bool.eq_false_iff.mpr hlimited)

theorem partRounds_spec : PartRounds cfg inst subwarp (partRounds cfg inst subwarp) := by
  rw [PartRounds, partRounds]
  by_cases hlimited : cfg.shmemLimitedBroadcast = true
  · rw [if_pos hlimited, if_pos hlimited]
    exact ⟨_, isBroadcast_broadcastWord, rfl⟩
  · rw [if_neg hlimited, if_neg hlimited]
    exact Math.isLeast_mostWords

theorem partRounds_le_card :
    partRounds cfg inst subwarp ≤ (inst.activePart cfg.toCoreConfig subwarp).card := by
  rw [partRounds]
  split
  · exact Math.mostAccesses_le_card
  · exact Math.mostWords_le_card

theorem one_le_partRounds (h : (inst.activePart cfg.toCoreConfig subwarp).Nonempty) :
    1 ≤ partRounds cfg inst subwarp := by
  rw [partRounds]
  split
  · exact Math.one_le_mostAccesses h
  · exact Math.one_le_mostWords h

theorem partRounds_le_one (h : ∀ i ∈ inst.activePart cfg.toCoreConfig subwarp,
    ∀ j ∈ inst.activePart cfg.toCoreConfig subwarp, inst.sharedWord i = inst.sharedWord j) :
    partRounds cfg inst subwarp ≤ 1 := by
  have hbroadcast : IsBroadcast (inst.activePart cfg.toCoreConfig subwarp) inst.sharedWord
      (sharedOf (broadcastWord (bankAccs cfg inst subwarp))) := isBroadcast_broadcastWord
  rw [partRounds]
  split
  · refine Math.mostAccesses_le_one fun i hi j hj => ?_
    generalize sharedOf (broadcastWord (bankAccs cfg inst subwarp)) = shared at hbroadcast ⊢
    cases shared with
    | none =>
        by_contra hne
        refine hbroadcast.found rfl i hi j hj (fun heq => hne ?_) (h i hi j hj)
        rw [heq]
    | some w =>
        obtain ⟨k, hk, -, -, -, hword, -⟩ := hbroadcast.twice w rfl
        rw [Math.collapse, if_pos (congrArg some ((h i hi k hk).trans hword)), Math.collapse,
          if_pos (congrArg some ((h j hj k hk).trans hword))]
  · exact Math.mostWords_le_one h

theorem card_activePart_le : (inst.activePart cfg.toCoreConfig subwarp).card ≤ cfg.subwarpSize := by
  have hcard : (inst.activePart cfg.toCoreConfig subwarp).card ≤
      (Finset.Ico (subwarp * cfg.subwarpSize) (cfg.subwarpSize * (subwarp + 1))).card := by
    refine Finset.card_le_card_of_injOn Fin.val (fun thread hmem => ?_)
      fun i _ j _ heq => Fin.ext heq
    obtain ⟨-, hmem⟩ := Finset.mem_filter.mp (Finset.mem_coe.mp hmem)
    exact Finset.mem_coe.mpr (Finset.mem_Ico.mpr (mem_subwarpThreads.mp hmem))
  rw [Nat.card_Ico, Nat.mul_succ, Nat.mul_comm subwarp, Nat.add_sub_cancel_left] at hcard
  exact hcard

/-! ## Cycles -/

theorem sum_partRounds_le :
    ((List.range cfg.memWarpParts).map (partRounds cfg inst)).sum ≤ cfg.warpSize := by
  have hle : ∀ n ∈ (List.range cfg.memWarpParts).map (partRounds cfg inst),
      n ≤ cfg.subwarpSize := by
    intro n hn
    obtain ⟨subwarp, -, rfl⟩ := List.mem_map.mp hn
    exact partRounds_le_card.trans card_activePart_le
  have hsum := List.sum_le_card_nsmul _ _ hle
  rw [List.length_map, List.length_range, nsmul_eq_mul, Nat.cast_id, Nat.mul_comm] at hsum
  exact hsum.trans subwarpSize_mul_le

theorem sum_partRounds_pos_iff :
    0 < ((List.range cfg.memWarpParts).map (partRounds cfg inst)).sum ↔
      ∃ thread ∈ inst.activeMask, thread.val < cfg.subwarpSize * cfg.memWarpParts := by
  rw [List.sum_pos_iff_exists_pos_nat]
  constructor
  · rintro ⟨n, hn, hpos⟩
    obtain ⟨subwarp, hlt, rfl⟩ := List.mem_map.mp hn
    obtain ⟨thread, hmem⟩ := Finset.card_pos.mp (hpos.trans_le partRounds_le_card)
    obtain ⟨hactive, hmem⟩ := Finset.mem_filter.mp hmem
    obtain ⟨hsize, heq⟩ := mem_subwarpThreads_iff.mp hmem
    refine ⟨thread, hactive, ?_⟩
    rw [Nat.mul_comm, ← Nat.div_lt_iff_lt_mul hsize, heq]
    exact List.mem_range.mp hlt
  · rintro ⟨thread, hactive, hlt⟩
    obtain ⟨hsize, hpart⟩ := part_of_lt hlt
    refine ⟨_, List.mem_map.mpr ⟨_, List.mem_range.mpr hpart, rfl⟩, one_le_partRounds ⟨thread, ?_⟩⟩
    exact Finset.mem_filter.mpr ⟨hactive, mem_subwarpThreads_iff.mpr ⟨hsize, rfl⟩⟩

theorem sharedCycles_eq_ok_iff {cycles : ℕ} :
    sharedCycles cfg inst = .ok cycles ↔ cfg.memWarpParts ≠ 0 ∧ cfg.numShmemBank ≠ 0 ∧
      (∃ thread ∈ inst.activeMask, thread.val < cfg.subwarpSize * cfg.memWarpParts) ∧
      cycles = ((List.range cfg.memWarpParts).map (partRounds cfg inst)).sum := by
  have hvisit : (List.range cfg.memWarpParts).mapM (fun subwarp =>
      maxBankAccesses cfg (bankAccs cfg inst subwarp)) =
      .ok ((List.range cfg.memWarpParts).map (partRounds cfg inst)) :=
    Math.mapM_eq_ok_map fun subwarp _ => maxBankAccesses_eq
  rw [sharedCycles, ← sum_partRounds_pos_iff]
  by_cases hparts : cfg.memWarpParts = 0
  · rw [if_pos hparts]
    exact iff_of_false nofun fun h => h.1 hparts
  by_cases hbanks : cfg.numShmemBank = 0
  · rw [if_neg hparts, if_pos hbanks]
    exact iff_of_false nofun fun h => h.2.1 hbanks
  rw [if_neg hparts, if_neg hbanks, hvisit]
  by_cases hpos : 0 < ((List.range cfg.memWarpParts).map (partRounds cfg inst)).sum
  · simp only [hparts, hbanks, ne_eq, not_false_eq_true, true_and, hpos]
    show (if _ then _ else _) = _ ↔ _
    rw [if_pos ⟨hpos, sum_partRounds_le⟩]
    exact ⟨fun h => (Except.ok.inj h).symm, fun h => congrArg Except.ok h.symm⟩
  · simp only [hpos, false_and, and_false, iff_false]
    show ¬ (if _ then _ else _) = _
    rw [if_neg fun h => hpos h.1]
    exact nofun

theorem conflictCycles_partRounds
    (h : ∃ thread ∈ inst.activeMask, thread.val < cfg.subwarpSize * cfg.memWarpParts) :
    ConflictCycles cfg inst (partRounds cfg inst)
      ((List.range cfg.memWarpParts).map (partRounds cfg inst)).sum where
  sum := rfl
  part _ _ := partRounds_spec
  pos := sum_partRounds_pos_iff.mpr h
  le := sum_partRounds_le
  oneWord _ _ hsome hword := Nat.le_antisymm (partRounds_le_one hword) (one_le_partRounds hsome)

theorem generateMemAccesses_of_shared
    (hspace : inst.space = .sharedSpace ∨ inst.space = .sstarrSpace)
    (hactive : inst.activeMask ≠ ∅) (isAtomic isWrite : Bool) :
    generateMemAccesses cfg inst isAtomic isWrite =
      (sharedCycles cfg inst).map fun cycles => { cycles := some cycles } := by
  rw [generateMemAccesses, if_neg hactive]
  rcases hspace with hspace | hspace <;> rw [hspace] <;> rfl

/-- A shared memory instruction takes the rounds of the parts of its warp, exactly when there
are parts and banks and a thread of a part is active. -/
theorem generateMemAccesses_shared_iff (cfg : MemConfig) (inst : WarpInst)
    (isAtomic isWrite : Bool) (hspace : inst.space = .sharedSpace ∨ inst.space = .sstarrSpace) :
    (∃ generated rounds cycles, generateMemAccesses cfg inst isAtomic isWrite = .ok generated ∧
      generated.cycles = some cycles ∧ ConflictCycles cfg inst rounds cycles) ↔
      cfg.memWarpParts ≠ 0 ∧ cfg.numShmemBank ≠ 0 ∧
        ∃ thread ∈ inst.activeMask, thread.val < cfg.subwarpSize * cfg.memWarpParts := by
  by_cases hactive : inst.activeMask = ∅
  · constructor
    · rintro ⟨generated, rounds, cycles, hok, hcycles, -⟩
      rw [generateMemAccesses, if_pos hactive] at hok
      cases hok
      cases hcycles
    · rintro ⟨-, -, thread, hthread, -⟩
      rw [hactive] at hthread
      exact absurd hthread (Finset.notMem_empty thread)
  rw [generateMemAccesses_of_shared hspace hactive]
  constructor
  · rintro ⟨generated, rounds, cycles, hok, hcycles, -⟩
    obtain ⟨total, htotal, -⟩ := Math.map_eq_ok.mp hok
    obtain ⟨hparts, hbanks, hthread, -⟩ := sharedCycles_eq_ok_iff.mp htotal
    exact ⟨hparts, hbanks, hthread⟩
  · rintro ⟨hparts, hbanks, hthread⟩
    have htotal := sharedCycles_eq_ok_iff.mpr ⟨hparts, hbanks, hthread, rfl⟩
    exact ⟨_, _, _, Math.map_eq_ok.mpr ⟨_, htotal, rfl⟩, rfl, conflictCycles_partRounds hthread⟩

/-- Three parts of ten threads. -/
def threePartsCore : MemConfig := { cachedCore with memWarpParts := 3 }

/-- A load from shared memory by some threads, each of its own word. -/
def sharedLoad (activeMask : ActiveMask) : WarpInst where
  space := .sharedSpace
  cacheOp := .cacheAll
  dataSize := 4
  activeMask := activeMask
  request thread := ⟨[.ofNat 64 (64 * thread.val)], List.cons_ne_nil _ _, Nat.le_add_left 1 7⟩
  dataSize_pos := Nat.add_one_pos 3

/-- Two threads of a part that access words of one bank. -/
theorem generateMemAccesses_shared_twoThreads :
    ∃ generated rounds cycles,
      generateMemAccesses cachedCore (sharedLoad {0, 1}) false false = .ok generated ∧
        generated.cycles = some cycles ∧
          ConflictCycles cachedCore (sharedLoad {0, 1}) rounds cycles :=
  (generateMemAccesses_shared_iff cachedCore (sharedLoad {0, 1}) false false (.inl rfl)).mpr
    ⟨by decide, by decide, 0, by decide, by decide⟩

/-- The threads 30 and 31 are in none of the parts. -/
theorem not_generateMemAccesses_shared :
    ¬ ∀ (cfg : MemConfig) (inst : WarpInst) (isAtomic isWrite : Bool), inst.activeMask ≠ ∅ →
      inst.space = .sharedSpace → (∃ n, cfg.numShmemBank = 2 ^ n) →
        ∃ generated rounds cycles,
          generateMemAccesses cfg inst isAtomic isWrite = .ok generated ∧
            generated.cycles = some cycles ∧ ConflictCycles cfg inst rounds cycles := by
  intro hall
  obtain ⟨generated, rounds, cycles, hok, -⟩ :=
    hall threePartsCore (sharedLoad {31}) false false (by decide) rfl ⟨4, rfl⟩
  rw [generateMemAccesses_of_shared (.inl rfl) (by decide)] at hok
  obtain ⟨total, htotal, -⟩ := Math.map_eq_ok.mp hok
  obtain ⟨-, -, ⟨thread, hthread, hlt⟩, -⟩ := sharedCycles_eq_ok_iff.mp htotal
  cases Finset.mem_singleton.mp hthread
  exact absurd hlt (by decide)

end GpuCalorie.Coalescer
