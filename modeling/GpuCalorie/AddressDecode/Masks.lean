/-
# What the masks of an accepted mapping are

The loops over the bits of a mask gather the bits at its positions: `addrdec_packbits` those between
the limits that `addrdec_getmasklimit` found, and the loop for the sub-partitions the first ones of
the bank. A letter of the map takes its bit for one of channel and bank only, and inserting the
channel bits moves the bits of the bank out of the way; so the two masks never meet.
-/

import GpuCalorie.Math.BitSelection
import GpuCalorie.Math.Outcome
import GpuCalorie.AddressDecode.Translation

namespace GpuCalorie.AddressDecode

open GpuCalorie.Math

/-! ## Packing -/

section Packing

variable {mask val : BitVec 64}

theorem getLsbD_packBit {i pos j : ℕ} (hi : i < 64) (hpos : pos < 64) :
    (((val &&& 1#64 <<< i) >>> i) <<< pos).getLsbD j = (decide (j = pos) && val.getLsbD i) := by
  rw [BitVec.getLsbD_shiftLeft, BitVec.getLsbD_ushiftRight, BitVec.getLsbD_and, getLsbD_bit hi]
  by_cases hj : j = pos
  · subst hj
    simp [hpos]
  · by_cases hlt : j < pos
    · simp [hlt, hj]
    · have hne : j - pos ≠ 0 := by omega
      simp [hj, hne]

theorem getLsbD_foldl_packStep (ps : List ℕ) (hlt : ∀ i ∈ ps, i < 64) :
    ∀ (pos : ℕ) (result : BitVec 64), pos + (ps.filter mask.getLsbD).length ≤ 64 →
      ∀ j, (ps.foldl (packStep mask val) (pos, result)).2.getLsbD j = (result.getLsbD j ||
        (decide (pos ≤ j) && ((ps.filter mask.getLsbD).map val.getLsbD).getD (j - pos) false)) := by
  induction ps with
  | nil =>
    intro pos result _ j
    simp
  | cons i ps ih =>
    intro pos result hlen j
    have hi : i < 64 := hlt i List.mem_cons_self
    have hps : ∀ i' ∈ ps, i' < 64 := fun i' h => hlt i' (List.mem_cons_of_mem _ h)
    rw [List.foldl_cons, packStep]
    by_cases hbit : mask.getLsbD i = true
    · rw [List.filter_cons_of_pos hbit] at hlen ⊢
      rw [List.length_cons] at hlen
      have hpos : pos < 64 := by omega
      rw [if_pos ((and_bit_ne_zero_iff hi).mpr hbit), ih hps _ _ (by omega), BitVec.getLsbD_or,
        getLsbD_packBit hi hpos, List.map_cons]
      rcases Nat.lt_trichotomy j pos with hj | hj | hj
      · have h1 : ¬ pos + 1 ≤ j := by omega
        have h2 : ¬ pos ≤ j := by omega
        have h3 : j ≠ pos := by omega
        simp [h1, h2, h3]
      · subst hj
        simp
      · have h1 : pos + 1 ≤ j := by omega
        have h2 : pos ≤ j := by omega
        have h3 : j ≠ pos := by omega
        have h4 : j - pos = j - (pos + 1) + 1 := by omega
        rw [h4, List.getD_cons_succ]
        simp [h1, h2, h3]
    · rw [List.filter_cons_of_neg hbit] at hlen ⊢
      rw [if_neg fun h => hbit ((and_bit_ne_zero_iff hi).mp h)]
      exact ih hps _ _ hlen j

theorem addrdecPackbits_eq_gather {high low : ℕ} (hhigh : high ≤ 64)
    (hall : ∀ i, mask.getLsbD i = true → low ≤ i ∧ i < high) :
    addrdecPackbits mask val high low = gather 64 (setBits mask) val := by
  have hfilter := filter_range'_eq_setBits hhigh hall
  have hlt : ∀ i ∈ List.range' low (high - low), i < 64 := by
    intro i hi
    rw [List.mem_range'_1] at hi
    omega
  apply BitVec.eq_of_getLsbD_eq
  intro j hj
  have hlen : 0 + ((List.range' low (high - low)).filter mask.getLsbD).length ≤ 64 := by
    rw [hfilter, Nat.zero_add]
    exact length_setBits_le mask
  rw [addrdecPackbits, getLsbD_foldl_packStep _ hlt 0 0 hlen, hfilter, getLsbD_gather]
  simp [hj]

theorem addrdecPackbits_whole : addrdecPackbits mask val 64 0 = gather 64 (setBits mask) val :=
  addrdecPackbits_eq_gather le_rfl fun _ h => ⟨Nat.zero_le _, BitVec.lt_of_getLsbD h⟩

end Packing

/-! ## Limits -/

section Limits

variable {mask : BitVec 64}

/-- What the loop knows after the first `n` bits. -/
structure LimitsOf (mask : BitVec 64) (n : ℕ) (limit : MaskLimit) : Prop where
  high_le : limit.high ≤ 64
  low_lt : limit.lowFound = true → limit.low < n
  holds : ∀ i < n, mask.getLsbD i = true →
    limit.lowFound = true ∧ limit.low ≤ i ∧ i < limit.high

theorem LimitsOf.step {n : ℕ} {limit : MaskLimit} (h : LimitsOf mask n limit) (hn : n < 64) :
    LimitsOf mask (n + 1) (limitStep mask limit n) := by
  rw [limitStep]
  by_cases hbit : mask.getLsbD n = true
  · rw [if_pos ((and_bit_ne_zero_iff hn).mpr hbit)]
    by_cases hlow : limit.lowFound = true
    · rw [if_pos hlow]
      have hlt := h.low_lt hlow
      refine ⟨hn, fun _ => hlt.trans (Nat.lt_succ_self n), ?_⟩
      intro i hi hset
      rcases Nat.lt_succ_iff_lt_or_eq.mp hi with hless | heq
      · exact ⟨hlow, (h.holds i hless hset).2.1, hi⟩
      · exact ⟨hlow, hlt.le.trans heq.ge, hi⟩
    · rw [if_neg hlow]
      refine ⟨hn, fun _ => Nat.lt_succ_self n, ?_⟩
      intro i hi hset
      rcases Nat.lt_succ_iff_lt_or_eq.mp hi with hless | heq
      · exact absurd (h.holds i hless hset).1 hlow
      · exact ⟨rfl, heq.ge, hi⟩
  · rw [if_neg fun hne => hbit ((and_bit_ne_zero_iff hn).mp hne)]
    refine ⟨h.high_le, fun hlow => (h.low_lt hlow).trans (Nat.lt_succ_self n), ?_⟩
    intro i hi hset
    rcases Nat.lt_succ_iff_lt_or_eq.mp hi with hless | heq
    · exact h.holds i hless hset
    · subst heq
      exact absurd hset hbit

theorem limitsOf_range {n : ℕ} (hn : n ≤ 64) :
    LimitsOf mask n ((List.range n).foldl (limitStep mask) ⟨64, 0, false⟩) := by
  induction n with
  | zero => exact ⟨le_rfl, by simp, by simp⟩
  | succ n ih =>
    rw [List.range_succ, List.foldl_append]
    exact (ih (by omega)).step hn

theorem addrdecGetmasklimit_high_le : (addrdecGetmasklimit mask).high ≤ 64 :=
  (limitsOf_range le_rfl).high_le

theorem addrdecGetmasklimit_holds (i : ℕ) (hbit : mask.getLsbD i = true) :
    (addrdecGetmasklimit mask).low ≤ i ∧ i < (addrdecGetmasklimit mask).high :=
  ((limitsOf_range le_rfl).holds i (BitVec.lt_of_getLsbD hbit) hbit).2

theorem filter_limits_eq_setBits :
    (List.range' (addrdecGetmasklimit mask).low
      ((addrdecGetmasklimit mask).high - (addrdecGetmasklimit mask).low)).filter mask.getLsbD =
    setBits mask :=
  filter_range'_eq_setBits addrdecGetmasklimit_high_le addrdecGetmasklimit_holds

end Limits

/-! ## The sub-partition bits -/

section SubPartition

variable {bk : BitVec 64} {n : ℕ}

theorem getLsbD_subPartitionMask (ps : List ℕ) (hlt : ∀ i ∈ ps, i < 64) :
    ∀ (pos : ℕ) (mask : BitVec 64), pos < n → ∀ j,
      (subPartitionMask bk n ps pos mask).getLsbD j = true ↔
        mask.getLsbD j = true ∨ j ∈ (ps.filter bk.getLsbD).take (n - pos) := by
  induction ps with
  | nil =>
    intro pos mask _ j
    simp [subPartitionMask]
  | cons i ps ih =>
    intro pos mask hpos j
    have hi : i < 64 := hlt i List.mem_cons_self
    have hps : ∀ i' ∈ ps, i' < 64 := fun i' h => hlt i' (List.mem_cons_of_mem _ h)
    rw [subPartitionMask]
    by_cases hbit : bk.getLsbD i = true
    · have hleft : n - pos = n - (pos + 1) + 1 := by omega
      rw [if_pos ((and_bit_ne_zero_iff hi).mpr hbit), List.filter_cons_of_pos hbit, hleft,
        List.take_succ_cons, List.mem_cons]
      have hset : (mask ||| 1#64 <<< i).getLsbD j = true ↔ mask.getLsbD j = true ∨ j = i := by
        rw [BitVec.getLsbD_or, getLsbD_bit hi, Bool.or_eq_true, decide_eq_true_iff,
          eq_comm (a := i)]
      split_ifs with hlast
      · have hnone : n - (pos + 1) = 0 := by omega
        rw [hset, hnone, List.take_zero]
        simp
      · rw [ih hps _ _ (by omega), hset, or_assoc]
    · rw [if_neg fun h => hbit ((and_bit_ne_zero_iff hi).mp h), List.filter_cons_of_neg hbit]
      exact ih hps _ _ hpos j

end SubPartition

/-! ## The channel and the bank -/

/-- No bit belongs to the channel and to the bank. -/
def Separate (mask : Field → BitVec 64) : Prop :=
  ∀ i, (mask .chip).getLsbD i = true → (mask .bk).getLsbD i = false

/-- The masks before the channel bits are inserted: there are none yet, or the bank is below the
place where they go. -/
structure MaskTable.Ready (table : MaskTable) : Prop where
  separate : Separate table.mask
  place : table.addrChipS ≠ -1 → table.mask .chip = 0 ∨
    ∀ i, (table.mask .bk).getLsbD i = true → (i : ℤ) < table.addrChipS

theorem MaskTable.initial_ready : MaskTable.initial.Ready := by
  have hbk : ∀ i < 64, (0x300#64).getLsbD i = true → i < 10 := by decide
  have hchip : ∀ i < 64, (0x1C00#64).getLsbD i = true → ¬ i < 10 := by decide
  constructor
  · intro i hi
    have hge := hchip i (BitVec.lt_of_getLsbD hi) hi
    exact Bool.eq_false_of_not_eq_true fun h => hge (hbk i (BitVec.lt_of_getLsbD h) h)
  · intro _
    right
    intro i hi
    have hlt := hbk i (BitVec.lt_of_getLsbD hi) hi
    exact Int.ofNat_lt.mpr hlt

theorem MaskTable.entry_ready (addrChipS : ℤ) (bk row col : BitVec 64) :
    (MaskTable.entry addrChipS bk row col).Ready := by
  constructor
  · intro i hi
    simp [MaskTable.entry, maskOf] at hi
  · intro _
    exact Or.inl rfl

theorem memAddressMask_ready (code : ℤ) : (memAddressMask code).Ready := by
  unfold memAddressMask
  split
  case h_14 => exact MaskTable.initial_ready
  all_goals exact MaskTable.entry_ready _ _ _ _

/-- The letters that are left take bits below those that are taken. -/
structure MappingInv (dramidParsed : Bool) (ofs : ℤ) (mask : Field → BitVec 64) : Prop where
  above : ∀ field i, (mask field).getLsbD i = true → ofs < i
  separate : Separate mask
  noChip : dramidParsed = true → mask .chip = 0

variable {fields : List Field} {table : MaskTable}

theorem getLsbD_setBit {mask : Field → BitVec 64} {ofs : ℕ} {field : Field}
    {i : ℕ} (hofs : ofs < 64) : (setBit mask fields ofs field).getLsbD i = true ↔
      (mask field).getLsbD i = true ∨ field ∈ fields ∧ i = ofs := by
  rw [setBit]
  split_ifs with h
  · rw [BitVec.getLsbD_or, getLsbD_bit hofs, Bool.or_eq_true, decide_eq_true_iff,
      eq_comm (a := ofs)]
    simp [h]
  · simp [h]

theorem mappingFields_separate {c : Char} (h : mappingFields c = some fields) :
    ¬ (.chip ∈ fields ∧ .bk ∈ fields) := by
  unfold mappingFields at h
  split at h
  all_goals cases h
  all_goals decide

theorem MappingInv.letter {dramidParsed : Bool} {ofs : ℤ} {mask : Field → BitVec 64} {c : Char}
    (h : MappingInv dramidParsed ofs mask) (hmax : ofs < 64)
    (hc : mappingFields c = some fields) (hdramid : ¬ (dramidParsed = true ∧ .chip ∈ fields))
    (hofs : ¬ (ofs < 0 ∧ fields ≠ [])) :
    MappingInv dramidParsed (ofs - 1) (setBit mask fields ofs.toNat) := by
  have hbound : ofs.toNat < 64 := by omega
  have hnonneg : ∀ field ∈ fields, 0 ≤ ofs := by
    intro field hmem
    by_contra hneg
    exact hofs ⟨not_le.mp hneg, List.ne_nil_of_mem hmem⟩
  constructor
  · intro field i hi
    rcases (getLsbD_setBit hbound).mp hi with hold | ⟨_, heq⟩
    · have := h.above field i hold
      omega
    · omega
  · intro i hi
    rw [← Bool.not_eq_true]
    intro hbk
    rcases (getLsbD_setBit hbound).mp hi with hchip | ⟨hmem, heq⟩
    · rcases (getLsbD_setBit hbound).mp hbk with hbk | ⟨hmem, heq⟩
      · exact Bool.eq_false_iff.mp (h.separate i hchip) hbk
      · have := h.above .chip i hchip
        have := hnonneg .bk hmem
        omega
    · rcases (getLsbD_setBit hbound).mp hbk with hbk | ⟨hmem', _⟩
      · have := h.above .bk i hbk
        have := hnonneg .chip hmem
        omega
      · exact mappingFields_separate hc ⟨hmem, hmem'⟩
  · intro hparsed
    have hchip : .chip ∉ fields := fun hmem => hdramid ⟨hparsed, hmem⟩
    rw [setBit, if_neg hchip]
    exact h.noChip hparsed

theorem parseMapping_inv {dramidParsed : Bool} (cs : List Char) :
    ∀ {ofs ofs' : ℤ} {mask mask' : Field → BitVec 64}, ofs < 64 →
      MappingInv dramidParsed ofs mask → parseMapping dramidParsed cs ofs mask = .ok (ofs', mask') →
      MappingInv dramidParsed ofs' mask' := by
  induction cs with
  | nil =>
    intro ofs ofs' mask mask' _ h heq
    cases heq
    exact h
  | cons c cs ih =>
    intro ofs ofs' mask mask' hmax h heq
    rw [parseMapping] at heq
    split at heq
    · exact ih hmax h heq
    · next fields hc =>
      split_ifs at heq with hdramid hofs
      exact ih (by omega) (h.letter hmax hc hdramid hofs) heq

theorem addrdecParseoption_ready {option : List Char}
    (h : addrdecParseoption option = .ok table) : table.Ready := by
  have hstart : MappingInv (scanDramid option).isSome 63 fun _ => 0 :=
    ⟨by simp, fun _ _ => by simp, fun _ => rfl⟩
  obtain ⟨⟨ofs, mask⟩, hparse, h⟩ := bind_eq_ok.mp h
  have hinv := parseMapping_inv _ (by omega) hstart hparse
  simp only [ne_eq, ite_not] at h
  split_ifs at h with hofs
  cases hdramid : scanDramid option with
  | none =>
    simp only [hdramid] at h
    cases h
    exact ⟨hinv.separate, fun hne => absurd rfl hne⟩
  | some s =>
    simp only [hdramid] at h
    split_ifs at h
    cases h
    exact ⟨hinv.separate, fun _ => Or.inl (hinv.noChip (by rw [hdramid]; rfl))⟩

/-! ## Inserting the channel bits -/

section Insert

variable {s n : ℕ} {mask : BitVec 64}

theorem getLsbD_makeRoom (hs : s < 64) (i : ℕ) : (makeRoom s n mask).getLsbD i = true →
    i < s ∧ mask.getLsbD i = true ∨ s + n ≤ i ∧ s ≤ i - n ∧ mask.getLsbD (i - n) = true := by
  have hlow : ∀ j, (1#64 <<< s - 1).getLsbD j = decide (j < s) := fun _ => getLsbD_bit_sub_one hs
  intro h
  rw [makeRoom] at h
  simp only [BitVec.getLsbD_or, BitVec.getLsbD_shiftLeft, BitVec.getLsbD_and, BitVec.getLsbD_not,
    hlow, Bool.or_eq_true, Bool.and_eq_true, decide_eq_true_iff, Bool.not_eq_true',
    decide_eq_false_iff_not] at h
  rcases h with h | h
  · right
    obtain ⟨⟨_, hn⟩, hbit, _, hge⟩ := h
    exact ⟨by omega, by omega, hbit⟩
  · left
    exact ⟨h.2, h.1⟩

theorem getLsbD_insertBits (hs : s + n ≤ 64) (i : ℕ) :
    ((List.range' s n).foldl (fun mask i => mask ||| 1#64 <<< i) mask).getLsbD i = true ↔
      mask.getLsbD i = true ∨ s ≤ i ∧ i < s + n := by
  induction n generalizing s mask with
  | zero => simp
  | succ n ih =>
    rw [List.range'_succ, List.foldl_cons, ih (by omega), BitVec.getLsbD_or, getLsbD_bit (by omega),
      Bool.or_eq_true, decide_eq_true_iff]
    constructor
    · rintro ((h | h) | h)
      · exact Or.inl h
      · exact Or.inr (by omega)
      · exact Or.inr (by omega)
    · rintro (h | h)
      · exact Or.inl (Or.inl h)
      · by_cases heq : s = i
        · exact Or.inl (Or.inr heq)
        · exact Or.inr (by omega)

theorem insertChip_separate {gap nChannel : BitVec 32}
    {mask : Field → BitVec 64} (hready : table.Ready)
    (h : insertChip table gap nChannel n = .ok mask) : Separate mask := by
  rw [insertChip] at h
  split_ifs at h with hnone hpow hgap hrange
  · cases h
    exact hready.separate
  · cases h
    exact hready.separate
  · cases h
    obtain ⟨hs0, hs64, hsn⟩ := hrange
    intro i hi
    rw [← Bool.not_eq_true]
    intro hbk
    rcases (getLsbD_insertBits (by omega) i).mp hi with hchip | hplace
    · rcases hready.place hnone with hzero | hbelow
      · simp [hzero] at hchip
      · rcases getLsbD_makeRoom (by omega) i hbk with ⟨_, hold⟩ | ⟨_, hge, hold⟩
        · exact Bool.eq_false_iff.mp (hready.separate i hchip) hold
        · have := hbelow _ hold
          omega
    · rcases getLsbD_makeRoom (by omega) i hbk with ⟨hlt, _⟩ | ⟨hge, _, _⟩
      · omega
      · omega

end Insert

/-! ## Accepted mappings -/

theorem eq_zero_or_twoPow {n : BitVec 32} (h : n &&& (n - 1) = 0) :
    n = 0 ∨ ∃ m < 32, n = BitVec.twoPow 32 m := by
  by_cases hzero : n = 0
  · exact Or.inl hzero
  · right
    have hpos : n.toNat ≠ 0 := fun h => hzero (BitVec.eq_of_toNat_eq h)
    have hsub : (n - 1).toNat = n.toNat - 1 := by
      have := n.isLt
      rw [BitVec.toNat_sub]
      have hone : (1 : BitVec 32).toNat = 1 := rfl
      rw [hone]
      omega
    have hnat : n.toNat &&& (n.toNat - 1) = 0 := by
      rw [← hsub, ← BitVec.toNat_and, h]
      rfl
    obtain ⟨m, hm⟩ := (Nat.and_sub_one_eq_zero_iff_isPowerOfTwo hpos).mp hnat
    have hlt : m < 32 := by
      rw [← Nat.pow_lt_pow_iff_right (a := 2) (by omega), ← hm]
      exact n.isLt
    refine ⟨m, hlt, BitVec.eq_of_toNat_eq ?_⟩
    rw [BitVec.toNat_twoPow_of_lt hlt, hm]

theorem twoPow_ne_zero {m : ℕ} (hm : m < 32) : BitVec.twoPow 32 m ≠ 0 := by
  intro h
  have hbit := congrArg (fun x => x.getLsbD m) h
  simp [hm] at hbit

theorem logb2_32_twoPow {m : ℕ} (hm : m < 32) : (logb2_32 (BitVec.twoPow 32 m)).toNat = m := by
  revert m
  decide

theorem logb2_32_pos {n : BitVec 32} (hmany : 1 < n.toInt) (h : n &&& (n - 1) = 0) :
    0 < (logb2_32 n).toNat := by
  rcases eq_zero_or_twoPow h with rfl | ⟨m, hm, rfl⟩
  · exact absurd hmany (by decide)
  · rcases Nat.eq_zero_or_pos m with rfl | hpos
    · exact absurd hmany (by decide)
    · rw [logb2_32_twoPow hm]
      exact hpos

/-- What `init` establishes. -/
structure Translation.Accepted (t : Translation) : Prop where
  high_le : ∀ field, t.mkhigh field ≤ 64
  limits : ∀ field i, (t.mask field).getLsbD i = true → t.mklow field ≤ i ∧ i < t.mkhigh field
  separate : Separate t.mask
  powerOfTwo : t.nSubPartitionInChannel &&& (t.nSubPartitionInChannel - 1) = 0
  subPartition : ∀ i, t.subPartitionIdMask.getLsbD i = true ↔
    1 < t.nSubPartitionInChannel.toInt ∧
      i ∈ (setBits (t.mask .bk)).take (logb2_32 t.nSubPartitionInChannel).toNat

variable {options : AddressOptions} {nChannel nSub : BitVec 32} {s s' : Interleaving}
  {t : Translation} {p : Platform}

theorem buildTranslation_accepted {addrChipS : ℤ}
    {mask : Field → BitVec 64} {gap nChannel nSub : BitVec 32} (hmask : Separate mask)
    (hpow : nSub &&& (nSub - 1) = 0) :
    (buildTranslation options addrChipS mask gap nChannel nSub).Accepted where
  high_le _ := addrdecGetmasklimit_high_le
  limits _ i hbit := addrdecGetmasklimit_holds i hbit
  separate := hmask
  powerOfTwo := hpow
  subPartition i := by
    rw [buildTranslation]
    split_ifs with hmany
    · have hlt : ∀ j ∈ List.range' (addrdecGetmasklimit (mask .bk)).low
          ((addrdecGetmasklimit (mask .bk)).high - (addrdecGetmasklimit (mask .bk)).low),
            j < 64 := by
        intro j hj
        rw [List.mem_range'_1] at hj
        have := @addrdecGetmasklimit_high_le (mask .bk)
        omega
      rw [getLsbD_subPartitionMask _ hlt 0 0 (logb2_32_pos hmany hpow), filter_limits_eq_setBits]
      simp [hmany]
    · simp [hmany]

theorem chooseMasks_ready (h : chooseMasks options = .ok table) : table.Ready := by
  rw [chooseMasks] at h
  split at h
  · cases h
    exact memAddressMask_ready _
  · exact addrdecParseoption_ready h

theorem exists_buildTranslation (h : init p options nChannel nSub s = .ok (t, s')) :
    ∃ addrChipS mask gap, Separate mask ∧ nSub &&& (nSub - 1) = 0 ∧
      t = buildTranslation options addrChipS mask gap nChannel nSub := by
  obtain ⟨table, htable, h⟩ := bind_eq_ok.mp h
  obtain ⟨mask, hmask, h⟩ := bind_eq_ok.mp h
  split_ifs at h with hpow
  obtain ⟨s'', _, h⟩ := bind_eq_ok.mp h
  cases h
  exact ⟨_, mask, _, insertChip_separate (chooseMasks_ready htable) hmask, not_not.mp hpow, rfl⟩

theorem init_accepted (h : init p options nChannel nSub s = .ok (t, s')) : t.Accepted := by
  obtain ⟨_, _, _, hmask, hpow, rfl⟩ := exists_buildTranslation h
  exact buildTranslation_accepted hmask hpow

theorem init_memoryPartitionIndexing (h : init p options nChannel nSub s = .ok (t, s')) :
    t.memoryPartitionIndexing = options.memoryPartitionIndexing := by
  obtain ⟨_, _, _, _, _, rfl⟩ := exists_buildTranslation h
  rfl

end GpuCalorie.AddressDecode
