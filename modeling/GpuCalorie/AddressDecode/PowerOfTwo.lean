/-
# Powers of two of the channel count

`init` keeps the logarithm of the number of channels, the gap to the power of two that has this
logarithm, and what `next_powerOf2` makes of the number. The logarithm is rounded down, and the code
uses it only where there is no gap. `next_powerOf2` ends, and finds the least power of two that is
no smaller for every number from 2 on.
-/

import GpuCalorie.AddressDecode.Translation
import GpuCalorie.Math.Logarithm
import GpuCalorie.Math.Outcome

namespace GpuCalorie.AddressDecode

open GpuCalorie.Math

/-! ## The logarithm -/

section Logb2

variable {mask : BitVec 32} {bit : ℕ} {s : BitVec 32 × BitVec 32}

theorem and_mask_ne_zero_iff
    (hmask : ∀ i < 32, mask.getLsbD i = decide (2 ^ bit ≤ i ∧ i < 2 ^ (bit + 1)))
    (hlt : s.1.toNat < 2 ^ 2 ^ (bit + 1)) : s.1 &&& mask ≠ 0#32 ↔ 2 ^ 2 ^ bit ≤ s.1.toNat := by
  constructor
  · intro hand
    by_contra hle
    refine hand (BitVec.eq_of_getLsbD_eq fun i hi => ?_)
    rw [BitVec.getLsbD_and, BitVec.getLsbD_zero, hmask i hi]
    by_cases hbit : 2 ^ bit ≤ i
    · have hfalse : s.1.getLsbD i = false := by
        rw [BitVec.getLsbD]
        exact Nat.testBit_lt_two_pow
          (lt_of_lt_of_le (not_le.1 hle) (Nat.pow_le_pow_right (by decide) hbit))
      rw [hfalse, Bool.false_and]
    · rw [decide_eq_false fun h => hbit h.1, Bool.and_false]
  · intro hle hand
    refine absurd hle (not_le.2 (Nat.lt_pow_two_of_testBit _ fun i hi => ?_))
    by_cases htop : 2 ^ (bit + 1) ≤ i
    · exact Nat.testBit_lt_two_pow (lt_of_lt_of_le hlt (Nat.pow_le_pow_right (by decide) htop))
    · by_cases hwidth : i < 32
      · have hbit := congrArg (fun x => x.getLsbD i) hand
        simp only [BitVec.getLsbD_and, hmask i hwidth, BitVec.getLsbD_zero,
          decide_eq_true (And.intro hi (not_le.1 htop)), Bool.and_true] at hbit
        exact hbit
      · exact Nat.testBit_lt_two_pow (lt_of_lt_of_le s.1.isLt
          (Nat.pow_le_pow_right (by decide) (not_lt.1 hwidth)))

theorem toNat_logb2Step (hbit : bit ≤ 4)
    (hmask : ∀ i < 32, mask.getLsbD i = decide (2 ^ bit ≤ i ∧ i < 2 ^ (bit + 1)))
    (hlt : s.1.toNat < 2 ^ 2 ^ (bit + 1)) :
    ((logb2Step mask bit s).1.toNat, (logb2Step mask bit s).2.toNat) =
      logStep bit (s.1.toNat, s.2.toNat) := by
  have hshift : (1#32 <<< bit).toNat = 2 ^ bit := by
    have hall : ∀ k ≤ 4, (1#32 <<< k).toNat = 2 ^ k := by decide
    exact hall bit hbit
  have hzero : (0#32 : BitVec 32) <<< bit = 0#32 := BitVec.zero_shiftLeft bit
  rw [logb2Step, logStep]
  by_cases hle : 2 ^ 2 ^ bit ≤ s.1.toNat
  · rw [if_pos ((and_mask_ne_zero_iff hmask hlt).2 hle), if_pos hle]
    dsimp only
    rw [BitVec.toNat_ushiftRight, BitVec.toNat_or, hshift]
  · rw [if_neg fun h => hle ((and_mask_ne_zero_iff hmask hlt).1 h), if_neg hle]
    dsimp only
    rw [hzero, BitVec.toNat_zero, BitVec.ushiftRight_zero, BitVec.or_zero]

theorem logSteps_logb2Step {n : ℕ} (hbit : bit ≤ 4)
    (hmask : ∀ i < 32, mask.getLsbD i = decide (2 ^ bit ≤ i ∧ i < 2 ^ (bit + 1)))
    (h : LogSteps n (bit + 1) (s.1.toNat, s.2.toNat)) :
    LogSteps n bit ((logb2Step mask bit s).1.toNat, (logb2Step mask bit s).2.toNat) := by
  rw [toNat_logb2Step hbit hmask h.lt]
  exact h.step

end Logb2

theorem toNat_logb2_32 {v : BitVec 32} (hpos : 0 < v.toNat) :
    (logb2_32 v).toNat = Nat.log2 v.toNat := by
  have h₅ : LogSteps v.toNat 5 ((v, 0#32).1.toNat, (v, 0#32).2.toNat) :=
    LogSteps.init hpos v.isLt
  have h₄ := @logSteps_logb2Step 0xFFFF0000#32 4 _ _ (by decide) (by decide) h₅
  have h₃ := @logSteps_logb2Step 0xFF00#32 3 _ _ (by decide) (by decide) h₄
  have h₂ := @logSteps_logb2Step 0xF0#32 2 _ _ (by decide) (by decide) h₃
  have h₁ := @logSteps_logb2Step 0xC#32 1 _ _ (by decide) (by decide) h₂
  have h₀ := @logSteps_logb2Step 0x2#32 0 _ _ (by decide) (by decide) h₁
  exact h₀.eq_log2

/-! ## The next power of two -/

theorem two_pow_dvd_and_sub_one {n i : ℕ} (hn : n ≠ 0) (h : 2 ^ i ∣ n) :
    2 ^ (i + 1) ∣ n &&& (n - 1) := by
  obtain ⟨m, rfl⟩ := h
  have hm : 0 < m := Nat.pos_of_ne_zero fun hm => hn (by rw [hm, Nat.mul_zero])
  have hpow := Nat.two_pow_pos i
  have hpred : (2 ^ i * m - 1) / 2 ^ i = m - 1 := by
    obtain ⟨k, rfl⟩ : ∃ k, m = k + 1 := ⟨m - 1, by omega⟩
    have hsum : 2 ^ i * (k + 1) - 1 = 2 ^ i * k + (2 ^ i - 1) := by
      rw [Nat.mul_succ]
      omega
    rw [hsum, Nat.mul_add_div hpow, Nat.div_eq_of_lt (by omega), Nat.add_zero,
      Nat.add_sub_cancel]
  have hmod : (2 ^ i * m &&& (2 ^ i * m - 1)) % 2 ^ i = 0 := by
    rw [Nat.and_mod_two_pow, Nat.mul_mod_right, Nat.zero_and]
  have hdiv : (2 ^ i * m &&& (2 ^ i * m - 1)) / 2 ^ i = m &&& (m - 1) := by
    rw [Nat.and_div_two_pow, Nat.mul_div_cancel_left m hpow, hpred]
  have heven : (m &&& (m - 1)) % 2 ≠ 1 := by
    rw [Ne, Nat.and_mod_two_eq_one]
    omega
  rw [← Nat.div_add_mod (2 ^ i * m &&& (2 ^ i * m - 1)) (2 ^ i), hmod, hdiv, Nat.add_zero,
    Nat.pow_succ]
  exact Nat.mul_dvd_mul_left _ (Nat.dvd_of_mod_eq_zero (by omega))

theorem log2_and_sub_one {n : ℕ} (h : n &&& (n - 1) ≠ 0) :
    Nat.log2 (n &&& (n - 1)) = Nat.log2 n := by
  have hn : n ≠ 0 := by
    rintro rfl
    exact h (Nat.zero_and _)
  have hpow : ¬ n.isPowerOfTwo := fun hpow =>
    h ((Nat.and_sub_one_eq_zero_iff_isPowerOfTwo hn).2 hpow)
  refine (Nat.log2_eq_iff h).2 ⟨?_, ?_⟩
  · exact Nat.ge_two_pow_of_testBit (Nat.and_sub_one_testBit_log2 hn hpow)
  · exact lt_of_le_of_lt Nat.and_le_left Nat.lt_log2_self

variable {n : BitVec 32}

theorem toNat_and_sub_one (hn : n.toNat ≠ 0) :
    (n &&& (n - 1)).toNat = n.toNat &&& (n.toNat - 1) := by
  have hlt := n.isLt
  rw [BitVec.toNat_and, BitVec.toNat_sub]
  congr 1
  have hone : (1 : BitVec 32).toNat = 1 := rfl
  rw [hone]
  omega

theorem toNat_unsetRightmost {left : ℕ} (hleft : left ≤ 32) (hn : n.toNat ≠ 0)
    (h : 2 ^ (32 - left) ∣ n.toNat) : (unsetRightmost left n).toNat = 2 ^ Nat.log2 n.toNat := by
  induction left generalizing n with
  | zero =>
    have hle := Nat.le_of_dvd (Nat.pos_of_ne_zero hn) h
    exact absurd n.isLt (not_lt.2 hle)
  | succ left ih =>
    rw [unsetRightmost]
    split_ifs with hmany
    · have hmany' : n.toNat &&& (n.toNat - 1) ≠ 0 := by
        rw [← toNat_and_sub_one hn]
        exact fun hzero => hmany (BitVec.eq_of_toNat_eq hzero)
      have hdvd := two_pow_dvd_and_sub_one hn h
      rw [show 32 - (left + 1) + 1 = 32 - left by omega] at hdvd
      rw [ih (by omega) (by rwa [toNat_and_sub_one hn]) (by rwa [toNat_and_sub_one hn]),
        toNat_and_sub_one hn, log2_and_sub_one hmany']
    · have hone : n.toNat &&& (n.toNat - 1) = 0 := by
        rw [← toNat_and_sub_one hn, not_not.1 hmany]
        rfl
      obtain ⟨k, hk⟩ := (Nat.and_sub_one_eq_zero_iff_isPowerOfTwo hn).1 hone
      rw [hk, Nat.log2_two_pow]

/-- What `next_powerOf2` does with a number. -/
structure NextPower (n : BitVec 32) : Prop where
  /-- The loop has ended. -/
  ends : unsetRightmost 32 (n - 1) &&& (unsetRightmost 32 (n - 1) - 1) = 0
  least : 2 ≤ n.toNat → n.toNat ≤ 2 ^ 31 →
    IsLeast {m : ℕ | m.isPowerOfTwo ∧ n.toNat ≤ m} (nextPowerOf2 n).toNat

theorem toNat_sub_one (hn : 1 ≤ n.toNat) : (n - 1).toNat = n.toNat - 1 := by
  have hlt := n.isLt
  have hone : (1 : BitVec 32).toNat = 1 := rfl
  rw [BitVec.toNat_sub, hone]
  omega

theorem toNat_nextPowerOf2 (hmany : 2 ≤ n.toNat) (hle : n.toNat ≤ 2 ^ 31) :
    (nextPowerOf2 n).toNat = 2 ^ (Nat.log2 (n.toNat - 1) + 1) := by
  have hpred := toNat_sub_one (show 1 ≤ n.toNat by omega)
  have hlog : Nat.log2 (n.toNat - 1) < 31 := (Nat.log2_lt (by omega)).2 (by omega)
  have hhigh := toNat_unsetRightmost le_rfl (show (n - 1).toNat ≠ 0 by omega) (Nat.one_dvd _)
  rw [nextPowerOf2, BitVec.toNat_shiftLeft, hhigh, hpred, Nat.shiftLeft_eq, ← Nat.pow_add]
  exact Nat.mod_eq_of_lt (Nat.pow_lt_pow_right (by decide) (by omega))

theorem nextPower (n : BitVec 32) : NextPower n where
  ends := by
    by_cases hzero : (n - 1).toNat = 0
    · have hpred : n - 1 = 0 := BitVec.eq_of_toNat_eq hzero
      rw [hpred]
      rfl
    · have hhigh := toNat_unsetRightmost le_rfl hzero (Nat.one_dvd _)
      have hpos : (unsetRightmost 32 (n - 1)).toNat ≠ 0 := by
        rw [hhigh]
        exact (Nat.two_pow_pos _).ne'
      refine BitVec.eq_of_toNat_eq ?_
      rw [toNat_and_sub_one hpos]
      exact (Nat.and_sub_one_eq_zero_iff_isPowerOfTwo hpos).2 ⟨_, hhigh⟩
  least := by
    intro hmany hle
    rw [toNat_nextPowerOf2 hmany hle]
    refine ⟨⟨⟨_, rfl⟩, ?_⟩, ?_⟩
    · have hlt := Nat.lt_log2_self (n := n.toNat - 1)
      omega
    · rintro m ⟨⟨k, rfl⟩, hk⟩
      exact Nat.pow_le_pow_right (by decide) ((Nat.log2_lt (by omega)).2 (by omega))

/-! ## The channels -/

theorem log2_sub_one_of_isPowerOfTwo {n : ℕ} (hmany : 2 ≤ n) (h : n.isPowerOfTwo) :
    Nat.log2 (n - 1) + 1 = Nat.log2 n := by
  obtain ⟨k, rfl⟩ := h
  cases k with
  | zero => exact absurd hmany (by decide)
  | succ k =>
    have hpos := Nat.two_pow_pos k
    have hlog : Nat.log2 (2 ^ (k + 1) - 1) = k := by
      rw [Nat.log2_eq_iff (by omega), Nat.pow_succ]
      omega
    rw [hlog, Nat.log2_two_pow]

theorem log2_sub_one_of_not_isPowerOfTwo {n : ℕ} (hpos : 1 ≤ n) (h : ¬ n.isPowerOfTwo) :
    Nat.log2 (n - 1) = Nat.log2 n := by
  have hle : 2 ^ Nat.log2 n ≤ n := Nat.log2_self_le (by omega)
  have hlt : n < 2 ^ (Nat.log2 n + 1) := Nat.lt_log2_self
  have hne : n ≠ 2 ^ Nat.log2 n := fun hn => h ⟨_, hn⟩
  have hpow := Nat.two_pow_pos (Nat.log2 n)
  rw [Nat.log2_eq_iff (by omega)]
  exact ⟨by omega, by omega⟩

/-- What `init` keeps of the number of channels. -/
structure ChannelBits (n : BitVec 32) (t : Translation) : Prop where
  log2channel : 1 ≤ n.toNat → t.log2channel.toNat = Nat.log2 n.toNat
  gap : 1 ≤ n.toNat → t.gap.toNat = n.toNat - 2 ^ t.log2channel.toNat
  gap_eq_zero : t.gap = 0 ↔ n.toNat.isPowerOfTwo
  nextPowerOf2 : 2 ≤ n.toNat → n.toNat ≤ 2 ^ 31 → t.nextPowerOf2NChannel.toNat =
    2 ^ if t.gap = 0 then t.log2channel.toNat else t.log2channel.toNat + 1
  le : 2 ≤ n.toNat → n.toNat ≤ 2 ^ 31 → n.toNat ≤ t.nextPowerOf2NChannel.toNat

theorem powli_two (k : ℕ) : powli 2 k = (2 ^ k : ℕ) := by
  induction k with
  | zero => rfl
  | succ k ih =>
    rw [powli, ih, Nat.pow_succ]
    push_cast
    rfl

theorem toNat_gap (hn : 1 ≤ n.toNat) :
    (n - BitVec.ofInt 32 (powli 2 (logb2_32 n).toNat)).toNat = n.toNat - 2 ^ Nat.log2 n.toNat := by
  have hle : 2 ^ Nat.log2 n.toNat ≤ n.toNat := Nat.log2_self_le (by omega)
  have hlt := n.isLt
  rw [powli_two, toNat_logb2_32 hn, BitVec.toNat_sub, BitVec.ofInt_natCast, BitVec.toNat_ofNat,
    Nat.mod_eq_of_lt (lt_of_le_of_lt hle hlt)]
  generalize 2 ^ Nat.log2 n.toNat = m at hle
  omega

theorem gap_eq_zero_iff (n : BitVec 32) :
    n - BitVec.ofInt 32 (powli 2 (logb2_32 n).toNat) = 0 ↔ n.toNat.isPowerOfTwo := by
  by_cases hn : 1 ≤ n.toNat
  · rw [← BitVec.toNat_inj, toNat_gap hn]
    change n.toNat - 2 ^ Nat.log2 n.toNat = 0 ↔ _
    have hle : 2 ^ Nat.log2 n.toNat ≤ n.toNat := Nat.log2_self_le (by omega)
    constructor
    · intro hgap
      exact ⟨Nat.log2 n.toNat, by omega⟩
    · rintro ⟨k, hk⟩
      rw [hk, Nat.log2_two_pow, Nat.sub_self]
  · obtain rfl : n = 0 := BitVec.eq_of_toNat_eq (show n.toNat = 0 by omega)
    constructor
    · intro h
      exact absurd h (by decide)
    · rintro ⟨k, hk⟩
      exact absurd hk (Nat.two_pow_pos k).ne

theorem channelBits {t : Translation} (hlog : t.log2channel = logb2_32 n)
    (hgap : t.gap = n - BitVec.ofInt 32 (powli 2 (logb2_32 n).toNat))
    (hnext : t.nextPowerOf2NChannel = nextPowerOf2 n) : ChannelBits n t where
  log2channel hn := by rw [hlog, toNat_logb2_32 hn]
  gap hn := by rw [hgap, toNat_gap hn, hlog, toNat_logb2_32 hn]
  gap_eq_zero := by rw [hgap, gap_eq_zero_iff]
  nextPowerOf2 hmany hle := by
    rw [hnext, toNat_nextPowerOf2 hmany hle, hlog, toNat_logb2_32 (by omega)]
    split_ifs with hzero
    · rw [hgap, gap_eq_zero_iff] at hzero
      rw [log2_sub_one_of_isPowerOfTwo hmany hzero]
    · rw [hgap, gap_eq_zero_iff] at hzero
      rw [log2_sub_one_of_not_isPowerOfTwo (by omega) hzero]
  le hmany hle := by
    rw [hnext]
    exact ((nextPower n).least hmany hle).1.2

/-- `next_powerOf2` ends, and finds the least power of two from 2 on, and `init` keeps the logarithm
of the number of channels, and a gap that is zero for powers of two only. -/
theorem nextPower_channelBits (p : Platform) (options : AddressOptions) (n nSub : BitVec 32)
    (s : Interleaving) : NextPower n ∧
      OkOr (fun r => ChannelBits n r.1) (fun _ => True) (init p options n nSub s) := by
  refine ⟨nextPower n, ?_⟩
  have htrue {α : Type} (x : Except AddressFailure α) : OkOr (fun _ => True) (fun _ => True) x :=
    .intro (fun _ _ => trivial) fun _ _ => trivial
  rw [init]
  dsimp only
  refine (htrue _).bind fun table _ => (htrue _).bind fun mask _ => ?_
  refine .ite (fun _ => trivial) fun _ => ?_
  exact (htrue _).bind fun s' _ => channelBits rfl rfl rfl

/-- For three channels `log2channel` is 1, but the next power of two is 4. -/
theorem nextPowerOf2_three_ne : (nextPowerOf2 3).toNat ≠ 2 ^ (logb2_32 3).toNat := by
  decide

end GpuCalorie.AddressDecode
