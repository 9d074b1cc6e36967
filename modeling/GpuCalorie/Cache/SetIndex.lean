/-
# Set and bank indices

A cache finds the set of an address with `hash_function`, for which the configuration names one of
five functions, and the first-level data cache finds its bank with the same function. `set_bank`
passes the byte interleaving where `hash_function` takes its logarithm, so that an address is
shifted by as many bits as the interleaving has bytes: with more banks than one, chunks that follow
each other are not in banks that follow each other.
-/

import GpuCalorie.AddressDecode.PowerOfTwo
import GpuCalorie.AddressDecode.Translation
import Mathlib.Tactic.Common

namespace GpuCalorie.Cache

open GpuCalorie.AddressDecode

/-- `set_index_function`. -/
inductive SetIndexFunction
  | linear
  | bitwiseXoring
  | hashIpoly
  | fermiHash
  | custom
  deriving DecidableEq, Repr

/-- The index of `FERMI_HASH_SET_FUNCTION`, for 32 or 64 sets. -/
def fermiHash (p : Platform) (addr : BitVec 64) (nset lineSzLog2 : BitVec 32) : BitVec 32 :=
  let lowerXor := (p.shr addr lineSzLog2.toNat &&& 0x1F).setWidth 32
  let upperXor := ((addr &&& 0xE000) >>> 13).setWidth 32
  let upperXor := upperXor ||| ((addr &&& 0x20000) >>> 14).setWidth 32
  let upperXor := upperXor ||| ((addr &&& 0x80000) >>> 15).setWidth 32
  let setIndex := lowerXor ^^^ upperXor
  if nset = 64 then setIndex ||| ((addr &&& 0x1000) >>> 7).setWidth 32 else setIndex

/-- `hash_function`. -/
def hashFunction (p : Platform) (addr : BitVec 64) (nset lineSzLog2 nsetLog2 : BitVec 32)
    (indexFunction : SetIndexFunction) : Except AddressFailure (BitVec 32) := do
  let higherBits := p.shr addr (lineSzLog2 + nsetLog2).toNat
  let index := (p.shr addr lineSzLog2.toNat &&& (nset - 1).setWidth 64).setWidth 32
  let setIndex ← match indexFunction with
    | .fermiHash =>
      if nset = 32 ∨ nset = 64 then pure (fermiHash p addr nset lineSzLog2) else throw .assertion
    | .bitwiseXoring => pure (bitwiseHashFunction higherBits index nset)
    | .hashIpoly => ipolyHashFunction higherBits index nset
    | .custom => pure 0
    | .linear => pure index
  if setIndex < nset then return setIndex else throw .assertion

/-! ## Configurations -/

/-- `cache_config`, as far as its sets go. -/
structure IndexConfig where
  lineSz : BitVec 32
  nset : BitVec 32
  setIndexFunction : SetIndexFunction

/-- `cache_config::set_index`. -/
def IndexConfig.setIndex (p : Platform) (cfg : IndexConfig) (addr : BitVec 64) :
    Except AddressFailure (BitVec 32) :=
  hashFunction p addr cfg.nset (logb2_32 cfg.lineSz) (logb2_32 cfg.nset) cfg.setIndexFunction

/-- `l1d_cache_config`, as far as its banks go. -/
structure L1dCacheConfig where
  l1Banks : BitVec 32
  l1BanksByteInterleaving : BitVec 32
  l1BanksHashingFunction : SetIndexFunction

namespace L1dCacheConfig

variable (cfg : L1dCacheConfig)

/-- `m_l1_banks_log2`. -/
def l1BanksLog2 : BitVec 32 := logb2_32 cfg.l1Banks

/-- `m_banks_byte_interleaving_log2`. -/
def banksByteInterleavingLog2 : BitVec 32 := logb2_32 cfg.l1BanksByteInterleaving

/-- `set_bank`. -/
def setBank (p : Platform) (addr : BitVec 64) : Except AddressFailure (BitVec 32) :=
  hashFunction p addr cfg.l1Banks cfg.l1BanksByteInterleaving cfg.l1BanksLog2
    cfg.l1BanksHashingFunction

end L1dCacheConfig

/-! ## Logarithms -/

theorem logb2_32_le {v : BitVec 32} {s : ℕ} (h : v.toNat ≤ 2 ^ s) : (logb2_32 v).toNat ≤ s := by
  rcases Nat.eq_zero_or_pos v.toNat with hzero | hpos
  · have hv : v = 0#32 := BitVec.eq_of_toNat_eq hzero
    rw [hv]
    exact Nat.zero_le _
  · rw [toNat_logb2_32 hpos]
    exact (Nat.pow_le_pow_iff_right (by decide)).1 ((Nat.log2_self_le hpos.ne').trans h)

theorem logb2_32_lt (v : BitVec 32) : (logb2_32 v).toNat < 32 := by
  rcases Nat.eq_zero_or_pos v.toNat with hzero | hpos
  · have hv : v = 0#32 := BitVec.eq_of_toNat_eq hzero
    rw [hv]
    decide
  · rw [toNat_logb2_32 hpos]
    exact (Nat.log2_lt hpos.ne').2 v.isLt

/-! ## Banks of the first-level data cache -/

/-- What `init` accepts for the linear function: powers of two. -/
structure L1dCacheConfig.Accepted (cfg : L1dCacheConfig) : Prop where
  banks : ∃ b < 32, cfg.l1Banks = BitVec.twoPow 32 b
  interleaving : ∃ m < 32, cfg.l1BanksByteInterleaving = BitVec.twoPow 32 m
  linear : cfg.l1BanksHashingFunction = .linear

/-- Chunks of the interleaving go round the banks. -/
structure Interleaved (p : Platform) (cfg : L1dCacheConfig) : Prop where
  bank : ∀ addr, cfg.setBank p addr
    = .ok (BitVec.ofNat 32 (addr.toNat / cfg.l1BanksByteInterleaving.toNat % cfg.l1Banks.toNat))
  inRange : ∀ addr, ∃ bank < cfg.l1Banks, cfg.setBank p addr = .ok bank
  consecutive : ∀ addr : BitVec 64, addr.toNat + cfg.l1BanksByteInterleaving.toNat < 2 ^ 64 →
    ∀ bank bank',
    cfg.setBank p addr = .ok bank →
      cfg.setBank p (addr + cfg.l1BanksByteInterleaving.setWidth 64) = .ok bank' →
        bank'.toNat = (bank.toNat + 1) % cfg.l1Banks.toNat
  sameChunk : ∀ addr addr' : BitVec 64,
    addr.toNat / cfg.l1BanksByteInterleaving.toNat =
      addr'.toNat / cfg.l1BanksByteInterleaving.toNat →
      cfg.setBank p addr = cfg.setBank p addr'

variable {cfg : L1dCacheConfig} {p : Platform}

theorem setBank_eq (hcfg : cfg.Accepted) (addr : BitVec 64) : cfg.setBank p addr
      = .ok ((p.shr addr cfg.l1BanksByteInterleaving.toNat &&&
        (cfg.l1Banks - 1).setWidth 64).setWidth 32) ∧
    (p.shr addr cfg.l1BanksByteInterleaving.toNat &&& (cfg.l1Banks - 1).setWidth 64).setWidth 32 <
    cfg.l1Banks := by
  obtain ⟨b, hb, hbanks⟩ := hcfg.banks
  have hpos : 0 < cfg.l1Banks.toNat := by
    rw [hbanks, BitVec.toNat_twoPow_of_lt hb]
    exact Nat.two_pow_pos b
  have hmask : (cfg.l1Banks - 1).toNat = cfg.l1Banks.toNat - 1 := by
    have hlt := cfg.l1Banks.isLt
    rw [BitVec.toNat_sub]
    change (2 ^ 32 - 1 + cfg.l1Banks.toNat) % 2 ^ 32 = _
    omega
  have hlt : (p.shr addr cfg.l1BanksByteInterleaving.toNat &&&
    (cfg.l1Banks - 1).setWidth 64).setWidth 32
      < cfg.l1Banks := by
    rw [BitVec.lt_def, BitVec.toNat_setWidth, BitVec.toNat_and, BitVec.toNat_setWidth, hmask]
    have hle : (p.shr addr cfg.l1BanksByteInterleaving.toNat).toNat &&&
      ((cfg.l1Banks.toNat - 1) % 2 ^ 64)
        ≤ (cfg.l1Banks.toNat - 1) % 2 ^ 64 := Nat.and_le_right
    have hmod := Nat.mod_le (cfg.l1Banks.toNat - 1) (2 ^ 64)
    exact lt_of_le_of_lt (Nat.mod_le _ _) (by omega)
  refine ⟨?_, hlt⟩
  rw [L1dCacheConfig.setBank, hashFunction.eq_def, hcfg.linear]
  dsimp only [bind, Except.bind, pure, Except.pure]
  rw [if_pos hlt]

theorem interleaved_of_oneBank (hcfg : cfg.Accepted) (hone : cfg.l1Banks = 1) :
    Interleaved p cfg := by
  have hbank (addr : BitVec 64) : cfg.setBank p addr = .ok 0 := by
    rw [(setBank_eq hcfg addr).1, hone]
    refine congrArg Except.ok (BitVec.eq_of_toNat_eq ?_)
    rw [BitVec.toNat_setWidth, BitVec.toNat_and]
    change ((p.shr addr cfg.l1BanksByteInterleaving.toNat).toNat &&& 0) % 2 ^ 32 = 0
    rw [Nat.and_zero, Nat.zero_mod]
  refine ⟨fun addr => ?_, fun addr => ⟨0, ?_, hbank addr⟩, ?_, fun addr addr' _ => ?_⟩
  · rw [hbank, hone]
    change _ = Except.ok (BitVec.ofNat 32 (_ % 1))
    rw [Nat.mod_one]
    rfl
  · rw [hone]
    decide
  · intro addr _ bank bank' h h'
    cases (hbank addr).symm.trans h
    cases (hbank _).symm.trans h'
    rw [hone]
    rfl
  · rw [hbank, hbank]

theorem setBank_secondChunk (hcfg : cfg.Accepted) (hp : ∀ x s, p.shiftRight x s = 0) :
    cfg.setBank p (cfg.l1BanksByteInterleaving.setWidth 64) = .ok 0 := by
  obtain ⟨m, hm, hinterleaving⟩ := hcfg.interleaving
  have hpow : cfg.l1BanksByteInterleaving.toNat = 2 ^ m := by
    rw [hinterleaving, BitVec.toNat_twoPow_of_lt hm]
  have hzero : p.shr (cfg.l1BanksByteInterleaving.setWidth 64) cfg.l1BanksByteInterleaving.toNat =
      0#64 := by
    rw [Platform.shr]
    split_ifs with hin
    · refine BitVec.eq_of_toNat_eq ?_
      rw [Int.toNat_natCast, BitVec.toNat_ushiftRight, BitVec.toNat_setWidth, hpow,
        Nat.shiftRight_eq_div_pow]
      have hlt : 2 ^ m < 2 ^ 2 ^ m := Nat.pow_lt_pow_right (by decide) Nat.lt_two_pow_self
      exact Nat.div_eq_of_lt (lt_of_le_of_lt (Nat.mod_le _ _) hlt)
    · exact hp _ _
  rw [(setBank_eq hcfg _).1, hzero, BitVec.zero_and]
  rfl

/-- Chunks go round the banks, whatever the shifts are that the language leaves undefined, if and
only if there is one bank. -/
theorem interleaved_iff {cfg : L1dCacheConfig} (hcfg : cfg.Accepted) :
    (∀ p, Interleaved p cfg) ↔ cfg.l1Banks = 1 := by
  constructor
  · intro h
    obtain ⟨b, hb, hbanks⟩ := hcfg.banks
    obtain ⟨m, hm, hinterleaving⟩ := hcfg.interleaving
    have hzero :=
      setBank_secondChunk (p := ⟨fun _ _ => 0, fun x _ => x, fun _ => 0, fun _ => 0⟩) hcfg
      fun _ _ => rfl
    rw [(h _).bank] at hzero
    have hnat := congrArg BitVec.toNat (Except.ok.inj hzero)
    have hchunk : (cfg.l1BanksByteInterleaving.setWidth 64 : BitVec 64).toNat =
        cfg.l1BanksByteInterleaving.toNat := by
      rw [BitVec.toNat_setWidth]
      exact Nat.mod_eq_of_lt (lt_trans cfg.l1BanksByteInterleaving.isLt (by decide))
    have hpos : 0 < cfg.l1BanksByteInterleaving.toNat := by
      rw [hinterleaving, BitVec.toNat_twoPow_of_lt hm]
      exact Nat.two_pow_pos m
    rw [hchunk, Nat.div_self hpos, hbanks, BitVec.toNat_twoPow_of_lt hb] at hnat
    cases b with
    | zero => exact hbanks
    | succ b =>
        have hle : 2 ^ 1 ≤ 2 ^ (b + 1) :=
          Nat.pow_le_pow_right (show 0 < 2 by decide) (Nat.succ_pos b)
        rw [Nat.mod_eq_of_lt (by omega)] at hnat
        exact absurd hnat (by decide)
  · exact fun hone p => interleaved_of_oneBank hcfg hone

/-- One bank. -/
theorem interleaved_oneBank :
    Interleaved ⟨fun _ _ => 0, fun _ _ => 0, fun _ => 0, fun _ => 0⟩ ⟨1, 32, .linear⟩ :=
  (interleaved_iff ⟨⟨0, by decide, rfl⟩, ⟨5, by decide, rfl⟩, rfl⟩).mpr rfl _

/-- Four banks with an interleaving of 32 bytes: the second chunk is in the first bank. -/
theorem not_interleaved : ¬ ∃ p, Interleaved p ⟨4, 32, .linear⟩ := by
  rintro ⟨p, h⟩
  have hbank := h.bank 32
  have hshift : p.shr 32 32 = (32 : BitVec 64) >>> 32 := by
    rw [Platform.shr, if_pos (by decide)]
    rfl
  rw [(setBank_eq ⟨⟨2, by decide, rfl⟩, ⟨5, by decide, rfl⟩, rfl⟩ 32).1] at hbank
  change Except.ok ((p.shr 32 32 &&& _).setWidth 32) = _ at hbank
  rw [hshift] at hbank
  exact absurd (Except.ok.inj hbank) (by decide)

end GpuCalorie.Cache
