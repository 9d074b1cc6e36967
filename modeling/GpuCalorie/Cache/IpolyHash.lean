/-
# Conflicts under the polynomial hash

Each bit of the hash is a sum of bits of the line's number, so that the hashes of two lines differ
by that of the difference. The lines of a stride differ in as many bits next to each other as the
index has, and they have different sets as long as the hash takes all of these bits. Strides that
are too large leave the last of them out.
-/

import GpuCalorie.Cache.SetIndex
import Mathlib.Data.List.GetD

namespace GpuCalorie.Cache

open GpuCalorie.AddressDecode

/-! ## The bits of the hash -/

/-- Bit `r` of the hash of a line. -/
def lineBit (rows : List (List ℕ)) (line : BitVec 64) (r : ℕ) : Bool :=
  xorBits (line >>> rows.length) (rows.getD r []) ^^ line.getLsbD r

theorem xorBits_xor (a b : BitVec 64) (row : List ℕ) :
    xorBits (a ^^^ b) row = (xorBits a row ^^ xorBits b row) := by
  induction row with
  | nil => rfl
  | cons i row ih =>
      change ((a ^^^ b).getLsbD i ^^ xorBits (a ^^^ b) row)
        = ((a.getLsbD i ^^ xorBits a row) ^^ (b.getLsbD i ^^ xorBits b row))
      rw [ih, BitVec.getLsbD_xor]
      cases a.getLsbD i <;> cases b.getLsbD i <;> cases xorBits a row <;> cases xorBits b row <;>
        rfl

theorem lineBit_xor (rows : List (List ℕ)) (a b : BitVec 64) (r : ℕ) :
    lineBit rows (a ^^^ b) r = (lineBit rows a r ^^ lineBit rows b r) := by
  rw [lineBit, lineBit, lineBit, BitVec.ushiftRight_xor_distrib, xorBits_xor, BitVec.getLsbD_xor]
  cases xorBits (a >>> rows.length) (rows.getD r []) <;>
    cases xorBits (b >>> rows.length) (rows.getD r []) <;>
    cases a.getLsbD r <;> cases b.getLsbD r <;> rfl

theorem getLsbD_foldl_or {α : Type*} (bit : α → ℕ → Bool) (items : List α) (m : ℕ) (acc : BitVec 32)
    {r : ℕ}
    (hr : r < 32) :
    ((items.zipIdx m).foldl (fun acc (a, i) => if bit a i then acc ||| 1#32 <<< i else acc)
    acc).getLsbD r
      = (acc.getLsbD r || (decide (m ≤ r) && (items[r - m]?.any fun a => bit a r))) := by
  induction items generalizing m acc with
  | nil => simp
  | cons a items ih =>
      rw [List.zipIdx_cons, List.foldl_cons, ih]
      dsimp only
      by_cases heq : m = r
      · subst heq
        rw [Nat.sub_self, List.getElem?_cons_zero, Option.any_some]
        have hnot : ¬ m + 1 ≤ m := by omega
        rw [decide_eq_false hnot, Bool.false_and, Bool.or_false, decide_eq_true (le_refl m),
          Bool.true_and]
        cases hbit : bit a m with
        | false => simp
        | true => simp [hr]
      · have hother : (if bit a m then acc ||| 1#32 <<< m else acc).getLsbD r = acc.getLsbD r := by
          split_ifs
          · have hne : ¬ r - m = 0 ∨ r < m := by omega
            rw [BitVec.getLsbD_or, BitVec.getLsbD_shiftLeft, BitVec.getLsbD_one]
            rcases hne with hne | hlt
            · simp [hne]
            · simp [hlt]
          · rfl
        rw [hother]
        by_cases hle : m + 1 ≤ r
        · have hsub : r - m = (r - (m + 1)) + 1 := by omega
          rw [decide_eq_true hle, decide_eq_true (by omega : m ≤ r), hsub, List.getElem?_cons_succ]
        · rw [decide_eq_false hle, decide_eq_false (by omega : ¬ m ≤ r), Bool.false_and,
            Bool.false_and]

variable {n : BitVec 32}

theorem ipolyHashFunction_ok {rows : List (List ℕ)} (hrows : ipolyRows n.toNat = some rows)
    (higherBits : BitVec 64) (index : BitVec 32) :
    ∃ set, ipolyHashFunction higherBits index n = .ok set ∧
      ∀ r < 32, set.getLsbD r = (decide (r < rows.length) &&
        (xorBits higherBits (rows.getD r []) ^^ index.getLsbD r)) := by
  rw [ipolyHashFunction, hrows]
  refine ⟨_, rfl, fun r hr => ?_⟩
  refine (getLsbD_foldl_or (fun row i => xorBits higherBits row ^^ index.getLsbD i) rows 0 0#32
    hr).trans ?_
  rw [BitVec.getLsbD_zero, Bool.false_or, decide_eq_true (Nat.zero_le r), Bool.true_and,
    Nat.sub_zero]
  by_cases hlt : r < rows.length
  · rw [List.getElem?_eq_getElem hlt, Option.any_some, decide_eq_true hlt, Bool.true_and,
      List.getD_eq_getElem _ _ hlt]
  · rw [List.getElem?_eq_none (Nat.not_lt.1 hlt), Option.any_none, decide_eq_false hlt,
      Bool.false_and]

/-! ## The three sizes -/

/-- The greatest stride without conflicts, as a power of two of lines. -/
def strideLimit : ℕ → ℕ
  | 16 => 13
  | 32 => 15
  | 64 => 19
  | _ => 0

/-- What is computed of the rows of a size. -/
structure RowFacts (n : ℕ) (rows : List (List ℕ)) : Prop where
  rows_eq : ipolyRows n = some rows
  size : n = 2 ^ rows.length
  length_le : rows.length ≤ 6
  pos : 0 < rows.length
  /-- The rows take no bits beyond the limit. -/
  row_lt : ∀ row ∈ rows, ∀ i ∈ row, i < strideLimit n
  /-- Lines of a stride up to the limit have hashes that differ. -/
  distinct : ∀ t < strideLimit n + 1, ∀ d < n, d ≠ 0 →
    ∃ r < rows.length, lineBit rows (BitVec.ofNat 64 (d * 2 ^ t)) r = true

theorem rowFacts {n : ℕ} (hn : n ∈ [16, 32, 64]) : ∃ rows, RowFacts n rows := by
  rcases List.mem_cons.1 hn with rfl | hn
  · exact ⟨_, rfl, by decide, by decide, by decide, by decide, by decide +kernel⟩
  · rcases List.mem_cons.1 hn with rfl | hn
    · exact ⟨_, rfl, by decide, by decide, by decide, by decide, by decide +kernel⟩
    · obtain rfl := List.mem_singleton.1 hn
      exact ⟨_, rfl, by decide, by decide, by decide, by decide, by decide +kernel⟩

/-! ## The set of an address -/

section SetOfAddress

variable {p : Platform} {cfg : IndexConfig} {rows : List (List ℕ)}
    (h : RowFacts cfg.nset.toNat rows)
  (hipoly : cfg.setIndexFunction = .hashIpoly)

include h

theorem RowFacts.toNat_logb2 : (logb2_32 cfg.nset).toNat = rows.length := by
  have hall : ∀ k < 7, (logb2_32 (BitVec.ofNat 32 (2 ^ k))).toNat = k := by decide
  have hnset : cfg.nset = BitVec.ofNat 32 (2 ^ rows.length) := by
    rw [← h.size, BitVec.ofNat_toNat, BitVec.setWidth_eq]
  rw [hnset]
  exact hall _ (Nat.lt_succ_of_le h.length_le)

include hipoly

theorem RowFacts.setIndex_ok (addr : BitVec 64) :
    ∃ set, cfg.setIndex p addr = .ok set ∧ set < cfg.nset ∧
    ∀ r < 32, set.getLsbD r
      = (decide (r < rows.length) && lineBit rows (addr >>> (logb2_32 cfg.lineSz).toNat) r) := by
  have hline := logb2_32_lt cfg.lineSz
  have hlog := h.toNat_logb2
  have hlength := h.length_le
  have hsum : (logb2_32 cfg.lineSz + logb2_32 cfg.nset).toNat =
      (logb2_32 cfg.lineSz).toNat + rows.length := by
    rw [BitVec.toNat_add, hlog]
    exact Nat.mod_eq_of_lt (by omega)
  have hshr {k : ℕ} (hk : k < 64) : p.shr addr (k : ℤ) = addr >>> k := by
    rw [Platform.shr, if_pos (by omega), Int.toNat_natCast]
  obtain ⟨set, hset, hbits⟩ := ipolyHashFunction_ok h.rows_eq
    (addr >>> ((logb2_32 cfg.lineSz).toNat + rows.length))
    ((addr >>> (logb2_32 cfg.lineSz).toNat &&& (cfg.nset - 1).setWidth 64).setWidth 32)
  have hline' : ∀ r < 32, set.getLsbD r
      = (decide (r < rows.length) && lineBit rows (addr >>> (logb2_32 cfg.lineSz).toNat) r) := by
    intro r hr
    rw [hbits r hr]
    by_cases hlt : r < rows.length
    · have hmask : (cfg.nset - 1).getLsbD r = true := by
        have hall : ∀ k < 7, ∀ r < k, (BitVec.ofNat 32 (2 ^ k) - 1#32).getLsbD r = true := by decide
        have hnset : cfg.nset = BitVec.ofNat 32 (2 ^ rows.length) := by
          rw [← h.size, BitVec.ofNat_toNat, BitVec.setWidth_eq]
        rw [hnset]
        exact hall _ (Nat.lt_succ_of_le hlength) r hlt
      rw [lineBit, BitVec.getLsbD_setWidth, BitVec.getLsbD_and, BitVec.getLsbD_setWidth, hmask,
        BitVec.shiftRight_add, decide_eq_true hr, decide_eq_true (by omega : r < 64), Bool.and_true,
          Bool.and_true,
        Bool.true_and]
    · rw [decide_eq_false hlt, Bool.false_and, Bool.false_and]
  have hlt : set < cfg.nset := by
    rw [BitVec.lt_def, h.size]
    refine Nat.lt_pow_two_of_testBit _ fun r hr => ?_
    by_cases hr' : r < 32
    · have hbit := hline' r hr'
      rw [decide_eq_false (Nat.not_lt.2 hr), Bool.false_and] at hbit
      exact hbit
    · exact BitVec.getLsbD_of_ge set r (Nat.not_lt.1 hr')
  refine ⟨set, ?_, hlt, hline'⟩
  rw [IndexConfig.setIndex, hashFunction.eq_def, hsum, hshr (by omega), hshr (by omega), hipoly]
  dsimp only
  rw [hset]
  dsimp only [bind, Except.bind]
  rw [if_pos hlt]
  rfl

theorem RowFacts.setIndex_eq_iff (a b : BitVec 64) : cfg.setIndex p a = cfg.setIndex p b ↔
    ∀ r < rows.length, lineBit rows ((a ^^^ b) >>> (logb2_32 cfg.lineSz).toNat) r = false := by
  obtain ⟨setA, hA, -, hbitsA⟩ := h.setIndex_ok (p := p) hipoly a
  obtain ⟨setB, hB, -, hbitsB⟩ := h.setIndex_ok (p := p) hipoly b
  have hlength := h.length_le
  rw [hA, hB, Except.ok.injEq]
  constructor
  · rintro rfl r hr
    have hbit := (hbitsA r (by omega)).symm.trans (hbitsB r (by omega))
    rw [decide_eq_true hr, Bool.true_and, Bool.true_and] at hbit
    rw [BitVec.ushiftRight_xor_distrib, lineBit_xor, hbit, Bool.xor_self]
  · intro hzero
    refine BitVec.eq_of_getLsbD_eq fun r hr => ?_
    rw [hbitsA r hr, hbitsB r hr]
    by_cases hlt : r < rows.length
    · have hbit := hzero r hlt
      rw [BitVec.ushiftRight_xor_distrib, lineBit_xor] at hbit
      have heq : ∀ x y : Bool, (x ^^ y) = false → x = y := by decide
      rw [heq _ _ hbit]
    · rw [decide_eq_false hlt, Bool.false_and, Bool.false_and]

end SetOfAddress

/-! ## Addresses of a stride -/

/-- The accesses of a stride. -/
def strided (base : BitVec 64) (s i : ℕ) : BitVec 64 := base + BitVec.ofNat 64 (i * 2 ^ s)

theorem testBit_mul_two_pow' (i s q : ℕ) :
    (i * 2 ^ s).testBit q = (decide (s ≤ q) && i.testBit (q - s)) := by
  rw [← Nat.shiftLeft_eq, Nat.testBit_shiftLeft]

theorem getLsbD_strided {base : BitVec 64} {k s i : ℕ} (hbase : 2 ^ k * 2 ^ s ∣ base.toNat)
    (hi : i < 2 ^ k)
    (hs : s + k ≤ 64) {q : ℕ} (hq : q < 64) : (strided base s i).getLsbD q
      = (base.getLsbD q ^^ (decide (s ≤ q) && i.testBit (q - s))) := by
  obtain ⟨c, hc⟩ := hbase
  have hpow : 2 ^ k * 2 ^ s = 2 ^ (s + k) := by rw [← pow_add, Nat.add_comm]
  rw [hpow] at hc
  have hlt : i * 2 ^ s < 2 ^ (s + k) := by
    rw [← hpow]
    exact Nat.mul_lt_mul_of_pos_right hi (Nat.two_pow_pos s)
  have hle : 2 ^ (s + k) ≤ 2 ^ 64 := Nat.pow_le_pow_right (by decide) hs
  have hnat : (strided base s i).toNat % 2 ^ 64 = (2 ^ (s + k) * c + i * 2 ^ s) % 2 ^ 64 := by
    rw [strided, BitVec.toNat_add, BitVec.toNat_ofNat, hc, Nat.mod_mod, Nat.add_mod_mod]
  have hbit := congrArg (fun x => x.testBit q) hnat
  rw [Nat.testBit_mod_two_pow, Nat.testBit_mod_two_pow, decide_eq_true hq, Bool.true_and,
    Bool.true_and] at hbit
  rw [BitVec.getLsbD, hbit, Nat.testBit_two_pow_mul_add _ hlt, BitVec.getLsbD, hc,
    Nat.testBit_two_pow_mul,
    testBit_mul_two_pow']
  by_cases hlow : q < s + k
  · rw [if_pos hlow, decide_eq_false (by omega : ¬ s + k ≤ q), Bool.false_and, Bool.false_xor]
  · have hzero : i.testBit (q - s) = false := by
      refine Nat.testBit_lt_two_pow (lt_of_lt_of_le hi (Nat.pow_le_pow_right (by decide) ?_))
      omega
    rw [if_neg hlow, decide_eq_true (by omega : s + k ≤ q), Bool.true_and, hzero, Bool.and_false,
      Bool.xor_false]

theorem strided_xor {base : BitVec 64} {k s line i j : ℕ} (hbase : 2 ^ k * 2 ^ s ∣ base.toNat)
    (hi : i < 2 ^ k)
    (hj : j < 2 ^ k) (hs : s + k ≤ 64) (hline : line ≤ s) :
    (strided base s i ^^^ strided base s j) >>> line =
    BitVec.ofNat 64 ((i ^^^ j) * 2 ^ (s - line)) := by
  refine BitVec.eq_of_getLsbD_eq fun q hq => ?_
  rw [BitVec.getLsbD_ushiftRight, BitVec.getLsbD_ofNat, decide_eq_true hq, Bool.true_and,
    testBit_mul_two_pow']
  by_cases hin : line + q < 64
  · rw [BitVec.getLsbD_xor, getLsbD_strided hbase hi hs hin, getLsbD_strided hbase hj hs hin,
      Nat.testBit_xor,
      show q - (s - line) = line + q - s by omega]
    by_cases hle : s ≤ line + q
    · rw [decide_eq_true hle, decide_eq_true (by omega : s - line ≤ q)]
      cases base.getLsbD (line + q) <;> cases i.testBit (line + q - s) <;>
        cases j.testBit (line + q - s) <;> rfl
    · rw [decide_eq_false hle, decide_eq_false (by omega : ¬ s - line ≤ q)]
      cases base.getLsbD (line + q) <;> rfl
  · have hzero : (i ^^^ j).testBit (q - (s - line)) = false := by
      refine Nat.testBit_lt_two_pow (lt_of_lt_of_le (Nat.xor_lt_two_pow hi hj) ?_)
      exact Nat.pow_le_pow_right (by decide) (by omega)
    rw [BitVec.getLsbD_of_ge _ _ (Nat.not_lt.1 hin), hzero, Bool.and_false]

/-! ## One set for each index -/

/-- For any higher bits the indices have different sets, and every set has an index. -/
def OneToOne (n : BitVec 32) : Prop := ∀ higherBits,
  (∀ index < n, ∃ set < n, ipolyHashFunction higherBits index n = .ok set) ∧
    ∀ set < n, ∃! index, index < n ∧ ipolyHashFunction higherBits index n = .ok set

theorem xor_lt {n x y : BitVec 32} {k : ℕ} (hn : n.toNat = 2 ^ k) (hx : x < n) (hy : y < n) :
    x ^^^ y < n := by
  rw [BitVec.lt_def, hn] at hx hy ⊢
  rw [BitVec.toNat_xor]
  exact Nat.xor_lt_two_pow hx hy

theorem getLsbD_of_lt {n x : BitVec 32} {k r : ℕ} (hn : n.toNat = 2 ^ k) (hx : x < n) (hr : k ≤ r) :
    x.getLsbD r = false := by
  rw [BitVec.lt_def, hn] at hx
  exact Nat.testBit_lt_two_pow (lt_of_lt_of_le hx (Nat.pow_le_pow_right (by decide) hr))

theorem RowFacts.ipolyHashFunction_eq {rows : List (List ℕ)} (h : RowFacts n.toNat rows)
    (higherBits : BitVec 64) : ∃ hash < n, ∀ index < n,
    ipolyHashFunction higherBits index n = .ok (hash ^^^ index) := by
  obtain ⟨hash, -, hbits⟩ := ipolyHashFunction_ok h.rows_eq higherBits 0#32
  refine ⟨hash, ?_, fun index hindex => ?_⟩
  · rw [BitVec.lt_def, h.size]
    refine Nat.lt_pow_two_of_testBit _ fun r hr => ?_
    by_cases hr' : r < 32
    · have hbit := hbits r hr'
      rw [decide_eq_false (Nat.not_lt.2 hr), Bool.false_and] at hbit
      exact hbit
    · exact BitVec.getLsbD_of_ge hash r (Nat.not_lt.1 hr')
  · obtain ⟨set, hset, hset'⟩ := ipolyHashFunction_ok h.rows_eq higherBits index
    rw [hset]
    refine congrArg Except.ok (BitVec.eq_of_getLsbD_eq fun r hr => ?_)
    rw [BitVec.getLsbD_xor, hset' r hr, hbits r hr, BitVec.getLsbD_zero, Bool.xor_false]
    by_cases hlt : r < rows.length
    · rw [decide_eq_true hlt, Bool.true_and, Bool.true_and]
    · rw [decide_eq_false hlt, Bool.false_and, Bool.false_and,
        getLsbD_of_lt h.size hindex (Nat.not_lt.1 hlt)]
      rfl

theorem RowFacts.oneToOne {rows : List (List ℕ)} (h : RowFacts n.toNat rows) : OneToOne n := by
  intro higherBits
  obtain ⟨hash, hlt, heq⟩ := h.ipolyHashFunction_eq higherBits
  refine ⟨fun index hindex =>
    ⟨hash ^^^ index, xor_lt h.size hlt hindex, heq index hindex⟩, fun set hset => ?_⟩
  refine ⟨hash ^^^ set, ⟨xor_lt h.size hlt hset, ?_⟩, ?_⟩
  · rw [heq _ (xor_lt h.size hlt hset), ← BitVec.xor_assoc, BitVec.xor_self, BitVec.zero_xor]
  · rintro index ⟨hindex, hhash⟩
    rw [heq index hindex] at hhash
    rw [← Except.ok.inj hhash, ← BitVec.xor_assoc, BitVec.xor_self, BitVec.zero_xor]

/-! ## When strides have no conflicts -/

/-- The accesses of a stride have different sets. -/
structure ConflictFree (p : Platform) (cfg : IndexConfig) (s : ℕ) (base : BitVec 64) : Prop where
  found : ∀ i < cfg.nset.toNat, ∃ set < cfg.nset, cfg.setIndex p (strided base s i) = .ok set
  distinct : ∀ i < cfg.nset.toNat, ∀ j < cfg.nset.toNat,
    cfg.setIndex p (strided base s i) = cfg.setIndex p (strided base s j) → i = j

theorem RowFacts.lineBit_eq_false {n : ℕ} {rows : List (List ℕ)} (h : RowFacts n rows)
    {line : BitVec 64}
    (hline : ∀ q < strideLimit n + rows.length, line.getLsbD q = false) {r : ℕ}
    (hr : r < rows.length) :
    lineBit rows line r = false := by
  have hxor : ∀ row : List ℕ, (∀ i ∈ row, i < strideLimit n) →
      xorBits (line >>> rows.length) row = false := by
    intro row hrow
    induction row with
    | nil => rfl
    | cons i row ih =>
        change ((line >>> rows.length).getLsbD i ^^ xorBits (line >>> rows.length) row) = false
        have hi := hrow i List.mem_cons_self
        rw [ih fun j hj =>
          hrow j (List.mem_cons_of_mem i hj), BitVec.getLsbD_ushiftRight, hline _ (by omega)]
        rfl
  rw [lineBit, List.getD_eq_getElem _ _ hr, hxor _ (h.row_lt _ (List.getElem_mem hr)),
    hline r (by omega)]
  rfl

theorem RowFacts.conflictFree {p : Platform} {cfg : IndexConfig} {rows : List (List ℕ)}
    (h : RowFacts cfg.nset.toNat rows) (hipoly : cfg.setIndexFunction = .hashIpoly) {s : ℕ}
    {base : BitVec 64}
    (hbase : cfg.nset.toNat * 2 ^ s ∣ base.toNat) (hline : (logb2_32 cfg.lineSz).toNat ≤ s)
    (hlimit : s ≤ (logb2_32 cfg.lineSz).toNat + strideLimit cfg.nset.toNat)
    (hs : s + rows.length ≤ 64) :
    ConflictFree p cfg s base := by
  rw [h.size] at hbase
  constructor
  · intro i _
    obtain ⟨set, hset, hlt, -⟩ := h.setIndex_ok (p := p) hipoly (strided base s i)
    exact ⟨set, hlt, hset⟩
  · intro i hi j hj hsame
    rw [h.size] at hi hj
    rw [h.setIndex_eq_iff hipoly, strided_xor hbase hi hj hs hline] at hsame
    by_contra hne
    have hdiff : i ^^^ j ≠ 0 := by
      intro hzero
      refine hne ?_
      calc i = i ^^^ j ^^^ j := by rw [Nat.xor_assoc, Nat.xor_self, Nat.xor_zero]
        _ = j := by rw [hzero, Nat.zero_xor]
    have hlt : i ^^^ j < cfg.nset.toNat := by
      rw [h.size]
      exact Nat.xor_lt_two_pow hi hj
    obtain ⟨r, hr, hbit⟩ :=
      h.distinct (s - (logb2_32 cfg.lineSz).toNat) (by omega) (i ^^^ j) hlt hdiff
    rw [hsame r hr] at hbit
    cases hbit

theorem RowFacts.not_conflictFree {p : Platform} {cfg : IndexConfig} {rows : List (List ℕ)}
    (h : RowFacts cfg.nset.toNat rows) (hipoly : cfg.setIndexFunction = .hashIpoly) {s : ℕ}
    {base : BitVec 64}
    (hbase : cfg.nset.toNat * 2 ^ s ∣ base.toNat) (hline : (logb2_32 cfg.lineSz).toNat ≤ s)
    (hlimit : (logb2_32 cfg.lineSz).toNat + strideLimit cfg.nset.toNat < s) :
    ¬ ConflictFree p cfg s base := by
  intro hfree
  have hpos := h.pos
  have hlast : 2 ^ (rows.length - 1) < 2 ^ rows.length :=
    Nat.pow_lt_pow_right (by decide) (by omega)
  have hsize := h.size
  rw [hsize] at hbase
  have hsame : cfg.setIndex p (strided base s (2 ^ (rows.length - 1))) =
      cfg.setIndex p (strided base s 0) := by
    by_cases hs : s + rows.length ≤ 64
    · rw [h.setIndex_eq_iff hipoly, strided_xor hbase hlast (Nat.two_pow_pos _) hs hline]
      refine fun r hr => h.lineBit_eq_false (fun q hq => ?_) hr
      rw [Nat.xor_zero, ← pow_add, BitVec.getLsbD_ofNat, Nat.testBit_two_pow,
        decide_eq_false (by omega : ¬ rows.length - 1 + (s - (logb2_32 cfg.lineSz).toNat) = q),
          Bool.and_false]
    · -- the last access is beyond the addresses
      have hzero : BitVec.ofNat 64 (2 ^ (rows.length - 1) * 2 ^ s) = 0#64 := by
        refine BitVec.eq_of_toNat_eq ?_
        rw [BitVec.toNat_ofNat, ← pow_add]
        exact Nat.mod_eq_zero_of_dvd (Nat.pow_dvd_pow 2 (by omega))
      rw [strided, strided, hzero, Nat.zero_mul]
  have heq := hfree.distinct (2 ^ (rows.length - 1)) (by omega) 0
    (by rw [hsize]; exact Nat.two_pow_pos _) hsame
  exact absurd heq (Nat.two_pow_pos _).ne'

/-- The indices and the sets are one to one under any higher bits, and the accesses of a stride
from an aligned base have different sets if and only if the stride has at most 2^13, 2^15 or 2^19
lines for 16, 32 or 64 sets. -/
theorem conflictFree_iff (p : Platform) (cfg : IndexConfig)
    (hipoly : cfg.setIndexFunction = .hashIpoly)
    (hn : cfg.nset.toNat ∈ [16, 32, 64]) {s : ℕ} (hs : cfg.lineSz.toNat ≤ 2 ^ s) {base : BitVec 64}
    (hbase : cfg.nset.toNat * 2 ^ s ∣ base.toNat) :
    (OneToOne cfg.nset ∧ ConflictFree p cfg s base) ↔
      s ≤ (logb2_32 cfg.lineSz).toNat + strideLimit cfg.nset.toNat := by
  obtain ⟨rows, h⟩ := rowFacts hn
  have hline := logb2_32_le hs
  have hlt := logb2_32_lt cfg.lineSz
  have hlength := h.length_le
  have hmost : ∀ n ∈ [16, 32, 64], strideLimit n ≤ 19 := by decide
  have hlimit := hmost _ hn
  constructor
  · rintro ⟨-, hfree⟩
    by_contra hbeyond
    exact h.not_conflictFree hipoly hbase hline (by omega) hfree
  · intro hle
    exact ⟨h.oneToOne, h.conflictFree hipoly hbase hline hle (by omega)⟩

/-- Lines of 128 bytes in 64 sets, and a stride of 64 MiB. -/
theorem conflictFree_largest :
    OneToOne 64 ∧ ConflictFree ⟨fun _ _ => 0, fun _ _ => 0, fun _ => 0, fun _ => 0⟩
      ⟨128, 64, .hashIpoly⟩ 26 (2 ^ 33) :=
  (conflictFree_iff _ ⟨128, 64, .hashIpoly⟩ rfl (by decide) (by decide) (by decide)).mpr (by decide)

/-- There are conflicts with the next stride. -/
theorem not_conflictFree_next : ¬ ∃ p, ConflictFree p ⟨128, 64, .hashIpoly⟩ 27 0 := by
  rintro ⟨p, hfree⟩
  obtain ⟨rows, h⟩ := rowFacts (show 64 ∈ [16, 32, 64] by decide)
  exact @RowFacts.not_conflictFree p ⟨128, 64, .hashIpoly⟩ rows h rfl 27 0 (by decide) (by decide)
    (by decide) hfree

end GpuCalorie.Cache
