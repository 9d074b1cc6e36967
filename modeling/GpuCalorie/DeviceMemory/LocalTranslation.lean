/-
# Local memory in the timing model

A thread of the functional model has a local memory of its own. The timing model lays the local
memories of all threads of all cores over one range of addresses, a word of every thread after the
other. Each word of each thread gets an address of its own there, which no other word has, and the
arithmetic of 32 bits that finds it never overflows.
-/

import GpuCalorie.DeviceMemory.Windows
import GpuCalorie.Math.Bytes
import GpuCalorie.Math.Outcome
import Mathlib.Tactic.Linarith
import Mathlib.Tactic.Ring

namespace GpuCalorie.DeviceMemory

open GpuCalorie.Math

/-- `address_type`, and `unsigned`. -/
abbrev AddressType := BitVec 32

/-- `new_addr_type`. -/
abbrev NewAddrType := BitVec 64

abbrev maxAccessesPerInsnPerThread : ℕ := 8

/-- The ways to fail of `translate_local_memaddr`: the division, and its assertions. -/
inductive LocalTranslationFailure
  | divisionByZero
  | threadBase
  | wordMultiple
  | numAccesses
  | alignment
  | emptyAccess
  | chunkOverflow
  deriving DecidableEq, Repr

/-- What the cores share that a translation reads. -/
structure LocalMap where
  gpgpuLocalMemMap : Bool
  nThreadPerShader : AddressType
  kernelPaddedThreadsPerCta : AddressType
  kernelMaxCtaPerShader : AddressType
  numShader : AddressType
  deriving DecidableEq, Repr

/-- An access of a thread to its local memory. -/
structure LocalAccess where
  sid : AddressType
  tid : AddressType
  localaddr : AddressType
  datasize : AddressType
  deriving DecidableEq, Repr

/-- The access to one of the words of an access. -/
def LocalAccess.word (a : LocalAccess) (i : ℕ) : LocalAccess :=
  { a with localaddr := a.localaddr + 4 * BitVec.ofNat 32 i, datasize := 4 }

namespace LocalMap

variable (map : LocalMap)

/-- `thread_base`. -/
def threadBase (sid tid : AddressType) : AddressType :=
  if map.gpgpuLocalMemMap then
    4 * (map.kernelPaddedThreadsPerCta *
        (sid + map.numShader * (tid / map.kernelPaddedThreadsPerCta)) +
      tid % map.kernelPaddedThreadsPerCta)
  else 4 * (map.nThreadPerShader * sid + tid)

/-- `max_concurrent_threads`. -/
def maxConcurrentThreads : AddressType :=
  if map.gpgpuLocalMemMap then
    map.kernelPaddedThreadsPerCta * map.kernelMaxCtaPerShader * map.numShader
  else map.numShader * map.nThreadPerShader

/-- `linear_address`: the sum has 64 bits, and is kept in 32. -/
def linearAddress (displacement : AddressType) : NewAddrType :=
  ((displacement.setWidth 64 + BitVec.ofNat 64 localGenericStart).setWidth 32).setWidth 64

/-- `translate_local_memaddr`. -/
def translateLocalMemaddr (a : LocalAccess) :
    Except LocalTranslationFailure (List NewAddrType) := do
  if map.gpgpuLocalMemMap ∧ map.kernelPaddedThreadsPerCta = 0 then throw .divisionByZero
  let threadBase := map.threadBase a.sid a.tid
  let maxConcurrentThreads := map.maxConcurrentThreads
  if ¬ threadBase < 4 * maxConcurrentThreads then throw .threadBase
  if 4 ≤ a.datasize then
    if a.datasize % 4 ≠ 0 then throw .wordMultiple
    let numAccesses := (a.datasize / 4).toNat
    if ¬ numAccesses ≤ maxAccessesPerInsnPerThread then throw .numAccesses
    if a.localaddr % 4 ≠ 0 then throw .alignment
    return (List.range numAccesses).map fun i =>
      let localWord := a.localaddr / 4 + BitVec.ofNat 32 i
      linearAddress (localWord * maxConcurrentThreads * 4 + threadBase)
  else
    if ¬ 0 < a.datasize then throw .emptyAccess
    let localWord := a.localaddr / 4
    let localWordOffset := a.localaddr % 4
    if (a.localaddr + a.datasize - 1) / 4 ≠ localWord then throw .chunkOverflow
    return [linearAddress (localWord * maxConcurrentThreads * 4 + localWordOffset + threadBase)]

/-! ## Threads of all cores -/

/-- How many threads a core runs at a time. -/
def threadsPerCore : ℕ :=
  if map.gpgpuLocalMemMap then
    map.kernelPaddedThreadsPerCta.toNat * map.kernelMaxCtaPerShader.toNat
  else map.nThreadPerShader.toNat

/-- The number of a thread among those of all cores. -/
def threadIndex (sid tid : ℕ) : ℕ :=
  if map.gpgpuLocalMemMap then
    (tid / map.kernelPaddedThreadsPerCta.toNat * map.numShader.toNat + sid) *
        map.kernelPaddedThreadsPerCta.toNat + tid % map.kernelPaddedThreadsPerCta.toNat
  else sid * map.nThreadPerShader.toNat + tid

/-- The number of a word among those of all threads. -/
def wordIndex (sid tid word : ℕ) : ℕ :=
  word * (map.numShader.toNat * map.threadsPerCore) + map.threadIndex sid tid

/-- The hardware is not larger than what the windows of the address space are made for. -/
structure Fits : Prop where
  numShader_le : map.numShader.toNat ≤ maxStreamingMultiprocessors
  threadsPerCore_le : map.threadsPerCore ≤ maxThreadPerSm

/-- A thread that a core runs reads or writes bytes of its local memory. -/
structure InRange (a : LocalAccess) : Prop where
  sid_lt : a.sid.toNat < map.numShader.toNat
  tid_lt : a.tid.toNat < map.threadsPerCore
  bytes_le : a.localaddr.toNat + a.datasize.toNat ≤ localMemSizeMax

variable {map} {sid tid sid' tid' : ℕ}

theorem kernelPaddedThreadsPerCta_pos (hmap : map.gpgpuLocalMemMap = true)
    (htid : tid < map.threadsPerCore) : 0 < map.kernelPaddedThreadsPerCta.toNat := by
  rw [threadsPerCore, if_pos hmap] at htid
  exact Nat.pos_of_mul_pos_right (Nat.zero_lt_of_lt htid)

theorem div_lt_kernelMaxCtaPerShader (hmap : map.gpgpuLocalMemMap = true)
    (htid : tid < map.threadsPerCore) :
    tid / map.kernelPaddedThreadsPerCta.toNat < map.kernelMaxCtaPerShader.toNat := by
  rw [threadsPerCore, if_pos hmap] at htid
  exact Nat.div_lt_of_lt_mul htid

theorem threadIndex_lt (hsid : sid < map.numShader.toNat) (htid : tid < map.threadsPerCore) :
    map.threadIndex sid tid < map.numShader.toNat * map.threadsPerCore := by
  by_cases hmap : map.gpgpuLocalMemMap = true
  · have hpos := kernelPaddedThreadsPerCta_pos hmap htid
    have hcta := digits_lt (div_lt_kernelMaxCtaPerShader hmap htid) hsid
    have hthread := digits_lt hcta (Nat.mod_lt tid hpos)
    rw [threadIndex, threadsPerCore, if_pos hmap, if_pos hmap]
    calc _ < map.kernelMaxCtaPerShader.toNat * map.numShader.toNat *
          map.kernelPaddedThreadsPerCta.toNat := hthread
      _ = _ := by ring
  · rw [threadsPerCore, if_neg hmap] at htid ⊢
    rw [threadIndex, if_neg hmap]
    exact digits_lt hsid htid

theorem threadIndex_injective (hsid : sid < map.numShader.toNat)
    (htid : tid < map.threadsPerCore) (hsid' : sid' < map.numShader.toNat)
    (htid' : tid' < map.threadsPerCore)
    (h : map.threadIndex sid tid = map.threadIndex sid' tid') : sid = sid' ∧ tid = tid' := by
  by_cases hmap : map.gpgpuLocalMemMap = true
  · have hpos := kernelPaddedThreadsPerCta_pos hmap htid
    rw [threadIndex, threadIndex, if_pos hmap, if_pos hmap] at h
    obtain ⟨hcta, hmod⟩ := digits_unique (Nat.mod_lt tid hpos) (Nat.mod_lt tid' hpos) h
    obtain ⟨hdiv, hsids⟩ := digits_unique hsid hsid' hcta
    refine ⟨hsids, ?_⟩
    rw [← Nat.div_add_mod tid, ← Nat.div_add_mod tid', hdiv, hmod]
  · rw [threadsPerCore, if_neg hmap] at htid htid'
    rw [threadIndex, threadIndex, if_neg hmap, if_neg hmap] at h
    exact digits_unique htid htid' h

/-! ## Arithmetic of 32 bits -/

theorem threadBase_eq (map : LocalMap) (sid tid : AddressType) :
    map.threadBase sid tid = BitVec.ofNat 32 (4 * map.threadIndex sid.toNat tid.toNat) := by
  by_cases hmap : map.gpgpuLocalMemMap = true
  · rw [threadBase, threadIndex, if_pos hmap, if_pos hmap]
    simp only [BitVec.ofNat_mul, BitVec.ofNat_add, ← BitVec.udiv_eq, ← BitVec.umod_eq,
      ← BitVec.toNat_udiv, ← BitVec.toNat_umod, BitVec.ofNat_toNat, BitVec.setWidth_eq]
    rw [BitVec.mul_comm map.kernelPaddedThreadsPerCta, BitVec.add_comm sid,
      BitVec.mul_comm map.numShader]
    rfl
  · rw [threadBase, threadIndex, if_neg hmap, if_neg hmap]
    simp only [BitVec.ofNat_mul, BitVec.ofNat_add, BitVec.ofNat_toNat, BitVec.setWidth_eq]
    rw [BitVec.mul_comm map.nThreadPerShader]
    rfl

theorem maxConcurrentThreads_eq (map : LocalMap) :
    map.maxConcurrentThreads = BitVec.ofNat 32 (map.numShader.toNat * map.threadsPerCore) := by
  by_cases hmap : map.gpgpuLocalMemMap = true
  · rw [maxConcurrentThreads, threadsPerCore, if_pos hmap, if_pos hmap]
    simp only [BitVec.ofNat_mul, BitVec.ofNat_toNat, BitVec.setWidth_eq]
    exact BitVec.mul_comm _ _
  · rw [maxConcurrentThreads, threadsPerCore, if_neg hmap, if_neg hmap]
    simp only [BitVec.ofNat_mul, BitVec.ofNat_toNat, BitVec.setWidth_eq]

theorem Fits.threads_le (hfits : map.Fits) :
    map.numShader.toNat * map.threadsPerCore ≤ maxStreamingMultiprocessors * maxThreadPerSm :=
  Nat.mul_le_mul hfits.numShader_le hfits.threadsPerCore_le

theorem Fits.wordIndex_lt (hfits : map.Fits) {word : ℕ} (hword : word < localMemSizeMax / 4)
    (hsid : sid < map.numShader.toNat) (htid : tid < map.threadsPerCore) :
    map.wordIndex sid tid word < totalLocalMem / 4 :=
  calc map.wordIndex sid tid word
      < localMemSizeMax / 4 * (map.numShader.toNat * map.threadsPerCore) :=
        digits_lt hword (threadIndex_lt hsid htid)
    _ ≤ localMemSizeMax / 4 * (maxStreamingMultiprocessors * maxThreadPerSm) :=
        Nat.mul_le_mul_left _ hfits.threads_le
    _ = totalLocalMem / 4 := rfl

/-- The address of a byte of a word, without any bound on numbers. -/
def byteAddress (map : LocalMap) (sid tid word offset : ℕ) : ℕ :=
  localGenericStart + (4 * map.wordIndex sid tid word + offset)

theorem toNat_linearAddress {n : ℕ} (hn : n < totalLocalMem) :
    (linearAddress (BitVec.ofNat 32 n)).toNat = localGenericStart + n := by
  have hfit : localGenericStart + n < 2 ^ 32 := by
    rw [totalLocalMem_eq] at hn
    rw [localGenericStart_eq]
    omega
  rw [linearAddress]
  generalize localGenericStart = start at hfit ⊢
  rw [BitVec.toNat_setWidth, BitVec.toNat_setWidth, BitVec.toNat_add, BitVec.toNat_setWidth,
    BitVec.toNat_ofNat, BitVec.toNat_ofNat]
  omega

theorem displacement_eq (map : LocalMap) (sid tid word offset : AddressType) :
    word * map.maxConcurrentThreads * 4 + offset + map.threadBase sid tid =
      BitVec.ofNat 32 (4 * map.wordIndex sid.toNat tid.toNat word.toNat + offset.toNat) := by
  rw [threadBase_eq, maxConcurrentThreads_eq, wordIndex, Nat.mul_add, BitVec.ofNat_add,
    BitVec.ofNat_add, Nat.mul_comm 4 (_ * _), BitVec.ofNat_mul (word.toNat * _),
    BitVec.ofNat_mul word.toNat, BitVec.ofNat_toNat, BitVec.ofNat_toNat, BitVec.setWidth_eq,
    BitVec.setWidth_eq, BitVec.add_assoc, BitVec.add_comm offset, ← BitVec.add_assoc]
  rfl

variable {a b : LocalAccess}

theorem toNat_linearAddress_displacement (hfits : map.Fits) (hin : map.InRange a)
    {word offset : AddressType} (hword : word.toNat < localMemSizeMax / 4)
    (hoffset : offset.toNat < 4) :
    (linearAddress (word * map.maxConcurrentThreads * 4 + offset +
      map.threadBase a.sid a.tid)).toNat =
        map.byteAddress a.sid.toNat a.tid.toNat word.toNat offset.toNat := by
  have hlt := hfits.wordIndex_lt hword hin.sid_lt hin.tid_lt
  rw [displacement_eq, toNat_linearAddress (by omega), byteAddress]

theorem byteAddress_mem_window (hfits : map.Fits) (hin : map.InRange a) {word offset : ℕ}
    (hword : word < localMemSizeMax / 4) (hoffset : offset < 4) :
    localGenericStart ≤ map.byteAddress a.sid.toNat a.tid.toNat word offset ∧
      map.byteAddress a.sid.toNat a.tid.toNat word offset < sharedGenericStart := by
  have hlt := hfits.wordIndex_lt hword hin.sid_lt hin.tid_lt
  rw [totalLocalMem_eq] at hlt
  rw [byteAddress, sharedGenericStart_eq, localGenericStart_eq]
  omega

theorem threadBase_lt (hfits : map.Fits) (hin : map.InRange a) :
    map.threadBase a.sid a.tid < 4 * map.maxConcurrentThreads := by
  have hindex := threadIndex_lt hin.sid_lt hin.tid_lt
  have hthreads : map.numShader.toNat * map.threadsPerCore ≤ 163840 := hfits.threads_le
  rw [threadBase_eq, maxConcurrentThreads_eq, BitVec.lt_def, BitVec.toNat_mul,
    BitVec.toNat_ofNat, BitVec.toNat_ofNat, show BitVec.toNat (4 : AddressType) = 4 from rfl]
  omega

theorem not_divisionByZero (hin : map.InRange a) :
    ¬ (map.gpgpuLocalMemMap = true ∧ map.kernelPaddedThreadsPerCta = 0) := by
  rintro ⟨hmap, hzero⟩
  have hpos := kernelPaddedThreadsPerCta_pos hmap hin.tid_lt
  rw [hzero] at hpos
  exact Nat.lt_irrefl 0 hpos

variable {addrs addrs' : List NewAddrType}

theorem translateLocalMemaddr_ne_threadBase (hfits : map.Fits) (hin : map.InRange a) :
    map.translateLocalMemaddr a ≠ .error .divisionByZero ∧
      map.translateLocalMemaddr a ≠ .error .threadBase := by
  simp only [translateLocalMemaddr, if_neg (not_divisionByZero hin),
    if_neg (not_not.2 (threadBase_lt hfits hin))]
  constructor <;> split_ifs <;> rintro ⟨⟩

theorem translateLocalMemaddr_words (hfits : map.Fits) (hin : map.InRange a)
    (hsize : 4 ≤ a.datasize) :
    map.translateLocalMemaddr a = .ok addrs ↔
      a.datasize % 4 = 0 ∧ (a.datasize / 4).toNat ≤ maxAccessesPerInsnPerThread ∧
        a.localaddr % 4 = 0 ∧
        (List.range (a.datasize / 4).toNat).map (fun i => linearAddress
          ((a.localaddr / 4 + BitVec.ofNat 32 i) * map.maxConcurrentThreads * 4 +
            map.threadBase a.sid a.tid)) = addrs := by
  simp only [translateLocalMemaddr, if_neg (not_divisionByZero hin),
    if_neg (not_not.2 (threadBase_lt hfits hin)), if_pos hsize]
  rw [guarded_eq_ok, guarded_eq_ok, guarded_eq_ok, not_not, not_not, not_not,
    pure_eq_ok]

theorem translateLocalMemaddr_part (hfits : map.Fits) (hin : map.InRange a)
    (hsize : ¬ 4 ≤ a.datasize) :
    map.translateLocalMemaddr a = .ok addrs ↔
      0 < a.datasize ∧ (a.localaddr + a.datasize - 1) / 4 = a.localaddr / 4 ∧
        [linearAddress (a.localaddr / 4 * map.maxConcurrentThreads * 4 + a.localaddr % 4 +
          map.threadBase a.sid a.tid)] = addrs := by
  simp only [translateLocalMemaddr, if_neg (not_divisionByZero hin),
    if_neg (not_not.2 (threadBase_lt hfits hin)), if_neg hsize]
  rw [guarded_eq_ok, guarded_eq_ok, not_not, not_not, pure_eq_ok]

theorem getElem_of_translateLocalMemaddr (hfits : map.Fits) (hin : map.InRange a)
    (h : map.translateLocalMemaddr a = .ok addrs) {i : ℕ} (hi : i < addrs.length) :
    a.localaddr.toNat / 4 + i < localMemSizeMax / 4 ∧
      addrs[i].toNat = map.byteAddress a.sid.toNat a.tid.toNat (a.localaddr.toNat / 4 + i)
        (a.localaddr.toNat % 4) := by
  have hbytes := hin.bytes_le
  rw [localMemSizeMax_eq] at hbytes
  have hdiv : (a.localaddr / 4).toNat = a.localaddr.toNat / 4 := BitVec.toNat_udiv
  have hmod : (a.localaddr % 4).toNat = a.localaddr.toNat % 4 := BitVec.toNat_umod
  by_cases hsize : 4 ≤ a.datasize
  · obtain ⟨_, _, haligned, rfl⟩ := (translateLocalMemaddr_words hfits hin hsize).1 h
    have hnum : (a.datasize / 4).toNat = a.datasize.toNat / 4 := BitVec.toNat_udiv
    rw [List.length_map, List.length_range, hnum] at hi
    have hword : (a.localaddr / 4 + BitVec.ofNat 32 i).toNat = a.localaddr.toNat / 4 + i := by
      rw [BitVec.toNat_add, hdiv, BitVec.toNat_ofNat]
      omega
    have hlt : a.localaddr.toNat / 4 + i < localMemSizeMax / 4 := by
      rw [localMemSizeMax_eq]
      omega
    refine ⟨hlt, ?_⟩
    have hoffset : a.localaddr.toNat % 4 = (0 : AddressType).toNat := by rw [← hmod, haligned]
    rw [List.getElem_map, List.getElem_range, hoffset, ← hword,
      ← toNat_linearAddress_displacement hfits hin (hword ▸ hlt) (by decide)]
    rw [show (0 : AddressType) = 0#32 from rfl, BitVec.add_zero]
  · obtain ⟨hdatasize, _, rfl⟩ := (translateLocalMemaddr_part hfits hin hsize).1 h
    have hpos : 0 < a.datasize.toNat := BitVec.lt_def.1 hdatasize
    obtain rfl : i = 0 := Nat.lt_one_iff.1 hi
    have hlt : a.localaddr.toNat / 4 + 0 < localMemSizeMax / 4 := by
      rw [localMemSizeMax_eq]
      omega
    refine ⟨hlt, ?_⟩
    rw [List.getElem_singleton, Nat.add_zero, ← hdiv, ← hmod]
    refine toNat_linearAddress_displacement hfits hin (hdiv ▸ hlt) ?_
    exact hmod ▸ Nat.mod_lt _ (by decide)

theorem datasize_words {k : ℕ} (hk : 0 < k) (hsize : a.datasize.toNat = 4 * k) :
    4 ≤ a.datasize ∧ a.datasize % 4 = 0 ∧ (a.datasize / 4).toNat = k := by
  refine ⟨?_, BitVec.eq_of_toNat_eq ?_, ?_⟩
  · rw [BitVec.le_def, hsize]
    exact Nat.le_mul_of_pos_right 4 hk
  · rw [BitVec.toNat_umod, hsize]
    exact Nat.mul_mod_right 4 k
  · rw [BitVec.toNat_udiv, hsize]
    exact Nat.mul_div_cancel_left k (by decide)

theorem aligned_iff {localaddr : AddressType} : localaddr % 4 = 0 ↔ 4 ∣ localaddr.toNat := by
  rw [← BitVec.toNat_inj, BitVec.toNat_umod]
  exact Nat.dvd_iff_mod_eq_zero.symm

theorem exists_translateLocalMemaddr_words (hfits : map.Fits) (hin : map.InRange a) {k : ℕ}
    (hk : 0 < k) (hsize : a.datasize.toNat = 4 * k) :
    (∃ addrs, map.translateLocalMemaddr a = .ok addrs) ↔
      k ≤ maxAccessesPerInsnPerThread ∧ 4 ∣ a.localaddr.toNat := by
  obtain ⟨hwords, hmod, hnum⟩ := datasize_words hk hsize
  constructor
  · rintro ⟨addrs, h⟩
    obtain ⟨_, hle, haligned, _⟩ := (translateLocalMemaddr_words hfits hin hwords).1 h
    exact ⟨hnum ▸ hle, aligned_iff.1 haligned⟩
  · rintro ⟨hle, haligned⟩
    exact ⟨_, (translateLocalMemaddr_words hfits hin hwords).2
      ⟨hmod, hnum.symm ▸ hle, aligned_iff.2 haligned, rfl⟩⟩

theorem translateLocalMemaddr_word (hfits : map.Fits) (hin : map.InRange a) {k : ℕ} (hk : 0 < k)
    (hsize : a.datasize.toNat = 4 * k) (h : map.translateLocalMemaddr a = .ok addrs) :
    addrs.length = k ∧ ∀ i (hi : i < addrs.length),
      map.translateLocalMemaddr (a.word i) = .ok [addrs[i]] := by
  obtain ⟨hwords, _, hnum⟩ := datasize_words hk hsize
  obtain ⟨_, _, haligned, rfl⟩ := (translateLocalMemaddr_words hfits hin hwords).1 h
  have hlength : ((List.range (a.datasize / 4).toNat).map fun i => linearAddress
      ((a.localaddr / 4 + BitVec.ofNat 32 i) * map.maxConcurrentThreads * 4 +
        map.threadBase a.sid a.tid)).length = k := by
    rw [List.length_map, List.length_range, hnum]
  refine ⟨hlength, fun i hi => ?_⟩
  rw [hlength] at hi
  have hbytes := hin.bytes_le
  rw [localMemSizeMax_eq, hsize] at hbytes
  have haddr : (a.word i).localaddr.toNat = a.localaddr.toNat + 4 * i := by
    rw [LocalAccess.word, BitVec.toNat_add, BitVec.toNat_mul, BitVec.toNat_ofNat,
      show BitVec.toNat (4 : AddressType) = 4 from rfl]
    omega
  have hdiv : (a.word i).localaddr / 4 = a.localaddr / 4 + BitVec.ofNat 32 i := by
    refine BitVec.eq_of_toNat_eq ?_
    rw [BitVec.toNat_udiv, haddr, BitVec.toNat_add, BitVec.toNat_udiv, BitVec.toNat_ofNat,
      show BitVec.toNat (4 : AddressType) = 4 from rfl]
    omega
  have hdatasize : (a.word i).datasize.toNat = 4 * 1 := rfl
  have hin' : map.InRange (a.word i) := by
    refine ⟨hin.sid_lt, hin.tid_lt, ?_⟩
    rw [haddr, localMemSizeMax_eq, hdatasize]
    omega
  have haligned' : (a.word i).localaddr % 4 = 0 := by
    rw [aligned_iff, haddr]
    exact Nat.dvd_add (aligned_iff.1 haligned) (Nat.dvd_mul_right 4 i)
  obtain ⟨hwords', hmod', hnum'⟩ := datasize_words Nat.one_pos hdatasize
  refine (translateLocalMemaddr_words hfits hin' hwords').2
    ⟨hmod', hnum'.symm ▸ by decide, haligned', ?_⟩
  rw [List.getElem_map, List.getElem_range, ← hdiv, hnum', List.range_one, List.map_singleton,
    BitVec.add_zero]
  rfl

theorem eq_of_byteAddress_div_eq {word word' offset offset' : ℕ} (hin : map.InRange a)
    (hin' : map.InRange b) (hoffset : offset < 4) (hoffset' : offset' < 4)
    (h : map.byteAddress a.sid.toNat a.tid.toNat word offset / 4 =
      map.byteAddress b.sid.toNat b.tid.toNat word' offset' / 4) :
    a.sid = b.sid ∧ a.tid = b.tid ∧ word = word' := by
  have hword : map.wordIndex a.sid.toNat a.tid.toNat word =
      map.wordIndex b.sid.toNat b.tid.toNat word' := by
    rw [byteAddress, byteAddress, localGenericStart_eq] at h
    omega
  obtain ⟨hwords, hthread⟩ := digits_unique (threadIndex_lt hin.sid_lt hin.tid_lt)
    (threadIndex_lt hin'.sid_lt hin'.tid_lt) hword
  obtain ⟨hsid, htid⟩ := threadIndex_injective hin.sid_lt hin.tid_lt hin'.sid_lt hin'.tid_lt hthread
  exact ⟨BitVec.eq_of_toNat_eq hsid, BitVec.eq_of_toNat_eq htid, hwords⟩

/-- The words of the local memories of all threads of all cores have addresses of their own in
the window of local memory. An access of words gets the addresses of its words, in order, and the
assertion on the base of a thread never fails. -/
theorem translateLocalMemaddr_correct (hfits : map.Fits) :
    (∀ a, map.InRange a →
      (map.translateLocalMemaddr a ≠ .error .divisionByZero ∧
        map.translateLocalMemaddr a ≠ .error .threadBase) ∧
      (∀ k, 0 < k → a.datasize.toNat = 4 * k →
        ((∃ addrs, map.translateLocalMemaddr a = .ok addrs) ↔
          k ≤ maxAccessesPerInsnPerThread ∧ 4 ∣ a.localaddr.toNat) ∧
        ∀ addrs, map.translateLocalMemaddr a = .ok addrs →
          addrs.length = k ∧ ∀ i (hi : i < addrs.length),
            map.translateLocalMemaddr (a.word i) = .ok [addrs[i]]) ∧
      ∀ addrs, map.translateLocalMemaddr a = .ok addrs → ∀ i (hi : i < addrs.length),
        addrs[i].toNat = map.byteAddress a.sid.toNat a.tid.toNat (a.localaddr.toNat / 4 + i)
          (a.localaddr.toNat % 4) ∧
        localGenericStart ≤ addrs[i].toNat ∧ addrs[i].toNat < sharedGenericStart) ∧
    ∀ a b, map.InRange a → map.InRange b → ∀ addrs addrs', map.translateLocalMemaddr a = .ok addrs →
      map.translateLocalMemaddr b = .ok addrs' →
      ∀ i (hi : i < addrs.length) j (hj : j < addrs'.length),
        addrs[i].toNat / 4 = addrs'[j].toNat / 4 →
          a.sid = b.sid ∧ a.tid = b.tid ∧ a.localaddr.toNat / 4 + i =
            b.localaddr.toNat / 4 + j := by
  constructor
  · intro a hin
    refine ⟨translateLocalMemaddr_ne_threadBase hfits hin, fun k hk hsize => ?_, ?_⟩
    · exact ⟨exists_translateLocalMemaddr_words hfits hin hk hsize,
        fun addrs => translateLocalMemaddr_word hfits hin hk hsize⟩
    · intro addrs h i hi
      obtain ⟨hword, haddr⟩ := getElem_of_translateLocalMemaddr hfits hin h hi
      rw [haddr]
      exact ⟨rfl, byteAddress_mem_window hfits hin hword (Nat.mod_lt _ (by decide))⟩
  · intro a b hin hin' addrs addrs' h h' i hi j hj heq
    rw [(getElem_of_translateLocalMemaddr hfits hin h hi).2,
      (getElem_of_translateLocalMemaddr hfits hin' h' hj).2] at heq
    exact eq_of_byteAddress_div_eq hin hin' (Nat.mod_lt _ (by decide))
      (Nat.mod_lt _ (by decide)) heq

/-- A mapping by CTAs of 64 threads. -/
def ctaMap : LocalMap where
  gpgpuLocalMemMap := true
  nThreadPerShader := 2048
  kernelPaddedThreadsPerCta := 64
  kernelMaxCtaPerShader := 32
  numShader := 80

theorem translateLocalMemaddr_correct_ctaMap :
    ∃ addrs, ctaMap.translateLocalMemaddr ⟨79, 2047, 16368, 16⟩ = .ok addrs := by
  have hfits : ctaMap.Fits := ⟨by decide, by decide⟩
  have hwords := ((translateLocalMemaddr_correct hfits).1 ⟨79, 2047, 16368, 16⟩
    ⟨by decide, by decide, by decide⟩).2.1 4 (by decide) rfl
  exact hwords.1.2 ⟨by decide, by decide⟩

end LocalMap

end GpuCalorie.DeviceMemory
