/-
# Accesses by memory space

`generate_mem_accesses` by the space of the instruction: the bank conflicts of shared memory,
one access a cache block for constants and textures, and segments for global and local
memory, where the threads of an atomic that touch the same bytes are told apart.
-/

import GpuCalorie.Coalescer.WarpAccess
import Mathlib.Algebra.GroupWithZero.Nat

namespace GpuCalorie.Coalescer

open Hardware

/-- What `generate_mem_accesses` reads of a `core_config`. -/
structure MemConfig extends CoreConfig where
  numShmemBank : ℕ
  shmemLimitedBroadcast : Bool
  gpgpuCacheTexl1Linesize : BitVec 32
  gpgpuCacheConstl1Linesize : BitVec 32

/-- `memreqaddr[0]`. -/
def WarpInst.firstAddr (inst : WarpInst) (thread : Fin 32) : Addr := inst.memreqaddr thread 0

/-- The threads of the warp. -/
def CoreConfig.threads (cfg : CoreConfig) : List (Fin 32) :=
  (List.finRange 32).filter fun thread => thread.val < cfg.warpSize

/-! ## Shared memory -/

/-- `WORD_SIZE`. -/
def wordSize : ℕ := 4

/-- `shmem_bank_func`, whose parameter is an `address_type`. -/
def MemConfig.shmemBankFunc (cfg : MemConfig) (addr : Addr) : ℕ :=
  (addressType addr).toNat / wordSize % cfg.numShmemBank

/-- The accesses to each word. -/
abbrev WordAccs := Std.TreeMap Addr ℕ

/-- `bank_accs`: the words of each bank. -/
abbrev BankAccs := Std.TreeMap ℕ WordAccs

/-- Step 1, for a thread: one more access to the word in its bank. -/
def countWord (cfg : MemConfig) (inst : WarpInst) (m : BankAccs) (thread : Fin 32) : BankAccs :=
  if thread ∉ inst.activeMask then m
  else
    let addr := inst.firstAddr thread
    let word := lineSizeBasedTagFunc addr (.ofNat 64 wordSize)
    Math.upsert m (cfg.shmemBankFunc addr) fun words => Math.upsert words word (· + 1)

/-- Step 1: the accesses to words in banks. -/
def bankAccs (cfg : MemConfig) (inst : WarpInst) (subwarp : ℕ) : BankAccs :=
  (cfg.subwarpThreads subwarp).foldl (countWord cfg inst) ∅

/-- Step 2 with limited broadcast: the first bank and word with a broadcast. -/
def broadcastWord (accs : BankAccs) : Option (ℕ × Addr) :=
  accs.toList.findSome? fun (bank, words) =>
    (words.toList.find? fun (_, n) => n > 1).map fun (word, _) => (bank, word)

/-- Step 3 with limited broadcast: the accesses of a bank, of which those to the broadcast word
are one. -/
def bankAccesses (broadcast : Option (ℕ × Addr)) (bank : ℕ) (words : WordAccs) :
    Except CoalescerFailure ℕ :=
  let accesses := (words.toList.map Prod.snd).sum
  match broadcast.bind fun (b, word) => if b = bank then words[word]? else none with
  | none => .ok accesses
  | some n =>
      if n > 1 ∧ accesses ≥ n - 1 then .ok (accesses - (n - 1)) else .error .broadcast

/-- `max_bank_accesses` of a part of the warp. -/
def maxBankAccesses (cfg : MemConfig) (accs : BankAccs) : Except CoalescerFailure ℕ :=
  if cfg.shmemLimitedBroadcast then do
    let broadcast := broadcastWord accs
    let accesses ← accs.toList.mapM fun (bank, words) => bankAccesses broadcast bank words
    return accesses.foldl max 0
  else .ok ((accs.toList.map fun (_, words) => words.size).foldl max 0)

/-- `cycles` of a shared memory instruction. -/
def sharedCycles (cfg : MemConfig) (inst : WarpInst) : Except CoalescerFailure ℕ :=
  if cfg.memWarpParts = 0 then .error .warpParts
  else if cfg.numShmemBank = 0 then .error .shmemBanks
  else do
    let accesses ← (List.range cfg.memWarpParts).mapM fun subwarp =>
      maxBankAccesses cfg (bankAccs cfg inst subwarp)
    let totalAccesses := accesses.sum
    if totalAccesses > 0 ∧ totalAccesses ≤ cfg.warpSize then return totalAccesses
    else throw .totalAccesses

/-! ## Cached spaces -/

/-- `byte_mask.set(byte)`. -/
def setByte (mask : Cache.ByteMask) (byte : ℕ) : Except CoalescerFailure Cache.ByteMask :=
  if h : byte < 128 then .ok (insert ⟨byte, h⟩ mask) else .error .byteIndex

/-- `byte_mask.set(idx + i)` for the bytes of an access. -/
def setBytes (idx size : ℕ) (mask : Cache.ByteMask) : Except CoalescerFailure Cache.ByteMask :=
  (List.range size).foldlM (fun mask i => setByte mask (idx + i)) mask

/-- One round of the loop over the threads, on `accesses` and `byte_mask`; `idx` is unsigned. -/
def cacheThread (inst : WarpInst) (cacheBlockSize : Addr)
    (s : Std.TreeMap Addr ActiveMask × Cache.ByteMask) (thread : Fin 32) :
    Except CoalescerFailure (Std.TreeMap Addr ActiveMask × Cache.ByteMask) :=
  if thread ∉ inst.activeMask then .ok s
  else do
    let addr := inst.firstAddr thread
    let blockAddress := lineSizeBasedTagFunc addr cacheBlockSize
    let idx := (addr - blockAddress).setWidth 32
    let byteMask ← setBytes idx.toNat inst.dataSize s.2
    return (Math.upsert s.1 blockAddress (insert thread), byteMask)

/-- The accesses to cache blocks. -/
def cachedAccesses (cfg : CoreConfig) (inst : WarpInst) (isWrite : Bool)
    (accessType : Cache.MemAccessType) (cacheBlockSize : Addr) :
    Except CoalescerFailure (List WarpAccess) :=
  if cacheBlockSize = 0 then .ok []
  else do
    let (accesses, byteMask) ← cfg.threads.foldlM (cacheThread inst cacheBlockSize) (∅, ∅)
    return accesses.toList.map fun (addr, active) =>
      { type := accessType, addr := addr, reqSize := cacheBlockSize.toNat, write := isWrite,
        warpMask := active, byteMask := byteMask }

/-! ## Atomics -/

/-- `test_bytes` of the `count` bits from `start` on. -/
def testBytes (bytes : Cache.ByteMask) (start : ℕ) : ℕ → Except CoalescerFailure Bool
  | 0 => .ok false
  | count + 1 =>
      if h : start < 128 then
        if ⟨start, h⟩ ∈ bytes then .ok true else testBytes bytes (start + 1) count
      else .error .byteIndex

/-- Set a bit of an atomic, which is not set. -/
def takeByte (mask : Cache.ByteMask) (byte : ℕ) : Except CoalescerFailure Cache.ByteMask :=
  if h : byte < 128 then
    if ⟨byte, h⟩ ∈ mask then .error .byteTaken else .ok (insert ⟨byte, h⟩ mask)
  else .error .byteIndex

/-- The bits of an atomic. -/
def takeBytes (idx size : ℕ) (mask : Cache.ByteMask) : Except CoalescerFailure Cache.ByteMask :=
  (List.range size).foldlM (fun mask i => takeByte mask (idx + i)) mask

/-- Note that `thread` touches `size` bytes from `addr` on, which no other thread of the
transaction does. -/
def TransactionInfo.take (thread : Fin 32) (addr : Addr) (size : ℕ) (info : TransactionInfo) :
    Except CoalescerFailure TransactionInfo := do
  let bytes ← takeBytes (offset addr) size info.bytes
  return { chunks := insert (chunk addr) info.chunks, active := insert thread info.active,
           bytes := bytes }

/-- The first transaction that does not conflict with the accesses of the thread gets them, or
a new one. -/
def placeAtomic (thread : Fin 32) (addr : Addr) (size : ℕ) :
    List TransactionInfo → Except CoalescerFailure (List TransactionInfo)
  | [] => do
      let info ← TransactionInfo.take thread addr size {}
      return [info]
  | info :: infos => do
      if ← testBytes info.bytes (offset addr) size then
        let infos ← placeAtomic thread addr size infos
        return info :: infos
      else
        let info ← info.take thread addr size
        return info :: infos

/-- `subwarp_transactions` of an atomic. -/
abbrev AtomicTransactions := Std.TreeMap Addr (List TransactionInfo)

/-- One round of the loop over the threads of a part of the warp. -/
def atomicThread (cfg : CoreConfig) (inst : WarpInst) (m : AtomicTransactions)
    (thread : Fin 32) : Except CoalescerFailure AtomicTransactions :=
  if thread ∉ inst.activeMask then .ok m
  else
    let addr := inst.firstAddr thread
    let segment : Addr := .ofNat 64 (inst.segmentSize cfg)
    let blockAddress := lineSizeBasedTagFunc addr segment
    if blockAddress ≠ lineSizeBasedTagFunc (addr + .ofNat 64 inst.dataSize - 1) segment then
      .error .twoSegments
    else do
      let infos ← placeAtomic thread addr inst.dataSize (m[blockAddress]?.getD [])
      return m.insert blockAddress infos

/-- What a part of the warp sends for an atomic. -/
def atomicSubwarp (cfg : CoreConfig) (inst : WarpInst) (isWrite : Bool)
    (accessType : Cache.MemAccessType) (subwarp : ℕ) :
    Except CoalescerFailure (List WarpAccess) := do
  let transactions ← (cfg.subwarpThreads subwarp).foldlM (atomicThread cfg inst) ∅
  (transactions.toList.flatMap fun (addr, infos) => infos.map (addr, ·)).mapM
    (memoryCoalescingArchReduceAndSend isWrite accessType (inst.segmentSize cfg))

/-- `memory_coalescing_arch_atomic`. -/
def memoryCoalescingArchAtomic (cfg : CoreConfig) (inst : WarpInst) (isWrite : Bool)
    (accessType : Cache.MemAccessType) : Except CoalescerFailure (List WarpAccess) :=
  if inst.space ≠ .globalSpace then .error .atomicSpace
  else if cfg.memWarpParts = 0 then .error .warpParts
  else do
    let accesses ← (List.range cfg.memWarpParts).mapM (atomicSubwarp cfg inst isWrite accessType)
    return accesses.flatten

/-! ## Instructions -/

/-- What `generate_mem_accesses` leaves: the access queue, and `cycles` where it is set. -/
structure Generated where
  accessq : List WarpAccess := []
  cycles : Option ℕ := none
  deriving DecidableEq

/-- The accesses to global and local memory. -/
def coalescedAccesses (cfg : CoreConfig) (inst : WarpInst) (isAtomic isWrite : Bool)
    (accessType : Cache.MemAccessType) : Except CoalescerFailure (List WarpAccess) :=
  if cfg.gpgpuCoalesceArch < 13 then .error .coalesceArch
  else if isAtomic then memoryCoalescingArchAtomic cfg inst isWrite accessType
  else memoryCoalescingArch cfg inst isWrite accessType

/-- `generate_mem_accesses` of a load or a store whose addresses are set. -/
def generateMemAccesses (cfg : MemConfig) (inst : WarpInst) (isAtomic isWrite : Bool) :
    Except CoalescerFailure Generated :=
  if inst.activeMask = ∅ then .ok {}
  else match inst.space with
    | .sharedSpace | .sstarrSpace => do
        let cycles ← sharedCycles cfg inst
        return { cycles := some cycles }
    | .texSpace => do
        let accessq ← cachedAccesses cfg.toCoreConfig inst isWrite .textureAccR
          (cfg.gpgpuCacheTexl1Linesize.setWidth 64)
        return { accessq := accessq }
    | .constSpace | .paramSpaceKernel => do
        let accessq ← cachedAccesses cfg.toCoreConfig inst isWrite .constAccR
          (cfg.gpgpuCacheConstl1Linesize.setWidth 64)
        return { accessq := accessq }
    | .globalSpace => do
        let accessq ← coalescedAccesses cfg.toCoreConfig inst isAtomic isWrite
          (if isWrite then .globalAccW else .globalAccR)
        return { accessq := accessq }
    | .localSpace | .paramSpaceLocal => do
        let accessq ← coalescedAccesses cfg.toCoreConfig inst isAtomic isWrite
          (if isWrite then .localAccW else .localAccR)
        return { accessq := accessq }
    | _ => .error .space

/-! ## Active threads -/

namespace WarpInst

/-- An active thread of the warp. -/
def IsActive (inst : WarpInst) (cfg : CoreConfig) (thread : Fin 32) : Prop :=
  thread ∈ inst.activeMask ∧ thread.val < cfg.warpSize

/-- The threads of a list that are active. -/
def activeOf (inst : WarpInst) (threads : List (Fin 32)) : List (Fin 32) :=
  threads.filter (· ∈ inst.activeMask)

end WarpInst

variable {inst : WarpInst} {thread : Fin 32} {threads : List (Fin 32)}

theorem mem_activeOf : thread ∈ inst.activeOf threads ↔
    thread ∈ threads ∧ thread ∈ inst.activeMask := by
  rw [WarpInst.activeOf, List.mem_filter, decide_eq_true_iff]

theorem activeOf_cons_of_mem (h : thread ∈ inst.activeMask) :
    inst.activeOf (thread :: threads) = thread :: inst.activeOf threads :=
  List.filter_cons_of_pos (decide_eq_true h)

theorem activeOf_cons_of_notMem (h : thread ∉ inst.activeMask) :
    inst.activeOf (thread :: threads) = inst.activeOf threads :=
  List.filter_cons_of_neg (by simpa using h)

end GpuCalorie.Coalescer
