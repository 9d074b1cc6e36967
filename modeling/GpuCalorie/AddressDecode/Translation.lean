/-
# The address mapping of the memory partitions

`linear_to_raw_address_translation` tells which memory channel and which sub-partition of it serve
an address, and where in the DRAM of the channel the address lies. `init` builds a mask of address
bits for every coordinate, from a table and from the option with the memory address map.
`addrdec_tlx` gathers the bits of the masks; when the number of channels is not a power of two, the
channel is a remainder instead and the bits are those of the quotient.

Shifts of `init` by more than the width of the word are undefined. The shifts of the decoder go by
numbers of the option as well; what the compiled program has for them is a parameter.
-/

import Mathlib.Data.Int.Notation
import Mathlib.Data.Nat.Notation
import Mathlib.Data.BitVec

namespace GpuCalorie.AddressDecode

/-- What stops the translation. -/
inductive AddressFailure
  /-- An assertion of the source. -/
  | assertion
  /-- The sweep test found two addresses with the same coordinates. -/
  | aliased
  | divisionByZero
  /-- The language gives the operation no value. -/
  | undefined
  deriving DecidableEq, Repr

/-- The indices of the masks. -/
inductive Field
  | chip | bk | row | col | burst
  deriving DecidableEq, Repr

/-- `partition_index_function`. -/
inductive PartitionIndexFunction
  | consecutive | bitwisePermutation | ipoly | pae | random | custom
  deriving DecidableEq, Repr

/-- The coordinates that come from the bits of the address. -/
structure AddrFields where
  chip : BitVec 32
  bk : BitVec 32
  row : BitVec 32
  col : BitVec 32
  burst : BitVec 32
  deriving DecidableEq, Repr

/-- `addrdec_t`. -/
structure AddrdecT extends AddrFields where
  subPartition : BitVec 32
  deriving DecidableEq, Repr

/-- The registered options. -/
structure AddressOptions where
  addrdecOption : Option (List Char)
  gpgpuMemAddressMask : ℤ
  memoryPartitionIndexing : PartitionIndexFunction
  runTest : Bool

/-- `ADDR_CHIP_S` and the masks while `init` builds them. -/
structure MaskTable where
  addrChipS : ℤ
  mask : Field → BitVec 64

/-- `linear_to_raw_address_translation` after `init`. -/
structure Translation where
  addrChipS : ℤ
  mask : Field → BitVec 64
  mklow : Field → ℕ
  mkhigh : Field → ℕ
  subPartitionIdMask : BitVec 64
  gap : BitVec 32
  nChannel : BitVec 32
  nSubPartitionInChannel : BitVec 32
  log2channel : BitVec 32
  log2subPartition : BitVec 32
  nextPowerOf2NChannel : BitVec 32
  memoryPartitionIndexing : PartitionIndexFunction

/-- What the compiled program and its library do where the source leaves it open: the shifts by an
amount outside the width of the word, the mask `(1 << s) - 1` for an `s` that does not fit `int`,
and the numbers `rand` draws after its seed. -/
structure Platform where
  shiftRight : BitVec 64 → ℤ → BitVec 64
  shiftLeft : BitVec 64 → ℤ → BitVec 64
  intMask : ℤ → BitVec 64
  rand : ℕ → ℕ

/-- `address_random_interleaving`, and how many numbers were drawn. -/
structure Interleaving where
  chosen : BitVec 64 → Option (BitVec 32)
  drawn : ℕ

namespace Platform

variable (p : Platform)

/-- `x >> s`. -/
def shr (x : BitVec 64) (s : ℤ) : BitVec 64 :=
  if 0 ≤ s ∧ s < 64 then x >>> s.toNat else p.shiftRight x s

/-- `x << s`. -/
def shl (x : BitVec 64) (s : ℤ) : BitVec 64 :=
  if 0 ≤ s ∧ s < 64 then x <<< s.toNat else p.shiftLeft x s

/-- `(1 << s) - 1`, an `int` that is converted to 64 bits. -/
def lowMask (s : ℤ) : BitVec 64 :=
  if 0 ≤ s ∧ s < 31 then (1#32 <<< s.toNat - 1#32).signExtend 64 else p.intMask s

end Platform

/-! ## Words -/

/-- One of the five steps of `LOGB2_32`, on the value that is left and the result so far. -/
def logb2Step (mask : BitVec 32) (bit : ℕ) (s : BitVec 32 × BitVec 32) : BitVec 32 × BitVec 32 :=
  let shift : BitVec 32 := (if s.1 &&& mask ≠ 0#32 then 1#32 else 0#32) <<< bit
  (s.1 >>> shift.toNat, s.2 ||| shift)

/-- `LOGB2_32`. -/
def logb2_32 (v : BitVec 32) : BitVec 32 :=
  (logb2Step 0x2#32 0 (logb2Step 0xC#32 1 (logb2Step 0xF0#32 2 (logb2Step 0xFF00#32 3
    (logb2Step 0xFFFF0000#32 4 (v, 0#32)))))).2

/-- `powli`. -/
def powli (x : ℤ) : ℕ → ℤ
  | 0 => 1
  | y + 1 => powli x y * x

/-- The loop of `next_powerOf2`, which unsets the rightmost bit as long as there is another one. -/
def unsetRightmost : ℕ → BitVec 32 → BitVec 32
  | 0, n => n
  | left + 1, n => if n &&& (n - 1) ≠ 0 then unsetRightmost left (n &&& (n - 1)) else n

/-- `next_powerOf2`. -/
def nextPowerOf2 (n : BitVec 32) : BitVec 32 := unsetRightmost 32 (n - 1) <<< 1

/-- The body of the loop of `addrdec_packbits`, on the position in the result and the result. -/
def packStep (mask val : BitVec 64) (s : ℕ × BitVec 64) (i : ℕ) : ℕ × BitVec 64 :=
  if mask &&& 1#64 <<< i ≠ 0 then
    (s.1 + 1, s.2 ||| ((val &&& 1#64 <<< i) >>> i) <<< s.1)
  else s

/-- `addrdec_packbits`. -/
def addrdecPackbits (mask val : BitVec 64) (high low : ℕ) : BitVec 64 :=
  ((List.range' low (high - low)).foldl (packStep mask val) (0, 0)).2

/-- The local variables of `addrdec_getmasklimit`. -/
structure MaskLimit where
  high : ℕ
  low : ℕ
  lowFound : Bool

def limitStep (mask : BitVec 64) (limit : MaskLimit) (i : ℕ) : MaskLimit :=
  if mask &&& 1#64 <<< i ≠ 0 then
    if limit.lowFound then { limit with high := i + 1 } else ⟨i + 1, i, true⟩
  else limit

/-- `addrdec_getmasklimit`. -/
def addrdecGetmasklimit (mask : BitVec 64) : MaskLimit :=
  (List.range 64).foldl (limitStep mask) ⟨64, 0, false⟩

/-! ## The partition index functions -/

/-- `bitwise_hash_function`. -/
def bitwiseHashFunction (higherBits : BitVec 64) (index bankSetNum : BitVec 32) : BitVec 32 :=
  index ^^^ (higherBits &&& (bankSetNum - 1).setWidth 64).setWidth 32

/-- The bits of the higher part that `ipoly_hash_function` adds to each bit of the index. -/
def ipolyRows : ℕ → Option (List (List ℕ))
  | 16 => some
      [[11, 10, 9, 8, 6, 4, 3, 0], [12, 8, 7, 6, 5, 3, 1, 0], [9, 8, 7, 6, 4, 2, 1],
        [10, 9, 8, 7, 5, 3, 2]]
  | 32 => some
      [[13, 12, 11, 10, 9, 6, 5, 3, 0], [14, 13, 12, 11, 10, 7, 6, 4, 1],
        [14, 10, 9, 8, 7, 6, 3, 2, 0], [11, 10, 9, 8, 7, 4, 3, 1], [12, 11, 10, 9, 8, 5, 4, 2]]
  | 64 => some
      [[18, 17, 16, 15, 12, 10, 6, 5, 0], [15, 13, 12, 11, 10, 7, 5, 1, 0],
        [16, 14, 13, 12, 11, 8, 6, 2, 1], [17, 15, 14, 13, 12, 9, 7, 3, 2],
        [18, 16, 15, 14, 13, 10, 8, 4, 3], [17, 16, 15, 14, 11, 9, 5, 4]]
  | _ => none

/-- The sum of the bits at the given positions. -/
def xorBits (a : BitVec 64) (row : List ℕ) : Bool :=
  row.foldr (fun i bit => a.getLsbD i ^^ bit) false

/-- `ipoly_hash_function`. -/
def ipolyHashFunction (higherBits : BitVec 64) (index bankSetNum : BitVec 32) :
    Except AddressFailure (BitVec 32) :=
  match ipolyRows bankSetNum.toNat with
  | some rows => .ok (rows.zipIdx.foldl (fun newIndex (row, i) =>
      if xorBits higherBits row ^^ index.getLsbD i then newIndex ||| 1#32 <<< i else newIndex) 0#32)
  | none => .error .assertion

/-! ## Decoding -/

namespace Translation

variable (p : Platform) (t : Translation)

/-- The coordinate of a field, in 32 bits. -/
def packField (field : Field) (val : BitVec 64) : BitVec 32 :=
  (addrdecPackbits (t.mask field) val (t.mkhigh field) (t.mklow field)).setWidth 32

/-- The quotient of the bits from `ADDR_CHIP_S` on and the number of channels. -/
def quotient (addr : BitVec 64) : BitVec 64 := p.shr addr t.addrChipS / t.nChannel.setWidth 64

/-- The address without the channel: the quotient above the bits below `ADDR_CHIP_S`. -/
def restOfAddr (addr : BitVec 64) : BitVec 64 :=
  p.shl (t.quotient p addr) t.addrChipS ||| (addr &&& p.lowMask t.addrChipS)

/-- The sub-partition of a channel: the lower bits of the bank are the lower part. -/
def subPartitionId (chip bk : BitVec 32) : BitVec 32 :=
  chip * t.nSubPartitionInChannel + (bk &&& (t.nSubPartitionInChannel - 1))

/-- `partition_address`. -/
def partitionAddress (addr : BitVec 64) : Except AddressFailure (BitVec 64) :=
  if t.gap = 0 then
    .ok (addrdecPackbits (~~~(t.mask .chip ||| t.subPartitionIdMask)) addr 64 0)
  else if t.nChannel = 0 then
    .error .divisionByZero
  else
    .ok (addrdecPackbits (~~~t.subPartitionIdMask) (t.restOfAddr p addr) 64 0)

/-- The second half of `addrdec_tlx`, from the switch on. -/
def partitionIndex (addr : BitVec 64) (tlx : AddrFields) (restOfAddrHighBits : BitVec 64)
    (s : Interleaving) : Except AddressFailure (AddrdecT × Interleaving) :=
  let total := t.nChannel * t.nSubPartitionInChannel
  match t.memoryPartitionIndexing with
  | .consecutive | .custom => .ok (⟨tlx, t.subPartitionId tlx.chip tlx.bk⟩, s)
  | .bitwisePermutation =>
      let chip := bitwiseHashFunction restOfAddrHighBits tlx.chip t.nChannel
      if t.gap = 0 ∧ chip < t.nChannel then
        .ok (⟨{ tlx with chip }, t.subPartitionId chip tlx.bk⟩, s)
      else .error .assertion
  | .ipoly => do
      let hash ← ipolyHashFunction restOfAddrHighBits (t.subPartitionId tlx.chip tlx.bk)
        (t.nextPowerOf2NChannel * t.nSubPartitionInChannel)
      if t.gap ≠ 0 ∧ total = 0 ∨ t.nSubPartitionInChannel = 0 then .error .divisionByZero
      else
        let subPartition := if t.gap ≠ 0 then hash % total else hash
        let chip := subPartition / t.nSubPartitionInChannel
        if chip < t.nChannel ∧ subPartition < total then .ok (⟨{ tlx with chip }, subPartition⟩, s)
        else .error .assertion
  | .random =>
      let chipAddress := p.shr addr ((t.addrChipS - t.log2subPartition.toNat) % 2 ^ 32)
      if total = 0 ∨ t.nSubPartitionInChannel = 0 then .error .divisionByZero
      else
        let newChipId := (s.chosen chipAddress).getD (BitVec.ofNat 32 (p.rand s.drawn) % total)
        let chip := newChipId / t.nSubPartitionInChannel
        if chip < t.nChannel ∧ newChipId < total then
          .ok (⟨{ tlx with chip }, newChipId⟩,
            if (s.chosen chipAddress).isSome then s
            else ⟨fun a => if a = chipAddress then some newChipId else s.chosen a, s.drawn + 1⟩)
        else .error .assertion
  | .pae => .error .assertion

/-- `addrdec_tlx`. -/
def addrdecTlx (addr : BitVec 64) (s : Interleaving) :
    Except AddressFailure (AddrdecT × Interleaving) :=
  if t.gap = 0 then
    t.partitionIndex p addr
      ⟨t.packField .chip addr, t.packField .bk addr, t.packField .row addr, t.packField .col addr,
        t.packField .burst addr⟩
      (p.shr addr ((t.addrChipS + (t.log2channel + t.log2subPartition).toNat) % 2 ^ 32)) s
  else if t.nChannel = 0 then
    .error .divisionByZero
  else
    let rest := t.restOfAddr p addr
    t.partitionIndex p addr
      ⟨(p.shr addr t.addrChipS % t.nChannel.setWidth 64).setWidth 32, t.packField .bk rest,
        t.packField .row rest, t.packField .col rest, t.packField .burst rest⟩
      (t.quotient p addr) s

/-- One address of `sweep_test`: its coordinates are new, the channel exists, and the partition
address is another one than the address when there are channel bits in it. -/
def sweepStep (s : List AddrdecT × Interleaving) (rawAddr : BitVec 64) :
    Except AddressFailure (List AddrdecT × Interleaving) := do
  let (tlx, interleaving) ← t.addrdecTlx p rawAddr s.2
  let partAddr ← t.partitionAddress p rawAddr
  let start : ℤ := if t.addrChipS = -1 then t.mklow .chip else t.addrChipS
  if tlx ∈ s.1 then .error .aliased
  else if t.nChannel ≤ tlx.chip then .error .assertion
  else if p.shl 1 start ≤ rawAddr ∧ rawAddr = partAddr then .error .assertion
  else .ok (tlx :: s.1, interleaving)

/-- `sweep_test`. -/
def sweepTest (s : Interleaving) : Except AddressFailure Interleaving := do
  let (_, interleaving) ← ((List.range' 1 (4 * 1024 * 1024 - 1)).map fun i =>
    BitVec.ofNat 64 (4 * i)).foldlM (t.sweepStep p) ([], s)
  .ok interleaving

end Translation

/-! ## Building the masks

`init` takes the masks of a numbered table, or those of the constructor, and lets the option with
the memory address map replace them. The map has one letter for every bit of the address. It either
names the channel bits itself or leaves a place, `ADDR_CHIP_S`, where `init` inserts them. -/

/-! ### The table -/

def maskOf (chip bk row col burst : BitVec 64) : Field → BitVec 64
  | .chip => chip
  | .bk => bk
  | .row => row
  | .col => col
  | .burst => burst

/-- The masks of the constructor. -/
def MaskTable.initial : MaskTable :=
  ⟨10, maskOf 0x1C00 0x300 0xFFF0000 0xE0FF 0xF⟩

/-- A row of the table. The channel bits are inserted later, the burst bits stay. -/
def MaskTable.entry (addrChipS : ℤ) (bk row col : BitVec 64) : MaskTable :=
  ⟨addrChipS, maskOf 0 bk row col (MaskTable.initial.mask .burst)⟩

/-- The switch on `gpgpu_mem_address_mask`. -/
def memAddressMask : ℤ → MaskTable
  | 0 => .entry 10 0x300 0x7FFE000 0x1CFF
  | 1 => .entry 13 0x1800 0x7FFE000 0x7FF
  | 2 => .entry 11 0x1800 0x7FFE000 0x7FF
  | 3 => .entry 11 0x1800 0xFFFE000 0x7FF
  | 14 => .entry 14 0x1800 0x7FFE000 0x7FF
  | 15 => .entry 15 0x1800 0x7FFE000 0x7FF
  | 16 => .entry 16 0x1800 0x7FFE000 0x7FF
  | 6 => .entry 6 0x1800 0x7FFE000 0x7FF
  | 5 => .entry 5 0x1800 0x7FFE000 0x7FF
  | 100 => .entry 1 0x3 0x7FFE000 0x1FFC
  | 103 => .entry 3 0x3 0x7FFE000 0x1FFC
  | 106 => .entry 6 0x1800 0x7FFE000 0x7FF
  | 160 => .entry 6 0x300 0x7FFE000 0x1CFF
  | _ => .initial

/-! ### The option -/

def isSpace (c : Char) : Bool := c = ' ' || (9 ≤ c.toNat && c.toNat ≤ 13)

def readDigits (cs : List Char) : Option ℤ :=
  let digits := cs.takeWhile Char.isDigit
  if digits.isEmpty then none
  else some (digits.foldl (fun n c => 10 * n + (c.toNat - '0'.toNat : ℤ)) 0)

/-- The conversion `%d`. -/
def scanInt (cs : List Char) : Option ℤ :=
  match cs.dropWhile isSpace with
  | '-' :: cs => (readDigits cs).map fun n => -n
  | '+' :: cs => readDigits cs
  | cs => readDigits cs

/-- `sscanf(option, "dramid@%d", &dramid_start)`. -/
def scanDramid : List Char → Option ℤ
  | 'd' :: 'r' :: 'a' :: 'm' :: 'i' :: 'd' :: '@' :: cs => scanInt cs
  | _ => none

/-- The option from its first `;` on, or all of it. -/
def mappingPart (option : List Char) : List Char :=
  match option.dropWhile (· ≠ ';') with
  | _ :: cs => cs
  | [] => option

/-- The masks a letter of the map sets a bit of. The other characters take no bit; for those that
are not separators the source prints an error. -/
def mappingFields : Char → Option (List Field)
  | 'D' | 'd' => some [.chip]
  | 'B' | 'b' => some [.bk]
  | 'R' | 'r' => some [.row]
  | 'C' | 'c' => some [.col]
  | 'S' | 's' => some [.burst, .col]
  | '0' => some []
  | _ => none

def setBit (mask : Field → BitVec 64) (fields : List Field) (ofs : ℕ) : Field → BitVec 64 :=
  fun field => if field ∈ fields then mask field ||| 1#64 <<< ofs else mask field

/-- The loop of `addrdec_parseoption`. `ofs` is the bit of the next letter; a letter that sets a
bit when there is none left shifts by a negative amount. -/
def parseMapping (dramidParsed : Bool) :
    List Char → ℤ → (Field → BitVec 64) → Except AddressFailure (ℤ × (Field → BitVec 64))
  | [], ofs, mask => .ok (ofs, mask)
  | c :: cs, ofs, mask =>
    match mappingFields c with
    | none => parseMapping dramidParsed cs ofs mask
    | some fields =>
      if dramidParsed ∧ .chip ∈ fields then .error .assertion
      else if ofs < 0 ∧ fields ≠ [] then .error .undefined
      else parseMapping dramidParsed cs (ofs - 1) (setBit mask fields ofs.toNat)

/-- `addrdec_parseoption`. -/
def addrdecParseoption (option : List Char) : Except AddressFailure MaskTable := do
  let dramid := scanDramid option
  let (ofs, mask) ← parseMapping dramid.isSome (mappingPart option) 63 fun _ => 0
  if ofs ≠ -1 then .error .assertion
  else
    match dramid with
    | none => .ok ⟨-1, mask⟩
    | some s => if -2 ^ 31 ≤ s ∧ s < 2 ^ 31 then .ok ⟨s, mask⟩ else .error .undefined

/-! ### The channel bits -/

/-- A mask makes room for `n` channel bits from `s` on. -/
def makeRoom (s n : ℕ) (mask : BitVec 64) : BitVec 64 :=
  let low := 1#64 <<< s - 1
  ((mask &&& ~~~low) <<< n) ||| (mask &&& low)

/-- The channel bits are inserted when their place is given and their number is a power of two.
The mask of the burst bits is left as it is. -/
def insertChip (table : MaskTable) (gap : BitVec 32) (nChannel : BitVec 32) (nchipbits : ℕ) :
    Except AddressFailure (Field → BitVec 64) :=
  if table.addrChipS = -1 then
    if nChannel &&& (nChannel - 1) = 0 then .ok table.mask else .error .assertion
  else if gap ≠ 0 then
    .ok table.mask
  else if 0 ≤ table.addrChipS ∧ table.addrChipS < 64 ∧ table.addrChipS + nchipbits ≤ 64 then
    let s := table.addrChipS.toNat
    .ok (maskOf
      ((List.range' s nchipbits).foldl (fun mask i => mask ||| 1#64 <<< i) (table.mask .chip))
      (makeRoom s nchipbits (table.mask .bk)) (makeRoom s nchipbits (table.mask .row))
      (makeRoom s nchipbits (table.mask .col)) (table.mask .burst))
  else .error .undefined

/-! ### The sub-partition bits -/

/-- The loop over the bank bits, which stops at the number of sub-partition bits. -/
def subPartitionMask (bk : BitVec 64) (nSubPartitionLog2 : ℕ) :
    List ℕ → ℕ → BitVec 64 → BitVec 64
  | [], _, mask => mask
  | i :: is, pos, mask =>
    if bk &&& 1#64 <<< i ≠ 0 then
      if nSubPartitionLog2 ≤ pos + 1 then mask ||| 1#64 <<< i
      else subPartitionMask bk nSubPartitionLog2 is (pos + 1) (mask ||| 1#64 <<< i)
    else subPartitionMask bk nSubPartitionLog2 is pos mask

/-- The object `init` leaves behind, from the masks with the channel bits. -/
def buildTranslation (options : AddressOptions) (addrChipS : ℤ) (mask : Field → BitVec 64)
    (gap nChannel nSubPartitionInChannel : BitVec 32) : Translation where
  addrChipS
  mask
  mklow field := (addrdecGetmasklimit (mask field)).low
  mkhigh field := (addrdecGetmasklimit (mask field)).high
  subPartitionIdMask :=
    if 1 < nSubPartitionInChannel.toInt then
      let limit := addrdecGetmasklimit (mask .bk)
      subPartitionMask (mask .bk) (logb2_32 nSubPartitionInChannel).toNat
        (List.range' limit.low (limit.high - limit.low)) 0 0
    else 0
  gap
  nChannel
  nSubPartitionInChannel
  log2channel := logb2_32 nChannel
  log2subPartition := logb2_32 nSubPartitionInChannel
  nextPowerOf2NChannel := nextPowerOf2 nChannel
  memoryPartitionIndexing := options.memoryPartitionIndexing

/-- The option replaces the masks of the table. -/
def chooseMasks (options : AddressOptions) : Except AddressFailure MaskTable :=
  match options.addrdecOption with
  | none => .ok (memAddressMask options.gpgpuMemAddressMask)
  | some option => addrdecParseoption option

/-- The sweep test is optional. -/
def runTest (p : Platform) (options : AddressOptions) (t : Translation) (s : Interleaving) :
    Except AddressFailure Interleaving :=
  if options.runTest then t.sweepTest p s else .ok s

/-- Random indexing starts with a fresh seed. -/
def seedRandom (options : AddressOptions) (s : Interleaving) : Interleaving :=
  if options.memoryPartitionIndexing = .random then { s with drawn := 0 } else s

/-- `init`. -/
def init (p : Platform) (options : AddressOptions) (nChannel nSubPartitionInChannel : BitVec 32)
    (s : Interleaving) : Except AddressFailure (Translation × Interleaving) :=
  let nchipbits := (logb2_32 nChannel).toNat
  let gap := nChannel - BitVec.ofInt 32 (powli 2 nchipbits)
  do
    let table ← chooseMasks options
    let mask ← insertChip table gap nChannel nchipbits
    if nSubPartitionInChannel &&& (nSubPartitionInChannel - 1) ≠ 0 then .error .assertion
    else
      let t := buildTranslation options table.addrChipS mask gap nChannel nSubPartitionInChannel
      let s' ← runTest p options t s
      .ok (t, seedRandom options s')

end GpuCalorie.AddressDecode
