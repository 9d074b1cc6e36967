/-
# Generic addresses

`cvta` turns an address of global, shared or local memory into one of the generic space, and
back, and accesses through generic addresses find the memory and the address again. The
addresses of local memory are counted from the frame of the function that runs, and what the
stack pointer adds to them is added where an address is made generic, and where local memory is
accessed.
-/

import GpuCalorie.DeviceMemory.Windows
import GpuCalorie.Hardware.Isa
import Mathlib.Tactic.Common

namespace GpuCalorie.DeviceMemory

open GpuCalorie.Hardware

/-- The ways to fail of what uses addresses. -/
inductive AddressFailure
  | assertion
  | abort
  deriving DecidableEq, Repr

/-- `ptx_thread_info`, as far as its addresses go. -/
structure PtxThread where
  hwSid : ℕ
  hwTid : ℕ
  localMemStackPointer : ℕ
  /-- The version of the program is 2.0 or a later one. -/
  ptxVersion2 : Bool
  deriving DecidableEq, Repr

/-! ## Windows of a core and of a thread -/

/-- Where the window of the shared memory of a core starts. -/
def sharedWindow (smid : ℕ) : ℕ := sharedGenericStart + smid * sharedMemSizeMax

/-- Where the window of the local memory of a thread starts. -/
def localWindow (smid hwtid : ℕ) : ℕ :=
  localGenericStart + totalLocalMemPerSm * smid + localMemSizeMax * hwtid

/-- `shared_to_generic`. -/
def sharedToGeneric (smid addr : ℕ) : Except AddressFailure ℕ :=
  if addr < sharedMemSizeMax then .ok ((sharedWindow smid + addr) % 2 ^ 32) else .error .assertion

/-- `global_to_generic`. -/
def globalToGeneric (addr : ℕ) : ℕ := addr

/-- `isspace_shared`. -/
def isspaceShared (smid addr : ℕ) : Bool :=
  let start := sharedWindow smid % 2 ^ 32
  let stop := sharedWindow (smid + 1) % 2 ^ 32
  if addr ≥ stop ∨ addr < start then false else true

/-- `isspace_global`. -/
def isspaceGlobal (addr : ℕ) : Bool := addr ≥ globalHeapStart || addr < staticAllocLimit

/-- `whichspace`. -/
def whichspace (addr : ℕ) : MemorySpace :=
  if addr ≥ globalHeapStart ∨ addr < staticAllocLimit then .globalSpace
  else if addr ≥ sharedGenericStart then .sharedSpace
  else .localSpace

/-- `generic_to_shared`. -/
def genericToShared (smid addr : ℕ) : Except AddressFailure ℕ :=
  if isspaceShared smid addr then .ok ((addr + 2 ^ 32 - sharedWindow smid % 2 ^ 32) % 2 ^ 32)
  else .error .assertion

/-- `local_to_generic`. -/
def localToGeneric (smid hwtid addr : ℕ) : Except AddressFailure ℕ :=
  if addr < localMemSizeMax then .ok ((localWindow smid hwtid + addr) % 2 ^ 32)
  else .error .assertion

/-- `isspace_local`. -/
def isspaceLocal (smid hwtid addr : ℕ) : Bool :=
  let start := localWindow smid hwtid % 2 ^ 32
  let stop := localWindow smid (hwtid + 1) % 2 ^ 32
  if addr ≥ stop ∨ addr < start then false else true

/-- `generic_to_local`. -/
def genericToLocal (smid hwtid addr : ℕ) : Except AddressFailure ℕ :=
  if isspaceLocal smid hwtid addr then
    .ok ((addr + 2 ^ 32 - localWindow smid hwtid % 2 ^ 32) % 2 ^ 32)
  else .error .assertion

/-- `generic_to_global`. -/
def genericToGlobal (addr : ℕ) : ℕ := addr

/-! ## Instructions -/

namespace PtxThread

variable (t : PtxThread)

/-- `cvta`, and `cvta.to`. -/
def cvta (space : MemorySpace) (toNonGeneric : Bool) (value : ℕ) : Except AddressFailure ℕ :=
  let addr := value % 2 ^ 32
  if toNonGeneric then
    match space with
    | .sharedSpace => genericToShared t.hwSid addr
    | .localSpace => genericToLocal t.hwSid t.hwTid addr
    | .globalSpace => .ok (genericToGlobal addr)
    | _ => .error .abort
  else
    match space with
    | .sharedSpace => sharedToGeneric t.hwSid addr
    | .localSpace => do
      let generic ← localToGeneric t.hwSid t.hwTid addr
      return (generic + t.localMemStackPointer) % 2 ^ 32
    | .globalSpace => .ok (globalToGeneric addr)
    | _ => .error .abort

/-- `isspacep`. No case of its switch ends with a break, so that what a case has found is lost,
and the last one aborts. -/
def isspacep (space : MemorySpace) (value : ℕ) : Except AddressFailure Bool :=
  let addr := value % 2 ^ 32
  let found := match space with
    | .sharedSpace =>
      [isspaceShared t.hwSid addr, isspaceLocal t.hwSid t.hwTid addr, isspaceGlobal addr]
    | .localSpace => [isspaceLocal t.hwSid t.hwTid addr, isspaceGlobal addr]
    | .globalSpace => [isspaceGlobal addr]
    | _ => []
  found.foldr (fun _ last => last) (.error .abort)

/-- The memories of a thread. -/
inductive Memory
  | global
  | tex
  | surf
  | param
  | localMem
  | sharedMem
  | sstarrMem
  deriving DecidableEq, Repr

/-- What the symbol of an operand in `.param` space is. -/
inductive ParamOperand
  | paramKernel
  | paramLocal
  | reg
  | other
  deriving DecidableEq, Repr

/-- What `decode_space` makes of an address of 32 bits. -/
structure Decoded where
  space : MemorySpace
  mem : Memory
  addr : ℕ
  deriving DecidableEq, Repr

/-- A generic address, in `decode_space`. -/
def decodeGeneric (addr : ℕ) : Except AddressFailure Decoded :=
  if t.ptxVersion2 then
    match whichspace addr with
    | .globalSpace => .ok ⟨.globalSpace, .global, genericToGlobal addr⟩
    | .localSpace => do
      let addr ← genericToLocal t.hwSid t.hwTid addr
      return ⟨.localSpace, .localMem, addr⟩
    | .sharedSpace => do
      let addr ← genericToShared t.hwSid addr
      return ⟨.sharedSpace, .sharedMem, addr⟩
    | _ => .error .abort
  else .error .abort

/-- `decode_space`. -/
def decodeSpace (operand : ParamOperand) (space : MemorySpace) (addr : ℕ) :
    Except AddressFailure Decoded := do
  let space ← if space = .paramSpaceUnclassified then
      match operand with
      | .paramKernel => .ok MemorySpace.paramSpaceKernel
      | .paramLocal => .ok .paramSpaceLocal
      | .reg => .ok .paramSpaceKernel
      | .other => .error .abort
    else .ok space
  match space with
  | .globalSpace => .ok ⟨space, .global, addr⟩
  | .paramSpaceLocal | .localSpace =>
      .ok ⟨space, .localMem, (addr + t.localMemStackPointer) % 2 ^ 32⟩
  | .texSpace => .ok ⟨space, .tex, addr⟩
  | .surfSpace => .ok ⟨space, .surf, addr⟩
  | .paramSpaceKernel => .ok ⟨space, .param, addr⟩
  | .sharedSpace => .ok ⟨space, .sharedMem, addr⟩
  | .sstarrSpace => .ok ⟨space, .sstarrMem, addr⟩
  | .constSpace => .ok ⟨space, .global, addr⟩
  | .genericSpace => t.decodeGeneric addr
  | _ => .error .abort

/-! ## Coherence -/

/-- The addresses of the memories that have windows. -/
def InRange (space : MemorySpace) (addr : ℕ) : Prop := match space with
  | .globalSpace => addr < 2 ^ 32 ∧ isspaceGlobal addr = true
  | .sharedSpace => addr < sharedMemSizeMax
  | .localSpace => addr + t.localMemStackPointer < localMemSizeMax
  | _ => False

/-- The byte has a generic address in the windows of its space. -/
def InWindow (space : MemorySpace) (addr : ℕ) : Prop := match space with
  | .sharedSpace =>
    sharedGenericStart ≤ sharedWindow t.hwSid % 2 ^ 32 + addr ∧
      sharedWindow t.hwSid % 2 ^ 32 + addr < globalHeapStart
  | .localSpace =>
    localGenericStart ≤ localWindow t.hwSid t.hwTid % 2 ^ 32 + (addr + t.localMemStackPointer) ∧
      localWindow t.hwSid t.hwTid % 2 ^ 32 + (addr + t.localMemStackPointer) < sharedGenericStart
  | _ => True

instance (space : MemorySpace) (addr : ℕ) : Decidable (t.InRange space addr) := by
  cases space <;> unfold InRange <;> infer_instance

instance (space : MemorySpace) (addr : ℕ) : Decidable (t.InWindow space addr) := by
  cases space <;> unfold InWindow <;> infer_instance

/-- An access through the generic address of a byte is one of the byte. -/
def SameByte (space : MemorySpace) (addr : ℕ) : Prop :=
  ∃ generic byte, t.cvta space false addr = .ok generic ∧
    t.decodeSpace .other space addr = .ok byte ∧
      t.decodeSpace .other .genericSpace generic = .ok byte

/-- Conversions there and back, and accesses with their results, are coherent. -/
def Coherent (space : MemorySpace) (addr : ℕ) : Prop :=
  t.SameByte space addr ∧ ∃ generic, t.cvta space false addr = .ok generic ∧
    t.cvta space true generic = .ok addr ∧
    ∀ addr', t.cvta space true generic = .ok addr' →
      t.decodeSpace .other space addr' = t.decodeSpace .other space addr

/-- `isspacep` agrees with the space to which an access resolves the address. -/
def IsspacepAgrees (space : MemorySpace) (generic : ℕ) : Prop :=
  t.isspacep space generic = .ok (decide (whichspace (generic % 2 ^ 32) = space))

variable {t} {space : MemorySpace} {addr : ℕ} {generic : ℕ}

/-! ## Windows of 32 bits -/

section Window

variable {start size offset : ℕ}

theorem inWindow_iff (start : ℕ) (hoffset : offset < size) (hsize : size ≤ 2 ^ 32) :
    ¬ ((start + offset) % 2 ^ 32 ≥ (start + size) % 2 ^ 32 ∨
      (start + offset) % 2 ^ 32 < start % 2 ^ 32)
      ↔ start % 2 ^ 32 + size < 2 ^ 32 := by
  omega

theorem offset_of_window (hoffset : offset < 2 ^ 32) :
    ((start + offset) % 2 ^ 32 + 2 ^ 32 - start % 2 ^ 32) % 2 ^ 32 = offset := by
  omega

end Window

theorem sharedWindow_succ (smid : ℕ) :
    sharedWindow (smid + 1) = sharedWindow smid + sharedMemSizeMax := by
  rw [sharedWindow, sharedWindow, Nat.add_mul, Nat.one_mul, Nat.add_assoc]

theorem localWindow_succ (smid hwtid : ℕ) :
    localWindow smid (hwtid + 1) = localWindow smid hwtid + localMemSizeMax := by
  rw [localWindow, localWindow, Nat.mul_add, Nat.mul_one, ← Nat.add_assoc]

theorem genericToShared_eq {smid offset : ℕ} (hoffset : offset < sharedMemSizeMax) :
    genericToShared smid ((sharedWindow smid + offset) % 2 ^ 32)
      = if sharedWindow smid % 2 ^ 32 + sharedMemSizeMax <
        2 ^ 32 then .ok offset else .error .assertion := by
  have hiff := inWindow_iff (sharedWindow smid) hoffset (by decide)
  rw [genericToShared, isspaceShared, sharedWindow_succ]
  by_cases hin : sharedWindow smid % 2 ^ 32 + sharedMemSizeMax < 2 ^ 32
  · rw [if_neg (hiff.mpr hin), if_pos rfl, if_pos hin, offset_of_window (hoffset.trans (by decide))]
  · rw [if_pos (not_not.mp (mt hiff.mp hin)), if_neg Bool.false_ne_true, if_neg hin]

theorem genericToLocal_eq {smid hwtid offset : ℕ} (hoffset : offset < localMemSizeMax) :
    genericToLocal smid hwtid ((localWindow smid hwtid + offset) % 2 ^ 32)
      = if localWindow smid hwtid % 2 ^ 32 + localMemSizeMax < 2 ^ 32 then .ok offset
        else .error .assertion := by
  have hiff := inWindow_iff (localWindow smid hwtid) hoffset (by decide)
  rw [genericToLocal, isspaceLocal, localWindow_succ]
  by_cases hin : localWindow smid hwtid % 2 ^ 32 + localMemSizeMax < 2 ^ 32
  · rw [if_neg (hiff.mpr hin), if_pos rfl, if_pos hin, offset_of_window (hoffset.trans (by decide))]
  · rw [if_pos (not_not.mp (mt hiff.mp hin)), if_neg Bool.false_ne_true, if_neg hin]

/-! ## Conversions and accesses -/

theorem foldr_last {α β : Type} (l : List α) (last : β) :
    l.foldr (fun _ last => last) last = last := by
  induction l with
  | nil => rfl
  | cons _ rest ih => exact ih

theorem isspacep_eq (t : PtxThread) (space : MemorySpace) (value : ℕ) :
    t.isspacep space value = .error .abort := foldr_last _ _

theorem cvta_shared (haddr : addr < sharedMemSizeMax) :
    t.cvta .sharedSpace false addr = .ok ((sharedWindow t.hwSid + addr) % 2 ^ 32) := by
  show sharedToGeneric t.hwSid (addr % 2 ^ 32) = _
  rw [Nat.mod_eq_of_lt (haddr.trans (by decide)), sharedToGeneric, if_pos haddr]

theorem cvta_local (haddr : addr < localMemSizeMax) :
    t.cvta .localSpace false addr
      = .ok ((localWindow t.hwSid t.hwTid + (addr + t.localMemStackPointer)) % 2 ^ 32) := by
  show (localToGeneric t.hwSid t.hwTid (addr % 2 ^ 32) >>= _) = _
  rw [Nat.mod_eq_of_lt (haddr.trans (by decide)), localToGeneric, if_pos haddr]
  refine congrArg Except.ok ?_
  omega

theorem decodeGeneric_shared (hversion : t.ptxVersion2 = true) {offset : ℕ}
    (hoffset : offset < sharedMemSizeMax) :
    t.decodeGeneric ((sharedWindow t.hwSid + offset) % 2 ^ 32) =
      .ok ⟨.sharedSpace, .sharedMem, offset⟩ ↔
      sharedGenericStart ≤ sharedWindow t.hwSid % 2 ^ 32 + offset ∧
        sharedWindow t.hwSid % 2 ^ 32 + offset < globalHeapStart := by
  have hheap := globalHeapStart_eq
  have hshared := sharedGenericStart_eq
  have hstatic := staticAllocLimit_eq
  have hsize := sharedMemSizeMax_eq
  rw [decodeGeneric, if_pos hversion]
  by_cases hglobal : (sharedWindow t.hwSid + offset) % 2 ^ 32 ≥ globalHeapStart ∨
      (sharedWindow t.hwSid + offset) % 2 ^ 32 < staticAllocLimit
  · rw [whichspace, if_pos hglobal]
    exact iff_of_false (fun h => nomatch h) (by omega)
  · rw [whichspace, if_neg hglobal]
    by_cases hin : (sharedWindow t.hwSid + offset) % 2 ^ 32 ≥ sharedGenericStart
    · rw [if_pos hin]
      dsimp only
      rw [genericToShared_eq hoffset, if_pos (by omega)]
      exact iff_of_true rfl (by omega)
    · rw [if_neg hin]
      refine iff_of_false (fun h => ?_) (by omega)
      dsimp only at h
      cases hlocal : genericToLocal t.hwSid t.hwTid ((sharedWindow t.hwSid + offset) % 2 ^ 32) with
      | error e =>
          rw [hlocal] at h
          cases h
      | ok a =>
          rw [hlocal] at h
          cases h

theorem decodeGeneric_local (hversion : t.ptxVersion2 = true) {offset : ℕ}
    (hoffset : offset < localMemSizeMax) :
    t.decodeGeneric ((localWindow t.hwSid t.hwTid + offset) % 2 ^ 32) =
      .ok ⟨.localSpace, .localMem, offset⟩ ↔
      localGenericStart ≤ localWindow t.hwSid t.hwTid % 2 ^ 32 + offset ∧
        localWindow t.hwSid t.hwTid % 2 ^ 32 + offset < sharedGenericStart := by
  have hheap := globalHeapStart_eq
  have hshared := sharedGenericStart_eq
  have hlocalStart := localGenericStart_eq
  have hstatic := staticAllocLimit_eq
  have hsize := localMemSizeMax_eq
  rw [decodeGeneric, if_pos hversion]
  by_cases hglobal : (localWindow t.hwSid t.hwTid + offset) % 2 ^ 32 ≥ globalHeapStart ∨
      (localWindow t.hwSid t.hwTid + offset) % 2 ^ 32 < staticAllocLimit
  · rw [whichspace, if_pos hglobal]
    exact iff_of_false (fun h => nomatch h) (by omega)
  · rw [whichspace, if_neg hglobal]
    by_cases hin : (localWindow t.hwSid t.hwTid + offset) % 2 ^ 32 ≥ sharedGenericStart
    · rw [if_pos hin]
      refine iff_of_false (fun h => ?_) (by omega)
      dsimp only at h
      cases hother : genericToShared t.hwSid ((localWindow t.hwSid t.hwTid + offset) % 2 ^ 32) with
      | error e =>
          rw [hother] at h
          cases h
      | ok a =>
          rw [hother] at h
          cases h
    · rw [if_neg hin]
      dsimp only
      rw [genericToLocal_eq hoffset, if_pos (by omega)]
      exact iff_of_true rfl (by omega)

/-- The spaces that have generic addresses. -/
def HasGeneric (space : MemorySpace) : Prop :=
  space = .globalSpace ∨ space = .sharedSpace ∨ space = .localSpace

instance (space : MemorySpace) : Decidable (HasGeneric space) :=
  inferInstanceAs (Decidable (_ ∨ _ ∨ _))

theorem sameByte_iff_of_eq {byte : Decoded} (hcvta : t.cvta space false addr = .ok generic)
    (hbyte : t.decodeSpace .other space addr = .ok byte) :
    t.SameByte space addr ↔ t.decodeGeneric generic = .ok byte := by
  constructor
  · rintro ⟨generic', byte', hcvta', hbyte', hgeneric⟩
    cases hcvta.symm.trans hcvta'
    cases hbyte.symm.trans hbyte'
    exact hgeneric
  · exact fun hgeneric => ⟨generic, byte, hcvta, hbyte, hgeneric⟩

theorem decodeGeneric_ptxVersion2 {byte : Decoded}
    (h : t.decodeGeneric generic = .ok byte) : t.ptxVersion2 = true := by
  rw [decodeGeneric] at h
  split_ifs at h with hversion
  exact hversion

theorem sameByte_iff (hspace : HasGeneric space) (hrange : t.InRange space addr) :
    t.SameByte space addr ↔ t.ptxVersion2 = true ∧ t.InWindow space addr := by
  by_cases hversion : t.ptxVersion2 = true
  case neg =>
    refine iff_of_false (fun h => ?_) fun h => hversion h.1
    obtain ⟨generic, byte, -, -, hgeneric⟩ := h
    exact hversion (decodeGeneric_ptxVersion2 hgeneric)
  rw [and_iff_right hversion]
  rcases hspace with rfl | rfl | rfl
  · obtain ⟨hlt, hglobal⟩ := hrange
    have hcvta : t.cvta .globalSpace false addr = .ok addr := by
      show Except.ok (addr % 2 ^ 32) = _
      rw [Nat.mod_eq_of_lt hlt]
    rw [sameByte_iff_of_eq hcvta rfl]
    refine iff_of_true ?_ trivial
    rw [decodeGeneric, if_pos hversion, whichspace, if_pos]
    · rfl
    · simpa [isspaceGlobal] using hglobal
  · rw [sameByte_iff_of_eq (cvta_shared hrange) rfl, decodeGeneric_shared hversion hrange]
    rfl
  · have hsum : (addr + t.localMemStackPointer) % 2 ^ 32 = addr + t.localMemStackPointer :=
      Nat.mod_eq_of_lt (lt_trans hrange (by decide))
    have hbyte : t.decodeSpace .other .localSpace addr
        = .ok ⟨.localSpace, .localMem, addr + t.localMemStackPointer⟩ := by
      show Except.ok (Decoded.mk _ _ ((addr + t.localMemStackPointer) % 2 ^ 32)) = _
      rw [hsum]
    rw [sameByte_iff_of_eq (cvta_local (Nat.lt_of_le_of_lt (Nat.le_add_right _ _) hrange)) hbyte,
      decodeGeneric_local hversion hrange]
    rfl

theorem cvta_to (hspace : HasGeneric space) (hrange : t.InRange space addr)
    (hwindow : t.InWindow space addr) (hcvta : t.cvta space false addr = .ok generic) :
    t.cvta space true generic
      = .ok (addr + if space = .localSpace then t.localMemStackPointer else 0) := by
  have hheap := globalHeapStart_eq
  have hshared := sharedGenericStart_eq
  have hsize := sharedMemSizeMax_eq
  have hsize' := localMemSizeMax_eq
  have hmod : ∀ a, a % 2 ^ 32 % 2 ^ 32 = a % 2 ^ 32 := fun a => Nat.mod_mod a _
  rcases hspace with rfl | rfl | rfl
  · have hgeneric : addr % 2 ^ 32 = generic := Except.ok.inj hcvta
    rw [cvta, if_pos rfl, ← hgeneric, hmod, Nat.mod_eq_of_lt hrange.1, if_neg (by decide),
      Nat.add_zero]
    rfl
  · have hgeneric := Except.ok.inj ((cvta_shared hrange).symm.trans hcvta)
    obtain ⟨-, hbelow⟩ := hwindow
    rw [cvta, if_pos rfl, ← hgeneric, hmod, genericToShared_eq hrange, if_pos (by omega),
      if_neg (by decide), Nat.add_zero]
  · have hlt : addr < localMemSizeMax := Nat.lt_of_le_of_lt (Nat.le_add_right _ _) hrange
    have hgeneric := Except.ok.inj ((cvta_local hlt).symm.trans hcvta)
    obtain ⟨-, hbelow⟩ := hwindow
    rw [cvta, if_pos rfl, ← hgeneric, hmod, genericToLocal_eq hrange, if_pos (by omega), if_pos rfl]

theorem coherent_iff (hspace : HasGeneric space) (hrange : t.InRange space addr) :
    t.Coherent space addr ↔ t.ptxVersion2 = true ∧ t.InWindow space addr ∧
      (space = .localSpace → t.localMemStackPointer = 0) := by
  constructor
  · rintro ⟨hsame, generic, hcvta, hto, -⟩
    obtain ⟨hversion, hwindow⟩ := (sameByte_iff hspace hrange).mp hsame
    refine ⟨hversion, hwindow, fun hlocal => ?_⟩
    have hback := hto.symm.trans (cvta_to hspace hrange hwindow hcvta)
    rw [if_pos hlocal] at hback
    have heq := Except.ok.inj hback
    omega
  · rintro ⟨hversion, hwindow, hframe⟩
    have hsame := (sameByte_iff hspace hrange).mpr ⟨hversion, hwindow⟩
    obtain ⟨generic, byte, hcvta, -, -⟩ := id hsame
    have hto : t.cvta space true generic = .ok addr := by
      rw [cvta_to hspace hrange hwindow hcvta]
      split_ifs with hlocal
      · rw [hframe hlocal, Nat.add_zero]
      · rfl
    refine ⟨hsame, generic, hcvta, hto, fun addr' haddr' => ?_⟩
    cases hto.symm.trans haddr'
    rfl

/-- Accesses through generic addresses are those of the bytes themselves, wherever the windows
are. Conversions there and back, and accesses with their results, are so too except for local
memory in nested calls. `isspacep` never is. -/
theorem genericAddress_iff (hspace : HasGeneric space) (hrange : t.InRange space addr) :
    (t.SameByte space addr ↔ t.ptxVersion2 = true ∧ t.InWindow space addr) ∧
      (t.Coherent space addr ↔ t.ptxVersion2 = true ∧ t.InWindow space addr ∧
        (space = .localSpace → t.localMemStackPointer = 0)) ∧
      ∀ generic, ¬ t.IsspacepAgrees space generic := by
  refine ⟨sameByte_iff hspace hrange, coherent_iff hspace hrange, fun generic hagrees => ?_⟩
  rw [IsspacepAgrees, isspacep_eq] at hagrees
  cases hagrees

/-- In the last function of a chain of calls. -/
theorem genericAddress_nested :
    (PtxThread.mk 79 2047 64 true).SameByte .localSpace 4 ∧
      ¬ (PtxThread.mk 79 2047 64 true).Coherent .localSpace 4 := by
  obtain ⟨hsame, hcoherent, -⟩ := genericAddress_iff (.inr (.inr rfl))
    (show (PtxThread.mk 79 2047 64 true).InRange .localSpace 4 by decide)
  exact ⟨hsame.mpr ⟨rfl, by decide⟩, fun h => absurd ((hcoherent.mp h).2.2 rfl) (by decide)⟩

/-- A local address that is made generic and local again in a nested call, and what `isspacep`
says of it. -/
theorem not_coherent_nested :
    (PtxThread.mk 0 0 64 true).cvta .localSpace false 4 = .ok (localGenericStart + 68) ∧
      (PtxThread.mk 0 0 64 true).cvta .localSpace true (localGenericStart + 68) = .ok 68 ∧
      (PtxThread.mk 0 0 64 true).isspacep .localSpace (localGenericStart + 68) = .error .abort ∧
      ¬ (PtxThread.mk 0 0 64 true).Coherent .localSpace 4 := by
  have hcvta : (PtxThread.mk 0 0 64 true).cvta .localSpace false 4 = .ok (localGenericStart + 68) :=
    rfl
  have hto : (PtxThread.mk 0 0 64 true).cvta .localSpace true (localGenericStart + 68) = .ok 68 :=
    rfl
  refine ⟨hcvta, hto, rfl, ?_⟩
  rintro ⟨-, generic, hcvta', hto', -⟩
  cases hcvta.symm.trans hcvta'
  cases hto.symm.trans hto'

end PtxThread

end GpuCalorie.DeviceMemory
