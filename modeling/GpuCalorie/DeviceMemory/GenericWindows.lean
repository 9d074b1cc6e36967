/-
# Windows of the generic space

The windows of shared memory of the cores and of local memory of the threads are apart from each
other, and the functions on generic addresses agree about them. Global memory goes around them: the
globals of a program are below and the heap is above. Nothing keeps either there: globals get
addresses up to any number, and the heap goes on from 0 when it has come to the end of the
addresses.
-/

import GpuCalorie.DeviceMemory.Disjoint
import GpuCalorie.DeviceMemory.Generic
import GpuCalorie.Ptx.SymbolAllocation

namespace GpuCalorie.DeviceMemory

open GpuCalorie.Hardware GpuCalorie.Math GpuCalorie.Ptx.Symbols
open PtxThread (sharedWindow_succ localWindow_succ genericToShared_eq genericToLocal_eq)

/-! ## Windows -/

/-- The functions on generic addresses have these windows, and turn the addresses of a window into
those of the memory and back. -/
structure Window (start size : ℕ) (isspace : ℕ → Bool)
    (toGeneric fromGeneric : ℕ → Except AddressFailure ℕ) :
    Prop where
  /-- No expression of 32 bits overflows. -/
  stop_lt : start + size < 2 ^ 32
  isspace_iff : ∀ a < 2 ^ 32, isspace a = true ↔ start ≤ a ∧ a < start + size
  toGeneric_eq : ∀ offset < size, toGeneric offset = .ok (start + offset)
  fromGeneric_eq : ∀ offset < size, fromGeneric (start + offset) = .ok offset

variable {smid hwtid smid' hwtid' a : ℕ}

section

variable (hsmid : smid < maxStreamingMultiprocessors)
include hsmid

theorem sharedWindow_lt :
    sharedGenericStart ≤ sharedWindow smid ∧ sharedWindow smid + sharedMemSizeMax ≤
      globalHeapStart := by
  rw [sharedWindow, sharedGenericStart_eq, sharedMemSizeMax_eq, globalHeapStart_eq]
  change smid < 80 at hsmid
  omega

theorem localWindow_lt (hhwtid : hwtid < maxThreadPerSm) :
    localGenericStart ≤ localWindow smid hwtid ∧
      localWindow smid hwtid + localMemSizeMax ≤ sharedGenericStart := by
  rw [localWindow, localGenericStart_eq, sharedGenericStart_eq, localMemSizeMax_eq]
  change smid < 80 at hsmid
  change hwtid < 2048 at hhwtid
  show _ ∧ 529006592 + 33554432 * smid + 16384 * hwtid + 16384 ≤ _
  omega

theorem window_shared :
    Window (sharedWindow smid) sharedMemSizeMax (isspaceShared smid) (sharedToGeneric smid)
      (genericToShared smid) := by
  have hheap := globalHeapStart_eq
  obtain ⟨-, hstop⟩ := sharedWindow_lt hsmid
  have hmod : sharedWindow smid % 2 ^ 32 = sharedWindow smid := Nat.mod_eq_of_lt (by omega)
  have hmod' : (sharedWindow smid + sharedMemSizeMax) % 2 ^ 32 =
      sharedWindow smid + sharedMemSizeMax :=
    Nat.mod_eq_of_lt (by omega)
  constructor
  case stop_lt => omega
  case isspace_iff =>
    intro a _
    rw [isspaceShared, sharedWindow_succ, hmod, hmod']
    split_ifs with h
    · exact iff_of_false (by rintro ⟨⟩) (by omega)
    · exact iff_of_true rfl (by omega)
  case toGeneric_eq =>
    intro offset hoffset
    rw [sharedToGeneric, if_pos hoffset, Nat.mod_eq_of_lt (by omega)]
  case fromGeneric_eq =>
    intro offset hoffset
    have heq := @genericToShared_eq smid offset hoffset
    rwa [hmod, if_pos (by omega), Nat.mod_eq_of_lt (by omega)] at heq

theorem window_local (hhwtid : hwtid < maxThreadPerSm) :
    Window (localWindow smid hwtid) localMemSizeMax (isspaceLocal smid hwtid)
      (localToGeneric smid hwtid) (genericToLocal smid hwtid) := by
  have hshared := sharedGenericStart_eq
  obtain ⟨-, hstop⟩ := localWindow_lt hsmid hhwtid
  have hmod : localWindow smid hwtid % 2 ^ 32 = localWindow smid hwtid :=
    Nat.mod_eq_of_lt (by omega)
  have hmod' : (localWindow smid hwtid + localMemSizeMax) % 2 ^ 32 =
      localWindow smid hwtid + localMemSizeMax := Nat.mod_eq_of_lt (by omega)
  constructor
  case stop_lt => omega
  case isspace_iff =>
    intro a _
    rw [isspaceLocal, localWindow_succ, hmod, hmod']
    split_ifs with h
    · exact iff_of_false (by rintro ⟨⟩) (by omega)
    · exact iff_of_true rfl (by omega)
  case toGeneric_eq =>
    intro offset hoffset
    rw [localToGeneric, if_pos hoffset, Nat.mod_eq_of_lt (by omega)]
  case fromGeneric_eq =>
    intro offset hoffset
    have heq := @genericToLocal_eq smid hwtid offset hoffset
    rwa [hmod, if_pos (by omega), Nat.mod_eq_of_lt (by omega)] at heq

end

/-- The address is in the window of some core or of some thread. -/
def Windowed (a : ℕ) : Prop := staticAllocLimit ≤ a ∧ a < globalHeapStart

theorem windowed_shared (hsmid : smid < maxStreamingMultiprocessors)
    (h : sharedWindow smid ≤ a ∧ a < sharedWindow smid + sharedMemSizeMax) :
    Windowed a ∧ whichspace a = .sharedSpace := by
  have hstatic := staticAllocLimit_eq
  have hstart := sharedGenericStart_eq
  obtain ⟨hle, hstop⟩ := sharedWindow_lt hsmid
  refine ⟨⟨by omega, by omega⟩, ?_⟩
  rw [whichspace, if_neg (by omega), if_pos (by omega)]

theorem windowed_local (hsmid : smid < maxStreamingMultiprocessors)
    (hhwtid : hwtid < maxThreadPerSm)
    (h : localWindow smid hwtid ≤ a ∧ a < localWindow smid hwtid + localMemSizeMax) :
    Windowed a ∧ whichspace a = .localSpace := by
  have hstatic := staticAllocLimit_eq
  have hstart := sharedGenericStart_eq
  have hlocal := localGenericStart_eq
  have hheap := globalHeapStart_eq
  obtain ⟨hle, hstop⟩ := localWindow_lt hsmid hhwtid
  refine ⟨⟨by omega, by omega⟩, ?_⟩
  rw [whichspace, if_neg (by omega), if_neg (by omega)]

theorem exists_of_windowed (h : Windowed a) :
    (∃ smid < maxStreamingMultiprocessors,
        sharedWindow smid ≤ a ∧ a < sharedWindow smid + sharedMemSizeMax) ∨
      ∃ smid < maxStreamingMultiprocessors, ∃ hwtid < maxThreadPerSm,
        localWindow smid hwtid ≤ a ∧ a < localWindow smid hwtid + localMemSizeMax := by
  obtain ⟨hle, hlt⟩ := h
  rw [staticAllocLimit_eq] at hle
  rw [globalHeapStart_eq] at hlt
  by_cases hshared : sharedGenericStart ≤ a
  · rw [sharedGenericStart_eq] at hshared
    refine .inl ⟨(a - 3213361152) / 98304, ?_, ?_, ?_⟩
    · show _ < 80
      omega
    · show 3213361152 + (a - 3213361152) / 98304 * 98304 ≤ a
      omega
    · show a < 3213361152 + (a - 3213361152) / 98304 * 98304 + 98304
      omega
  · rw [sharedGenericStart_eq] at hshared
    refine .inr ⟨(a - 529006592) / 33554432, ?_, (a - 529006592) % 33554432 / 16384, ?_, ?_, ?_⟩
    · show _ < 80
      omega
    · show _ < 2048
      omega
    · show 529006592 + 33554432 * ((a - 529006592) / 33554432) +
        16384 * ((a - 529006592) % 33554432 / 16384) ≤ a
      omega
    · show a < 529006592 + 33554432 * ((a - 529006592) / 33554432) +
        16384 * ((a - 529006592) % 33554432 / 16384) + 16384
      omega

/-! ## Global memory -/

/-- The addresses of global memory that a program has: those of its globals and constants, and
those of its allocations. -/
def HandedOut (declared : List Variable) (sizes : List ℕ) (a : ℕ) : Prop :=
  (∃ v ∈ declared, v.arena = .global ∧ ∃ i < v.declaration.bytes, a = (v.address + i) % 2 ^ 32) ∨
    ∃ r ∈ regionsFrom globalHeapStart sizes, ∃ i < r.size, a = (r.start + i) % 2 ^ 32

/-- The windows of the cores and the threads are apart from each other and from global memory, and
the functions on generic addresses agree about them. -/
structure GenericWindows (declared : List Variable) (sizes : List ℕ) : Prop where
  shared : ∀ smid < maxStreamingMultiprocessors,
    Window (sharedWindow smid) sharedMemSizeMax (isspaceShared smid) (sharedToGeneric smid)
      (genericToShared smid)
  «local» : ∀ smid < maxStreamingMultiprocessors, ∀ hwtid < maxThreadPerSm,
    Window (localWindow smid hwtid) localMemSizeMax (isspaceLocal smid hwtid)
      (localToGeneric smid hwtid) (genericToLocal smid hwtid)
  shared_unique : ∀ smid < maxStreamingMultiprocessors, ∀ smid' < maxStreamingMultiprocessors,
    ∀ a < 2 ^ 32, isspaceShared smid a = true → isspaceShared smid' a = true → smid = smid'
  local_unique : ∀ smid < maxStreamingMultiprocessors, ∀ hwtid < maxThreadPerSm,
    ∀ smid' < maxStreamingMultiprocessors, ∀ hwtid' < maxThreadPerSm, ∀ a < 2 ^ 32,
      isspaceLocal smid hwtid a = true → isspaceLocal smid' hwtid' a = true →
        smid = smid' ∧ hwtid = hwtid'
  whichspace_shared : ∀ smid < maxStreamingMultiprocessors, ∀ a < 2 ^ 32,
    isspaceShared smid a = true → whichspace a = .sharedSpace
  whichspace_local : ∀ smid < maxStreamingMultiprocessors, ∀ hwtid < maxThreadPerSm, ∀ a < 2 ^ 32,
    isspaceLocal smid hwtid a = true → whichspace a = .localSpace
  /-- What is in no window is global. -/
  whichspace_global : ∀ a < 2 ^ 32,
    (isspaceGlobal a = true ↔ whichspace a = .globalSpace) ∧
    (isspaceGlobal a = true ↔
      (∀ smid < maxStreamingMultiprocessors, isspaceShared smid a = false) ∧
      ∀ smid < maxStreamingMultiprocessors, ∀ hwtid < maxThreadPerSm,
        isspaceLocal smid hwtid a = false)
  generic_global : ∀ a, genericToGlobal (globalToGeneric a) = a ∧
    globalToGeneric (genericToGlobal a) = a
  handedOut : ∀ a, HandedOut declared sizes a → isspaceGlobal a = true

theorem isspaceGlobal_iff : isspaceGlobal a = true ↔ ¬ Windowed a := by
  rw [isspaceGlobal, Bool.or_eq_true, decide_eq_true_iff, decide_eq_true_iff, Windowed]
  omega

theorem whichspace_global_iff : whichspace a = .globalSpace ↔ ¬ Windowed a := by
  rw [whichspace, Windowed]
  split_ifs with hglobal hshared
  · exact iff_of_true rfl (by omega)
  · exact iff_of_false (by rintro ⟨⟩) (by omega)
  · exact iff_of_false (by rintro ⟨⟩) (by omega)

theorem sharedWindow_unique (h : sharedWindow smid ≤ a ∧ a < sharedWindow smid + sharedMemSizeMax)
    (h' : sharedWindow smid' ≤ a ∧ a < sharedWindow smid' + sharedMemSizeMax) : smid = smid' := by
  rw [sharedWindow, sharedMemSizeMax_eq] at h h'
  omega

theorem localWindow_unique (hhwtid : hwtid < maxThreadPerSm) (hhwtid' : hwtid' < maxThreadPerSm)
    (h : localWindow smid hwtid ≤ a ∧ a < localWindow smid hwtid + localMemSizeMax)
    (h' : localWindow smid' hwtid' ≤ a ∧ a < localWindow smid' hwtid' + localMemSizeMax) :
    smid = smid' ∧ hwtid = hwtid' := by
  rw [localWindow, localMemSizeMax_eq, show totalLocalMemPerSm = 33554432 from rfl] at h h'
  change hwtid < 2048 at hhwtid
  change hwtid' < 2048 at hhwtid'
  omega

theorem genericWindows_iff_handedOut {declared : List Variable} {sizes : List ℕ} :
    GenericWindows declared sizes ↔ ∀ a, HandedOut declared sizes a → ¬ Windowed a := by
  constructor
  · exact fun h a ha => isspaceGlobal_iff.1 (h.handedOut a ha)
  intro h
  constructor
  case shared => exact fun smid => window_shared
  case «local» => exact fun smid hsmid hwtid => window_local hsmid
  case shared_unique =>
    intro smid hsmid smid' hsmid' a ha hin hin'
    exact sharedWindow_unique (((window_shared hsmid).isspace_iff a ha).1 hin)
      (((window_shared hsmid').isspace_iff a ha).1 hin')
  case local_unique =>
    intro smid hsmid hwtid hhwtid smid' hsmid' hwtid' hhwtid' a ha hin hin'
    exact localWindow_unique hhwtid hhwtid'
      (((window_local hsmid hhwtid).isspace_iff a ha).1 hin)
      (((window_local hsmid' hhwtid').isspace_iff a ha).1 hin')
  case whichspace_shared =>
    intro smid hsmid a ha hin
    exact (windowed_shared hsmid (((window_shared hsmid).isspace_iff a ha).1 hin)).2
  case whichspace_local =>
    intro smid hsmid hwtid hhwtid a ha hin
    exact (windowed_local hsmid hhwtid (((window_local hsmid hhwtid).isspace_iff a ha).1 hin)).2
  case whichspace_global =>
    intro a ha
    refine ⟨isspaceGlobal_iff.trans whichspace_global_iff.symm, isspaceGlobal_iff.trans ?_⟩
    constructor
    · intro hnot
      constructor
      · intro smid hsmid
        rw [← Bool.not_eq_true, (window_shared hsmid).isspace_iff a ha]
        exact fun hin => hnot (windowed_shared hsmid hin).1
      · intro smid hsmid hwtid hhwtid
        rw [← Bool.not_eq_true, (window_local hsmid hhwtid).isspace_iff a ha]
        exact fun hin => hnot (windowed_local hsmid hhwtid hin).1
    · rintro ⟨hshared, hlocal⟩ hin
      obtain ⟨smid, hsmid, hin⟩ | ⟨smid, hsmid, hwtid, hhwtid, hin⟩ := exists_of_windowed hin
      · have htrue := ((window_shared hsmid).isspace_iff a ha).2 hin
        exact Bool.false_ne_true ((hshared smid hsmid).symm.trans htrue)
      · have htrue := ((window_local hsmid hhwtid).isspace_iff a ha).2 hin
        exact Bool.false_ne_true ((hlocal smid hsmid hwtid hhwtid).symm.trans htrue)
  case generic_global => exact fun _ => ⟨rfl, rfl⟩
  case handedOut => exact fun a ha => isspaceGlobal_iff.2 (h a ha)

/-! ## Allocations -/

/-- How far the heap may go: to the end of the addresses, and up to the windows again. -/
abbrev heapLimit : ℕ := 2 ^ 32 + staticAllocLimit

theorem heapLimit_eq : heapLimit = 4823973888 := rfl

variable {devMalloc : ℕ} {sizes : List ℕ} {s : Recognizer}

theorem allocations_iff (haligned : 256 ∣ devMalloc) (hheap : globalHeapStart ≤ devMalloc)
    (hle : devMalloc ≤ heapLimit) :
    (∀ r ∈ regionsFrom devMalloc sizes, ∀ i < r.size, ¬ Windowed ((r.start + i) % 2 ^ 32)) ↔
      devMalloc + (sizes.map rounded).sum ≤ heapLimit := by
  have hheap' := globalHeapStart_eq
  have hstatic := staticAllocLimit_eq
  have hlimit := heapLimit_eq
  constructor
  · induction sizes generalizing devMalloc with
    | nil => exact fun _ => hle
    | cons size rest ih =>
      intro h
      rw [List.map_cons, List.sum_cons, ← Nat.add_assoc]
      have hend : devMalloc + size ≤ heapLimit := by
        by_contra hbeyond
        refine h ⟨devMalloc, size⟩ List.mem_cons_self (heapLimit - devMalloc) ?_ ?_
        · show heapLimit - devMalloc < size
          omega
        · show Windowed ((devMalloc + (heapLimit - devMalloc)) % 2 ^ 32)
          rw [Nat.add_sub_cancel' hle]
          exact ⟨by decide, by decide⟩
      have hrounded : devMalloc + rounded size ≤ heapLimit := by
        rw [rounded]
        omega
      have hnext : bump devMalloc size = devMalloc + rounded size :=
        bump_eq (hrounded.trans_lt (by decide))
      have hrest := fun r hr => h r (List.mem_cons_of_mem _ hr)
      rw [hnext] at hrest
      refine ih ?_ (hheap.trans (Nat.le_add_right _ _)) hrounded hrest
      rw [rounded]
      omega
  · intro hbound r hr i hi
    obtain ⟨-, hstart, hend⟩ := (regionsFrom_sorted haligned hbound (by decide)).1 r hr
    rw [Windowed]
    omega

/-! ## Globals of a program -/

theorem alignTo_dvd_staticAllocLimit {size : ℕ} (hne : alignTo size 128 ≠ 0) :
    alignTo size 128 ∣ staticAllocLimit := by
  have hpower : ∀ k < 128, k &&& (k - 1) = 0 → k ≠ 0 → k ∣ 128 := by decide
  refine Nat.dvd_trans ?_ (show 128 ∣ staticAllocLimit by decide)
  rw [alignTo] at hne ⊢
  split_ifs at hne ⊢ with hsize
  · exact hpower size hsize.1 hsize.2 hne
  · exact Nat.dvd_refl 128

theorem add_padAddress_le {addr size : ℕ} (hle : addr ≤ staticAllocLimit) :
    addr + padAddress addr size 128 ≤ staticAllocLimit := by
  rw [padAddress]
  split_ifs with hzero
  · exact hle
  · obtain ⟨limit, hlimit⟩ := alignTo_dvd_staticAllocLimit hzero
    rw [hlimit] at hle ⊢
    generalize alignTo size 128 = k at hle hzero ⊢
    have hpos : 0 < k := Nat.pos_of_ne_zero hzero
    obtain heq | hlt := hle.eq_or_lt
    · rw [heq, Nat.mul_mod_right, Nat.sub_zero, Nat.mod_self, Nat.add_zero]
    · have hdiv := Nat.div_add_mod addr k
      have hmod : addr % k < k := Nat.mod_lt _ hpos
      have hquot : addr / k + 1 ≤ limit := Nat.div_lt_of_lt_mul hlt
      have hnext : k * (addr / k) + k ≤ k * limit := by
        rw [← Nat.mul_succ]
        exact Nat.mul_le_mul_left k hquot
      obtain hmod' | hmod' := Nat.eq_zero_or_pos (addr % k)
      · rw [hmod', Nat.sub_zero, Nat.mod_self]
        omega
      · rw [Nat.mod_eq_of_lt (Nat.sub_lt hpos hmod')]
        omega

theorem numBytes_le_bytes (d : Declaration) : d.numBytes ≤ d.bytes := by
  obtain ⟨name, space, type, vector, alignment, array⟩ := d
  have hlanes : type.size ≤ vector.lanes * type.size :=
    Nat.le_mul_of_pos_left _ (by cases vector <;> decide)
  cases array with
  | nonArray =>
    show type.size / 8 % 2 ^ 32 ≤ (vector.lanes * type.size + 7) / 8
    omega
  | noDim =>
    show 0 / 8 % 2 ^ 32 ≤ 0
    exact le_rfl
  | dim n =>
    show n * type.size % 2 ^ 64 / 8 % 2 ^ 32 ≤ (n * (vector.lanes * type.size) + 7) / 8
    have hle := Nat.mul_le_mul_left n hlanes
    omega

/-- A global variable ends where the windows start, or before. -/
def Below (v : Variable) : Prop :=
  v.arena = .global → 0 < v.declaration.bytes → v.stop ≤ staticAllocLimit

instance (v : Variable) : Decidable (Below v) := inferInstanceAs (Decidable (_ → _))

/-- A global variable has no address in a window. -/
def Avoids (v : Variable) : Prop :=
  v.arena = .global → ∀ i < v.declaration.bytes, ¬ Windowed ((v.address + i) % 2 ^ 32)

theorem Below.avoids {v : Variable} (h : Below v) : Avoids v := by
  intro harena i hi hwindow
  have hstop := h harena (Nat.zero_lt_of_lt hi)
  have hstatic := staticAllocLimit_eq
  rw [Variable.stop] at hstop
  rw [Windowed] at hwindow
  omega

/-- The cursors of all tables are below the windows. -/
structure CursorsBelow (s : Recognizer) : Prop where
  module : s.module.next .global ≤ staticAllocLimit
  functions : ∀ name info, s.functions name = some info →
    info.symtab.next .global ≤ staticAllocLimit
  groups : ∀ t ∈ s.current.groups, t.next .global ≤ staticAllocLimit

namespace CursorsBelow

variable {s : Recognizer} {t : SymbolTable} {name : String}

section

variable (h : CursorsBelow s)
include h

theorem symtab (function : Option String) :
    (s.symtab function).next .global ≤ staticAllocLimit := by
  cases function with
  | none => exact h.module
  | some name =>
    rw [Recognizer.symtab]
    cases hname : s.functions name with
    | none => exact (by decide : 0x100 ≤ staticAllocLimit)
    | some info => exact h.functions name info hname

theorem currentTable : s.currentTable.next .global ≤ staticAllocLimit := by
  rw [Recognizer.currentTable]
  cases hgroups : s.current.groups with
  | nil => exact h.symtab _
  | cons group groups => exact h.groups group (hgroups ▸ List.mem_cons_self)

theorem modifyFunction {f : FunctionInfo → FunctionInfo}
    (hf : ∀ info, info.symtab.next .global ≤ staticAllocLimit →
      (f info).symtab.next .global ≤ staticAllocLimit) :
    CursorsBelow (s.modifyFunction name f) := by
  refine ⟨h.module, fun g info hinfo => ?_, h.groups⟩
  by_cases hg : g = name
  · subst hg
    rw [s.functions_modifyFunction_self] at hinfo
    obtain ⟨info', hinfo', rfl⟩ := Option.map_eq_some_iff.1 hinfo
    exact hf info' (h.functions g info' hinfo')
  · rw [s.functions_modifyFunction_of_ne hg] at hinfo
    exact h.functions g info hinfo

theorem setCurrentTable (ht : t.next .global ≤ staticAllocLimit) :
    CursorsBelow (s.setCurrentTable t) := by
  rw [Recognizer.setCurrentTable]
  cases hgroups : s.current.groups with
  | nil =>
    cases hfunction : s.current.function with
    | none => exact ⟨ht, h.functions, h.groups⟩
    | some name => exact h.modifyFunction fun _ _ => ht
  | cons group groups =>
    refine ⟨h.module, h.functions, fun t' ht' => ?_⟩
    obtain rfl | hmem := List.mem_cons.1 ht'
    · exact ht
    · exact h.groups t' (hgroups ▸ List.mem_cons_of_mem group hmem)

theorem place {arena : Arena} {padded : Bool} {d : Declaration}
    (hdeclared : ∀ v ∈ (s.place arena padded d).declared, Avoids v) :
    CursorsBelow (s.place arena padded d) ∧ ∃ v,
      (s.place arena padded d).declared = v :: s.declared ∧
      Below v := by
  have hnew := hdeclared _ List.mem_cons_self
  have hnext := h.currentTable
  have hstatic := staticAllocLimit_eq
  have hbytes := numBytes_le_bytes d
  generalize hpad : (if padded then padAddress (s.currentTable.next arena) d.numBytes 128 else 0) =
    addrPad at hnew
  have hpadded : s.currentTable.next .global + (if padded then
      padAddress (s.currentTable.next .global) d.numBytes 128 else 0) ≤ staticAllocLimit := by
    split_ifs
    · exact add_padAddress_le hnext
    · exact hnext
  have hbelow : arena = .global → s.currentTable.next arena + addrPad + d.bytes ≤ staticAllocLimit ∧
      (s.currentTable.next arena + addrPad) % 2 ^ 32 = s.currentTable.next arena + addrPad := by
    rintro rfl
    rw [hpad] at hpadded
    have hmod : (s.currentTable.next .global + addrPad) % 2 ^ 32 =
        s.currentTable.next .global + addrPad := Nat.mod_eq_of_lt (by omega)
    refine ⟨?_, hmod⟩
    by_contra hbeyond
    refine hnew rfl (staticAllocLimit - (s.currentTable.next .global + addrPad)) ?_ ?_
    · show _ < d.bytes
      omega
    · dsimp only
      rw [hmod, Nat.add_sub_cancel' hpadded]
      exact ⟨by decide, by decide⟩
  refine ⟨?_, _, rfl, ?_⟩
  · have hcursor : ((s.currentTable.addVariable d.name).alloc arena (d.numBytes + addrPad)).next
      .global ≤
        staticAllocLimit := by
      by_cases harena : arena = .global
      · obtain ⟨hle, -⟩ := hbelow harena
        subst harena
        rw [SymbolTable.next_alloc_self]
        show (s.currentTable.next .global + (d.numBytes + addrPad)) % 2 ^ 32 ≤ _
        omega
      · rw [SymbolTable.next_alloc_of_ne _ (Ne.symm harena)]
        exact hnext
    rw [← hpad] at hcursor
    have hset := h.setCurrentTable hcursor
    exact ⟨hset.module, hset.functions, hset.groups⟩
  · intro harena _
    obtain ⟨hle, hmod⟩ := hbelow harena
    rw [Variable.stop]
    dsimp only
    rw [hpad, hmod]
    exact hle

theorem functionName (entryPoint : EntryPoint) (name : String) (sstarr : ℕ) :
    CursorsBelow (s.functionName entryPoint name sstarr) := by
  constructor
  case module =>
    show (if name ∈ s.module.symbols then s.module else s.module.addVariable name).next .global ≤ _
    split_ifs <;> exact h.module
  case groups => exact nofun
  case functions =>
    intro g info hinfo
    rw [Recognizer.functionName] at hinfo
    cases hname : s.functions name with
    | some _ =>
      rw [hname] at hinfo
      exact h.functions g info hinfo
    | none =>
      rw [hname] at hinfo
      dsimp only at hinfo
      by_cases hg : g = name
      · subst hg
        rw [Function.update_self] at hinfo
        cases hinfo
        exact h.module
      · rw [Function.update_of_ne hg] at hinfo
        exact h.functions g info hinfo

theorem startInstGroup (sstarr : ℕ) : CursorsBelow (s.startInstGroup sstarr) :=
  ⟨h.module, h.functions, List.forall_mem_cons.2 ⟨h.currentTable, h.groups⟩⟩

end

theorem endInstGroup {s' : Recognizer} (hs' : s.endInstGroup = .ok s') :
    s'.declared = s.declared ∧ (CursorsBelow s → CursorsBelow s') := by
  rw [Recognizer.endInstGroup] at hs'
  split at hs'
  case h_1 group groups _ hgroups =>
    cases hs'
    refine ⟨(Recognizer.setCurrentTable_fields ..).1, fun h => ?_⟩
    have hrest := List.forall_mem_cons.1 (hgroups ▸ h.groups)
    exact setCurrentTable ⟨h.module, h.functions, hrest.2⟩ hrest.1
  case h_2 =>
    cases hs'
    exact ⟨rfl, fun h => ⟨h.symtab _, h.functions, List.forall_mem_nil _⟩⟩
  case h_3 => cases hs'

end CursorsBelow

/-- As long as no global variable has an address in a window, no cursor comes to the windows. -/
def GlobalsPlaced (s : Recognizer) : Prop :=
  (∀ v ∈ s.declared, Avoids v) → CursorsBelow s ∧ ∀ v ∈ s.declared, Below v

theorem globalsPlaced_of_init (h : s.Init) : GlobalsPlaced s := by
  obtain ⟨sstarr, rfl⟩ := h
  intro _
  refine ⟨⟨?_, fun name info hinfo => ?_, fun t ht => ?_⟩, fun v hv => ?_⟩
  · show 0x100 ≤ staticAllocLimit
    decide
  · cases hinfo
  · cases ht
  · cases hv

theorem globalsPlaced_addNew {s s' : Recognizer} (h : GlobalsPlaced s) {d : Declaration}
    (hs' : s.addNew d = .ok s') : GlobalsPlaced s' := by
  intro havoids
  obtain rfl | ⟨arena, padded, -, -, hplace⟩ := Recognizer.addNew_cases hs'
  · rw [(s.setCurrentTable_fields _).1] at havoids ⊢
    obtain ⟨hcursors, hbelow⟩ := h havoids
    exact ⟨hcursors.setCurrentTable hcursors.currentTable, hbelow⟩
  have hdeclared : s'.declared = (s.place arena padded d).declared := by
    obtain ⟨rfl, -⟩ | ⟨name, -, -, rfl⟩ := hplace <;> rfl
  rw [hdeclared] at havoids ⊢
  obtain ⟨v, hv⟩ := s.exists_declared_place arena padded d
  have hrest : ∀ w ∈ s.declared, Avoids w := fun w hw =>
    havoids w (hv ▸ List.mem_cons_of_mem v hw)
  obtain ⟨hcursors, hbelow⟩ := h hrest
  obtain ⟨hcursors', v, hv, hnew⟩ := hcursors.place havoids
  rw [hv]
  refine ⟨?_, List.forall_mem_cons.2 ⟨hnew, hbelow⟩⟩
  obtain ⟨rfl, -⟩ | ⟨name, -, -, rfl⟩ := hplace
  · exact hcursors'
  · exact hcursors'.modifyFunction fun _ hinfo => hinfo

theorem globalsPlaced_step {s s' : Recognizer} (h : GlobalsPlaced s) {a : Recognizer.Action}
    (hs' : s.step a = .ok s') : GlobalsPlaced s' := by
  cases a with
  | functionName entryPoint name sstarr =>
    cases hs'
    exact fun havoids => (h havoids).imp_left fun hcursors => hcursors.functionName _ _ _
  | declare d =>
    change s.addIdentifier d = .ok s' at hs'
    rw [Recognizer.addIdentifier] at hs'
    split_ifs at hs' with hvisible
    · cases hs'
      exact h
    · exact globalsPlaced_addNew h hs'
  | label name =>
    cases hs'
    rw [Recognizer.addLabel]
    split_ifs
    · exact h
    · intro havoids
      rw [(s.setCurrentTable_fields _).1] at havoids ⊢
      exact (h havoids).imp_left fun hcursors => hcursors.setCurrentTable hcursors.currentTable
  | functionDecl =>
    cases hs'
    exact fun havoids => (h havoids).imp_left fun hcursors =>
      ⟨hcursors.module, hcursors.functions, List.forall_mem_nil _⟩
  | functionBody =>
    cases hs'
    exact fun havoids => (h havoids).imp_left fun hcursors =>
      ⟨hcursors.module, hcursors.functions, hcursors.groups⟩
  | startInstGroup sstarr =>
    cases hs'
    exact fun havoids => (h havoids).imp_left fun hcursors => hcursors.startInstGroup sstarr
  | endInstGroup =>
    intro havoids
    obtain ⟨hdeclared, hcursors⟩ := CursorsBelow.endInstGroup hs'
    rw [hdeclared] at havoids ⊢
    exact (h havoids).imp_left hcursors
  | endFunction =>
    cases hs'
    exact fun havoids => (h havoids).imp_left fun hcursors =>
      ⟨hcursors.module, hcursors.functions, List.forall_mem_nil _⟩

theorem globalsPlaced_of_reachable (h : Recognizer.machine.Reachable (.ok s)) : GlobalsPlaced s :=
  TransitionSystem.Reachable.invariant_ofExcept_all (I := GlobalsPlaced) (F := fun _ => True)
    (fun _ => globalsPlaced_of_init)
    (fun _ _ h _ => .intro (fun _ hs' => globalsPlaced_step h hs') fun _ _ => trivial) h

theorem avoids_iff_below (h : Recognizer.machine.Reachable (.ok s)) :
    (∀ v ∈ s.declared, Avoids v) ↔ ∀ v ∈ s.declared, Below v :=
  ⟨fun havoids => (globalsPlaced_of_reachable h havoids).2, fun hbelow v hv => (hbelow v hv).avoids⟩

theorem handedOut_iff {declared : List Variable} {sizes : List ℕ} :
    (∀ a, HandedOut declared sizes a → ¬ Windowed a) ↔
      (∀ v ∈ declared, Avoids v) ∧
        ∀ r ∈ regionsFrom globalHeapStart sizes, ∀ i < r.size,
          ¬ Windowed ((r.start + i) % 2 ^ 32) := by
  constructor
  · intro h
    exact ⟨fun v hv harena i hi => h _ (.inl ⟨v, hv, harena, i, hi, rfl⟩),
      fun r hr i hi => h _ (.inr ⟨r, hr, i, hi, rfl⟩)⟩
  · rintro ⟨hglobals, hregions⟩ a (⟨v, hv, harena, i, hi, rfl⟩ | ⟨r, hr, i, hi, rfl⟩)
    · exact hglobals v hv harena i hi
    · exact hregions r hr i hi

/-- The windows of all cores and threads are apart from each other and from global memory, and the
functions on generic addresses agree, if and only if the globals of the programs end where the
windows start, or before, and the allocations do not come to the windows again. -/
theorem genericWindows_iff {s : Recognizer} (h : Recognizer.machine.Reachable (.ok s))
    (sizes : List ℕ) : GenericWindows s.declared sizes ↔
      (∀ v ∈ s.declared, Below v) ∧ globalHeapStart + (sizes.map rounded).sum ≤ heapLimit := by
  rw [genericWindows_iff_handedOut, handedOut_iff, avoids_iff_below h,
    allocations_iff (by decide) le_rfl (by decide)]

/-- A program with one global. -/
def oneGlobal : List Recognizer.Action :=
  [.declare ⟨"table", .globalSpace, .scalar .b8, .none, some 4, .dim 64⟩]

theorem genericWindows_oneGlobal : ∃ s : Recognizer, s.declared.length = 1 ∧
    GenericWindows s.declared [0x1000, 4] := by
  refine ⟨_, ?_, (genericWindows_iff (TransitionSystem.Reachable.execOk oneGlobal
    (.init ⟨{ module := .root 0 }, rfl, 0, rfl⟩) rfl) [0x1000, 4]).2 ⟨by decide, by decide⟩⟩
  rfl

/-- An allocation of 1.5 GiB. -/
theorem not_genericWindows : ¬ ∀ s, Recognizer.machine.Reachable (.ok s) → ∀ sizes,
    GenericWindows s.declared sizes := by
  intro h
  have hwindows := h _ (.init ⟨{ module := .root 0 }, rfl, 0, rfl⟩) [0x60000000]
  have hglobal := hwindows.handedOut staticAllocLimit
    (.inr ⟨⟨globalHeapStart, 0x60000000⟩, List.mem_cons_self, heapLimit - globalHeapStart,
      by decide, by decide⟩)
  exact absurd hglobal (by decide)

end GpuCalorie.DeviceMemory
