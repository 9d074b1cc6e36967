/-
# Atomic instructions one after the other

A callback leaves in the destination what the memory had, and in the memory what the operation
gives for the operands before the instruction, and changes nothing else. So callbacks in any
order are the operations in that order. There is one exception besides the bytes that cannot be
read: a compare-and-swap that succeeds has its new value from the registers after the destination
was written, so that one whose new value is in its destination writes what the memory had.
-/

import GpuCalorie.Atomics.Callback
import Mathlib.Tactic.NormNum

namespace GpuCalorie.Atomics

open GpuCalorie.DeviceMemory GpuCalorie.Hardware GpuCalorie.Instructions GpuCalorie.Math

variable {addF32 : BitVec 32 → BitVec 32 → BitVec 32} {threads : ℕ → AtomThread} {s : Device}
    {f : Flat}
  {tid : ℕ} {pI : AtomInst} {loc : Location} {t : ScalarType}

/-! ## Words -/

theorem two_pow_size (ht : t.size = 32 ∨ t.size = 64) : 256 ^ (t.size / 8) = 2 ^ t.size := by
  rcases ht with h | h <;> rw [h] <;> norm_num

theorem ofBytes_word_lt (f : Flat) (loc : Location) (ht : t.size = 32 ∨ t.size = 64) :
    ofBytes (cells (f.memory loc.mem) loc.addr (t.size / 8)) < 2 ^ t.size := by
  have hlt := ofBytes_lt (cells (f.memory loc.mem) loc.addr (t.size / 8))
  rwa [length_cells, two_pow_size ht] at hlt

theorem data_eq (f : Flat) (loc : Location) (ht : t.size = 32 ∨ t.size = 64) :
    PtxReg.mk (BitVec.ofNat 64 (ofBytes (cells (f.memory loc.mem) loc.addr (t.size / 8))))
      = .ofBits (f.word loc t) := by
  have hsize : t.size ≤ 64 := by omega
  have hlt := ofBytes_word_lt f loc ht
  rw [PtxReg.ofBits, Flat.word]
  congr 1
  apply BitVec.eq_of_toNat_eq
  rw [BitVec.toNat_setWidth, BitVec.toNat_ofNat, BitVec.toNat_ofNat, Nat.mod_eq_of_lt hlt]

theorem word_store (ht : t.size = 32 ∨ t.size = 64) (value : BitVec t.size) :
    (f.store loc value).word loc t = value := by
  have hbytes : cells ((f.store loc value).memory loc.mem) loc.addr (t.size / 8)
      = toBytes (t.size / 8) value.toNat := by
    have hcells : cells (overwrite (f.memory loc.mem) loc.addr (toBytes (t.size / 8) value.toNat))
      loc.addr
        (toBytes (t.size / 8) value.toNat).length = toBytes (t.size / 8) value.toNat :=
          cells_overwrite
    rw [length_toBytes] at hcells
    rw [← hcells]
    exact congrArg (cells · loc.addr (t.size / 8)) (Function.update_self ..)
  rw [Flat.word, hbytes, ofBytes_toBytes, two_pow_size ht, Nat.mod_eq_of_lt value.isLt,
    BitVec.ofNat_toNat, BitVec.setWidth_eq]

/-! ## The memories of a device -/

namespace Device

variable {mem : MemoryId}

theorem read_ok {addr length : ℕ} (hend : addr + length + mem.block.size ≤ 2 ^ 32) :
    s.read mem addr length = .ok (cells (s.flat.memory mem) addr length) := by
  have hpos := mem.block.size_pos
  cases mem with
  | global => exact MemorySpaceImpl.read_ok (by omega) (.inr hend)
  | shared cta => exact MemorySpaceImpl.read_ok (by omega) (.inr hend)

theorem read_ne_ok {addr length : ℕ} (hpos : 0 < length) (hend : addr + length ≤ 2 ^ 32)
    (hlength : length < 2 ^ 32) (hlast : 2 ^ 32 < addr + length + mem.block.size)
    (bytes : List UInt8) :
    s.read mem addr length ≠ .ok bytes := by
  cases mem with
  | global => exact MemorySpaceImpl.read_ne_ok_of_lt (by omega) hpos hlength hend hlast bytes
  | shared cta => exact MemorySpaceImpl.read_ne_ok_of_lt (by omega) hpos hlength hend hlast bytes

theorem write_ok {addr : ℕ} {data : List UInt8}
    (hend : addr + data.length + mem.block.size ≤ 2 ^ 32) :
    ∃ s', s.write mem addr data = .ok s' ∧ s'.flat = { s.flat with
      memory := Function.update s.flat.memory mem (overwrite (s.flat.memory mem) addr data) } := by
  have hpos := mem.block.size_pos
  cases mem with
  | global =>
      obtain ⟨m, hwrite, hcontent⟩ : ∃ m, s.global.write addr data = .ok m ∧
          m.content = overwrite s.global.content addr data :=
        MemorySpaceImpl.write_ok (by omega) (by omega) (by omega)
      refine ⟨{ s with global := m }, by rw [write, hwrite]; rfl, ?_⟩
      simp only [flat, Flat.mk.injEq, and_true]
      funext other
      cases other with
      | global => rw [Function.update_self]; exact hcontent
      | shared cta => rw [Function.update_of_ne (by simp)]
  | shared cta =>
      obtain ⟨m, hwrite, hcontent⟩ : ∃ m, (s.shared cta).write addr data = .ok m ∧
          m.content = overwrite (s.shared cta).content addr data :=
        MemorySpaceImpl.write_ok (by omega) (by omega) (by omega)
      refine ⟨{ s with shared := Function.update s.shared cta m }, by rw [write, hwrite]; rfl, ?_⟩
      simp only [flat, Flat.mk.injEq, and_true]
      funext other
      cases other with
      | global => rw [Function.update_of_ne (by simp)]
      | shared cta' =>
          by_cases hcta : cta' = cta
          · subst hcta
            rw [Function.update_self]
            dsimp only
            rw [Function.update_self]
            exact hcontent
          · rw [Function.update_of_ne (by simpa using hcta)]
            dsimp only
            rw [Function.update_of_ne hcta]

theorem flat_setDst (dst : Option ℕ) (data : PtxReg) :
    (s.setDst tid dst data).flat = s.flat.setReg tid dst data := by
  cases dst <;> rfl

theorem source_flat {op : Operand} {value : PtxReg}
    (hvalue : getOperandValue (s.regs tid) op t = .ok value) :
    s.flat.source tid op t = value.low t.size := by
  have hregs : s.flat.regs tid = s.regs tid := rfl
  rw [Flat.source, hregs, hvalue]

end Device

/-! ## One callback -/

/-- The new value of a compare-and-swap that succeeds is another one once the destination is
written. -/
def Flat.Reloads (f : Flat) (tid : ℕ) (pI : AtomInst) (loc : Location) : Prop :=
  pI.op = .cas ∧ f.word loc pI.type = f.source tid pI.src2 pI.type ∧
    (f.setReg tid pI.dst (.ofBits (f.word loc pI.type))).source tid pI.src3 pI.type
      ≠ f.source tid pI.src3 pI.type

/-- The bytes of an instruction can be read. -/
def Readable (pI : AtomInst) (loc : Location) : Prop :=
  loc.addr + pI.type.size / 8 + loc.mem.block.size ≤ 2 ^ 32

instance : Decidable (Readable pI loc) := inferInstanceAs (Decidable (_ ≤ _))

theorem AtomicOp.apply_eq_iff (addF32 : BitVec 32 → BitVec 32 → BitVec 32) {op : AtomicOp}
    {old b c c' : BitVec t.size} :
    op.apply addF32 t old b c' = op.apply addF32 t old b c ↔ (op = .cas → old = b → c' = c) := by
  cases op with
  | cas =>
      simp only [AtomicOp.apply, true_implies]
      by_cases hold : old = b
      · rw [if_pos hold, if_pos hold]
        exact ⟨fun h _ => h, fun h => h hold⟩
      · rw [if_neg hold, if_neg hold]
        exact iff_of_true rfl fun h => absurd h hold
  | _ => exact iff_of_true rfl nofun

theorem atomCallback_ok (addF32 : BitVec 32 → BitVec 32 → BitVec 32)
    (haccepted : pI.type ∈ pI.op.accepted)
    (hloc : locate (threads tid) (s.regs tid) pI = .ok loc) (hread : Readable pI loc) :
    ∃ s', atomCallback addF32 threads tid pI s = .ok s' ∧
      s'.flat = (s.flat.setReg tid pI.dst (.ofBits (s.flat.word loc pI.type))).store loc
        (pI.op.apply addF32 pI.type (s.flat.word loc pI.type) (s.flat.source tid pI.src2 pI.type)
          ((s.flat.setReg tid pI.dst (.ofBits (s.flat.word loc pI.type))).source tid pI.src3
            pI.type)) := by
  have hsize := AtomicOp.accepted_size haccepted
  have hpred : pI.type ≠ .pred := by
    intro h
    rw [h] at hsize
    exact absurd hsize (by decide)
  obtain ⟨b, hb⟩ := getOperandValue_ok hpred (s.regs tid) pI.src2
  rw [Device.source_flat hb, ← Device.flat_setDst]
  -- the registers when the operand `c` is read
  generalize hnext : s.setDst tid pI.dst (.ofBits (s.flat.word loc pI.type)) = next
  obtain ⟨c, hc⟩ := getOperandValue_ok hpred (next.regs tid) pI.src3
  rw [Device.source_flat hc]
  obtain ⟨result, hresult, hmeaning⟩ :=
    atomResult_ok addF32 haccepted (.ofBits (s.flat.word loc pI.type)) b c
    fun _ => hc
  rw [low_ofBits_self (by omega)] at hmeaning
  rw [← hmeaning]
  have hdata := data_eq s.flat loc hsize
  have hnat : (PtxReg.ofBits result).u64.toNat = result.toNat := by
    have hlt := result.isLt
    have hle : 2 ^ pI.type.size ≤ 2 ^ 64 := Nat.pow_le_pow_right (by decide) (by omega)
    rw [PtxReg.ofBits, BitVec.toNat_setWidth, Nat.mod_eq_of_lt (by omega)]
  have hend : loc.addr + (toBytes (pI.type.size / 8) result.toNat).length + loc.mem.block.size ≤
      2 ^ 32 := by
    rw [length_toBytes]
    exact hread
  obtain ⟨s', hwrite, hflat⟩ := Device.write_ok (s := next) hend
  refine ⟨s', ?_, hflat⟩
  rw [atomCallback, hb, hloc]
  simp only [Except.mapError, bind, Except.bind]
  rw [Device.read_ok hread]
  dsimp only
  rw [hdata, hnext, hresult]
  dsimp only
  rw [hnat, hwrite]

theorem atomCallback_ne_ok (haccepted : pI.type ∈ pI.op.accepted)
    (hloc : locate (threads tid) (s.regs tid) pI = .ok loc)
    (hrange : loc.addr + pI.type.size / 8 ≤ 2 ^ 32) (hread : ¬ Readable pI loc) (s' : Device) :
    atomCallback addF32 threads tid pI s ≠ .ok s' := by
  have hsize := AtomicOp.accepted_size haccepted
  rw [atomCallback, hloc]
  cases getOperandValue (s.regs tid) pI.src2 pI.type with
  | error e => nofun
  | ok b =>
      simp only [Except.mapError, bind, Except.bind]
      cases hbytes : s.read loc.mem loc.addr (pI.type.size / 8) with
      | error e => nofun
      | ok bytes =>
          exact absurd hbytes (Device.read_ne_ok (by omega) hrange (by omega)
            (Nat.not_le.mp hread) bytes)

/-- The callback does what the instruction is to do. -/
def Performs (addF32 : BitVec 32 → BitVec 32 → BitVec 32) (threads : ℕ → AtomThread) (tid : ℕ)
    (pI : AtomInst)
    (loc : Location) (s : Device) : Prop :=
  ∃ s', atomCallback addF32 threads tid pI s = .ok s' ∧ s'.flat = s.flat.atom addF32 tid pI loc

theorem performs_iff (haccepted : pI.type ∈ pI.op.accepted)
    (hloc : locate (threads tid) (s.regs tid) pI = .ok loc)
    (hrange : loc.addr + pI.type.size / 8 ≤ 2 ^ 32) :
    Performs addF32 threads tid pI loc s ↔ Readable pI loc ∧ ¬ s.flat.Reloads tid pI loc := by
  by_cases hread : Readable pI loc
  · obtain ⟨s', hrun, hflat⟩ := atomCallback_ok addF32 haccepted hloc hread
    have hperforms : Performs addF32 threads tid pI loc s ↔
        s'.flat = s.flat.atom addF32 tid pI loc := by
      constructor
      · rintro ⟨s'', hrun', hflat'⟩
        cases hrun.symm.trans hrun'
        exact hflat'
      · exact fun hflat' => ⟨s', hrun, hflat'⟩
    have hstore : s'.flat = s.flat.atom addF32 tid pI loc ↔ (pI.op = .cas →
        s.flat.word loc pI.type = s.flat.source tid pI.src2 pI.type →
        (s.flat.setReg tid pI.dst (.ofBits (s.flat.word loc pI.type))).source tid pI.src3 pI.type
          = s.flat.source tid pI.src3 pI.type) := by
      rw [hflat, Flat.atom, Flat.result, ← AtomicOp.apply_eq_iff addF32]
      constructor
      · intro hsame
        have hword := congrArg (fun f => Flat.word f loc pI.type) hsame
        rwa [word_store (AtomicOp.accepted_size haccepted),
          word_store (AtomicOp.accepted_size haccepted)] at hword
      · exact fun hvalue => congrArg _ hvalue
    rw [hperforms, hstore, and_iff_right hread, Flat.Reloads]
    simp only [not_and, ne_eq, not_not]
  · refine iff_of_false ?_ fun h => hread h.1
    rintro ⟨s', hrun, -⟩
    exact atomCallback_ne_ok haccepted hloc hrange hread s' hrun

theorem Flat.not_reloads_of_ne (hdst : ∀ d ∈ pI.dst, ¬ pI.src3.reads d) :
    ¬ f.Reloads tid pI loc := by
  rintro ⟨-, -, hother⟩
  apply hother
  rw [source, source]
  cases hd : pI.dst with
  | none => rfl
  | some d =>
      have hsame : getOperandValue ((f.setReg tid (some d) (.ofBits (f.word loc pI.type))).regs tid)
          pI.src3 pI.type = getOperandValue (f.regs tid) pI.src3 pI.type := by
        apply getOperandValue_congr
        intro symbol hreads
        have hne : symbol ≠ d := by
          rintro rfl
          exact hdst symbol hd hreads
        show Function.update f.regs tid _ tid symbol = _
        rw [Function.update_self, Function.update_of_ne hne]
      rw [hsame]

/-! ## Callbacks in any order -/

/-- What happens: a callback, or instructions that only write registers. -/
inductive Event
  | atom (tid : ℕ) (pI : AtomInst)
  | others (regs : ℕ → RegisterFile)

section

variable (addF32 : BitVec 32 → BitVec 32 → BitVec 32) (threads : ℕ → AtomThread)

def Device.step (s : Device) : Event → Except AtomFailure Device
  | .atom tid pI => atomCallback addF32 threads tid pI s
  | .others regs => .ok { s with regs }

def Device.run (s : Device) (events : List Event) : Except AtomFailure Device :=
  events.foldlM (fun s event => s.step addF32 threads event) s

/-- The operation at once, on the values before it. -/
def Flat.step (f : Flat) : Event → Flat
  | .atom tid pI => match locate (threads tid) (f.regs tid) pI with
    | .ok loc => f.atom addF32 tid pI loc
    | .error _ => f
  | .others regs => { f with regs }

/-- The operations one after the other. -/
def Flat.run (f : Flat) (events : List Event) : Flat :=
  events.foldl (fun f event => f.step addF32 threads event) f

/-- What holds before each event of a run of the operations. -/
def Along (P : Flat → Event → Prop) : Flat → List Event → Prop
  | _, [] => True
  | f, event :: rest => P f event ∧ Along P (f.step addF32 threads event) rest

/-- The instruction accepts its type, and its bytes are in global or in shared memory. -/
def InMemory (f : Flat) : Event → Prop
  | .atom tid pI => pI.type ∈ pI.op.accepted ∧
    ∃ loc, locate (threads tid) (f.regs tid) pI = .ok loc ∧ loc.addr + pI.type.size / 8 ≤ 2 ^ 32
  | .others _ => True

/-- The bytes can be read, and no new value is reloaded. -/
def Undisturbed (f : Flat) : Event → Prop
  | .atom tid pI => ∀ loc, locate (threads tid) (f.regs tid) pI = .ok loc →
    Readable pI loc ∧ ¬ f.Reloads tid pI loc
  | .others _ => True

end

theorem Device.step_iff (addF32 : BitVec 32 → BitVec 32 → BitVec 32) {event : Event}
    (hdomain : InMemory threads s.flat event) :
    (∃ s', s.step addF32 threads event = .ok s' ∧ s'.flat = s.flat.step addF32 threads event) ↔
      Undisturbed threads s.flat event := by
  cases event with
  | others regs => exact iff_of_true ⟨_, rfl, rfl⟩ trivial
  | atom tid pI =>
      obtain ⟨haccepted, loc, hloc, hrange⟩ := hdomain
      have hstep : s.flat.step addF32 threads (.atom tid pI) = s.flat.atom addF32 tid pI loc := by
        rw [Flat.step, hloc]
      rw [hstep]
      refine (performs_iff haccepted hloc hrange).trans ?_
      constructor
      · intro h loc' hloc'
        cases hloc.symm.trans hloc'
        exact h
      · exact fun h => h loc hloc

/-- Every callback of a run does what its instruction is to do. -/
def Refines (addF32 : BitVec 32 → BitVec 32 → BitVec 32) (threads : ℕ → AtomThread) (s : Device)
    (events : List Event) : Prop :=
  ∀ done, done <+: events → ∃ s', s.run addF32 threads done = .ok s' ∧
    s'.flat = s.flat.run addF32 threads done

theorem refines_cons {event : Event} {rest : List Event} {s' : Device}
    (hstep : s.step addF32 threads event = .ok s')
    (hflat : s'.flat = s.flat.step addF32 threads event) :
    Refines addF32 threads s (event :: rest) ↔ Refines addF32 threads s' rest := by
  have hrun : ∀ done, s.run addF32 threads (event :: done) = s'.run addF32 threads done := by
    intro done
    rw [Device.run, List.foldlM_cons, hstep]
    rfl
  have hspec : ∀ done, s.flat.run addF32 threads (event :: done) =
      s'.flat.run addF32 threads done := by
    intro done
    rw [hflat]
    rfl
  constructor
  · intro h done hdone
    rw [← hrun, ← hspec]
    exact h _ (List.cons_prefix_cons.mpr ⟨rfl, hdone⟩)
  · intro h done hdone
    cases done with
    | nil => exact ⟨s, rfl, rfl⟩
    | cons first done =>
        obtain ⟨rfl, hrest⟩ := List.cons_prefix_cons.mp hdone
        rw [hrun, hspec]
        exact h done hrest

theorem refines_iff {events : List Event}
    (hdomain : Along addF32 threads (InMemory threads) s.flat events) :
    Refines addF32 threads s events ↔ Along addF32 threads (Undisturbed threads) s.flat events := by
  induction events generalizing s with
  | nil =>
      refine iff_of_true (fun done hdone => ?_) trivial
      rw [List.prefix_nil.mp hdone]
      exact ⟨s, rfl, rfl⟩
  | cons event rest ih =>
      obtain ⟨hfirst, hrest⟩ := hdomain
      have hiff := Device.step_iff addF32 hfirst
      by_cases hundisturbed : Undisturbed threads s.flat event
      · obtain ⟨s', hstep, hflat⟩ := hiff.mpr hundisturbed
        rw [← hflat] at hrest
        rw [refines_cons hstep hflat, ih hrest, Along, hflat, and_iff_right hundisturbed]
      · refine iff_of_false (fun h => hundisturbed (hiff.mp ?_)) fun h => hundisturbed h.1
        obtain ⟨s', hrun, hflat⟩ := h [event] (List.cons_prefix_cons.mpr ⟨rfl, List.nil_prefix⟩)
        refine ⟨s', ?_, hflat⟩
        rw [Device.run, List.foldlM_cons] at hrun
        cases hstep : s.step addF32 threads event with
        | error e =>
            rw [hstep] at hrun
            cases hrun
        | ok s'' =>
            rw [hstep] at hrun
            exact hrun

/-- A callback does what its instruction is to do, and callbacks in any order are the operations
in that order, if the bytes can be read and no compare-and-swap that succeeds has another new
value once its destination is written. -/
theorem atomics_iff (addF32 : BitVec 32 → BitVec 32 → BitVec 32) (threads : ℕ → AtomThread)
    (s : Device) :
    (∀ tid pI loc, pI.type ∈ pI.op.accepted → locate (threads tid) (s.regs tid) pI = .ok loc →
      loc.addr + pI.type.size / 8 ≤ 2 ^ 32 →
      (Performs addF32 threads tid pI loc s ↔ Readable pI loc ∧ ¬ s.flat.Reloads tid pI loc)) ∧
    ∀ events, Along addF32 threads (InMemory threads) s.flat events →
      (Refines addF32 threads s events ↔ Along addF32 threads
        (Undisturbed threads) s.flat events) :=
  ⟨fun _ _ _ haccepted hloc hrange => performs_iff haccepted hloc hrange, fun _ hdomain =>
    refines_iff hdomain⟩

/-- `atom.global.add.u32 %r1, [256], 5`. -/
def addFive : AtomInst :=
  ⟨.globalSpace, .add, .u32, some 1, ⟨.literal ⟨256⟩, 0⟩, { source := .literal ⟨5⟩ },
    { source := .reg 0 }⟩

/-- `atom.cas.b32 %r1, [%r3+256], 5, %r2`. -/
def casFive : AtomInst :=
  ⟨.undefinedSpace, .cas, .b32, some 1, ⟨.reg 3, 256⟩, { source := .literal ⟨5⟩ },
    { source := .reg 2 }⟩

/-- `atom.global.cas.b32 %r1, [256], 0, %r1`. -/
def casOwn : AtomInst :=
  ⟨.globalSpace, .cas, .b32, some 1, ⟨.literal ⟨256⟩, 0⟩, { source := .literal ⟨0⟩ },
    { source := .reg 1 }⟩

/-- Two threads add to a number and replace it, through its address in global memory and through
the generic one. -/
theorem atomics_twoThreads : Refines (fun x _ => x) (fun _ => ⟨⟨0, 0, 0, true⟩, 0⟩) {}
    [.atom 0 addFive, .atom 1 casFive] := by
  have hdomain : Along (fun x _ => x) (fun _ => ⟨⟨0, 0, 0, true⟩, 0⟩)
    (InMemory fun _ => ⟨⟨0, 0, 0, true⟩, 0⟩)
      (Device.flat {}) [.atom 0 addFive, .atom 1 casFive] :=
    ⟨⟨by decide, ⟨.global, 256⟩, rfl, by decide⟩, ⟨by decide, ⟨.global, 256⟩, rfl, by decide⟩,
      trivial⟩
  refine ((atomics_iff _ _ _).2 _ hdomain).mpr ⟨fun loc hloc => ?_, fun loc hloc => ?_, trivial⟩
  · cases hloc
    exact ⟨by decide +kernel, fun h => nomatch h.1⟩
  · cases hloc
    refine ⟨by decide +kernel, Flat.not_reloads_of_ne fun d hd hreads => ?_⟩
    cases hd
    cases hreads

/-- A compare-and-swap of zero whose new value, five, is in its destination. -/
theorem not_performs_cas :
    ¬ Performs (fun x _ => x) (fun _ => ⟨⟨0, 0, 0, true⟩, 0⟩) 0 casOwn ⟨.global, 256⟩
      { regs := fun _ symbol => if symbol = 1 then ⟨5⟩ else ⟨0⟩ } := by
  rintro ⟨s', hrun, hflat⟩
  have hcode : ((atomCallback (fun x _ => x) (fun _ => ⟨⟨0, 0, 0, true⟩, 0⟩) 0 casOwn
      { regs := fun _ symbol => if symbol = 1 then ⟨5⟩ else ⟨0⟩ }).map
        fun s' => s'.global.content 256) = .ok 0 := by decide +kernel
  rw [hrun] at hcode
  have hzero : s'.flat.memory .global 256 = 0 := Except.ok.inj hcode
  rw [hflat] at hzero
  exact absurd hzero (by decide +kernel)

end GpuCalorie.Atomics
