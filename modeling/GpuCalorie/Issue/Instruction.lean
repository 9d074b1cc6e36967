/-
# Instructions and the scoreboard

`pre_decode` puts the registers an instruction writes into `out` and those it reads into `in`,
and its predicate and address registers apart from both; register 0 stands for none. A scalar
operand after the third place of `in` is dropped. `outcount` and `incount` count the registers
that are not 0, and the scoreboard looks at that many places of the arrays when it checks, but
at all places when it reserves. The two agree on instructions whose registers come first, which
an instruction with a null register in a vector operand has not.

The scoreboard keeps a set of registers for each warp. Reserving a register twice aborts.
-/

import GpuCalorie.Hardware.Isa
import GpuCalorie.Math.Outcome
import Mathlib.Algebra.GroupWithZero.Nat
import Mathlib.Data.Finset.Basic
import Mathlib.Logic.Function.Basic

namespace GpuCalorie.Issue

open GpuCalorie.Hardware GpuCalorie.Math

/-- Instructions with these operations are issued to the load-store unit. -/
def isMemOp : OpType → Bool
  | .loadOp | .storeOp | .memoryBarrierOp | .tensorCoreLoadOp | .tensorCoreStoreOp => true
  | _ => false

/-- `operand_info`, as far as `pre_decode` depends on it. The null register `_` has number 0. -/
inductive Operand
  | reg (regNum : ℕ)
  | vector (regs : List ℕ)
  | other
  deriving DecidableEq, Repr

/-- The registers an operand names. -/
def Operand.regs : Operand → List ℕ
  | .reg r => [r]
  | .vector regs => regs
  | .other => []

/-- What an operand adds to `in`, with `m` places filled. Only the first three scalars have a
place. -/
def Operand.inPlaces (m : ℕ) : Operand → List ℕ
  | .reg r => if m < 3 then [r] else [0]
  | .vector regs => regs
  | .other => []

/-- `inst_t`, as far as issue and writeback depend on it. Of the instructions of the load-store
unit the decoder gives a destination to loads alone, and a memory barrier is no load. -/
structure Inst where
  pc : ℕ
  isize : ℕ
  op : OpType
  /-- `is_load` -/
  isLoad : Bool
  /-- The first operand of an instruction with a destination. -/
  dst : Operand := .other
  /-- The other operands, less those of memory. -/
  srcs : List Operand := []
  pred : ℕ := 0
  ar1 : ℕ := 0
  ar2 : ℕ := 0
  load_of_out : isMemOp op = true → isLoad = false → ∀ r ∈ dst.regs, r = 0
  barrier : op = .memoryBarrierOp → isLoad = false
  deriving DecidableEq

namespace Inst

/-- `out`, up to the last operand that sets it. -/
def out (inst : Inst) : List ℕ :=
  inst.dst.regs

/-- `in`, up to the last operand that sets it. -/
def inRegs (inst : Inst) : List ℕ :=
  inst.srcs.foldl (fun places operand => places ++ operand.inPlaces places.length) []

/-- The registers of `out`: the loops over `MAX_OUTPUT_VALUES` skip the others. -/
def dests (inst : Inst) : List ℕ :=
  inst.out.filter (0 < ·)

/-- `outcount`, as `pre_decode` counts it. -/
def outcount (inst : Inst) : ℕ :=
  (inst.out.filter (0 < ·)).length

/-- `incount` -/
def incount (inst : Inst) : ℕ :=
  (inst.inRegs.filter (0 < ·)).length

/-- The registers an instruction reads. -/
def sources (inst : Inst) : List ℕ :=
  (inst.srcs.flatMap Operand.regs ++ [inst.pred, inst.ar1, inst.ar2]).filter (0 < ·)

/-- `inst_regs` in `checkCollision`. -/
def instRegs (inst : Inst) : List ℕ :=
  inst.out.take inst.outcount ++ inst.inRegs.take inst.incount ++
    [inst.pred, inst.ar1, inst.ar2].filter (0 < ·)

end Inst

/-- Spaces whose accesses `generate_mem_accesses` puts into `m_accessq`. -/
def usesAccessq : MemorySpace → Bool
  | .constSpace | .paramSpaceKernel | .texSpace | .globalSpace | .localSpace | .paramSpaceLocal =>
    true
  | _ => false

/-- `warp_inst_t` when it was issued and executed: its warp, the space it turned out to
access, its active lanes and the length of its `m_accessq`. Every instruction gets another
`m_uid`. -/
structure WarpInst where
  uid : ℕ
  warpId : ℕ
  inst : Inst
  space : MemorySpace
  activeCount : ℕ
  accessqCount : ℕ
  accessqCount_pos : 0 < accessqCount ↔ isMemOp inst.op = true ∧ inst.op ≠ .memoryBarrierOp ∧
    usesAccessq space = true ∧ 0 < activeCount
  deriving DecidableEq

namespace WarpInst

/-- The instruction writes a register of a warp. -/
def Writes (d : WarpInst) (reg : ℕ × ℕ) : Prop :=
  d.warpId = reg.1 ∧ reg.2 ∈ d.inst.dests

instance (d : WarpInst) (reg : ℕ × ℕ) : Decidable (d.Writes reg) :=
  inferInstanceAs (Decidable (_ ∧ _))

/-- A load whose accesses are counted in `m_pending_writes`. -/
def countsAccesses (d : WarpInst) : Bool :=
  d.inst.isLoad && d.space ≠ .sharedSpace

end WarpInst

/-- What stops a core. -/
inductive CoreFailure
  /-- The `abort` in `reserveRegister` -/
  | reservedTwice
  /-- `m_pending_writes[...][...] > 0` -/
  | pendingWrites
  /-- `m_inst_in_pipeline > 0` -/
  | instInPipeline
  /-- `warp(warp_id).inst_in_pipeline()` when an instruction is issued -/
  | issuedUncounted
  /-- The PC of a warp is that of the instruction it gets. -/
  | fetchPc
  /-- `m_stores_outstanding > 0` -/
  | storesOutstanding
  /-- `m_stores_outstanding == 0` and `m_inst_in_pipeline == 0` in `reset` -/
  | resetBusy
  deriving DecidableEq, Repr

/-! ## The scoreboard -/

/-- `reg_table`, by warp. -/
abbrev RegTable := ℕ → Finset ℕ

/-- `reserveRegister` -/
def reserveRegister (table : RegTable) (warpId regnum : ℕ) : Except CoreFailure RegTable :=
  if regnum ∈ table warpId then .error .reservedTwice
  else .ok (Function.update table warpId (insert regnum (table warpId)))

/-- `releaseRegister` -/
def releaseRegister (table : RegTable) (warpId regnum : ℕ) : RegTable :=
  Function.update table warpId ((table warpId).erase regnum)

/-- `reserveRegisters` -/
def reserveRegisters (table : RegTable) (d : WarpInst) : Except CoreFailure RegTable :=
  d.inst.dests.foldlM (fun table r => reserveRegister table d.warpId r) table

/-- `releaseRegisters` -/
def releaseRegisters (table : RegTable) (d : WarpInst) : RegTable :=
  d.inst.dests.foldl (fun table r => releaseRegister table d.warpId r) table

/-- `checkCollision` -/
def checkCollision (table : RegTable) (warpId : ℕ) (inst : Inst) : Bool :=
  inst.instRegs.any fun r => r ∈ table warpId

variable {table table' : RegTable} {warpId w r : ℕ} {regs : List ℕ} {d : WarpInst}

theorem mem_releaseRegister {regnum : ℕ} :
    r ∈ releaseRegister table warpId regnum w ↔ r ∈ table w ∧ ¬ (warpId = w ∧ r = regnum) := by
  rw [releaseRegister]
  rcases eq_or_ne w warpId with rfl | hw
  · rw [Function.update_self, Finset.mem_erase]
    simp only [true_and]
    exact and_comm
  · simp [Function.update_of_ne hw, hw.symm]

theorem mem_foldl_releaseRegister :
    r ∈ (regs.foldl (fun table r => releaseRegister table warpId r) table) w ↔
      r ∈ table w ∧ ¬ (warpId = w ∧ r ∈ regs) := by
  induction regs generalizing table with
  | nil => simp
  | cons regnum regs ih =>
      rw [List.foldl_cons, ih, mem_releaseRegister, List.mem_cons]
      tauto

theorem mem_releaseRegisters : r ∈ releaseRegisters table d w ↔ r ∈ table w ∧ ¬ d.Writes (w, r) :=
  mem_foldl_releaseRegister

theorem mem_reserveRegister {regnum : ℕ} (h : reserveRegister table warpId regnum = .ok table') :
    regnum ∉ table warpId ∧ (r ∈ table' w ↔ r ∈ table w ∨ (warpId = w ∧ r = regnum)) := by
  rw [reserveRegister] at h
  split_ifs at h with hreserved
  cases h
  refine ⟨hreserved, ?_⟩
  rcases eq_or_ne w warpId with rfl | hw
  · rw [Function.update_self, Finset.mem_insert]
    simp only [true_and]
    exact or_comm
  · simp [Function.update_of_ne hw, hw.symm]

theorem foldlM_reserveRegister_iff :
    (∃ table', regs.foldlM (fun table r => reserveRegister table warpId r) table = .ok table') ↔
      regs.Nodup ∧ ∀ r ∈ regs, r ∉ table warpId := by
  induction regs generalizing table with
  | nil => exact ⟨fun _ => ⟨List.nodup_nil, by simp⟩, fun _ => ⟨table, rfl⟩⟩
  | cons regnum regs ih =>
      rw [List.foldlM_cons, List.nodup_cons]
      cases hfirst : reserveRegister table warpId regnum with
      | error failure =>
          constructor
          · rintro ⟨table', h⟩
            cases h
          · rintro ⟨-, hfree⟩
            rw [reserveRegister, if_neg (hfree regnum List.mem_cons_self)] at hfirst
            cases hfirst
      | ok next =>
          have hnext : ∀ r, r ∈ next warpId ↔ r ∈ table warpId ∨ r = regnum := fun r => by
            simpa using (mem_reserveRegister (w := warpId) (r := r) hfirst).2
          have hfree := (mem_reserveRegister (w := warpId) (r := regnum) hfirst).1
          refine (@ih next).trans ?_
          constructor
          · rintro ⟨hnodup, hrest⟩
            refine ⟨⟨fun hmem => hrest regnum hmem ((hnext regnum).mpr (.inr rfl)), hnodup⟩, ?_⟩
            intro r hr
            rcases List.mem_cons.mp hr with rfl | hr
            · exact hfree
            · exact fun hreserved => hrest r hr ((hnext r).mpr (.inl hreserved))
          · rintro ⟨⟨hnotMem, hnodup⟩, hrest⟩
            refine ⟨hnodup, fun r hr hreserved => ?_⟩
            rcases (hnext r).mp hreserved with hreserved | rfl
            · exact hrest r (List.mem_cons_of_mem _ hr) hreserved
            · exact hnotMem hr

theorem mem_foldlM_reserveRegister
    (h : regs.foldlM (fun table r => reserveRegister table warpId r) table = .ok table') :
    r ∈ table' w ↔ r ∈ table w ∨ (warpId = w ∧ r ∈ regs) := by
  induction regs generalizing table with
  | nil =>
      cases h
      simp
  | cons regnum regs ih =>
      rw [List.foldlM_cons] at h
      cases hfirst : reserveRegister table warpId regnum with
      | error failure =>
          rw [hfirst] at h
          cases h
      | ok next =>
          rw [hfirst] at h
          have hrest : r ∈ table' w ↔ r ∈ next w ∨ (warpId = w ∧ r ∈ regs) := ih h
          rw [hrest, (mem_reserveRegister hfirst).2, List.mem_cons]
          tauto

theorem reserveRegisters_iff : (∃ table', reserveRegisters table d = .ok table') ↔
      d.inst.dests.Nodup ∧ ∀ r ∈ d.inst.dests, r ∉ table d.warpId :=
  foldlM_reserveRegister_iff

theorem mem_reserveRegisters (h : reserveRegisters table d = .ok table') :
    r ∈ table' w ↔ r ∈ table w ∨ d.Writes (w, r) :=
  mem_foldlM_reserveRegister h

theorem reserveRegisters_error {failure : CoreFailure}
    (h : reserveRegisters table d = .error failure) : failure = .reservedTwice := by
  have hfails : ∀ (regs : List ℕ) (table : RegTable),
      OkOr (fun _ => True) (· = .reservedTwice)
        (regs.foldlM (fun table r => reserveRegister table d.warpId r) table) := by
    intro regs
    induction regs with
    | nil => exact fun _ => trivial
    | cons regnum regs ih =>
        intro table
        have hfirst : OkOr (fun _ => True) (· = .reservedTwice)
            (reserveRegister table d.warpId regnum) := by
          rw [reserveRegister]
          split_ifs
          · rfl
          · trivial
        exact hfirst.bind fun next _ => ih next
  exact (hfails _ _).of_error h

/-! ## What the check sees -/

/-- The registers of an instruction that `checkCollision` does not look at. -/
def Inst.uncheckedRegs (inst : Inst) : List ℕ :=
  (inst.dests ++ inst.sources).filter (· ∉ inst.instRegs)

/-- An instruction may be issued once the check has passed: the registers it writes differ,
and those the check does not look at are not reserved. -/
def Inst.Issuable (inst : Inst) (table : RegTable) (warpId : ℕ) : Prop :=
  inst.dests.Nodup ∧ ∀ r ∈ inst.uncheckedRegs, r ∉ table warpId

instance (inst : Inst) (table : RegTable) (warpId : ℕ) : Decidable (inst.Issuable table warpId) :=
  inferInstanceAs (Decidable (_ ∧ _))

/-- An instruction reads or writes a register that is reserved. -/
def Inst.Hazard (inst : Inst) (table : RegTable) (warpId : ℕ) : Prop :=
  ∃ r ∈ inst.dests ++ inst.sources, r ∈ table warpId

instance (inst : Inst) (table : RegTable) (warpId : ℕ) : Decidable (inst.Hazard table warpId) :=
  inferInstanceAs (Decidable (∃ r ∈ _, _))

theorem Inst.hazard_iff {inst : Inst} (hchecked : checkCollision table warpId inst = false) :
    inst.Hazard table warpId ↔ ∃ r ∈ inst.uncheckedRegs, r ∈ table warpId := by
  have hpassed : ∀ r ∈ inst.instRegs, r ∉ table warpId := by
    simpa [checkCollision] using hchecked
  constructor
  · rintro ⟨r, hr, hreserved⟩
    refine ⟨r, List.mem_filter.mpr ⟨hr, ?_⟩, hreserved⟩
    exact decide_eq_true fun hmem => hpassed r hmem hreserved
  · rintro ⟨r, hr, hreserved⟩
    exact ⟨r, (List.mem_filter.mp hr).1, hreserved⟩

theorem Inst.issuable_iff (hchecked : checkCollision table d.warpId d.inst = false) :
    (¬ d.inst.Hazard table d.warpId ∧ ∃ table', reserveRegisters table d = .ok table') ↔
      d.inst.Issuable table d.warpId := by
  have hregs : ¬ d.inst.Hazard table d.warpId ↔
      ∀ r ∈ d.inst.uncheckedRegs, r ∉ table d.warpId := by
    rw [Inst.hazard_iff hchecked]
    push Not
    rfl
  rw [reserveRegisters_iff, Inst.Issuable, hregs]
  constructor
  · rintro ⟨hfree, hnodup, -⟩
    exact ⟨hnodup, hfree⟩
  · rintro ⟨hnodup, hfree⟩
    refine ⟨hfree, hnodup, fun r hr hreserved => hregs.mpr hfree ⟨r, ?_, hreserved⟩⟩
    exact List.mem_append_left _ hr

end GpuCalorie.Issue
