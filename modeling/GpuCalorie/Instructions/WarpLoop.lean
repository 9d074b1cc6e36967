/-
# Executing one instruction for a warp

`execute_warp_inst_t` visits the lanes of a warp in order. For each active one
`ptx_exec_inst` evaluates the guard predicate of the instruction: a lane where it is
false is taken out of the mask of the instruction, any other lane runs the function of
the opcode. The mask thus shrinks while the lanes are visited, and an instruction that
looks at the whole mask sees the later lanes before their guards were evaluated.

The state an instruction works on and its function are parameters. A run of the loop is
described by an invariant over the lanes already visited.
-/

import GpuCalorie.Instructions.Register
import GpuCalorie.Math.Loop
import Mathlib.Data.Finset.Basic

namespace GpuCalorie.Instructions

open GpuCalorie.Math

universe u

/-- `MAX_WARP_SIZE`, the length of a mask. -/
def maxWarpSize : ℕ := 32

/-- `core_config`: the constructor of `warp_inst_t` asserts the bound. -/
structure CoreConfig where
  warpSize : ℕ
  warpSize_le : warpSize ≤ maxWarpSize

/-! ## Guard predicates -/

/-- `pred_table`: a row for every condition code, its columns the values of the flags
from left to right. -/
def predTable : List (BitVec 16) :=
  [0b0000000000000000, 0b0010001011011101, 0b0100010001000100, 0b0110011011001100,
   0b1000100000100010, 0b1010101010101010, 0b1100110000110011, 0b1110111011101110,
   0b0001000100010001, 0b0011001111001100, 0b0101010101010101, 0b0111011111011101,
   0b1001100100110011, 0b1011101110111011, 0b1101110100100010, 0b1111111111111111,
   0b0000000011111111, 0b0000111100001111, 0b0000101000001010, 0b0011001100110011,
   0, 0, 0, 0, 0, 0, 0, 0,
   0b1100110011001100, 0b1111010111110101, 0b1111000011110000, 0b1111111100000000]

/-- `pred_lookup`. -/
def predLookup (condition : Fin 32) (flags : BitVec 4) : Bool :=
  (predTable.getD condition 0).getMsbD flags.toNat

/-- The guard of an instruction: a predicate register, possibly negated, and the
condition code native instructions test its flags with. -/
structure Guard where
  pred : ℕ
  neg : Bool := false
  predMod : Option (Fin 32) := none
  deriving DecidableEq, Repr

/-- Whether a thread skips the instruction. The zero flag means false. -/
def Guard.skips (regs : RegisterFile) : Option Guard → Bool
  | none => false
  | some guard =>
      match guard.predMod with
      | none => (regs guard.pred).pred.getLsbD 0 ^^ guard.neg
      | some mod => !predLookup mod (regs guard.pred).pred

/-! ## The loop over the lanes -/

/-- What the loop carries: the mask of the instruction, and the state of the core. -/
structure LaneState (σ : Type u) where
  activeMask : Finset ℕ
  core : σ

variable {σ : Type u}

/-- `ptx_exec_inst`: the guard, then the function of the opcode, which may look at the
mask and knows its lane. -/
def ptxExecInst (skip : σ → ℕ → Bool)
    (func : Finset ℕ → ℕ → σ → Except ExecFailure σ) (lane : ℕ) (s : LaneState σ) :
    Except ExecFailure (LaneState σ) :=
  if skip s.core lane then .ok { s with activeMask := s.activeMask.erase lane }
  else do
    let core ← func s.activeMask lane s.core
    pure { s with core := core }

/-- The body of the loop: only active lanes execute. -/
def warpLane (skip : σ → ℕ → Bool)
    (func : Finset ℕ → ℕ → σ → Except ExecFailure σ) (lane : ℕ) (s : LaneState σ) :
    Except ExecFailure (LaneState σ) :=
  if lane ∈ s.activeMask then ptxExecInst skip func lane s else .ok s

/-- `execute_warp_inst_t`. -/
def executeWarpInst (skip : σ → ℕ → Bool)
    (func : Finset ℕ → ℕ → σ → Except ExecFailure σ) (warpSize : ℕ) (s : LaneState σ) :
    Except ExecFailure (LaneState σ) :=
  countUp (warpLane skip func) warpSize s

/-! ## What a run of the loop does -/

/-- The mask when a lane is reached: the lanes below it that were skipped are gone. -/
def maskAt (mask : Finset ℕ) (skipped : ℕ → Bool) (lane : ℕ) : Finset ℕ :=
  mask.filter fun other => lane ≤ other ∨ skipped other = false

/-- The lanes below a bound that execute the instruction, in the order they do. -/
def executing (mask : Finset ℕ) (skipped : ℕ → Bool) (bound : ℕ) : List ℕ :=
  (List.range bound).filter fun lane => lane ∈ mask ∧ skipped lane = false

variable {mask : Finset ℕ} {skipped : ℕ → Bool} {lane : ℕ}

@[simp]
theorem mem_maskAt {lane other : ℕ} :
    other ∈ maskAt mask skipped lane ↔ other ∈ mask ∧ (lane ≤ other ∨ skipped other = false) := by
  simp [maskAt]

@[simp]
theorem mem_executing {bound lane : ℕ} :
    lane ∈ executing mask skipped bound ↔
      lane < bound ∧ lane ∈ mask ∧ skipped lane = false := by
  simp [executing]

theorem maskAt_zero : maskAt mask skipped 0 = mask := by
  ext lane
  simp

theorem maskAt_succ_of_skipped (hskip : skipped lane = true) :
    maskAt mask skipped (lane + 1) = (maskAt mask skipped lane).erase lane := by
  ext other
  simp only [mem_maskAt, Finset.mem_erase]
  by_cases hother : other = lane
  · subst hother
    simp [hskip]
  · have : lane + 1 ≤ other ↔ lane ≤ other := by omega
    simp [this, hother]

theorem maskAt_succ_of_not (h : lane ∉ mask ∨ skipped lane = false) :
    maskAt mask skipped (lane + 1) = maskAt mask skipped lane := by
  ext other
  simp only [mem_maskAt]
  by_cases hother : other = lane
  · subst hother
    cases h with
    | inl hmem => simp [hmem]
    | inr hskip => simp [hskip]
  · have : lane + 1 ≤ other ↔ lane ≤ other := by omega
    simp [this]

theorem executing_succ_of_mem (hmem : lane ∈ mask) (hskip : skipped lane = false) :
    executing mask skipped (lane + 1) = executing mask skipped lane ++ [lane] := by
  simp [executing, List.range_succ, hmem, hskip]

theorem executing_succ_of_not (h : lane ∈ mask → skipped lane = true) :
    executing mask skipped (lane + 1) = executing mask skipped lane := by
  by_cases hmem : lane ∈ mask
  · simp [executing, List.range_succ, h hmem]
  · simp [executing, List.range_succ, hmem]

section WarpLane

variable {skip : σ → ℕ → Bool} {func : Finset ℕ → ℕ → σ → Except ExecFailure σ} {lane : ℕ}
  {s : LaneState σ}

theorem warpLane_of_inactive (hmem : lane ∉ s.activeMask) : warpLane skip func lane s = .ok s := by
  rw [warpLane, if_neg hmem]

theorem warpLane_of_skip (hmem : lane ∈ s.activeMask) (hskip : skip s.core lane = true) :
    warpLane skip func lane s = .ok { s with activeMask := s.activeMask.erase lane } := by
  rw [warpLane, if_pos hmem, ptxExecInst, if_pos hskip]

theorem warpLane_of_exec {next : σ} (hmem : lane ∈ s.activeMask) (hskip : skip s.core lane = false)
    (hfunc : func s.activeMask lane s.core = .ok next) :
    warpLane skip func lane s = .ok { s with core := next } := by
  rw [warpLane, if_pos hmem, ptxExecInst, if_neg (by simp [hskip]), hfunc]
  rfl

end WarpLane

theorem executeWarpInst_ok (mask : Finset ℕ) (skipped : ℕ → Bool) (skip : σ → ℕ → Bool)
    (func : Finset ℕ → ℕ → σ → Except ExecFailure σ) (I : ℕ → σ → Prop) (warpSize : ℕ) (core : σ)
    (guards : ∀ lane < warpSize, lane ∈ mask → ∀ core, I lane core →
      skip core lane = skipped lane)
    (passed : ∀ lane < warpSize, (lane ∈ mask → skipped lane = true) → ∀ core, I lane core →
      I (lane + 1) core)
    (executed : ∀ lane < warpSize, lane ∈ mask → skipped lane = false → ∀ core, I lane core →
      ∃ next, func (maskAt mask skipped lane) lane core = .ok next ∧ I (lane + 1) next)
    (start : I 0 core) :
    ∃ last, executeWarpInst skip func warpSize ⟨mask, core⟩ =
      .ok ⟨maskAt mask skipped warpSize, last⟩ ∧ I warpSize last := by
  have hlane : ∀ lane < warpSize, ∀ s : LaneState σ,
      s.activeMask = maskAt mask skipped lane ∧ I lane s.core →
        ∃ t, warpLane skip func lane s = .ok t ∧
          t.activeMask = maskAt mask skipped (lane + 1) ∧ I (lane + 1) t.core := by
    intro lane hlane s hs
    obtain ⟨current, core⟩ := s
    obtain ⟨hmask, hcore⟩ := hs
    cases hmask
    by_cases hmem : lane ∈ mask
    · have hguard : skip core lane = skipped lane := guards lane hlane hmem core hcore
      cases hskip : skipped lane with
      | true =>
          refine ⟨_, warpLane_of_skip (by simp [hmem]) (hguard.trans hskip), ?_, ?_⟩
          · exact (maskAt_succ_of_skipped hskip).symm
          · exact passed lane hlane (fun _ => hskip) core hcore
      | false =>
          obtain ⟨next, hfunc, hnext⟩ := executed lane hlane hmem hskip core hcore
          refine ⟨_, warpLane_of_exec (by simp [hmem]) (hguard.trans hskip) hfunc, ?_, hnext⟩
          exact (maskAt_succ_of_not (.inr hskip)).symm
    · refine ⟨_, warpLane_of_inactive (by simp [hmem]), ?_, ?_⟩
      · exact (maskAt_succ_of_not (.inl hmem)).symm
      · exact passed lane hlane (fun h => absurd h hmem) core hcore
  have hloop : ∃ t : LaneState σ, countUp (warpLane skip func) warpSize ⟨mask, core⟩ = .ok t ∧
      t.activeMask = maskAt mask skipped warpSize ∧ I warpSize t.core :=
    countUp_ok (I := fun lane (s : LaneState σ) =>
      s.activeMask = maskAt mask skipped lane ∧ I lane s.core)
      warpSize hlane ⟨maskAt_zero.symm, start⟩
  obtain ⟨⟨_, last⟩, hrun, hmask, hlast⟩ := hloop
  cases hmask
  exact ⟨last, hrun, hlast⟩

end GpuCalorie.Instructions
