/-
# Checkpoint and resume of registers

At the checkpoint of a CTA, `functionalCoreSim::execute` writes a file for each of `32 *
m_warp_count` threads. When the CTA is issued again, `issue_block2core` has each of its hardware
threads read the file of its number modulo the size of the CTA. So all registers come back exactly
when warps are of 32 threads, none is partial, and each thread alone gets its registers back.
-/

import GpuCalorie.FunctionalSim.RegisterFile
import Mathlib.Logic.Function.Basic

namespace GpuCalorie.FunctionalSim.RegisterFile

open GpuCalorie.Math
open GpuCalorie.Simt.StackFile (signed32)

/-- A CTA at its checkpoint, and where it is issued again. -/
structure Cta where
  ctaid : UInt32
  /-- `m_regs` of its threads. -/
  regs : ℕ → List RegMap
  /-- `free_cta_hw_id`, or the step at which `find_available_hwtid` ended. -/
  slot : ℕ

/-- The CTAs of a kernel from `checkpoint_CTA` on and before `checkpoint_CTA_t`. -/
structure Launch where
  warpSize : ℕ
  warpSize_pos : 0 < warpSize
  /-- The configuration is asserted to have no more than `MAX_WARP_SIZE`. -/
  warpSize_le : warpSize ≤ 32
  ctaSize : ℕ
  ctaSize_pos : 0 < ctaSize
  /-- The table of the kernel's entry. -/
  symtab : List SymbolScope
  ctas : List Cta
  nodup : (ctas.map Cta.ctaid).Nodup

/-- The files, by their names. -/
abbrev Disk := List Char → Option (List Char)

/-- `checkpoint_files/thread_%d_%d_reg.txt`. -/
def regFileName (i : ℕ) (ctaid : UInt32) : List Char :=
  "checkpoint_files/thread_".toList ++
    (printInt i ++ '_' :: (printInt (signed32 ctaid) ++ "_reg.txt".toList))

namespace Launch

variable (L : Launch)

/-- `m_warp_count`. -/
def warpCount : ℕ :=
  if L.ctaSize % L.warpSize ≠ 0 then L.ctaSize / L.warpSize + 1 else L.ctaSize / L.warpSize

/-- `padded_cta_size`. -/
def paddedCtaSize : ℕ :=
  if L.ctaSize % L.warpSize ≠ 0 then (L.ctaSize / L.warpSize + 1) * L.warpSize else L.ctaSize

/-- `m_thread[i]`, of which something is used. -/
def thread (cta : Cta) (i : ℕ) : Except RegisterFailure (List RegMap) :=
  if i < L.warpCount * L.warpSize then
    if i < L.ctaSize then .ok (cta.regs i) else .error .nullPointer
  else .error .outOfBounds

/-- The threads whose registers `execute` writes. -/
def saved : List (Cta × ℕ) :=
  L.ctas.flatMap fun cta => (List.range (32 * L.warpCount)).map fun i => (cta, i)

/-- What is written of a thread. -/
def contents (t : Cta × ℕ) : Except RegisterFailure (List Char) := do
  let frames ← L.thread t.1 t.2
  printRegThread frames

/-- The file of a thread is written. `get_next_cta_id_single` is that of the next CTA by then. -/
def saveThread (disk : Disk) (t : Cta × ℕ) : Except RegisterFailure Disk := do
  let ctaid := t.1.ctaid + 1
  let file ← L.contents t
  return Function.update disk (regFileName t.2 (ctaid - 1)) (some file)

/-- The checkpoints of all CTAs. -/
def checkpoint (disk : Disk) : Except RegisterFailure Disk := L.saved.foldlM L.saveThread disk

/-- `issue_block2core`, for a hardware thread of a CTA: it is new when it reads its registers. -/
def resumeThread (disk : Disk) (cta : Cta) (j : ℕ) : Except RegisterFailure (List RegMap) :=
  let startThread := cta.slot * L.paddedCtaSize
  match disk (regFileName ((startThread + j) % L.ctaSize) cta.ctaid) with
  | none => .error .noFile
  | some file => resumeRegThread L.symtab file [∅]

/-- Every thread gets the registers of all its frames back. -/
def RegistersRestored (disk : Disk) : Prop :=
  ∃ disk', L.checkpoint disk = .ok disk' ∧ ∀ cta ∈ L.ctas, ∀ j < L.ctaSize,
    ∃ frames, L.resumeThread disk' cta j = .ok frames ∧ SameFrames frames (cta.regs j)

/-! ## Names of files -/

end Launch

theorem append_cons_inj {α : Type*} {a : α} {l l' r r' : List α} (hl : a ∉ l) (hl' : a ∉ l')
    (h : l ++ a :: r = l' ++ a :: r') : l = l' ∧ r = r' := by
  induction l generalizing l' with
  | nil =>
    cases l' with
    | nil => exact ⟨rfl, (List.cons.inj h).2⟩
    | cons b l' => exact absurd (List.mem_cons.2 (.inl (List.cons.inj h).1)) hl'
  | cons b l ih =>
    cases l' with
    | nil => exact absurd (List.mem_cons.2 (.inl (List.cons.inj h).1.symm)) hl
    | cons b' l' =>
      obtain ⟨rfl, htail⟩ := List.cons.inj h
      obtain ⟨rfl, rfl⟩ := ih (fun hmem => hl (List.mem_cons_of_mem _ hmem))
        (fun hmem => hl' (List.mem_cons_of_mem _ hmem)) htail
      exact ⟨rfl, rfl⟩

theorem printInt_injective : Function.Injective printInt :=
  Function.LeftInverse.injective readInt_printInt

theorem regFileName_inj {i i' : ℕ} {ctaid ctaid' : UInt32}
    (h : regFileName i ctaid = regFileName i' ctaid') : i = i' ∧ ctaid = ctaid' := by
  have hunderscore (n : ℤ) : '_' ∉ printInt n := notMem_printInt (by decide) (by decide) n
  obtain ⟨hi, hrest⟩ := append_cons_inj (hunderscore _) (hunderscore _) (List.append_cancel_left h)
  have hctaid := printInt_injective (List.append_cancel_right hrest)
  exact ⟨Int.ofNat_inj.1 (printInt_injective hi),
    UInt32.toBitVec_inj.1 (BitVec.toInt_inj.1 hctaid)⟩

namespace Launch

variable {L : Launch} {disk disk' : Disk} {ts : List (Cta × ℕ)} {cta : Cta}

theorem nodup_saved : (L.saved.map fun t => regFileName t.2 t.1.ctaid).Nodup := by
  rw [saved, List.map_flatMap, List.nodup_flatMap]
  constructor
  · intro cta _
    rw [List.map_map]
    exact List.nodup_range.map fun i i' h => (regFileName_inj h).1
  · have hpairwise := List.pairwise_map.1 L.nodup
    refine hpairwise.imp fun {cta cta'} hne name hname hname' => ?_
    simp only [List.map_map, List.mem_map] at hname hname'
    obtain ⟨i, -, rfl⟩ := hname
    obtain ⟨i', -, heq⟩ := hname'
    exact hne (regFileName_inj heq).2.symm

/-! ## The files that were written -/

theorem of_saveThread {t : Cta × ℕ} (h : L.saveThread disk t = .ok disk') :
    ∃ file, L.contents t = .ok file ∧
      disk' = Function.update disk (regFileName t.2 t.1.ctaid) (some file) := by
  rw [saveThread, add_sub_cancel_right] at h
  obtain ⟨file, hfile, h⟩ := bind_eq_ok.1 h
  exact ⟨file, hfile, (Except.ok.inj h).symm⟩

theorem foldlM_of_notMem {name : List Char} (h : ts.foldlM L.saveThread disk = .ok disk')
    (hname : name ∉ ts.map fun t => regFileName t.2 t.1.ctaid) : disk' name = disk name := by
  induction ts generalizing disk with
  | nil =>
    obtain rfl := Except.ok.inj h
    rfl
  | cons t ts ih =>
    rw [List.map_cons, List.mem_cons, not_or] at hname
    rw [List.foldlM_cons] at h
    obtain ⟨disk₁, ht, h⟩ := bind_eq_ok.1 h
    obtain ⟨file, -, rfl⟩ := of_saveThread ht
    rw [ih h hname.2, Function.update_of_ne hname.1]

theorem foldlM_of_mem {t : Cta × ℕ} (h : ts.foldlM L.saveThread disk = .ok disk')
    (hnodup : (ts.map fun t => regFileName t.2 t.1.ctaid).Nodup) (ht : t ∈ ts) :
    ∃ file, L.contents t = .ok file ∧ disk' (regFileName t.2 t.1.ctaid) = some file := by
  induction ts generalizing disk with
  | nil => cases ht
  | cons t' ts ih =>
    rw [List.map_cons, List.nodup_cons] at hnodup
    rw [List.foldlM_cons] at h
    obtain ⟨disk₁, ht', h⟩ := bind_eq_ok.1 h
    obtain rfl | ht := List.mem_cons.1 ht
    · obtain ⟨file, hfile, rfl⟩ := of_saveThread ht'
      refine ⟨file, hfile, ?_⟩
      rw [foldlM_of_notMem h hnodup.1, Function.update_self]
    · exact ih h hnodup.2 ht

theorem exists_foldlM (h : ∀ t ∈ ts, ∃ file, L.contents t = .ok file) :
    ∃ disk', ts.foldlM L.saveThread disk = .ok disk' := by
  induction ts generalizing disk with
  | nil => exact ⟨disk, rfl⟩
  | cons t ts ih =>
    rw [List.forall_mem_cons] at h
    obtain ⟨⟨file, hfile⟩, h⟩ := h
    rw [List.foldlM_cons, saveThread, hfile]
    exact ih h

/-! ## Whole warps -/

theorem le_warpCount_mul (L : Launch) : L.ctaSize ≤ L.warpCount * L.warpSize := by
  have hdiv := Nat.div_add_mod' L.ctaSize L.warpSize
  have hmod := Nat.mod_lt L.ctaSize L.warpSize_pos
  rw [warpCount]
  split_ifs with hpartial
  · rw [Nat.add_mul, Nat.one_mul]
    omega
  · omega

theorem warpCount_le_iff : 32 * L.warpCount ≤ L.ctaSize ↔ L.warpSize = 32 ∧ 32 ∣ L.ctaSize := by
  constructor
  · intro hle
    have hge := L.le_warpCount_mul
    have hmul := Nat.mul_le_mul_left L.warpCount L.warpSize_le
    have hpos : 0 < L.warpCount := by
      have hsize := L.ctaSize_pos
      by_contra hzero
      obtain hzero : L.warpCount = 0 := by omega
      rw [hzero, Nat.zero_mul] at hge
      omega
    have hsize : L.ctaSize = 32 * L.warpCount := by omega
    have hwarp : L.warpCount * L.warpSize = L.warpCount * 32 := by omega
    exact ⟨Nat.eq_of_mul_eq_mul_left hpos hwarp, L.warpCount, hsize⟩
  · rintro ⟨hwarp, hdvd⟩
    rw [warpCount, hwarp, if_neg (not_not.2 (Nat.mod_eq_zero_of_dvd hdvd))]
    exact Nat.mul_div_le L.ctaSize 32

theorem le_mul_warpCount (hwhole : L.warpSize = 32 ∧ 32 ∣ L.ctaSize) :
    L.ctaSize ≤ 32 * L.warpCount := by
  have hge := L.le_warpCount_mul
  rwa [hwhole.1, Nat.mul_comm] at hge

theorem mem_saved {i : ℕ} (hcta : cta ∈ L.ctas) (hi : i < 32 * L.warpCount) : (cta, i) ∈ L.saved :=
  List.mem_flatMap.2 ⟨cta, hcta, List.mem_map.2 ⟨i, List.mem_range.2 hi, rfl⟩⟩

theorem contents_of_lt {i : ℕ} (hi : i < L.ctaSize) :
    L.contents (cta, i) = printRegThread (cta.regs i) := by
  rw [contents, thread, if_pos (lt_of_lt_of_le hi L.le_warpCount_mul), if_pos hi]
  rfl

theorem contents_ne_ok {i : ℕ} (hi : ¬ i < L.ctaSize) (file : List Char) :
    L.contents (cta, i) ≠ .ok file := by
  rw [contents, thread, if_neg hi]
  split_ifs
  · exact nofun
  · exact nofun

theorem resumeThread_eq (hwhole : L.warpSize = 32 ∧ 32 ∣ L.ctaSize) {j : ℕ}
    (hj : j < L.ctaSize) {file : List Char} (hfile : disk (regFileName j cta.ctaid) = some file) :
    L.resumeThread disk cta j = resumeRegThread L.symtab file [∅] := by
  have hpadded : L.paddedCtaSize = L.ctaSize := by
    rw [paddedCtaSize, hwhole.1, if_neg (not_not.2 (Nat.mod_eq_zero_of_dvd hwhole.2))]
  have hindex : (cta.slot * L.ctaSize + j) % L.ctaSize = j := by
    rw [Nat.mul_comm, Nat.mul_add_mod, Nat.mod_eq_of_lt hj]
  rw [resumeThread, hpadded, hindex, hfile]

theorem RegistersRestored.plain (h : L.RegistersRestored disk) (hcta : cta ∈ L.ctas) :
    (L.warpSize = 32 ∧ 32 ∣ L.ctaSize) ∧ ∀ j < L.ctaSize, Plain L.symtab (cta.regs j) := by
  obtain ⟨disk', hcheckpoint, hrestored⟩ := h
  have hwhole : L.warpSize = 32 ∧ 32 ∣ L.ctaSize := by
    by_contra hpartial
    rw [← warpCount_le_iff, not_le] at hpartial
    obtain ⟨file, hfile, -⟩ := foldlM_of_mem hcheckpoint nodup_saved (mem_saved hcta hpartial)
    exact contents_ne_ok (lt_irrefl _) file hfile
  refine ⟨hwhole, fun j hj => (restoresFrames_iff L.symtab _).1 ?_⟩
  have hj' := lt_of_lt_of_le hj (le_mul_warpCount hwhole)
  obtain ⟨file, hfile, hdisk⟩ := foldlM_of_mem hcheckpoint nodup_saved (mem_saved hcta hj')
  obtain ⟨frames, hframes, hsame⟩ := hrestored cta hcta j hj
  rw [resumeThread_eq hwhole hj hdisk] at hframes
  rw [contents_of_lt hj] at hfile
  exact ⟨file, hfile, frames, hframes, hsame⟩

/-- All registers come back if and only if the warps of each CTA are whole, and each of its threads
is in one frame of registers that are found under their names, hold 32 bits and fit their lines. -/
theorem registersRestored_iff (L : Launch) (disk : Disk) : L.RegistersRestored disk ↔
    ∀ cta ∈ L.ctas, (L.warpSize = 32 ∧ 32 ∣ L.ctaSize) ∧
      ∀ j < L.ctaSize, Plain L.symtab (cta.regs j) := by
  constructor
  · exact fun h cta hcta => h.plain hcta
  · intro h
    have hcontents : ∀ t ∈ L.saved, ∃ file, L.contents t = .ok file := by
      intro t ht
      obtain ⟨cta, hcta, hmem⟩ := List.mem_flatMap.1 ht
      obtain ⟨i, hi, rfl⟩ := List.mem_map.1 hmem
      obtain ⟨hwhole, hplain⟩ := h cta hcta
      have hlt := lt_of_lt_of_le (List.mem_range.1 hi) (warpCount_le_iff.2 hwhole)
      obtain ⟨file, hfile, -⟩ := (restoresFrames_iff L.symtab _).2 (hplain i hlt)
      exact ⟨file, (contents_of_lt hlt).trans hfile⟩
    obtain ⟨disk', hcheckpoint⟩ := @exists_foldlM L disk L.saved hcontents
    refine ⟨disk', hcheckpoint, fun cta hcta j hj => ?_⟩
    obtain ⟨hwhole, hplain⟩ := h cta hcta
    have hj' := lt_of_lt_of_le hj (le_mul_warpCount hwhole)
    obtain ⟨file, hfile, hdisk⟩ := foldlM_of_mem hcheckpoint nodup_saved (mem_saved hcta hj')
    rw [contents_of_lt hj] at hfile
    obtain ⟨file', hfile', frames, hframes, hsame⟩ :=
      (restoresFrames_iff L.symtab _).2 (hplain j hj)
    obtain rfl := Except.ok.inj (hfile.symm.trans hfile')
    exact ⟨frames, (resumeThread_eq hwhole hj hdisk).trans hframes, hsame⟩

/-- A register of the table, in a CTA of one warp. -/
def exampleReg : Symbol where
  uid := 1
  name := "%r1".toList
  filename := "_1.ptx".toList
  line := 7
  sizeInBytes := 4
  isIdentifier_name := rfl
  noBlank_filename := show ' ' ∉ "_1.ptx".toList by decide
  noNewline_filename := by decide

def exampleScope : SymbolScope where
  symbols key := if key = exampleReg.name then some exampleReg else none
  name_eq := by
    intro key reg h
    split_ifs at h with hkey
    obtain rfl := Option.some.inj h
    exact hkey.symm

/-- All threads have one value in the register. -/
def exampleLaunch (value : UInt64) : Launch where
  warpSize := 32
  warpSize_pos := Nat.succ_pos 31
  warpSize_le := by decide
  ctaSize := 32
  ctaSize_pos := Nat.succ_pos 31
  symtab := [exampleScope]
  ctas := [⟨0, fun _ => [AList.singleton (some exampleReg) value], 0⟩]
  nodup := List.nodup_singleton _

/-- The bit above the low half is lost. -/
theorem not_registersRestored : ¬ (exampleLaunch (2 ^ 32)).RegistersRestored fun _ => none := by
  intro h
  obtain ⟨-, hplain⟩ := h.plain List.mem_cons_self
  obtain ⟨regs, hregs, hentries⟩ := hplain 0 (by decide)
  obtain rfl := (List.cons.inj hregs).1
  obtain ⟨reg, -, hreg⟩ := hentries ⟨some exampleReg, 2 ^ 32⟩ List.mem_cons_self
  exact absurd hreg.half (by decide)

end Launch

end GpuCalorie.FunctionalSim.RegisterFile
