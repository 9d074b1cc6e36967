/-
# The threads of a kernel

A kernel hands out its CTAs one by one, and of each its threads, with two three-dimensional
counters of 32 bits. The loops of the functional simulator visit every thread of every CTA once, in
their linear order.
-/

import GpuCalorie.CtaDispatch.Kernel
import Mathlib.Data.List.Nodup

namespace GpuCalorie.CtaDispatch

/-- `dim3`, with its 32-bit members. -/
@[ext]
structure UDim3 where
  x : BitVec 32
  y : BitVec 32
  z : BitVec 32
  deriving DecidableEq

/-- `increment_x_then_y_then_z`. -/
def UDim3.incrementXThenYThenZ (i bound : UDim3) : UDim3 :=
  let i := { i with x := i.x + 1 }
  if bound.x ≤ i.x then
    let i := { i with x := 0, y := i.y + 1 }
    if bound.y ≤ i.y then
      let i := { i with y := 0 }
      if i.z < bound.z then { i with z := i.z + 1 } else i
    else i
  else i

/-- `kernel_info_t`, as far as it hands out CTAs and threads. -/
structure KernelIteration where
  gridDim : UDim3
  blockDim : UDim3
  nextCta : UDim3 := ⟨0, 0, 0⟩
  nextTid : UDim3 := ⟨0, 0, 0⟩
  deriving DecidableEq

namespace KernelIteration

variable (k : KernelIteration)

/-- `increment_cta_id`. -/
def incrementCtaId : KernelIteration :=
  { k with nextCta := k.nextCta.incrementXThenYThenZ k.gridDim, nextTid := ⟨0, 0, 0⟩ }

/-- `get_next_cta_id_single`. -/
def getNextCtaIdSingle : BitVec 32 :=
  k.nextCta.x + k.gridDim.x * k.nextCta.y + k.gridDim.x * k.gridDim.y * k.nextCta.z

/-- `no_more_ctas_to_run`. -/
def noMoreCtasToRun : Bool :=
  k.gridDim.x ≤ k.nextCta.x ∨ k.gridDim.y ≤ k.nextCta.y ∨ k.gridDim.z ≤ k.nextCta.z

/-- `increment_thread_id`. -/
def incrementThreadId : KernelIteration :=
  { k with nextTid := k.nextTid.incrementXThenYThenZ k.blockDim }

/-- `get_next_thread_id`. -/
def getNextThreadId : BitVec 32 :=
  k.nextTid.x + k.blockDim.x * k.nextTid.y + k.blockDim.x * k.blockDim.y * k.nextTid.z

/-- `more_threads_in_cta`. -/
def moreThreadsInCta : Bool :=
  k.nextTid.z < k.blockDim.z ∧ k.nextTid.y < k.blockDim.y ∧ k.nextTid.x < k.blockDim.x

end KernelIteration

/-! ## Counting without overflow -/

namespace UDim3
variable {i : ℕ}


/-- The members as numbers. -/
def toDim3 (c : UDim3) : Dim3 := ⟨c.x.toNat, c.y.toNat, c.z.toNat⟩

/-- The number of the triples below a bound. -/
def volume (bound : UDim3) : ℕ := bound.x.toNat * (bound.y.toNat * bound.z.toNat)

variable {c bound : UDim3}

theorem toDim3_inj {d : UDim3} (h : c.toDim3 = d.toDim3) : c = d := by
  obtain ⟨hx, hy, hz⟩ := Dim3.mk.inj h
  exact UDim3.ext (BitVec.eq_of_toNat_eq hx) (BitVec.eq_of_toNat_eq hy) (BitVec.eq_of_toNat_eq hz)

theorem toNat_succ {a b : BitVec 32} (h : a.toNat < b.toNat) : (a + 1).toNat = a.toNat + 1 := by
  have hb := b.isLt
  rw [BitVec.toNat_add]
  exact Nat.mod_eq_of_lt (by change a.toNat + 1 < 2 ^ 32; omega)

theorem toDim3_increment (h : c.toDim3.InGrid bound.toDim3) :
    (c.incrementXThenYThenZ bound).toDim3 = c.toDim3.incrementXThenYThenZ bound.toDim3 := by
  obtain ⟨hx, hy, hz⟩ := h
  have hxs := toNat_succ hx
  have hys := toNat_succ hy
  have hzs := toNat_succ hz
  rw [incrementXThenYThenZ, Dim3.incrementXThenYThenZ]
  dsimp only
  simp only [BitVec.le_def, BitVec.lt_def, hxs, hys]
  by_cases hrow : bound.x.toNat ≤ c.x.toNat + 1
  · rw [if_pos hrow]
    have hrow' : bound.toDim3.x ≤ c.toDim3.x + 1 := hrow
    rw [if_pos hrow']
    by_cases hplane : bound.y.toNat ≤ c.y.toNat + 1
    · have hplane' : bound.toDim3.y ≤ c.toDim3.y + 1 := hplane
      have hz' : c.z.toNat < bound.z.toNat := hz
      rw [if_pos hplane, if_pos hplane', if_pos hz', if_pos hz]
      exact congrArg (Dim3.mk 0 0) hzs
    · have hplane' : ¬ bound.toDim3.y ≤ c.toDim3.y + 1 := hplane
      rw [if_neg hplane, if_neg hplane']
      exact congrArg (Dim3.mk 0 · c.z.toNat) hys
  · have hrow' : ¬ bound.toDim3.x ≤ c.toDim3.x + 1 := hrow
    rw [if_neg hrow, if_neg hrow']
    exact congrArg (Dim3.mk · c.y.toNat c.z.toNat) hxs

/-- The place of a triple in the linear order. -/
def rank (c bound : UDim3) : ℕ := c.toDim3.rank bound.toDim3

/-- A triple below a bound. -/
def InGrid (c bound : UDim3) : Prop := c.toDim3.InGrid bound.toDim3

theorem rank_lt_volume (h : c.InGrid bound) : c.rank bound < bound.volume := by
  have hlt := Dim3.rank_lt_end h
  change _ < 0 + _ * (0 + _) at hlt
  rw [Nat.zero_add, Nat.zero_add] at hlt
  exact hlt

theorem rank_increment (h : c.InGrid bound) :
    (c.incrementXThenYThenZ bound).rank bound = c.rank bound + 1 := by
  rw [rank, toDim3_increment h]
  exact Dim3.rank_increment h

theorem rank_inj {d : UDim3} (hc : c.InGrid bound) (hd : d.InGrid bound)
    (h : c.rank bound = d.rank bound) : c = d :=
  toDim3_inj (Dim3.rank_inj hc hd h)

/-- A triple is the next one to be handed out, or there are none left. -/
def IsAt (c bound : UDim3) (i : ℕ) : Prop :=
  (i < bound.volume ∧ c.InGrid bound ∧ c.rank bound = i) ∨ (i = bound.volume ∧ c = ⟨0, 0, bound.z⟩)

theorem isAt_zero (hx : 0 < bound.x) (hy : 0 < bound.y) (hz : 0 < bound.z) :
    IsAt ⟨0, 0, 0⟩ bound 0 := by
  have hgrid : InGrid ⟨0, 0, 0⟩ bound := ⟨hx, hy, hz⟩
  have hrank : rank ⟨0, 0, 0⟩ bound = 0 := by
    change 0 + _ * (0 + _ * 0) = 0
    rw [Nat.mul_zero, Nat.mul_zero]
  refine .inl ⟨?_, hgrid, hrank⟩
  have hlt := rank_lt_volume hgrid
  rw [hrank] at hlt
  exact hlt

theorem isAt_succ (h : IsAt c bound i) (hi : i < bound.volume) :
    IsAt (c.incrementXThenYThenZ bound) bound (i + 1) := by
  obtain ⟨-, hgrid, hrank⟩ := h.resolve_right fun h => hi.ne h.1
  have hnext := rank_increment hgrid
  rw [hrank] at hnext
  rcases Dim3.isNext_increment hgrid with hin | hend
  · rw [← toDim3_increment hgrid] at hin
    have hlt := rank_lt_volume hin
    rw [hnext] at hlt
    exact .inl ⟨hlt, hin, hnext⟩
  · rw [← toDim3_increment hgrid] at hend
    have hlast : c.incrementXThenYThenZ bound = ⟨0, 0, bound.z⟩ := toDim3_inj hend
    refine .inr ⟨?_, hlast⟩
    rw [← hnext, hlast]
    change 0 + _ * (0 + _) = _
    rw [Nat.zero_add, Nat.zero_add]
    rfl

theorem isAt_iterate (hx : 0 < bound.x) (hy : 0 < bound.y) (hz : 0 < bound.z) (i : ℕ)
    (hi : i ≤ bound.volume) :
    IsAt ((incrementXThenYThenZ · bound)^[i] ⟨0, 0, 0⟩) bound i := by
  induction i with
  | zero => exact isAt_zero hx hy hz
  | succ i ih =>
      rw [Function.iterate_succ_apply']
      exact isAt_succ (ih (Nat.le_of_succ_le hi)) hi

theorem inGrid_iff_of_isAt (h : IsAt c bound i) : c.InGrid bound ↔ i ≠ bound.volume := by
  rcases h with ⟨hlt, hgrid, -⟩ | ⟨heq, hend⟩
  · exact iff_of_true hgrid hlt.ne
  · refine iff_of_false (fun hgrid => ?_) (not_not.mpr heq)
    rw [hend] at hgrid
    exact lt_irrefl _ hgrid.2.2

theorem toNat_index (c bound : UDim3) :
    (c.x + bound.x * c.y + bound.x * bound.y * c.z).toNat = c.rank bound % 2 ^ 32 := by
  rw [BitVec.toNat_add, BitVec.toNat_add, BitVec.toNat_mul, BitVec.toNat_mul, BitVec.toNat_mul]
  have hrank : c.rank bound = c.x.toNat + bound.x.toNat * c.y.toNat + bound.x.toNat *
      bound.y.toNat * c.z.toNat := by
    change _ + _ * (_ + _ * _) = _
    rw [Nat.mul_add, ← Nat.mul_assoc, Nat.add_assoc]
    rfl
  rw [hrank]
  simp only [Nat.add_mod, Nat.mul_mod, Nat.mod_mod]

end UDim3

/-! ## The loops -/

namespace KernelIteration

variable {k : KernelIteration}

theorem moreThreadsInCta_iff : k.moreThreadsInCta = true ↔ k.nextTid.InGrid k.blockDim := by
  rw [moreThreadsInCta, decide_eq_true_iff, UDim3.InGrid, Dim3.InGrid]
  change _ ∧ _ ∧ _ ↔ k.nextTid.x < k.blockDim.x ∧ k.nextTid.y < k.blockDim.y ∧
    k.nextTid.z < k.blockDim.z
  tauto

theorem noMoreCtasToRun_iff : k.noMoreCtasToRun = true ↔ ¬ k.nextCta.InGrid k.gridDim := by
  rw [noMoreCtasToRun, decide_eq_true_iff, UDim3.InGrid, Dim3.InGrid, BitVec.le_def, BitVec.le_def,
    BitVec.le_def]
  change _ ↔ ¬ (k.nextCta.x.toNat < k.gridDim.x.toNat ∧ k.nextCta.y.toNat < k.gridDim.y.toNat ∧
    k.nextCta.z.toNat < k.gridDim.z.toNat)
  omega

/-- The loop of `ptx_sim_init_thread` that makes the threads of a CTA. -/
def threadLoop (k : KernelIteration) : List (UDim3 × UDim3) × KernelIteration :=
  if _h : k.moreThreadsInCta then
    let rest := threadLoop k.incrementThreadId
    ((k.nextCta, k.nextTid) :: rest.1, rest.2)
  else ([], k)
termination_by k.blockDim.volume - k.nextTid.rank k.blockDim
decreasing_by
  have hgrid := moreThreadsInCta_iff.mp _h
  have hlt := UDim3.rank_lt_volume hgrid
  have hnext := UDim3.rank_increment hgrid
  change k.blockDim.volume - UDim3.rank (k.nextTid.incrementXThenYThenZ k.blockDim) k.blockDim < _
  omega

theorem threadLoop_snd (k : KernelIteration) :
    (threadLoop k).2.nextCta = k.nextCta ∧ (threadLoop k).2.gridDim = k.gridDim ∧
      (threadLoop k).2.blockDim = k.blockDim := by
  fun_induction threadLoop k with
  | case1 k _ _ ih => exact ih
  | case2 k _ => exact ⟨rfl, rfl, rfl⟩

/-- A kernel runs CTA by CTA. -/
def ctaLoop (k : KernelIteration) : List (UDim3 × UDim3) :=
  if _h : k.noMoreCtasToRun then []
  else (threadLoop k).1 ++ ctaLoop (threadLoop k).2.incrementCtaId
termination_by k.gridDim.volume - k.nextCta.rank k.gridDim
decreasing_by
  have hgrid : k.nextCta.InGrid k.gridDim := not_not.mp (mt noMoreCtasToRun_iff.mpr _h)
  have hlt := UDim3.rank_lt_volume hgrid
  have hnext := UDim3.rank_increment hgrid
  obtain ⟨hcta, hdim, -⟩ := threadLoop_snd k
  change UDim3.volume (threadLoop k).2.gridDim
    - UDim3.rank ((threadLoop k).2.nextCta.incrementXThenYThenZ (threadLoop k).2.gridDim)
      (threadLoop k).2.gridDim < _
  rw [hcta, hdim]
  omega

end KernelIteration

/-- The triple after a number of steps. -/
def UDim3.nth (bound : UDim3) (i : ℕ) : UDim3 := (incrementXThenYThenZ · bound)^[i] ⟨0, 0, 0⟩

theorem UDim3.nth_succ (bound : UDim3) (i : ℕ) :
    bound.nth (i + 1) = (bound.nth i).incrementXThenYThenZ bound :=
  Function.iterate_succ_apply' _ _ _

/-- A block or a grid that is not empty. -/
structure UDim3.Positive (bound : UDim3) : Prop where
  x : 0 < bound.x
  y : 0 < bound.y
  z : 0 < bound.z

theorem UDim3.Positive.isAt_nth {bound : UDim3} (h : bound.Positive) (hi : i ≤ bound.volume) :
    (bound.nth i).IsAt bound i :=
  isAt_iterate h.x h.y h.z i hi

namespace KernelIteration

variable {k : KernelIteration}

theorem moreThreadsInCta_nth (hblock : k.blockDim.Positive) {j : ℕ} (hj : j ≤ k.blockDim.volume)
    (htid : k.nextTid = k.blockDim.nth j) : k.moreThreadsInCta = true ↔ j ≠ k.blockDim.volume := by
  rw [moreThreadsInCta_iff, htid]
  exact UDim3.inGrid_iff_of_isAt (hblock.isAt_nth hj)

theorem noMoreCtasToRun_nth (hgrid : k.gridDim.Positive) (hi : i ≤ k.gridDim.volume)
    (hcta : k.nextCta = k.gridDim.nth i) : k.noMoreCtasToRun = true ↔ i = k.gridDim.volume := by
  rw [noMoreCtasToRun_iff, hcta, UDim3.inGrid_iff_of_isAt (hgrid.isAt_nth hi), not_not]

theorem threadLoop_eq (hblock : k.blockDim.Positive) {j n : ℕ} (hj : j + n = k.blockDim.volume)
    (htid : k.nextTid = k.blockDim.nth j) :
    threadLoop k = ((List.range' j n).map fun j => (k.nextCta, k.blockDim.nth j),
      { k with nextTid := k.blockDim.nth k.blockDim.volume }) := by
  induction n generalizing k j with
  | zero =>
      have hend : j = k.blockDim.volume := hj
      have hmore := mt (moreThreadsInCta_nth hblock hend.le htid).mp (not_not.mpr hend)
      rw [threadLoop, dif_neg hmore, List.range'_zero, List.map_nil, ← hend, ← htid]
  | succ n ih =>
      have hmore := (moreThreadsInCta_nth hblock (by omega) htid).mpr (by omega)
      have hnext : k.incrementThreadId.nextTid = k.blockDim.nth (j + 1) := by
        rw [UDim3.nth_succ, ← htid]
        rfl
      have hrest : threadLoop k.incrementThreadId =
        ((List.range' (j + 1) n).map fun j => (k.nextCta, k.blockDim.nth j),
          { k with nextTid := k.blockDim.nth k.blockDim.volume }) :=
        ih (k := k.incrementThreadId) hblock (by rw [Nat.add_right_comm]; exact hj) hnext
      rw [threadLoop, dif_pos hmore, hrest, List.range'_succ, List.map_cons, ← htid]

theorem ctaLoop_eq (hgrid : k.gridDim.Positive) (hblock : k.blockDim.Positive) {i n : ℕ}
    (hi : i + n = k.gridDim.volume) (hcta : k.nextCta = k.gridDim.nth i)
    (htid : k.nextTid = ⟨0, 0, 0⟩) :
    ctaLoop k = (List.range' i n).flatMap fun i =>
      (List.range k.blockDim.volume).map fun j => (k.gridDim.nth i, k.blockDim.nth j) := by
  induction n generalizing k i with
  | zero =>
      have hmore := (noMoreCtasToRun_nth hgrid hi.le hcta).mpr hi
      rw [ctaLoop, dif_pos hmore, List.range'_zero, List.flatMap_nil]
  | succ n ih =>
      have hmore := mt (noMoreCtasToRun_nth hgrid (by omega) hcta).mp (by omega)
      have hthreads := threadLoop_eq hblock (Nat.zero_add _) htid
      have hrest : ctaLoop (threadLoop k).2.incrementCtaId =
        (List.range' (i + 1) n).flatMap fun i =>
          (List.range k.blockDim.volume).map fun j => (k.gridDim.nth i, k.blockDim.nth j) := by
        rw [hthreads]
        refine ih (k := incrementCtaId _) hgrid hblock (by rw [Nat.add_right_comm]; exact hi) ?_ rfl
        rw [UDim3.nth_succ]
        exact congrArg (UDim3.incrementXThenYThenZ · k.gridDim) hcta
      rw [ctaLoop, dif_neg hmore, hrest, hthreads, List.range'_succ, List.flatMap_cons,
        List.range_eq_range', hcta]

end KernelIteration

/-! ## The enumeration -/

/-- The visits of the loops over a kernel that has just been launched. -/
def visits (grid block : UDim3) : List (UDim3 × UDim3) :=
  KernelIteration.ctaLoop { gridDim := grid, blockDim := block }

/-- The kernel before its CTA and thread of some numbers. -/
def kernelAt (grid block : UDim3) (i j : ℕ) : KernelIteration :=
  KernelIteration.incrementThreadId^[j] (KernelIteration.incrementCtaId^[i]
    { gridDim := grid, blockDim := block })

/-- Every thread of every CTA is visited once, in linear order, the indices count, and the ends are
seen when they are there. -/
structure Enumerates (grid block : UDim3) : Prop where
  complete : ∀ cta tid, (cta, tid) ∈ visits grid block ↔ cta.InGrid grid ∧ tid.InGrid block
  once : (visits grid block).Nodup
  linear : (visits grid block).map (fun v => v.1.rank grid * block.volume + v.2.rank block)
    = List.range (grid.volume * block.volume)
  ctaIndex : grid.volume < 2 ^ 32 → ∀ i < grid.volume,
    (kernelAt grid block i 0).getNextCtaIdSingle.toNat = i
  noMoreCtas : ∀ i ≤ grid.volume, (kernelAt grid block i 0).noMoreCtasToRun = true ↔ i = grid.volume
  threadIndex : block.volume < 2 ^ 32 → ∀ i < grid.volume, ∀ j < block.volume,
    (kernelAt grid block i j).getNextThreadId.toNat = j
  moreThreads : ∀ i < grid.volume, ∀ j ≤ block.volume,
    (kernelAt grid block i j).moreThreadsInCta = false ↔ j = block.volume

theorem kernelAt_eq (grid block : UDim3) (i j : ℕ) :
    kernelAt grid block i j =
      { gridDim := grid, blockDim := block, nextCta := grid.nth i, nextTid := block.nth j } := by
  have hctas : KernelIteration.incrementCtaId^[i] { gridDim := grid, blockDim := block } =
      { gridDim := grid, blockDim := block, nextCta := grid.nth i } := by
    induction i with
    | zero => rfl
    | succ i ih =>
        rw [Function.iterate_succ_apply', ih, UDim3.nth_succ]
        rfl
  rw [kernelAt, hctas]
  induction j with
  | zero => rfl
  | succ j ih =>
      rw [Function.iterate_succ_apply', ih, UDim3.nth_succ]
      rfl

theorem range_mul (m n : ℕ) :
    ((List.range m).flatMap fun i => (List.range n).map fun j => i * n + j) =
    List.range (m * n) := by
  induction m with
  | zero => rw [Nat.zero_mul]; rfl
  | succ m ih =>
      rw [List.range_succ, List.flatMap_append, ih, Nat.succ_mul, List.range_add,
        List.flatMap_singleton]

variable {grid block : UDim3}

theorem rank_nth {bound : UDim3} (h : bound.Positive) (hi : i < bound.volume) :
    (bound.nth i).InGrid bound ∧ (bound.nth i).rank bound = i :=
  ((h.isAt_nth hi.le).resolve_right fun hend => hi.ne hend.1).2

theorem eq_nth {bound c : UDim3} (h : bound.Positive) (hc : c.InGrid bound) :
    c = bound.nth (c.rank bound) := by
  obtain ⟨hgrid, hrank⟩ := rank_nth h (UDim3.rank_lt_volume hc)
  exact UDim3.rank_inj hc hgrid hrank.symm

theorem visits_eq (hgrid : grid.Positive) (hblock : block.Positive) :
    visits grid block = (List.range grid.volume).flatMap fun i =>
      (List.range block.volume).map fun j => (grid.nth i, block.nth j) := by
  have hloop :=
    KernelIteration.ctaLoop_eq (k := { gridDim := grid, blockDim := block }) hgrid hblock
    (Nat.zero_add _)
    rfl rfl
  rw [← List.range_eq_range'] at hloop
  exact hloop

theorem linear_visits (hgrid : grid.Positive) (hblock : block.Positive) :
    (visits grid block).map (fun v => v.1.rank grid * block.volume + v.2.rank block)
      = List.range (grid.volume * block.volume) := by
  rw [visits_eq hgrid hblock, List.map_flatMap, ← range_mul]
  refine List.flatMap_congr fun i hi => ?_
  rw [List.map_map]
  refine List.map_congr_left fun j hj => ?_
  change (grid.nth i).rank grid * _ + (block.nth j).rank block = _
  rw [(rank_nth hgrid (List.mem_range.mp hi)).2, (rank_nth hblock (List.mem_range.mp hj)).2]

/-- A kernel's threads are enumerated, whatever the dimensions are. -/
theorem enumerates (hgrid : grid.Positive) (hblock : block.Positive) : Enumerates grid block where
  complete cta tid := by
    rw [visits_eq hgrid hblock, List.mem_flatMap]
    constructor
    · rintro ⟨i, hi, hmem⟩
      obtain ⟨j, hj, heq⟩ := List.mem_map.mp hmem
      obtain ⟨hcta, htid⟩ := Prod.mk.inj heq
      rw [← hcta, ← htid]
      exact ⟨(rank_nth hgrid (List.mem_range.mp hi)).1, (rank_nth hblock (List.mem_range.mp hj)).1⟩
    · rintro ⟨hcta, htid⟩
      refine ⟨cta.rank grid, List.mem_range.mpr (UDim3.rank_lt_volume hcta), ?_⟩
      refine List.mem_map.mpr ⟨tid.rank block, List.mem_range.mpr (UDim3.rank_lt_volume htid), ?_⟩
      rw [← eq_nth hgrid hcta, ← eq_nth hblock htid]
  once := by
    have hnodup := List.nodup_range (n := grid.volume * block.volume)
    rw [← linear_visits hgrid hblock] at hnodup
    exact hnodup.of_map
  linear := linear_visits hgrid hblock
  ctaIndex hsmall i hi := by
    rw [kernelAt_eq]
    refine (UDim3.toNat_index _ _).trans ?_
    rw [(rank_nth hgrid hi).2]
    exact Nat.mod_eq_of_lt (hi.trans hsmall)
  noMoreCtas i hi := by
    rw [kernelAt_eq]
    exact KernelIteration.noMoreCtasToRun_nth hgrid hi rfl
  threadIndex hsmall i _ j hj := by
    rw [kernelAt_eq]
    refine (UDim3.toNat_index _ _).trans ?_
    rw [(rank_nth hblock hj).2]
    exact Nat.mod_eq_of_lt (hj.trans hsmall)
  moreThreads i _ j hj := by
    have hmore := KernelIteration.moreThreadsInCta_nth (k := kernelAt grid block i j) (j := j)
    rw [kernelAt_eq] at hmore ⊢
    rw [← Bool.not_eq_true, not_iff_comm]
    exact (hmore hblock hj rfl).symm

/-- The largest grid. -/
theorem enumerates_largest : Enumerates ⟨-1, -1, -1⟩ ⟨-1, 2, 1⟩ :=
  enumerates ⟨by decide, by decide, by decide⟩ ⟨by decide, by decide, by decide⟩

end GpuCalorie.CtaDispatch
