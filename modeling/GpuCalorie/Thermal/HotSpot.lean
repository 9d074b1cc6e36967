/-
# Powers for the thermal model

`hotspot_wrapper::compute` keeps a running mean of the power of each block, at the place that the
block has in the floor plan, and has the temperatures computed from the means of twenty calls at a
time. `print_heatmap` is to give the averages over the whole run. It sums them up in one number,
from a vector that nothing is ever added to, and passes the address of this number for a vector of
all nodes.

Powers are rational numbers here, with exact arithmetic.
-/

import GpuCalorie.Math.Outcome
import Mathlib.Algebra.BigOperators.Field
import Mathlib.Algebra.BigOperators.Group.Finset.Basic
import Mathlib.Algebra.Field.Rat
import Mathlib.Data.List.FinRange
import Mathlib.Data.List.Nodup
import Mathlib.Logic.Equiv.Defs
import Mathlib.Tactic.FieldSimp
import Mathlib.Tactic.Ring

namespace GpuCalorie.Thermal

open Finset

/-! ## Floor plans -/

/-- The name of a block. -/
abbrev BlockName := List Char

/-- `flp_t`, by the names of its units. -/
structure Flp where
  units : List BlockName

/-- `n_units` -/
def Flp.nUnits (flp : Flp) : ℕ := flp.units.length

/-- `layer_t` -/
structure Layer where
  hasPower : Bool
  flp : Flp

/-- `RC_model_t`, of one of its two types. -/
inductive RcModel
  | block (flp : Flp)
  | grid (layers : List Layer) (modelSecondary : Bool)

/-- Where the wrapper aborts, or divides by zero. -/
inductive HotSpotFailure
  /-- `block %s not found` -/
  | blockNotFound
  | divideByZero
  deriving DecidableEq, Repr

/-- Two names are the same for `strcasecmp`. -/
def sameName (name name' : BlockName) : Bool := name.map Char.toLower = name'.map Char.toLower

/-- `get_blk_index` -/
def getBlkIndex (flp : Flp) (name : BlockName) : Except HotSpotFailure ℕ :=
  match flp.units.findIdx? (sameName name) with
  | some i => .ok i
  | none => .error .blockNotFound

/-- A value for each node, or for each slot. -/
abbrev Values := ℕ → ℚ

/-- The loop over the units of a floor plan whose nodes start at `base` and whose names start at
`count`. What is done to the power of a block depends on the slot of its name. -/
def forUnits (names : ℕ → BlockName) (change : ℕ → ℚ → ℚ) (flp : Flp) (base count : ℕ)
    (power : Values) : Except HotSpotFailure Values :=
  (List.range flp.nUnits).foldlM (fun power j => do
    let idx ← getBlkIndex flp (names (count + j))
    .ok (Function.update power (base + idx) (change (count + j) (power (base + idx))))) power

/-- The loop over the layers of the grid model. -/
def forLayers (names : ℕ → BlockName) (change : ℕ → ℚ → ℚ) :
    List Layer → ℕ → ℕ → Values → Except HotSpotFailure Values
  | [], _, _, power => .ok power
  | layer :: layers, base, count, power => do
    let power ←
      if layer.hasPower then forUnits names change layer.flp base count power else .ok power
    let count := if layer.hasPower then count + layer.flp.nUnits else count
    forLayers names change layers (base + layer.flp.nUnits) count power

/-- The loops of `compute` over the blocks. -/
def forBlocks (names : ℕ → BlockName) (change : ℕ → ℚ → ℚ) :
    RcModel → Values → Except HotSpotFailure Values
  | .block flp, power => forUnits names change flp 0 0 power
  | .grid layers _, power => forLayers names change layers 0 0 power

/-- `num_functional_blocks` -/
def RcModel.numFunctionalBlocks : RcModel → ℕ
  | .block flp => flp.nUnits
  | .grid layers _ => ((layers.filter (·.hasPower)).map (·.flp.nUnits)).sum

/-- `EXTRA` -/
def extra : ℕ := 12

/-- `EXTRA_SEC` -/
def extraSec : ℕ := 16

/-- `total_n_blocks` -/
def totalNBlocks (layers : List Layer) : ℕ := (layers.map (·.flp.nUnits)).sum

/-- The nodes that `hotspot_vector` has room for. -/
def RcModel.nNodes : RcModel → ℕ
  | .block flp => 4 * flp.nUnits + extra
  | .grid layers modelSecondary =>
    totalNBlocks layers + extra + if modelSecondary then extraSec else 0

/-! ## The wrapper -/

/-- What `init` sets up. -/
structure HotSpotConfig where
  model : RcModel
  names : ℕ → BlockName
  leakageUsed : Bool
  ambient : ℚ
  /-- `g_amb` -/
  gAmb : ℕ → ℚ

/-- The vectors of the wrapper and its counter. -/
structure HotSpotWrapper where
  vals : Values := fun _ => 0
  power : Values := fun _ => 0
  overallPower : Values := fun _ => 0
  numSamples : ℕ := 0

/-- `set_internal_power_block` and `set_internal_power_grid`, where the nodes of the package are. -/
def setInternalPower (cfg : HotSpotConfig) (power : Values) : Values :=
  match cfg.model with
  | .block flp => fun node =>
    if flp.nUnits ≤ node ∧ node < 3 * flp.nUnits then 0
    else if 3 * flp.nUnits ≤ node ∧ node < 4 * flp.nUnits + extra then
      cfg.ambient * cfg.gAmb (node - 3 * flp.nUnits)
    else power node
  | .grid layers _ => fun node =>
    if totalNBlocks layers ≤ node ∧ node < cfg.model.nNodes then 0 else power node

/-- The vector that `steady_state_temp` is given, as it leaves it. With leakage it works on a copy.
-/
def steadyStateTemp (cfg : HotSpotConfig) (power : Values) : Values :=
  if cfg.leakageUsed then power else setInternalPower cfg power

/-- `update_power` -/
def HotSpotWrapper.updatePower (cfg : HotSpotConfig) (powerStats : Values) (w : HotSpotWrapper) :
    HotSpotWrapper :=
  { w with vals := fun i => if i < cfg.model.numFunctionalBlocks then powerStats i else w.vals i }

/-- The next running mean: `+= (vals[i] - power) / (double)(num_samples+1)`. -/
def HotSpotWrapper.average (w : HotSpotWrapper) (slot : ℕ) (p : ℚ) : ℚ :=
  p + (w.vals slot - p) / (w.numSamples + 1 : ℕ)

/-- `compute`, with the vector that it passes to `steady_state_temp`, if it does. -/
def HotSpotWrapper.compute (cfg : HotSpotConfig) (powerStats : Values) (w : HotSpotWrapper) :
    Except HotSpotFailure (HotSpotWrapper × Option Values) := do
  let w := w.updatePower cfg powerStats
  let power ← forBlocks cfg.names w.average cfg.model w.power
  let numSamples := w.numSamples + 1
  if numSamples % 20 = 0 then
    let cleared ← forBlocks cfg.names (fun _ _ => 0) cfg.model (steadyStateTemp cfg power)
    .ok ({ w with power := cleared, numSamples := 0 }, some power)
  else .ok ({ w with power := power, numSamples := numSamples }, none)

/-- The wrapper after some calls of `compute`. -/
def computeRun (cfg : HotSpotConfig) (samples : ℕ → Values) :
    ℕ → Except HotSpotFailure HotSpotWrapper
  | 0 => .ok {}
  | k + 1 => do
    let w ← computeRun cfg samples k
    let (w, _) ← w.compute cfg (samples k)
    .ok w

/-! ## Where the blocks are -/

/-- The place of a block in a floor plan. -/
def unitIndex (flp : Flp) (name : BlockName) : ℕ := (flp.units.findIdx? (sameName name)).getD 0

/-- The slots of a floor plan's names, each with its node. -/
def unitTargets (names : ℕ → BlockName) (flp : Flp) (base count : ℕ) : List (ℕ × ℕ) :=
  (List.range flp.nUnits).map fun j => (count + j, base + unitIndex flp (names (count + j)))

/-- The slots of the layers' names. -/
def layerTargets (names : ℕ → BlockName) : List Layer → ℕ → ℕ → List (ℕ × ℕ)
  | [], _, _ => []
  | layer :: layers, base, count =>
    if layer.hasPower then
      unitTargets names layer.flp base count ++
        layerTargets names layers (base + layer.flp.nUnits) (count + layer.flp.nUnits)
    else layerTargets names layers (base + layer.flp.nUnits) count

/-- The slots of all functional blocks, each with its node. -/
def RcModel.targets (names : ℕ → BlockName) : RcModel → List (ℕ × ℕ)
  | .block flp => unitTargets names flp 0 0
  | .grid layers _ => layerTargets names layers 0 0

/-- The names from `count` on are those of the floor plan, in any order. -/
def Flp.Permuted (names : ℕ → BlockName) (flp : Flp) (count : ℕ) : Prop :=
  ∃ σ : Equiv.Perm (Fin flp.nUnits), ∀ j : Fin flp.nUnits,
    getBlkIndex flp (names (count + j)) = .ok (σ j).val

/-- The names are those of the layers with power, one layer behind another. -/
def LayersPermuted (names : ℕ → BlockName) : List Layer → ℕ → Prop
  | [], _ => True
  | layer :: layers, count =>
    if layer.hasPower then
      layer.flp.Permuted names count ∧ LayersPermuted names layers (count + layer.flp.nUnits)
    else LayersPermuted names layers count

/-- The names are those of the blocks. -/
def RcModel.Permuted (names : ℕ → BlockName) : RcModel → Prop
  | .block flp => flp.Permuted names 0
  | .grid layers _ => LayersPermuted names layers 0

variable {names : ℕ → BlockName} {change : ℕ → ℚ → ℚ} {flp : Flp} {layers : List Layer}
  {base count : ℕ} {power : Values} {t : ℕ × ℕ} {node : ℕ}

section

variable (h : flp.Permuted names count)
include h

theorem Flp.Permuted.getBlkIndex {j : ℕ} (hj : j < flp.nUnits) :
    getBlkIndex flp (names (count + j)) = .ok (unitIndex flp (names (count + j))) := by
  obtain ⟨σ, hσ⟩ := h
  have hindex := hσ ⟨j, hj⟩
  rw [Thermal.getBlkIndex] at hindex ⊢
  rw [unitIndex]
  cases hfind : flp.units.findIdx? (sameName (names (count + j))) with
  | none =>
    rw [hfind] at hindex
    cases hindex
  | some i => rfl

theorem Flp.Permuted.unitIndex_eq : ∃ σ : Equiv.Perm (Fin flp.nUnits), ∀ j : Fin flp.nUnits,
      unitIndex flp (names (count + j)) = (σ j).val := by
  obtain ⟨σ, hσ⟩ := h
  refine ⟨σ, fun j => ?_⟩
  have hindex := Flp.Permuted.getBlkIndex ⟨σ, hσ⟩ j.isLt
  exact Except.ok.inj (hindex.symm.trans (hσ j))

omit h in
theorem map_fst_unitTargets :
    (unitTargets names flp base count).map Prod.fst = List.range' count flp.nUnits := by
  rw [unitTargets, List.map_map, List.range'_eq_map_range]
  rfl

theorem mem_unitTargets
    (ht : t ∈ unitTargets names flp base count) : base ≤ t.2 ∧ t.2 < base + flp.nUnits := by
  obtain ⟨j, hj, rfl⟩ := List.mem_map.1 ht
  obtain ⟨σ, hσ⟩ := h.unitIndex_eq
  have hindex := hσ ⟨j, List.mem_range.1 hj⟩
  have hlt := (σ ⟨j, List.mem_range.1 hj⟩).isLt
  refine ⟨Nat.le_add_right _ _, Nat.add_lt_add_left ?_ base⟩
  rwa [← hindex] at hlt

theorem nodup_unitTargets : ((unitTargets names flp base count).map Prod.snd).Nodup := by
  rw [unitTargets, List.map_map]
  refine List.Nodup.map_on ?_ List.nodup_range
  intro i hi j hj heq
  obtain ⟨σ, hσ⟩ := h.unitIndex_eq
  have hi' := hσ ⟨i, List.mem_range.1 hi⟩
  have hj' := hσ ⟨j, List.mem_range.1 hj⟩
  have hsame : unitIndex flp (names (count + i)) = unitIndex flp (names (count + j)) :=
    Nat.add_left_cancel heq
  have hσeq := σ.injective (Fin.ext (hi'.symm.trans (hsame.trans hj')))
  exact congrArg Fin.val hσeq

end

theorem mem_layerTargets (h : LayersPermuted names layers count)
    (ht : t ∈ layerTargets names layers base count) : base ≤ t.2 := by
  induction layers generalizing base count with
  | nil => exact absurd ht List.not_mem_nil
  | cons layer layers ih =>
    rw [layerTargets] at ht
    rw [LayersPermuted] at h
    split_ifs at ht h
    · obtain ht | ht := List.mem_append.1 ht
      · exact (mem_unitTargets h.1 ht).1
      · exact (Nat.le_add_right _ _).trans (ih h.2 ht)
    · exact (Nat.le_add_right _ _).trans (ih h ht)

theorem nodup_layerTargets (h : LayersPermuted names layers count) :
    ((layerTargets names layers base count).map Prod.snd).Nodup := by
  induction layers generalizing base count with
  | nil => exact List.nodup_nil
  | cons layer layers ih =>
    rw [layerTargets]
    rw [LayersPermuted] at h
    split_ifs at h ⊢
    · rw [List.map_append]
      refine (nodup_unitTargets h.1).append (ih h.2) fun node hhere hlater => ?_
      obtain ⟨t, ht, rfl⟩ := List.mem_map.1 hhere
      obtain ⟨t', ht', heq⟩ := List.mem_map.1 hlater
      have hlt := (mem_unitTargets h.1 ht).2
      have hle := mem_layerTargets h.2 ht'
      omega
    · exact ih h

theorem map_fst_layerTargets : (layerTargets names layers base count).map Prod.fst =
    List.range' count ((layers.filter (·.hasPower)).map (·.flp.nUnits)).sum := by
  induction layers generalizing base count with
  | nil => rfl
  | cons layer layers ih =>
    rw [layerTargets]
    by_cases hpower : layer.hasPower = true
    · rw [if_pos hpower, List.map_append, map_fst_unitTargets, ih, List.filter_cons_of_pos hpower,
        List.map_cons, List.sum_cons, ← List.range'_append_1]
    · rw [if_neg hpower, ih, List.filter_cons_of_neg hpower]

namespace RcModel

variable {model : RcModel}

theorem nodup_targets (h : model.Permuted names) : ((model.targets names).map Prod.snd).Nodup := by
  cases model with
  | block flp => exact nodup_unitTargets h
  | grid layers modelSecondary => exact nodup_layerTargets h

theorem map_fst_targets (names : ℕ → BlockName) (model : RcModel) :
    (model.targets names).map Prod.fst = List.range model.numFunctionalBlocks := by
  cases model with
  | block flp => exact map_fst_unitTargets.trans List.range_eq_range'.symm
  | grid layers modelSecondary => exact map_fst_layerTargets.trans List.range_eq_range'.symm

end RcModel

/-! ## The loops -/

/-- The changes of the loops, one after another. -/
def applyAll (change : ℕ → ℚ → ℚ) (targets : List (ℕ × ℕ)) (power : Values) : Values :=
  targets.foldl (fun power t => Function.update power t.2 (change t.1 (power t.2))) power

theorem applyAll_append (targets targets' : List (ℕ × ℕ)) :
    applyAll change (targets ++ targets') power =
      applyAll change targets' (applyAll change targets power) :=
  List.foldl_append

theorem applyAll_of_notMem {targets : List (ℕ × ℕ)}
    (hnode : node ∉ targets.map Prod.snd) : applyAll change targets power node = power node := by
  induction targets generalizing power with
  | nil => rfl
  | cons t targets ih =>
    rw [List.map_cons, List.mem_cons, not_or] at hnode
    exact (ih hnode.2).trans (Function.update_of_ne hnode.1 _ _)

theorem applyAll_of_mem (change : ℕ → ℚ → ℚ) (power : Values) {targets : List (ℕ × ℕ)}
    (hnodup : (targets.map Prod.snd).Nodup) (ht : t ∈ targets) :
    applyAll change targets power t.2 = change t.1 (power t.2) := by
  induction targets generalizing power with
  | nil => exact absurd ht List.not_mem_nil
  | cons first targets ih =>
    rw [List.map_cons, List.nodup_cons] at hnodup
    obtain rfl | ht := List.mem_cons.1 ht
    · exact (applyAll_of_notMem hnodup.1).trans (Function.update_self ..)
    · have hne : t.2 ≠ first.2 := fun heq =>
        hnodup.1 (heq ▸ List.mem_map_of_mem (f := Prod.snd) ht)
      exact (ih _ hnodup.2 ht).trans (congrArg (change t.1) (Function.update_of_ne hne _ _))

theorem foldlM_unit (js : List ℕ) (h : ∀ j ∈ js, getBlkIndex flp (names (count + j)) =
      .ok (unitIndex flp (names (count + j)))) :
    js.foldlM (fun power j => do
        let idx ← getBlkIndex flp (names (count + j))
        .ok (Function.update power (base + idx) (change (count + j) (power (base + idx))))) power =
      .ok (applyAll change
        (js.map fun j => (count + j, base + unitIndex flp (names (count + j)))) power) := by
  induction js generalizing power with
  | nil => rfl
  | cons j js ih =>
    rw [List.foldlM_cons, h j (List.mem_cons_self ..)]
    exact ih fun i hi => h i (List.mem_cons_of_mem _ hi)

theorem forUnits_eq (h : flp.Permuted names count) :
    forUnits names change flp base count power =
      .ok (applyAll change (unitTargets names flp base count) power) :=
  foldlM_unit _ fun _ hj => h.getBlkIndex (List.mem_range.1 hj)

theorem forLayers_eq (h : LayersPermuted names layers count) :
    forLayers names change layers base count power =
      .ok (applyAll change (layerTargets names layers base count) power) := by
  induction layers generalizing base count power with
  | nil => rfl
  | cons layer layers ih =>
    rw [forLayers, layerTargets]
    rw [LayersPermuted] at h
    split_ifs at h ⊢
    · rw [forUnits_eq h.1, applyAll_append]
      exact ih h.2
    · exact ih h

theorem forBlocks_eq (change : ℕ → ℚ → ℚ) (power : Values) {model : RcModel}
    (h : model.Permuted names) :
    forBlocks names change model power = .ok (applyAll change (model.targets names) power) := by
  cases model with
  | block flp => exact forUnits_eq h
  | grid layers modelSecondary => exact forLayers_eq h

/-! ## The means -/

/-- The mean of the last `n` values before call `k`. -/
def meanBefore (values : ℕ → ℚ) (k n : ℕ) : ℚ := (∑ j ∈ range n, values (k - n + j)) / n

theorem meanBefore_succ (values : ℕ → ℚ) {k n : ℕ} (hn : n ≤ k) :
    meanBefore values (k + 1) (n + 1) =
      meanBefore values k n + (values k - meanBefore values k n) / (n + 1 : ℕ) := by
  have hlast : values (k - n + n) = values k := by rw [Nat.sub_add_cancel hn]
  rw [meanBefore, meanBefore, Nat.add_sub_add_right, sum_range_succ, hlast]
  obtain rfl | hpos := Nat.eq_zero_or_pos n
  · simp
  · have hne : (n : ℚ) ≠ 0 := Nat.cast_ne_zero.2 hpos.ne'
    have hne' : (n : ℚ) + 1 ≠ 0 := by exact_mod_cast Nat.succ_ne_zero n
    push_cast
    field_simp
    ring

/-- The nodes of blocks; those behind them are of the package. -/
def RcModel.blockNodes : RcModel → ℕ
  | .block flp => flp.nUnits
  | .grid layers _ => totalNBlocks layers

/-- The nodes of the functional blocks. -/
def HotSpotConfig.nodes (cfg : HotSpotConfig) : List ℕ :=
  (cfg.model.targets cfg.names).map Prod.snd

/-- What a call of `compute` does, after `k` calls: at every twentieth it passes the means of the
last twenty values of each slot, at the node of the slot, and starts again from zero. Nodes of
blocks without a slot stay as they are. -/
structure KeepsMeans (cfg : HotSpotConfig) (samples : ℕ → Values) (k : ℕ) (w w' : HotSpotWrapper)
    (passed : Option Values) : Prop where
  slots : ∀ slot < cfg.model.numFunctionalBlocks,
    ∃ node, (slot, node) ∈ cfg.model.targets cfg.names
  passes : passed ≠ none ↔ 20 ∣ k + 1
  means : ∀ power, passed = some power → ∀ slot node,
    (slot, node) ∈ cfg.model.targets cfg.names →
      power node = (∑ j ∈ range 20, samples (k + 1 - 20 + j) slot) / 20
  others : ∀ power, passed = some power → ∀ node ∉ cfg.nodes, power node = w.power node
  kept : ∀ node ∉ cfg.nodes, node < cfg.model.blockNodes → w'.power node = w.power node
  cleared : passed ≠ none → w'.numSamples = 0 ∧ ∀ node ∈ cfg.nodes, w'.power node = 0

variable {cfg : HotSpotConfig} {samples : ℕ → Values} {k : ℕ} {w : HotSpotWrapper}

theorem steadyStateTemp_of_lt (hnode : node < cfg.model.blockNodes) :
    steadyStateTemp cfg power node = power node := by
  rw [steadyStateTemp]
  split_ifs
  · rfl
  · rw [setInternalPower]
    cases hmodel : cfg.model with
    | block flp =>
      rw [hmodel] at hnode
      have hlt : node < flp.nUnits := hnode
      dsimp only
      rw [if_neg (by omega), if_neg (by omega)]
    | grid layers modelSecondary =>
      rw [hmodel] at hnode
      have hlt : node < totalNBlocks layers := hnode
      dsimp only
      rw [if_neg (by omega)]

/-- After `k` calls there is the mean of as many values as there were since the last that passed
the means on. -/
structure MeansOf (cfg : HotSpotConfig) (samples : ℕ → Values) (k : ℕ) (w : HotSpotWrapper) :
    Prop where
  numSamples : w.numSamples = k % 20
  power : ∀ slot node, (slot, node) ∈ cfg.model.targets cfg.names →
    w.power node = meanBefore (fun j => samples j slot) k (k % 20)

theorem meansOf_init : MeansOf cfg samples 0 {} where
  numSamples := rfl
  power slot node _ := by
    rw [meanBefore, Nat.zero_mod, range_zero, sum_empty, zero_div]

/-- The powers after the update of a call. -/
def HotSpotWrapper.updatedPower (cfg : HotSpotConfig) (powerStats : Values) (w : HotSpotWrapper) :
    Values :=
  applyAll (w.updatePower cfg powerStats).average (cfg.model.targets cfg.names) w.power

theorem compute_eq (powerStats : Values) (w : HotSpotWrapper)
    (hperm : cfg.model.Permuted cfg.names) :
    w.compute cfg powerStats =
      if (w.numSamples + 1) % 20 = 0 then
        .ok ({ w.updatePower cfg powerStats with
          power := applyAll (fun _ _ => 0) (cfg.model.targets cfg.names)
            (steadyStateTemp cfg (w.updatedPower cfg powerStats))
          numSamples := 0 }, some (w.updatedPower cfg powerStats))
      else
        .ok ({ w.updatePower cfg powerStats with
          power := w.updatedPower cfg powerStats
          numSamples := w.numSamples + 1 }, none) := by
  have hupdated := forBlocks_eq (w.updatePower cfg powerStats).average w.power hperm
  have hcleared := forBlocks_eq (fun _ _ => 0)
    (steadyStateTemp cfg (w.updatedPower cfg powerStats)) hperm
  rw [HotSpotWrapper.compute]
  dsimp only
  rw [show (w.updatePower cfg powerStats).power = w.power from rfl, hupdated]
  change (if (w.numSamples + 1) % 20 = 0 then _ else _) = _
  split_ifs
  · change (forBlocks cfg.names (fun _ _ => 0) cfg.model
      (steadyStateTemp cfg (w.updatedPower cfg powerStats)) >>= _) = _
    rw [hcleared]
    rfl
  · rfl

theorem updatedPower_of_notMem {powerStats : Values} (hnode : node ∉ cfg.nodes) :
    w.updatedPower cfg powerStats node = w.power node :=
  applyAll_of_notMem hnode

theorem MeansOf.updatedPower (h : MeansOf cfg samples k w)
    (hperm : cfg.model.Permuted cfg.names) {slot node : ℕ}
    (ht : (slot, node) ∈ cfg.model.targets cfg.names) :
    w.updatedPower cfg (samples k) node =
      meanBefore (fun j => samples j slot) (k + 1) (k % 20 + 1) := by
  have hvals : (w.updatePower cfg (samples k)).vals slot = samples k slot := by
    have hmem : slot ∈ (cfg.model.targets cfg.names).map Prod.fst := List.mem_map_of_mem ht
    rw [RcModel.map_fst_targets, List.mem_range] at hmem
    exact if_pos hmem
  have hnumSamples : (w.updatePower cfg (samples k)).numSamples = k % 20 := h.numSamples
  have hchange : w.updatedPower cfg (samples k) node =
      (w.updatePower cfg (samples k)).average slot (w.power node) :=
    applyAll_of_mem _ _ (RcModel.nodup_targets hperm) ht
  rw [meanBefore_succ _ (Nat.mod_le k 20), ← h.power slot node ht, hchange,
    HotSpotWrapper.average, hvals, hnumSamples]

theorem HotSpotConfig.exists_node (cfg : HotSpotConfig) {slot : ℕ}
    (hslot : slot < cfg.model.numFunctionalBlocks) :
    ∃ node, (slot, node) ∈ cfg.model.targets cfg.names := by
  have hmem := List.mem_range.2 hslot
  rw [← RcModel.map_fst_targets cfg.names] at hmem
  obtain ⟨⟨slot', node⟩, ht, rfl⟩ := List.mem_map.1 hmem
  exact ⟨node, ht⟩

theorem MeansOf.compute (h : MeansOf cfg samples k w) (hperm : cfg.model.Permuted cfg.names) :
    ∃ w' passed, w.compute cfg (samples k) = .ok (w', passed) ∧ MeansOf cfg samples (k + 1) w' ∧
      KeepsMeans cfg samples k w w' passed := by
  rw [compute_eq _ _ hperm, h.numSamples]
  by_cases hlast : (k % 20 + 1) % 20 = 0
  · rw [if_pos hlast]
    have hzero : ∀ node ∈ cfg.nodes, applyAll (fun _ _ => 0) (cfg.model.targets cfg.names)
        (steadyStateTemp cfg (w.updatedPower cfg (samples k))) node = 0 := by
      intro node hnode
      obtain ⟨t, ht, rfl⟩ := List.mem_map.1 hnode
      exact applyAll_of_mem _ _ (RcModel.nodup_targets hperm) ht
    have htwenty : k % 20 + 1 = 20 := by omega
    have hnext : (k + 1) % 20 = 0 := by omega
    refine ⟨_, _, rfl, ⟨hnext.symm, fun slot node ht => ?_⟩, fun _ => cfg.exists_node, ?_, ?_, ?_,
      ?_, fun _ => ⟨rfl, hzero⟩⟩
    · rw [hnext, meanBefore, range_zero, sum_empty, zero_div]
      exact hzero node (List.mem_map_of_mem ht)
    · exact ⟨fun _ => Nat.dvd_of_mod_eq_zero hnext, fun _ => Option.some_ne_none _⟩
    · rintro power heq slot node ht
      obtain rfl := Option.some.inj heq
      rw [h.updatedPower hperm ht, htwenty, meanBefore]
      rfl
    · rintro power heq node hnode
      obtain rfl := Option.some.inj heq
      exact updatedPower_of_notMem hnode
    · intro node hnode hlt
      have hkept : applyAll (fun _ _ => 0) (cfg.model.targets cfg.names)
          (steadyStateTemp cfg (w.updatedPower cfg (samples k))) node = w.power node := by
        rw [applyAll_of_notMem hnode, steadyStateTemp_of_lt hlt, updatedPower_of_notMem hnode]
      exact hkept
  · rw [if_neg hlast]
    have hnext : (k + 1) % 20 = k % 20 + 1 := by omega
    refine ⟨_, _, rfl, ⟨hnext.symm, fun slot node ht => ?_⟩, fun _ => cfg.exists_node, ?_, ?_, ?_,
      fun node hnode _ => updatedPower_of_notMem hnode, fun hne => absurd rfl hne⟩
    · rw [hnext]
      exact h.updatedPower hperm ht
    · exact ⟨fun hne => absurd rfl hne,
        fun hdvd => absurd (Nat.mod_eq_zero_of_dvd hdvd) (by omega)⟩
    · intro power heq
      cases heq
    · intro power heq
      cases heq

/-- Every call of `compute` passes and keeps the means as it is to do. -/
theorem computeRun_keepsMeans (hperm : cfg.model.Permuted cfg.names) (samples : ℕ → Values)
    (k : ℕ) : ∃ w w' passed, computeRun cfg samples k = .ok w ∧
      w.compute cfg (samples k) = .ok (w', passed) ∧ KeepsMeans cfg samples k w w' passed := by
  have hmeans : ∀ k, ∃ w, computeRun cfg samples k = .ok w ∧ MeansOf cfg samples k w := by
    intro k
    induction k with
    | zero => exact ⟨{}, rfl, meansOf_init⟩
    | succ k ih =>
      obtain ⟨w, hrun, h⟩ := ih
      obtain ⟨w', passed, hcompute, hnext, -⟩ := h.compute hperm
      refine ⟨w', ?_, hnext⟩
      rw [computeRun, hrun]
      change (w.compute cfg (samples k) >>= _) = _
      rw [hcompute]
      rfl
  obtain ⟨w, hrun, h⟩ := hmeans k
  obtain ⟨w', passed, hcompute, -, hkeeps⟩ := h.compute hperm
  exact ⟨w, w', passed, hrun, hcompute, hkeeps⟩

/-- Two blocks, named in the other order. -/
def twoBlocks : HotSpotConfig where
  model := .block ⟨[['l', '2'], ['s', 'm']]⟩
  names slot := if slot = 0 then ['S', 'M'] else ['L', '2']
  leakageUsed := false
  ambient := 318
  gAmb _ := 0

theorem permuted_twoBlocks : twoBlocks.model.Permuted twoBlocks.names :=
  ⟨(Equiv.swap 0 1 : Equiv.Perm (Fin 2)), by decide⟩

theorem computeRun_twoBlocks : ∃ w w' passed, computeRun twoBlocks (fun k _ => k) 19 = .ok w ∧
    w.compute twoBlocks (fun _ => 19) = .ok (w', passed) ∧
      KeepsMeans twoBlocks (fun k _ => k) 19 w w' passed :=
  computeRun_keepsMeans permuted_twoBlocks (fun k _ => k) 19

/-! ## The heat map -/

/-- `avg_power += overall_power[i] / num_samples` -/
def HotSpotWrapper.addOverall (w : HotSpotWrapper) (avgPower : ℚ) (i : ℕ) :
    Except HotSpotFailure ℚ :=
  if w.numSamples = 0 then .error .divideByZero
  else .ok (avgPower + w.overallPower i / w.numSamples)

/-- The loops of `print_heatmap`. In the grid model they go by the layer. -/
def HotSpotWrapper.avgPower (w : HotSpotWrapper) : RcModel → Except HotSpotFailure ℚ
  | .block flp => (List.range flp.nUnits).foldlM w.addOverall 0
  | .grid layers _ => layers.zipIdx.foldlM (fun avgPower (layer, i) =>
      if layer.hasPower then
        (List.range layer.flp.nUnits).foldlM (fun avgPower _ => w.addOverall avgPower i) avgPower
      else .ok avgPower) 0

/-- `print_heatmap`, up to the vector that it passes to `steady_state_temp`: the address is that of
`avg_power`. -/
def HotSpotWrapper.printHeatmap (cfg : HotSpotConfig) (w : HotSpotWrapper) :
    Except HotSpotFailure (List ℚ) := do
  let avgPower ← w.avgPower cfg.model
  .ok [avgPower]

/-- After some calls of `compute`, the vector has an entry for each node, and for each block the
average power over the calls. -/
def HeatmapRight (cfg : HotSpotConfig) (samples : ℕ → Values) (k : ℕ) : Prop :=
  ∃ w power, computeRun cfg samples k = .ok w ∧ w.printHeatmap cfg = .ok power ∧
    power.length = cfg.model.nNodes ∧
      ∀ slot node, (slot, node) ∈ cfg.model.targets cfg.names →
        power[node]? = some ((∑ j ∈ range k, samples j slot) / k)

theorem length_printHeatmap {power : List ℚ} (h : w.printHeatmap cfg = .ok power) :
    power.length = 1 := by
  obtain ⟨avgPower, -, heq⟩ := Math.bind_eq_ok.1 h
  obtain rfl := Except.ok.inj heq
  rfl

theorem RcModel.one_lt_nNodes (model : RcModel) : 1 < model.nNodes := by
  have hextra : extra = 12 := rfl
  cases model with
  | block flp =>
    rw [nNodes]
    omega
  | grid layers modelSecondary =>
    rw [nNodes]
    omega

/-- Whatever the floor plan and the run, the vector is too short. -/
theorem not_heatmapRight (cfg : HotSpotConfig) (samples : ℕ → Values) (k : ℕ) :
    ¬ HeatmapRight cfg samples k := by
  rintro ⟨w, power, -, hpower, hlength, -⟩
  have hnodes := cfg.model.one_lt_nNodes
  rw [length_printHeatmap hpower] at hlength
  omega

/-- After one call in which each block has power, there is one zero for the twenty nodes. -/
theorem printHeatmap_twoBlocks : ∃ w, computeRun twoBlocks (fun _ _ => 1) 1 = .ok w ∧
    w.printHeatmap twoBlocks = .ok [0] ∧ twoBlocks.model.nNodes = 20 :=
  ⟨_, rfl, by decide +kernel, rfl⟩

end GpuCalorie.Thermal
