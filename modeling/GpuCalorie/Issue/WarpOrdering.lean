/-
# The order of the warps

A scheduler orders the warps it supervises in each cycle, and may take fewer than all of them:
`order_lrr` goes round from the warp after the last that issued, and `order_by_priority` takes the
first of the sorted warps. The greedy order puts the last warp that issued in front of these, and
leaves it out of them, if it is there.
-/

import GpuCalorie.Issue.TwoLevelScheduler
import GpuCalorie.Math.StrictWeakSort
import Mathlib.Data.Prod.Lex
import Mathlib.Order.RelClasses

namespace GpuCalorie.Issue

open GpuCalorie.Math

/-- `OrderingType` -/
inductive OrderingType
  | orderingGreedyThenPriorityFunc
  | orderedPriorityFuncOnly
  deriving DecidableEq, Repr

/-- What the priority function sees of a warp. -/
structure WarpPriority where
  doneExit : Bool
  waiting : Bool
  dynamicWarpId : ℕ

/-- What stops `order_by_priority`. -/
inductive OrderFailure
  /-- `num_warps_to_add <= input_list.size()` -/
  | tooManyToAdd
  /-- `*last_issued_from_input` at the end of the list -/
  | atEnd
  deriving DecidableEq, Repr

/-- `sort_warps_by_oldest_dynamic_id`. A warp is given by its address, which is zero for none. -/
def sortWarpsByOldestDynamicId (warp : ℕ → WarpPriority) (lhs rhs : ℕ) : Bool :=
  if rhs ≠ 0 ∧ lhs ≠ 0 then
    if (warp lhs).doneExit ∨ (warp lhs).waiting then false
    else if (warp rhs).doneExit ∨ (warp rhs).waiting then true
    else (warp lhs).dynamicWarpId < (warp rhs).dynamicWarpId
  else lhs < rhs

/-- `order_by_priority`, where `temp` is the list that the sort leaves. -/
def orderByPriority (input temp : List ℕ) (lastIssued numWarpsToAdd : ℕ) :
    OrderingType → Except OrderFailure (List ℕ)
  | .orderingGreedyThenPriorityFunc =>
    if numWarpsToAdd ≤ input.length then
      match input[lastIssued]? with
      | none => .error .atEnd
      | some greedyValue => .ok (greedyValue :: (temp.take numWarpsToAdd).filter (· ≠ greedyValue))
    else .error .tooManyToAdd
  | .orderedPriorityFuncOnly =>
    if numWarpsToAdd ≤ input.length then .ok (temp.take numWarpsToAdd) else .error .tooManyToAdd

/-! ## The priority function -/

/-- The order of the warps by age, as a relation. -/
def Older (warp : ℕ → WarpPriority) (lhs rhs : ℕ) : Prop :=
  sortWarpsByOldestDynamicId warp lhs rhs = true

instance (warp : ℕ → WarpPriority) : DecidableRel (Older warp) :=
  fun _ _ => inferInstanceAs (Decidable (_ = true))

/-- What the order compares: no warp comes first, then those that may issue by age, and those that
are done or wait come last. -/
def WarpPriority.rank (warp : ℕ → WarpPriority) (w : ℕ) : ℕ ×ₗ ℕ :=
  if w = 0 then toLex (0, 0)
  else if (warp w).doneExit ∨ (warp w).waiting then toLex (2, 0)
  else toLex (1, (warp w).dynamicWarpId)

variable {warp : ℕ → WarpPriority}

theorem older_iff {lhs rhs : ℕ} :
    Older warp lhs rhs ↔ WarpPriority.rank warp lhs < WarpPriority.rank warp rhs := by
  rw [Older, sortWarpsByOldestDynamicId, WarpPriority.rank, WarpPriority.rank]
  by_cases hlhs : lhs = 0 <;> by_cases hrhs : rhs = 0 <;>
    by_cases hleft : (warp lhs).doneExit ∨ (warp lhs).waiting <;>
    by_cases hright : (warp rhs).doneExit ∨ (warp rhs).waiting <;>
    simp [hlhs, hrhs, hleft, hright, Prod.Lex.toLex_lt_toLex] <;> omega

theorem older_eq : Older warp = Order.Preimage (WarpPriority.rank warp) (· < ·) :=
  funext fun _ => funext fun _ => propext older_iff

/-- `std::sort` may be called with the priority function. -/
instance isStrictWeakOrder_older : IsStrictWeakOrder ℕ (Older warp) := by
  have : IsStrictWeakOrder (ℕ ×ₗ ℕ) (· < ·) := isStrictWeakOrder_of_isOrderConnected
  rw [older_eq]
  infer_instance

/-! ## The orders -/

/-- As many warps as are asked for, each of them once. -/
structure Selects (warps : List ℕ) (k : ℕ) (result : List ℕ) : Prop where
  nodup : result.Nodup
  subset : result ⊆ warps
  length : result.length = k
  perm : k = warps.length → result.Perm warps

/-- `order_lrr` goes round from the warp after the last that issued, or from the first warp. -/
def RoundRobin (warps : List ℕ) (lastIssued k : ℕ) (result : List ℕ) : Prop :=
  ∀ i < k, result[i]? =
    warps[((if lastIssued = warps.length then 0 else lastIssued + 1) + i) % warps.length]?

/-- Some of the warps that are taken are in the order of priority, and come before what is left. -/
structure ByPriority (warp : ℕ → WarpPriority) (warps result rest : List ℕ) : Prop where
  sorted : rest.Pairwise fun v w => ¬ Older warp w v
  best : ∀ w ∈ warps, w ∉ result → ∀ v ∈ rest, ¬ Older warp w v

/-- The orders that the schedulers ask for. -/
inductive WarpOrder
  | lrr
  | priority (ordering : OrderingType)
  deriving DecidableEq, Repr

/-- Whatever the sort leaves, the warps are taken in the order that is asked for. -/
def WellOrdered (warp : ℕ → WarpPriority) (warps : List ℕ) (lastIssued k : ℕ) : WarpOrder → Prop
  | .lrr => ∃ result, orderLrr warps lastIssued k = .ok result ∧ Selects warps k result ∧
      RoundRobin warps lastIssued k result
  | .priority .orderedPriorityFuncOnly => ∀ temp, Sorts (Older warp) warps temp →
      ∃ result, orderByPriority warps temp lastIssued k .orderedPriorityFuncOnly = .ok result ∧
        Selects warps k result ∧ ByPriority warp warps result result
  | .priority .orderingGreedyThenPriorityFunc => ∀ temp, Sorts (Older warp) warps temp →
      ∃ greedyValue rest, warps[lastIssued]? = some greedyValue ∧
        orderByPriority warps temp lastIssued k .orderingGreedyThenPriorityFunc =
          .ok (greedyValue :: rest) ∧
        Selects warps k (greedyValue :: rest) ∧ ByPriority warp warps (greedyValue :: rest) rest

variable {warps temp : List ℕ} {lastIssued k greedyValue : ℕ}

theorem selects_of_subperm {result : List ℕ} (hnodup : warps.Nodup) (hsub : result.Subperm warps)
    (hlength : result.length = k) : Selects warps k result where
  nodup := by
    obtain ⟨taken, hperm, hsublist⟩ := hsub
    exact hperm.nodup_iff.1 (hnodup.sublist hsublist)
  subset := hsub.subset
  length := hlength
  perm hk := hsub.perm_of_length_le (hk.symm.trans hlength.symm).le

theorem wellOrdered_lrr (hnodup : warps.Nodup) (hlast : lastIssued ≤ warps.length)
    (hk : k ≤ warps.length) : WellOrdered warp warps lastIssued k .lrr := by
  generalize hstart : (if lastIssued = warps.length then 0 else lastIssued + 1) = start
  have hle : start ≤ warps.length := by
    rw [← hstart]
    split_ifs with hend
    · exact Nat.zero_le _
    · omega
  refine ⟨(warps.rotate start).take k, ?_, ?_, ?_⟩
  · rw [orderLrr, if_pos hk, hstart, TwoLevelScheduler.orderLrrLoop_eq hk hle]
  · refine selects_of_subperm hnodup ?_ ?_
    · exact (List.take_sublist _ _).subperm.trans (List.rotate_perm warps start).subperm
    · rw [List.length_take, List.length_rotate, Nat.min_eq_left hk]
  · intro i hi
    rw [hstart, List.getElem?_take_of_lt hi, List.getElem?_rotate (lt_of_lt_of_le hi hk),
      Nat.add_comm]

theorem byPriority_take (hsorts : Sorts (Older warp) warps temp) {result rest : List ℕ}
    (hrest : rest.Sublist (temp.take k)) (hresult : ∀ w ∈ temp.take k, w ∈ result) :
    ByPriority warp warps result rest where
  sorted := (hsorts.pairwise_take k).sublist hrest
  best _ hw hleft _ hv :=
    hsorts.not_lt_of_take (hrest.subset hv) hw fun hmem => hleft (hresult _ hmem)

theorem wellOrdered_priority (hnodup : warps.Nodup) (hk : k ≤ warps.length) :
    WellOrdered warp warps lastIssued k (.priority .orderedPriorityFuncOnly) := by
  intro temp hsorts
  refine ⟨temp.take k, by rw [orderByPriority, if_pos hk], ?_, ?_⟩
  · refine selects_of_subperm hnodup ?_ ?_
    · exact (List.take_sublist _ _).subperm.trans hsorts.perm.subperm
    · rw [List.length_take, hsorts.perm.length_eq, Nat.min_eq_left hk]
  · exact byPriority_take hsorts (List.Sublist.refl _) fun _ hw => hw

/-! ## The greedy order -/

theorem orderByPriority_greedy (hgreedy : warps[lastIssued]? = some greedyValue)
    (hk : k ≤ warps.length) :
    orderByPriority warps temp lastIssued k .orderingGreedyThenPriorityFunc =
      .ok (greedyValue :: (temp.take k).filter (· ≠ greedyValue)) := by
  rw [orderByPriority, if_pos hk, hgreedy]

theorem perm_of_mem_take (htemp : temp.Nodup) (hmem : greedyValue ∈ temp.take k) :
    (greedyValue :: (temp.take k).filter (· ≠ greedyValue)).Perm (temp.take k) := by
  have hnodup := htemp.sublist (List.take_sublist k temp)
  have herase : (temp.take k).filter (· ≠ greedyValue) = (temp.take k).erase greedyValue := by
    rw [hnodup.erase_eq_filter]
    exact List.filter_congr fun w _ => by by_cases heq : w = greedyValue <;> simp [heq]
  rw [herase]
  exact (List.perm_cons_erase hmem).symm

theorem wellOrdered_greedy (hnodup : warps.Nodup) (hk : k ≤ warps.length)
    (hgreedy : warps[lastIssued]? = some greedyValue)
    (hcount : warps.countP (fun w => ¬ Older warp greedyValue w) ≤ k) :
    WellOrdered warp warps lastIssued k (.priority .orderingGreedyThenPriorityFunc) := by
  intro temp hsorts
  have htemp : temp.Nodup := hsorts.perm.nodup_iff.2 hnodup
  have hperm := perm_of_mem_take htemp (hsorts.mem_take (List.mem_of_getElem? hgreedy) hcount)
  refine ⟨greedyValue, _, hgreedy, orderByPriority_greedy hgreedy hk, ?_, ?_⟩
  · refine selects_of_subperm hnodup ?_ ?_
    · exact hperm.subperm.trans ((List.take_sublist _ _).subperm.trans hsorts.perm.subperm)
    · rw [hperm.length_eq, List.length_take, hsorts.perm.length_eq, Nat.min_eq_left hk]
  · exact byPriority_take hsorts List.filter_sublist fun w hw => hperm.mem_iff.2 hw

theorem length_of_notMem_take (hk : k ≤ temp.length) (hnot : greedyValue ∉ temp.take k) :
    (greedyValue :: (temp.take k).filter (· ≠ greedyValue)).length = k + 1 := by
  have hall : (temp.take k).filter (· ≠ greedyValue) = temp.take k := by
    refine List.filter_eq_self.2 fun w hw => ?_
    exact decide_eq_true fun heq => hnot (heq ▸ hw)
  rw [hall, List.length_cons, List.length_take, Nat.min_eq_left hk]

/-- The orders are right for every list of warps, but for the greedy one: it needs a warp that
issued last, and that all but as many warps as are taken are less urgent than this one. -/
theorem wellOrdered_iff (hnodup : warps.Nodup) (hlast : lastIssued ≤ warps.length)
    (hk : k ≤ warps.length) (order : WarpOrder) :
    IsStrictWeakOrder ℕ (Older warp) ∧ WellOrdered warp warps lastIssued k order ↔
      (order = .priority .orderingGreedyThenPriorityFunc →
        ∃ greedyValue, warps[lastIssued]? = some greedyValue ∧
          warps.countP (fun w => ¬ Older warp greedyValue w) ≤ k) := by
  constructor
  · rintro ⟨-, hwell⟩ rfl
    obtain ⟨temp, hsorts⟩ : ∃ temp, Sorts (Older warp) warps temp := Sorts.exists_sorts warps
    obtain ⟨greedyValue, -, hgreedy, -⟩ := hwell temp hsorts
    refine ⟨greedyValue, hgreedy, not_lt.1 fun hmany => ?_⟩
    obtain ⟨temp, hsorts, hnot⟩ :=
      Sorts.exists_notMem_take hnodup (List.mem_of_getElem? hgreedy) hmany
    obtain ⟨greedy', rest, hgreedy', hresult, hselects, -⟩ := hwell temp hsorts
    obtain rfl := Option.some.inj (hgreedy.symm.trans hgreedy')
    rw [orderByPriority_greedy hgreedy hk] at hresult
    have hlength := length_of_notMem_take (hk.trans_eq hsorts.perm.length_eq.symm) hnot
    rw [Except.ok.inj hresult, hselects.length] at hlength
    exact absurd hlength (Nat.lt_succ_self k).ne
  · intro h
    refine ⟨inferInstance, ?_⟩
    obtain _ | _ | _ := order
    · exact wellOrdered_lrr hnodup hlast hk
    · obtain ⟨greedyValue, hgreedy, hcount⟩ := h rfl
      exact wellOrdered_greedy hnodup hk hgreedy hcount
    · exact wellOrdered_priority hnodup hk

/-- The greedy order of four warps, the third of which issued last. -/
theorem wellOrdered_four : IsStrictWeakOrder ℕ (Older fun w => ⟨false, false, w⟩) ∧
    WellOrdered (fun w => ⟨false, false, w⟩) [1, 2, 3, 4] 2 4
      (.priority .orderingGreedyThenPriorityFunc) :=
  (wellOrdered_iff (by decide) (by decide) le_rfl _).2 fun _ => ⟨3, rfl, by decide⟩

/-- With a limit of one warp the greedy order takes the second warp and the oldest one. -/
theorem not_wellOrdered_limit :
    ¬ WellOrdered (fun w => ⟨false, false, w⟩) [1, 2] 1 1
      (.priority .orderingGreedyThenPriorityFunc) := by
  intro h
  have hsorts : Sorts (Older fun w => ⟨false, false, w⟩) [1, 2] [1, 2] := ⟨.rfl, by decide⟩
  obtain ⟨greedyValue, rest, hgreedy, hresult, hselects, -⟩ := h [1, 2] hsorts
  obtain rfl := Option.some.inj hgreedy
  obtain rfl : [1] = rest := List.tail_eq_of_cons_eq (Except.ok.inj hresult)
  exact absurd hselects.length (by decide)

end GpuCalorie.Issue
