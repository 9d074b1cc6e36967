/-
# Sums of statistics

What the two operators of `cache_stats` make of a list of statistics. The whole counts and the
refusals are always the sums, in any order. The counts of the window are, after `operator+=`, what
the first object held and the sums of the whole counts, and after `operator+` nothing.
-/

import GpuCalorie.Cache.Statistics
import Mathlib.Data.Nat.ModEq

namespace GpuCalorie.Cache

/-! ## Summaries are additive -/

theorem foldl_add_add {α β : Type} [Add β] {f g h : β → α → β}
    (hstep : ∀ s t x, f (s + t) x = g s x + h t x)
    (l : List α) (s t : β) : l.foldl f (s + t) = l.foldl g s + l.foldl h t := by
  induction l generalizing s t with
  | nil => rfl
  | cons x rest ih => rw [List.foldl_cons, hstep, ih, List.foldl_cons, List.foldl_cons]

namespace CacheStats

variable {a b c : CacheStats}

theorem visit_add
    (h : ∀ type status, c.stats type status = a.stats type status + b.stats type status)
    (s t : CacheSubStats) (type : MemAccessType) (status : RequestStatus) :
    c.visit (s + t) type status = a.visit s type status + b.visit t type status := by
  simp only [visit, h]
  cases status <;> ext1 <;> first | rfl | exact add_add_add_comm _ _ _ _

theorem getSubStats_add
    (h : ∀ type status, c.stats type status = a.stats type status + b.stats type status)
    (hport : c.cachePortAvailableCycles = a.cachePortAvailableCycles + b.cachePortAvailableCycles)
    (hdata : c.cacheDataPortBusyCycles = a.cacheDataPortBusyCycles + b.cacheDataPortBusyCycles)
    (hfill : c.cacheFillPortBusyCycles = a.cacheFillPortBusyCycles + b.cacheFillPortBusyCycles) :
    c.getSubStats = a.getSubStats + b.getSubStats := by
  have hloops : c.visitAll ({} + {}) = a.visitAll {} + b.visitAll {} :=
    foldl_add_add (fun s t type => foldl_add_add (visit_add h · · type ·) _ s t) _ _ _
  have hzero : ({} + {} : CacheSubStats) = {} := rfl
  rw [hzero] at hloops
  simp only [getSubStats, hloops, hport, hdata, hfill]
  generalize a.visitAll {} = x
  generalize b.visitAll {} = y
  rfl

theorem visitPw_add
    (h : ∀ type status, c.statsPw type status = a.statsPw type status + b.statsPw type status)
    (s t : CacheSubStatsPw) (type : MemAccessType) (status : RequestStatus) :
    c.visitPw (s + t) type status = a.visitPw s type status + b.visitPw t type status := by
  simp only [visitPw, h, BitVec.setWidth_add _ _ (show 32 ≤ 64 by decide)]
  cases status <;> dsimp only <;> split_ifs <;> ext1 <;>
    first | rfl | exact add_add_add_comm _ _ _ _

theorem getSubStatsPw_add
    (h : ∀ type status, c.statsPw type status = a.statsPw type status + b.statsPw type status) :
    c.getSubStatsPw = a.getSubStatsPw + b.getSubStatsPw := by
  have hloops : MemAccessType.all.foldl (fun t type =>
    RequestStatus.all.foldl (c.visitPw · type ·) t) ({} + {})
      = MemAccessType.all.foldl (fun t type => RequestStatus.all.foldl (a.visitPw · type ·) t) {}
        + MemAccessType.all.foldl (fun t type => RequestStatus.all.foldl (b.visitPw · type ·) t)
          {} :=
    foldl_add_add (fun s t type => foldl_add_add (visitPw_add h · · type ·) _ s t) _ _ _
  have hzero : ({} + {} : CacheSubStatsPw) = {} := rfl
  rw [hzero] at hloops
  exact hloops

/-! ## The sum of a list -/

/-- The sums of the counters. -/
def total (parts : List CacheStats) : CacheStats where
  stats type status := (parts.map fun c => c.stats type status).sum
  statsPw type status := (parts.map fun c => c.statsPw type status).sum
  failStats type fail := (parts.map fun c => c.failStats type fail).sum
  cachePortAvailableCycles := (parts.map cachePortAvailableCycles).sum
  cacheDataPortBusyCycles := (parts.map cacheDataPortBusyCycles).sum
  cacheFillPortBusyCycles := (parts.map cacheFillPortBusyCycles).sum

theorem getSubStats_total (parts : List CacheStats) :
    (total parts).getSubStats = (parts.map getSubStats).sum := by
  induction parts with
  | nil => rfl
  | cons c rest ih =>
      rw [List.map_cons, List.sum_cons, ← ih]
      exact getSubStats_add (fun _ _ => List.sum_cons) List.sum_cons List.sum_cons List.sum_cons

theorem getSubStatsPw_total (parts : List CacheStats) :
    (total parts).getSubStatsPw = (parts.map getSubStatsPw).sum := by
  induction parts with
  | nil => rfl
  | cons c rest ih =>
      rw [List.map_cons, List.sum_cons, ← ih]
      exact getSubStatsPw_add fun _ _ => List.sum_cons

theorem total_perm {parts parts' : List CacheStats} (h : parts.Perm parts') :
    total parts = total parts' := by
  apply CacheStats.ext
  · exact funext fun type => funext fun status => (h.map _).sum_eq
  · exact funext fun type => funext fun status => (h.map _).sum_eq
  · exact funext fun type => funext fun fail => (h.map _).sum_eq
  · exact (h.map _).sum_eq
  · exact (h.map _).sum_eq
  · exact (h.map _).sum_eq

/-! ## The operators -/

theorem foldl_addAssign (start : CacheStats) (parts : List CacheStats) :
    parts.foldl addAssign start =
      { stats := fun type status => start.stats type status + (total parts).stats type status
        statsPw := fun type status => start.statsPw type status + (total parts).stats type status
        failStats := fun type fail => start.failStats type fail + (total parts).failStats type fail
        cachePortAvailableCycles :=
          start.cachePortAvailableCycles + (total parts).cachePortAvailableCycles
        cacheDataPortBusyCycles :=
          start.cacheDataPortBusyCycles + (total parts).cacheDataPortBusyCycles
        cacheFillPortBusyCycles :=
          start.cacheFillPortBusyCycles + (total parts).cacheFillPortBusyCycles } := by
  induction parts generalizing start with
  | nil =>
      have hzero (f : MemAccessType → RequestStatus → BitVec 64) : f = fun type status =>
        f type status + 0 :=
        funext fun type => funext fun status => (add_zero _).symm
      exact CacheStats.ext (hzero _) (hzero _)
        (funext fun type => funext fun fail => (add_zero _).symm)
        (add_zero _).symm (add_zero _).symm (add_zero _).symm
  | cons c rest ih =>
      rw [List.foldl_cons, ih]
      simp only [total, addAssign, read, List.map_cons, List.sum_cons, add_assoc]

theorem foldl_add (first : CacheStats) (rest : List CacheStats) :
    rest.foldl add first =
      { total (first :: rest) with statsPw := if rest = [] then first.statsPw else fun _ _ =>
        0 } := by
  induction rest generalizing first with
  | nil =>
      exact CacheStats.ext (funext fun type => funext fun status => (add_zero _).symm) rfl
        (funext fun type => funext fun fail => (add_zero _).symm) (add_zero _).symm
          (add_zero _).symm
        (add_zero _).symm
  | cons c rest ih =>
      rw [List.foldl_cons, ih, if_neg (List.cons_ne_nil c rest)]
      have hnone : (if rest = [] then (first.add c).statsPw else fun _ _ => 0) = fun _ _ => 0 :=
        ite_self _
      rw [hnone]
      simp only [total, add, read, List.map_cons, List.sum_cons, add_assoc]

theorem sumsUp_iff {parts : List CacheStats} {statsPw : MemAccessType → RequestStatus → BitVec 64} :
    SumsUp parts { total parts with statsPw := statsPw } ↔
      ∀ type status, statsPw type status = (total parts).statsPw type status := by
  constructor
  · exact fun h => h.statsPw
  · intro h
    have heq : statsPw = (total parts).statsPw := funext fun type => funext fun status =>
      h type status
    subst heq
    exact ⟨fun _ _ => rfl, fun _ _ => rfl, fun _ _ =>
      rfl, getSubStats_total parts, getSubStatsPw_total parts⟩

theorem sumsUp_addAssign_iff (start : CacheStats) {parts order : List CacheStats}
    (horder : order.Perm parts) :
    SumsUp parts (order.foldl addAssign start.clear) ↔
      ∀ type status, start.statsPw type status + (total parts).stats type status =
        (total parts).statsPw type status := by
  have heq : order.foldl addAssign start.clear =
      { total parts with
        statsPw := fun type status =>
          start.statsPw type status + (total parts).stats type status } := by
    rw [foldl_addAssign, total_perm horder]
    simp only [clear, zero_add]
  rw [heq, sumsUp_iff]

theorem sumsUp_add_iff {parts rest : List CacheStats} {first : CacheStats}
    (horder : (first :: rest).Perm parts) :
    SumsUp parts (rest.foldl add first) ↔
      parts.length = 1 ∨ ∀ type status, (total parts).statsPw type status = 0 := by
  rw [foldl_add, total_perm horder, sumsUp_iff, ← horder.length_eq]
  cases rest with
  | nil =>
      refine iff_of_true (fun type status => ?_) (.inl rfl)
      rw [if_pos rfl, ← total_perm horder]
      exact (add_zero _).symm
  | cons second rest =>
      rw [if_neg (List.cons_ne_nil second rest), or_iff_right (by simp)]
      exact forall_congr' fun type => forall_congr' fun status => eq_comm

/-! ## Counts of calls -/

theorem update_update_apply {α β : Type} [DecidableEq α] [DecidableEq β] (f : α → β → BitVec 64)
    (i x : α) (j y : β) :
    Function.update f i (Function.update (f i) j (f i j + 1)) x y = if i = x ∧
      j = y then f x y + 1 else f x y := by
  by_cases hx : i = x
  · subst hx
    rw [Function.update_self]
    by_cases hy : j = y
    · subst hy
      rw [Function.update_self, if_pos ⟨rfl, rfl⟩]
    · rw [Function.update_of_ne (Ne.symm hy), if_neg fun h => hy h.2]
  · rw [Function.update_of_ne (Ne.symm hx), if_neg fun h => hx h.1]

theorem stats_built (calls : List StatsCall) (type : MemAccessType) (status : RequestStatus) :
    (built calls).stats type status = .ofNat 64 (calls.count (.incStats type status)) := by
  induction calls with
  | nil => rfl
  | cons call earlier ih =>
      cases call with
      | incStats type' outcome =>
          refine (update_update_apply _ _ _ _ _).trans ?_
          rw [ih]
          split_ifs with hsame
          · rw [hsame.1, hsame.2, List.count_cons_self, BitVec.ofNat_add]
            rfl
          · rw [List.count_cons_of_ne fun h => hsame (StatsCall.incStats.inj h)]
      | incStatsPw type' outcome =>
          rw [List.count_cons_of_ne (by simp), ← ih]
          rfl
      | incFailStats type' fail =>
          rw [List.count_cons_of_ne (by simp), ← ih]
          rfl
      | clearPw =>
          rw [List.count_cons_of_ne (by simp), ← ih]
          rfl

theorem statsPw_built (calls : List StatsCall) (type : MemAccessType) (status : RequestStatus) :
    (built calls).statsPw type status = .ofNat 64
    ((sinceClearPw calls).count (.incStatsPw type status)) := by
  induction calls with
  | nil => rfl
  | cons call earlier ih =>
      have hsince (h : call ≠ .clearPw) : sinceClearPw (call :: earlier) =
          call :: sinceClearPw earlier :=
        List.takeWhile_cons_of_pos (decide_eq_true h)
      cases call with
      | incStats type' outcome =>
          rw [hsince (by simp), List.count_cons_of_ne (by simp), ← ih]
          rfl
      | incStatsPw type' outcome =>
          rw [hsince (by simp)]
          refine (update_update_apply _ _ _ _ _).trans ?_
          rw [ih]
          split_ifs with hsame
          · rw [hsame.1, hsame.2, List.count_cons_self, BitVec.ofNat_add]
            rfl
          · rw [List.count_cons_of_ne fun h => hsame (StatsCall.incStatsPw.inj h)]
      | incFailStats type' fail =>
          rw [hsince (by simp), List.count_cons_of_ne (by simp), ← ih]
          rfl
      | clearPw => rfl

end CacheStats

/-- How often a call is in lists of calls. -/
def callCount (histories : List (List StatsCall)) (call : StatsCall) : ℕ :=
  (histories.map fun calls => calls.count call).sum

namespace CacheStats

theorem sum_ofNat {α : Type} (l : List α) (f : α → ℕ) :
    (l.map fun x => BitVec.ofNat 64 (f x)).sum = .ofNat 64 (l.map f).sum := by
  induction l with
  | nil => rfl
  | cons x rest ih =>
      rw [List.map_cons, List.sum_cons, ih, List.map_cons, List.sum_cons, BitVec.ofNat_add]

theorem stats_total_built (histories : List (List StatsCall)) (type : MemAccessType)
    (status : RequestStatus) :
    (total (histories.map built)).stats type status =
    .ofNat 64 (callCount histories (.incStats type status)) := by
  rw [callCount, ← sum_ofNat]
  refine congrArg List.sum ((List.map_map ..).trans ?_)
  exact List.map_congr_left fun calls _ => stats_built calls type status

theorem statsPw_total_built (histories : List (List StatsCall)) (type : MemAccessType)
    (status : RequestStatus) :
    (total (histories.map built)).statsPw type status =
      .ofNat 64 (callCount (histories.map sinceClearPw) (.incStatsPw type status)) := by
  rw [callCount, List.map_map, ← sum_ofNat]
  refine congrArg List.sum ((List.map_map ..).trans ?_)
  exact List.map_congr_left fun calls _ => statsPw_built calls type status

theorem ofNat_eq_iff (a b : ℕ) : BitVec.ofNat 64 a = .ofNat 64 b ↔ a ≡ b [MOD 2 ^ 64] := by
  rw [← BitVec.toNat_inj, BitVec.toNat_ofNat, BitVec.toNat_ofNat]
  exact Iff.rfl

/-- When `operator+=` sums up, and when `operator+` does. -/
theorem accumulated_iff (start : CacheStats) (histories : List (List StatsCall)) :
    ((∀ order : List CacheStats, order.Perm (histories.map built) →
        SumsUp (histories.map built) (order.foldl addAssign start.clear)) ↔
      ∀ type status, (start.statsPw type status).toNat + callCount histories (.incStats type status)
        ≡ callCount (histories.map sinceClearPw) (.incStatsPw type status) [MOD 2 ^ 64]) ∧
    ((∀ first rest, (first :: rest).Perm (histories.map built) →
        SumsUp (histories.map built) (rest.foldl add first)) ↔
      histories.length ≤ 1 ∨
        ∀ type status, callCount (histories.map sinceClearPw) (.incStatsPw type status) ≡ 0
          [MOD 2 ^ 64]) := by
  constructor
  · have hcounts : (∀ type status, start.statsPw type status +
      (total (histories.map built)).stats type status
          = (total (histories.map built)).statsPw type status) ↔
        ∀ type status, (start.statsPw type status).toNat +
          callCount histories (.incStats type status)
          ≡ callCount (histories.map sinceClearPw) (.incStatsPw type status) [MOD 2 ^ 64] := by
      refine forall_congr' fun type => forall_congr' fun status => ?_
      rw [stats_total_built, statsPw_total_built, ← ofNat_eq_iff, BitVec.ofNat_add,
        BitVec.ofNat_toNat,
        BitVec.setWidth_eq]
    rw [← hcounts]
    constructor
    · exact fun h => (sumsUp_addAssign_iff start (.refl _)).mp (h _ (.refl _))
    · exact fun h order horder => (sumsUp_addAssign_iff start horder).mpr h
  · have hcounts : (∀ type status, (total (histories.map built)).statsPw type status = 0) ↔
        ∀ type status, callCount (histories.map sinceClearPw) (.incStatsPw type status) ≡ 0
          [MOD 2 ^ 64] := by
      refine forall_congr' fun type => forall_congr' fun status => ?_
      rw [statsPw_total_built, ← ofNat_eq_iff]
      exact Iff.rfl
    rw [← hcounts]
    cases histories with
    | nil =>
        exact iff_of_true (fun first rest h => absurd h.eq_nil (List.cons_ne_nil first rest))
          (.inl (Nat.zero_le 1))
    | cons calls others =>
        have hlength : (calls :: others).length ≤ 1 ↔ ((calls :: others).map built).length = 1 := by
          rw [List.length_map, List.length_cons]
          omega
        rw [hlength]
        constructor
        · exact fun h => (sumsUp_add_iff (.refl _)).mp (h _ _ (.refl _))
        · exact fun h first rest horder => (sumsUp_add_iff horder).mpr h

/-- A window that begins after the first access: `operator+=` puts the whole count into it. With
two caches `operator+` leaves the window out. -/
theorem not_sumsUp :
    ¬ SumsUp [built [.clearPw, .incStatsPw .globalAccR .hit, .incStats .globalAccR .hit]]
        ([built [.clearPw, .incStatsPw .globalAccR .hit, .incStats .globalAccR .hit]].foldl
          addAssign (clear {})) ∧
      ¬ SumsUp [built [.incStatsPw .globalAccR .hit], built [.incStatsPw .globalAccR .hit]]
        ([built [.incStatsPw .globalAccR .hit]].foldl add
          (built [.incStatsPw .globalAccR .hit])) := by
  constructor
  · exact fun h => absurd (h.statsPw .globalAccR .hit) (by decide)
  · exact fun h => absurd (h.statsPw .globalAccR .hit) (by decide)

end CacheStats

end GpuCalorie.Cache
