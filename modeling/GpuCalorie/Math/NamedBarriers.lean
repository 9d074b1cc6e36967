/-
# Named barriers

Participants in groups arrive at barriers with names. An arrival may wait, and asks for a number of
units, of which every participant counts for as many, or for all live members of its group. A
barrier is complete in a group when what one of the arrivals there asks for has arrived, and then
the group starts anew at it: nobody waits there any more.

After `settle` no barrier is complete, and nobody has left another one.
-/

import Mathlib.Data.Finset.Card
import Mathlib.Data.Finset.Filter

namespace GpuCalorie.Math

universe u v

/-- How a participant has arrived at a barrier. Without a count all live members are asked for. -/
structure Arrival where
  waits : Bool
  reduces : Bool
  count : Option ℕ
  deriving DecidableEq

/-- The live participants, and who has arrived at which barrier. -/
structure NamedBarriers (β : Type u) (ω : Type v) where
  live : Finset ω
  arrived : β → ω → Option Arrival

namespace NamedBarriers

variable {β : Type u} {ω : Type v} [DecidableEq ω] (s : NamedBarriers β ω) (weight : ℕ)
  (group : Finset ω) (b : β)

/-- The members of a group that have arrived at a barrier. -/
def arrivals : Finset ω :=
  group.filter fun w => (s.arrived b w).isSome

/-- What an arrival asks for. -/
def Met : Option ℕ → Prop
  | none => ∀ w ∈ group, w ∈ s.live → w ∈ s.arrivals group b
  | some n => n ≤ (s.arrivals group b).card * weight

instance : DecidablePred (s.Met weight group b)
  | none => inferInstanceAs (Decidable (∀ w ∈ group, w ∈ s.live → w ∈ s.arrivals group b))
  | some n => inferInstanceAs (Decidable (n ≤ (s.arrivals group b).card * weight))

/-- The completion condition of a barrier. -/
def Complete : Prop :=
  ∃ w ∈ group, ∃ x ∈ s.arrived b w, s.Met weight group b x.count

instance : Decidable (s.Complete weight group b) :=
  inferInstanceAs (Decidable (∃ w ∈ group, ∃ x ∈ s.arrived b w, s.Met weight group b x.count))

/-- Somebody takes part in a reduction. -/
def Reduces : Prop :=
  ∃ w ∈ group, ∃ x ∈ s.arrived b w, x.reduces = true

instance : Decidable (s.Reduces group b) :=
  inferInstanceAs (Decidable (∃ w ∈ group, ∃ x ∈ s.arrived b w, x.reduces = true))

/-- A participant waits at a barrier. -/
def WaitsAt (b : β) (w : ω) : Prop :=
  ∃ x ∈ s.arrived b w, x.waits = true

instance (w : ω) : Decidable (s.WaitsAt b w) :=
  inferInstanceAs (Decidable (∃ x ∈ s.arrived b w, x.waits = true))

/-- A participant waits. -/
def Waits (w : ω) : Prop :=
  ∃ b, s.WaitsAt b w

/-- A participant arrives at a barrier. -/
def arrive [DecidableEq β] (b : β) (w : ω) (x : Arrival) : NamedBarriers β ω :=
  { s with arrived := Function.update s.arrived b (Function.update (s.arrived b) w (some x)) }

/-- A participant leaves for good. Its arrivals stay. -/
def leave (w : ω) : NamedBarriers β ω :=
  { s with live := s.live.erase w }

/-- A group starts anew at some barriers. -/
def clear (P : β → Prop) [DecidablePred P] : NamedBarriers β ω :=
  { s with arrived := fun b w => if w ∈ group ∧ P b then none else s.arrived b w }

/-- Start anew at the barriers that are complete. -/
def settle : NamedBarriers β ω :=
  s.clear group (s.Complete weight group)

variable {s weight group b} {t : NamedBarriers β ω} {b' : β} {v w : ω} {x : Arrival} {n : ℕ}

omit [DecidableEq ω] in
theorem mem_arrivals : w ∈ s.arrivals group b ↔ w ∈ group ∧ ∃ x, s.arrived b w = some x := by
  rw [arrivals, Finset.mem_filter, Option.isSome_iff_exists]

/-! ## Groups that a change does not touch -/

omit [DecidableEq ω] in
theorem arrivals_congr (h : ∀ w ∈ group, s.arrived b w = t.arrived b w) :
    s.arrivals group b = t.arrivals group b := by
  ext w
  rw [mem_arrivals, mem_arrivals]
  exact and_congr_right fun hw => by rw [h w hw]

omit [DecidableEq ω] in
theorem complete_congr (h : ∀ w ∈ group, s.arrived b w = t.arrived b w)
    (hlive : ∀ w ∈ group, w ∈ s.live ↔ w ∈ t.live) :
    s.Complete weight group b ↔ t.Complete weight group b := by
  have hmet : ∀ count, s.Met weight group b count ↔ t.Met weight group b count := by
    intro count
    cases count with
    | none =>
        rw [Met, Met, arrivals_congr h]
        exact forall₂_congr fun w hw => by rw [hlive w hw]
    | some n => rw [Met, Met, arrivals_congr h]
  refine exists_congr fun w => and_congr_right fun hw => ?_
  rw [h w hw]
  exact exists_congr fun x => and_congr_right fun _ => hmet x.count

omit [DecidableEq ω] in
theorem waits_congr (h : ∀ b, s.arrived b w = t.arrived b w) : s.Waits w ↔ t.Waits w :=
  exists_congr fun b => by rw [WaitsAt, WaitsAt, h b]

omit [DecidableEq ω] in
theorem Complete.arrivals_nonempty (h : s.Complete weight group b) :
    (s.arrivals group b).Nonempty := by
  obtain ⟨w, hw, x, hx, -⟩ := h
  exact ⟨w, mem_arrivals.mpr ⟨hw, x, hx⟩⟩

/-! ## Arrivals -/

section Arrive

variable [DecidableEq β]

theorem arrive_arrived : (s.arrive b w x).arrived =
    Function.update s.arrived b (Function.update (s.arrived b) w (some x)) := rfl

theorem arrive_arrived_self : (s.arrive b w x).arrived b w = some x := by
  rw [arrive_arrived, Function.update_self, Function.update_self]

theorem arrive_arrived_of_barrier (h : b' ≠ b) :
    (s.arrive b w x).arrived b' v = s.arrived b' v := by
  rw [arrive_arrived, Function.update_of_ne h]

theorem arrive_arrived_of_member (h : v ≠ w) : (s.arrive b w x).arrived b' v = s.arrived b' v := by
  by_cases hb : b' = b
  · subst hb
    rw [arrive_arrived, Function.update_self, Function.update_of_ne h]
  · exact arrive_arrived_of_barrier hb

theorem isSome_arrive : ((s.arrive b w x).arrived b' v).isSome = true ↔
    b' = b ∧ v = w ∨ (s.arrived b' v).isSome = true := by
  by_cases hb : b' = b
  · by_cases hv : v = w
    · subst hb hv
      rw [arrive_arrived_self]
      simp
    · rw [arrive_arrived_of_member hv]
      simp [hv]
  · rw [arrive_arrived_of_barrier hb]
    simp [hb]

theorem waits_arrive_of_member (h : v ≠ w) : (s.arrive b w x).Waits v ↔ s.Waits v :=
  waits_congr fun _ => arrive_arrived_of_member h

theorem waits_arrive_self (h : ¬ s.Waits w) : (s.arrive b w x).Waits w ↔ x.waits = true := by
  constructor
  · rintro ⟨b', hwaits⟩
    by_cases hb : b' = b
    · subst hb
      rw [WaitsAt, arrive_arrived_self] at hwaits
      obtain ⟨y, hy, hwait⟩ := hwaits
      cases hy
      exact hwait
    · rw [WaitsAt, arrive_arrived_of_barrier hb] at hwaits
      exact absurd ⟨b', hwaits⟩ h
  · intro hwait
    refine ⟨b, x, ?_, hwait⟩
    exact arrive_arrived_self

theorem complete_arrive_of_barrier (h : b' ≠ b) :
    (s.arrive b w x).Complete weight group b' ↔ s.Complete weight group b' :=
  complete_congr (fun _ _ => arrive_arrived_of_barrier h) fun _ _ => Iff.rfl

theorem complete_arrive_of_group (h : w ∉ group) :
    (s.arrive b w x).Complete weight group b' ↔ s.Complete weight group b' := by
  refine complete_congr (fun v hv => arrive_arrived_of_member ?_) fun _ _ => Iff.rfl
  rintro rfl
  exact h hv

end Arrive

theorem complete_leave_of_group (h : w ∉ group) :
    (s.leave w).Complete weight group b ↔ s.Complete weight group b := by
  refine complete_congr (fun _ _ => rfl) fun v hv => ?_
  rw [leave, Finset.mem_erase]
  exact and_iff_right fun heq => h (heq ▸ hv)

/-! ## Starting anew -/

section Clear

variable {P Q : β → Prop} [DecidablePred P] [DecidablePred Q]

theorem clear_arrived : (s.clear group P).arrived b w =
    if w ∈ group ∧ P b then none else s.arrived b w := rfl

theorem isSome_clear : ((s.clear group P).arrived b w).isSome = true ↔
    (s.arrived b w).isSome = true ∧ ¬ (w ∈ group ∧ P b) := by
  rw [clear_arrived]
  split_ifs with h
  · simp [h]
  · simp [h]

theorem clear_arrived_of_not (h : ¬ P b) : (s.clear group P).arrived b w = s.arrived b w :=
  if_neg fun hw => h hw.2

theorem clear_arrived_of_notMem (h : w ∉ group) : (s.clear group P).arrived b w = s.arrived b w :=
  if_neg fun hw => h hw.1

theorem clear_eq_self (h : ∀ b, ¬ P b) : s.clear group P = s := by
  have harrived : (s.clear group P).arrived = s.arrived := by
    ext b w : 2
    exact clear_arrived_of_not (h b)
  exact congrArg (NamedBarriers.mk s.live) harrived

theorem clear_congr (h : ∀ b, P b ↔ Q b) : s.clear group P = s.clear group Q := by
  have harrived : (s.clear group P).arrived = (s.clear group Q).arrived := by
    ext b w : 2
    rw [clear_arrived, clear_arrived]
    exact if_congr (and_congr_right fun _ => h b) rfl rfl
  exact congrArg (NamedBarriers.mk s.live) harrived

theorem clear_clear : (s.clear group P).clear group Q = s.clear group fun b => P b ∨ Q b := by
  have harrived : ((s.clear group P).clear group Q).arrived =
      (s.clear group fun b => P b ∨ Q b).arrived := by
    ext b w : 2
    simp only [clear_arrived]
    split_ifs <;> tauto
  exact congrArg (NamedBarriers.mk s.live) harrived

theorem waitsAt_of_clear (h : (s.clear group P).WaitsAt b w) : s.WaitsAt b w := by
  obtain ⟨x, hx, hwait⟩ := h
  rw [clear_arrived] at hx
  split_ifs at hx
  · cases hx
  · exact ⟨x, hx, hwait⟩

theorem complete_clear_of_not (h : ¬ P b) :
    (s.clear group P).Complete weight group b ↔ s.Complete weight group b :=
  complete_congr (fun _ _ => clear_arrived_of_not h) fun _ _ => Iff.rfl

theorem complete_clear_of_disjoint {other : Finset ω} (h : Disjoint group other) :
    (s.clear group P).Complete weight other b ↔ s.Complete weight other b :=
  complete_congr (fun _ hw => clear_arrived_of_notMem (Finset.disjoint_right.mp h hw))
    fun _ _ => Iff.rfl

theorem not_complete_settle : ¬ (s.settle weight group).Complete weight group b := by
  by_cases hc : s.Complete weight group b
  · rintro ⟨w, hw, x, hx, -⟩
    rw [settle, clear_arrived, if_pos ⟨hw, hc⟩] at hx
    cases hx
  · rw [settle, complete_clear_of_not hc]
    exact hc

end Clear

end NamedBarriers

end GpuCalorie.Math
