/-
# Round-robin choice

A round-robin arbiter serves the first client that may be served, counting on from a pointer, and
then moves the pointer behind it. While a client may be served and is not, no other one is served
twice: who has been served comes after the client that waits, and stays there.
-/

import Mathlib.Algebra.Order.Group.Nat
import Mathlib.Data.List.Nodup
import Mathlib.Tactic.Common

namespace GpuCalorie.Math.RoundRobin

variable {n p c d e i : ℕ} {may : ℕ → Prop}

/-- How many clients come before one, counting on from the pointer. -/
def distance (n p c : ℕ) : ℕ := (c + (n - p % n)) % n

theorem distance_rotate (hi : i < n) : distance n p ((i + p) % n) = i := by
  have hmod := Nat.mod_lt p (Nat.zero_lt_of_lt hi)
  have hdiv := Nat.div_add_mod p n
  have hsum : i + p + (n - p % n) = i + n * (p / n + 1) := by
    rw [Nat.mul_succ]
    omega
  rw [distance, Nat.mod_add_mod, hsum, Nat.add_mul_mod_self_left, Nat.mod_eq_of_lt hi]

theorem distance_lt (hc : c < n) : distance n p c < n := Nat.mod_lt _ (Nat.zero_lt_of_lt hc)

theorem rotate_distance (hc : c < n) : (distance n p c + p) % n = c := by
  have hmod := Nat.mod_lt p (Nat.zero_lt_of_lt hc)
  have hdiv := Nat.div_add_mod p n
  have hsum : c + (n - p % n) + p = c + n * (p / n + 1) := by
    rw [Nat.mul_succ]
    omega
  rw [distance, Nat.mod_add_mod, hsum, Nat.add_mul_mod_self_left, Nat.mod_eq_of_lt hc]

theorem distance_inj (hc : c < n) (hd : d < n) (h : distance n p c = distance n p d) : c = d := by
  rw [← rotate_distance (p := p) hc, h, rotate_distance hd]

theorem distance_mod : distance n (p % n) c = distance n p c := by
  rw [distance, Nat.mod_mod, distance]

theorem distance_next (hc : c < n) (hd : d < n) (hlt : distance n p d < distance n p c) :
    distance n ((d + 1) % n) c = distance n p c - (distance n p d + 1) := by
  have hi : distance n p c - (distance n p d + 1) < n :=
    (Nat.sub_le _ _).trans_lt (distance_lt hc)
  have hc' : (distance n p c - (distance n p d + 1) + (d + 1) % n) % n = c := by
    have hd' : (d + 1) % n = (distance n p d + p + 1) % n := by
      rw [← Nat.mod_add_mod (distance n p d + p), rotate_distance hd]
    rw [hd', Nat.add_mod_mod, ← Nat.add_assoc]
    convert rotate_distance (p := p) hc using 2
    omega
  conv_lhs => rw [← hc']
  exact distance_rotate hi

theorem distance_next_self (hd : d < n) : distance n ((d + 1) % n) d = n - 1 := by
  have hlast : (n - 1 + (d + 1) % n) % n = d := by
    rw [Nat.add_mod_mod, show n - 1 + (d + 1) = d + n by omega, Nat.add_mod_right,
      Nat.mod_eq_of_lt hd]
  have h := distance_rotate (n := n) (p := (d + 1) % n) (i := n - 1) (by omega)
  rwa [hlast] at h

/-- A client is served that may be, and before which no other may be. -/
structure Serves (n p : ℕ) (may : ℕ → Prop) (c : ℕ) : Prop where
  lt : c < n
  admitted : may c
  first : ∀ other < n, may other → distance n p c ≤ distance n p other

theorem serves_of_find {may : ℕ → Bool}
    (h : ((List.range n).map fun i => (i + p) % n).find? may = some c) :
    Serves n p (may · = true) c := by
  rw [List.find?_map, Option.map_eq_some_iff] at h
  obtain ⟨i, hfound, rfl⟩ := h
  obtain ⟨hmay, hi, hbefore⟩ := List.find?_range_eq_some.mp hfound
  have hi : i < n := List.mem_range.mp hi
  refine ⟨Nat.mod_lt _ (Nat.zero_lt_of_lt hi), hmay, fun other hother hmayOther => ?_⟩
  rw [distance_rotate hi]
  by_contra hlt
  have hnot := hbefore _ (Nat.not_le.mp hlt)
  simp [rotate_distance hother, hmayOther] at hnot

theorem Serves.distance_lt (h : Serves n p may d) (hc : c < n) (hmay : may c) (hne : d ≠ c) :
    distance n p d < distance n p c :=
  (h.first c hc hmay).lt_of_ne fun heq => hne (distance_inj h.lt hc heq)

/-! ## Machines with an arbiter -/

universe u v

/-- A machine, where the pointer of its arbiter is, whom a step serves and who may be served. -/
structure Arbiter (σ : Type u) (α : Type v) where
  step : σ → α → Option σ
  pointer : σ → ℕ
  served : σ → α → Option ℕ
  may : σ → α → ℕ → Prop

namespace Arbiter

variable {σ : Type u} {α : Type v} (A : Arbiter σ α)

/-- The arbiter of so many clients is round-robin. -/
structure Fair (n : ℕ) : Prop where
  serves : ∀ s a s' d, A.step s a = some s' → A.served s a = some d →
    Serves n (A.pointer s) (A.may s a) d ∧ A.pointer s' % n = (d + 1) % n
  keeps : ∀ s a s', A.step s a = some s' → A.served s a = none → A.pointer s' = A.pointer s

/-- The clients that are served in a run. -/
def servedIn : σ → List α → List ℕ
  | _, [] => []
  | s, a :: rest =>
    match A.step s a with
    | none => []
    | some s' => (A.served s a).toList ++ servedIn s' rest

/-- Whenever a client is served in a run, this one may be. -/
def Waits (c : ℕ) : σ → List α → Prop
  | _, [] => True
  | s, a :: rest =>
    match A.step s a with
    | none => True
    | some s' => ((A.served s a).isSome = true → A.may s a c) ∧ Waits c s' rest

instance decidableWaits [∀ s a c, Decidable (A.may s a c)] (c : ℕ) :
    ∀ (s : σ) (actions : List α), Decidable (A.Waits c s actions)
  | _, [] => .isTrue trivial
  | s, a :: rest =>
    match hstep : A.step s a with
    | none => .isTrue (by rw [Waits, hstep]; trivial)
    | some s' =>
      have := decidableWaits c s' rest
      decidable_of_iff (((A.served s a).isSome = true → A.may s a c) ∧ A.Waits c s' rest)
        (by rw [Waits, hstep])

variable {A} (hfair : A.Fair n)
include hfair

theorem servedIn_lt {s : σ} {actions : List α} : ∀ d ∈ A.servedIn s actions, d < n := by
  induction actions generalizing s with
  | nil => exact fun d hd => absurd hd List.not_mem_nil
  | cons a rest ih =>
      intro d hd
      rw [servedIn] at hd
      cases hstep : A.step s a with
      | none =>
          rw [hstep] at hd
          exact absurd hd List.not_mem_nil
      | some s' =>
          rw [hstep] at hd
          rcases List.mem_append.mp hd with hd | hd
          · exact (hfair.serves s a s' d hstep (Option.mem_toList.mp hd)).1.lt
          · exact ih d hd

variable (hc : c < n)
include hc

theorem notMem_servedIn (he : e < n) {s : σ} {actions : List α} (hwaits : A.Waits c s actions)
    (hnot : c ∉ A.servedIn s actions) (hafter : distance n (A.pointer s) c ≤
      distance n (A.pointer s) e) : e ∉ A.servedIn s actions := by
  induction actions generalizing s with
  | nil => exact List.not_mem_nil
  | cons a rest ih =>
      rw [servedIn] at hnot ⊢
      rw [Waits] at hwaits
      cases hstep : A.step s a with
      | none => exact List.not_mem_nil
      | some s' =>
          rw [hstep] at hnot hwaits
          obtain ⟨hmay, hwaits⟩ := hwaits
          rw [List.mem_append, not_or] at hnot ⊢
          cases hserved : A.served s a with
          | none =>
              refine ⟨List.not_mem_nil, ih hwaits hnot.2 ?_⟩
              rwa [hfair.keeps s a s' hstep hserved]
          | some d =>
              rw [hserved] at hmay hnot
              obtain ⟨hserves, hpointer⟩ := hfair.serves s a s' d hstep hserved
              have hne : d ≠ c := fun heq => hnot.1 (heq ▸ List.mem_singleton_self d)
              have hlt := hserves.distance_lt hc (hmay rfl) hne
              constructor
              · intro hmem
                rw [List.mem_singleton.mp hmem] at hafter
                exact absurd hlt (Nat.not_lt.mpr hafter)
              · refine ih hwaits hnot.2 ?_
                rw [← distance_mod, ← distance_mod (c := e), hpointer,
                  distance_next hc hserves.lt hlt,
                  distance_next he hserves.lt (hlt.trans_le hafter)]
                exact Nat.sub_le_sub_right hafter _

theorem nodup_servedIn {s : σ} {actions : List α} (hwaits : A.Waits c s actions)
    (hnot : c ∉ A.servedIn s actions) : (A.servedIn s actions).Nodup := by
  induction actions generalizing s with
  | nil => exact List.nodup_nil
  | cons a rest ih =>
      rw [servedIn] at hnot ⊢
      rw [Waits] at hwaits
      cases hstep : A.step s a with
      | none => exact List.nodup_nil
      | some s' =>
          rw [hstep] at hnot hwaits
          obtain ⟨-, hwaits⟩ := hwaits
          rw [List.mem_append, not_or] at hnot
          cases hserved : A.served s a with
          | none => exact ih hwaits hnot.2
          | some d =>
              obtain ⟨hserves, hpointer⟩ := hfair.serves s a s' d hstep hserved
              refine List.nodup_cons.mpr ⟨?_, ih hwaits hnot.2⟩
              refine notMem_servedIn hfair hc hserves.lt hwaits hnot.2 ?_
              rw [← distance_mod, ← distance_mod (c := d), hpointer,
                distance_next_self hserves.lt]
              exact Nat.le_sub_one_of_lt (distance_lt hc)

theorem length_servedIn_lt {s : σ} {actions : List α} (hwaits : A.Waits c s actions)
    (hnot : c ∉ A.servedIn s actions) : (A.servedIn s actions).length < n := by
  have hnodup : (c :: A.servedIn s actions).Nodup :=
    List.nodup_cons.mpr ⟨hnot, nodup_servedIn hfair hc hwaits hnot⟩
  have hsub : c :: A.servedIn s actions ⊆ List.range n := by
    intro d hd
    rcases List.mem_cons.mp hd with rfl | hd
    · exact List.mem_range.mpr hc
    · exact List.mem_range.mpr (servedIn_lt hfair d hd)
  have hle := hnodup.length_le_of_subset hsub
  rwa [List.length_cons, List.length_range] at hle

end Arbiter

end GpuCalorie.Math.RoundRobin
