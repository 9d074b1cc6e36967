/-
# What an update does

The grouping loop finds the next PCs of the lanes that are not done. With none left the
update pops the top entry; with one it moves, calls, returns or reconverges; with two it
splits the top entry. These are the results later proofs use, stated without the loops.
-/

import GpuCalorie.Simt.Stack

namespace GpuCalorie.Simt

open GpuCalorie.Hardware

variable {done : ℕ → Bool} {next : ℕ → UInt32} {n fuel : ℕ} {active : Finset ℕ}
  {p q : UInt32} {paths : List Path} {mask : Finset ℕ}

/-- The lanes of a mask that are not done. -/
def liveLanes (done : ℕ → Bool) (mask : Finset ℕ) : Finset ℕ :=
  mask.filter fun i => done i = false

/-- The lanes of a mask that are not done and go to one PC. -/
def lanesTo (done : ℕ → Bool) (next : ℕ → UInt32) (mask : Finset ℕ) (p : UInt32) : Finset ℕ :=
  mask.filter fun i => done i = false ∧ next i = p

theorem mem_liveLanes {i : ℕ} : i ∈ liveLanes done mask ↔ i ∈ mask ∧ done i = false :=
  Finset.mem_filter

theorem mem_lanesTo {i : ℕ} :
    i ∈ lanesTo done next mask p ↔ i ∈ mask ∧ done i = false ∧ next i = p :=
  Finset.mem_filter

/-! ## The grouping loop -/

theorem visitLanes_of_ne {g : PathGroup} (hpc : g.tmpNextPc ≠ nullPc) :
    g.visitLanes done next n =
      ⟨g.topActiveMask.filter fun i => n ≤ i ∨ (done i = false ∧ next i ≠ g.tmpNextPc),
        g.tmpNextPc,
        g.tmpActiveMask ∪
          g.topActiveMask.filter fun i => i < n ∧ done i = false ∧ next i = g.tmpNextPc⟩ := by
  induction n generalizing g with
  | zero => simp [PathGroup.visitLanes]
  | succ n ih =>
      rw [PathGroup.visitLanes]
      by_cases hmem : n ∈ g.topActiveMask
      · cases hdone : done n with
        | true =>
            have hvisit : g.visit done next n =
                { g with topActiveMask := g.topActiveMask.erase n } := by
              simp [PathGroup.visit, hmem, hdone]
            rw [hvisit, ih]
            · simp only [PathGroup.mk.injEq, true_and]
              constructor <;> ext i <;> by_cases hi : i = n <;> grind
            · exact hpc
        | false =>
            by_cases hsame : g.tmpNextPc = next n
            · have hvisit : g.visit done next n =
                  { g with
                    topActiveMask := g.topActiveMask.erase n
                    tmpActiveMask := insert n g.tmpActiveMask } := by
                simp [PathGroup.visit, hmem, hdone, hsame, hsame ▸ hpc]
              rw [hvisit, ih]
              · simp only [PathGroup.mk.injEq, true_and]
                constructor <;> ext i <;> by_cases hi : i = n <;> grind
              · exact hpc
            · have hvisit : g.visit done next n = g := by
                simp [PathGroup.visit, hmem, hdone, hsame, hpc]
              rw [hvisit, ih hpc]
              simp only [PathGroup.mk.injEq, true_and]
              constructor <;> ext i <;> by_cases hi : i = n <;> grind
      · have hvisit : g.visit done next n = g := by simp [PathGroup.visit, hmem]
        rw [hvisit, ih hpc]
        simp only [PathGroup.mk.injEq, true_and]
        constructor <;> ext i <;> by_cases hi : i = n <;> grind

theorem visitLanes_of_null (mask : Finset ℕ)
    (hlive : ∃ i ∈ active, i < n ∧ done i = false)
    (hnull : ∀ i ∈ active, done i = false → next i ≠ nullPc) :
    ∃ p, (∃ i ∈ active, i < n ∧ done i = false ∧ next i = p) ∧
      PathGroup.visitLanes done next n ⟨active, nullPc, mask⟩ =
        ⟨active.filter fun i => n ≤ i ∨ (done i = false ∧ next i ≠ p), p,
          mask ∪ active.filter fun i => i < n ∧ done i = false ∧ next i = p⟩ := by
  induction n generalizing active with
  | zero =>
      obtain ⟨i, -, hi, -⟩ := hlive
      exact absurd hi (Nat.not_lt_zero i)
  | succ n ih =>
      obtain ⟨i, hi, hlt, hdi⟩ := hlive
      rw [PathGroup.visitLanes]
      by_cases hmem : n ∈ active
      · cases hdone : done n with
        | true =>
            have hvisit : PathGroup.visit done next n ⟨active, nullPc, mask⟩ =
                ⟨active.erase n, nullPc, mask⟩ := by
              simp [PathGroup.visit, hmem, hdone]
            have hne : i ≠ n := by
              rintro rfl
              simp [hdone] at hdi
            have hrest : ∃ j ∈ active.erase n, j < n ∧ done j = false :=
              ⟨i, Finset.mem_erase.mpr ⟨hne, hi⟩, by omega, hdi⟩
            obtain ⟨p, ⟨j, hj, hjn, hjp⟩, hrun⟩ :=
              ih hrest fun j hj => hnull j (Finset.mem_of_mem_erase hj)
            refine ⟨p, ⟨j, Finset.mem_of_mem_erase hj, by omega, hjp⟩, ?_⟩
            rw [hvisit, hrun]
            simp only [PathGroup.mk.injEq, true_and]
            constructor <;> ext k <;> by_cases hk : k = n <;> grind
        | false =>
            have hvisit : PathGroup.visit done next n ⟨active, nullPc, mask⟩ =
                ⟨active.erase n, next n, insert n mask⟩ := by
              simp [PathGroup.visit, hmem, hdone]
            refine ⟨next n, ⟨n, hmem, Nat.lt_succ_self n, hdone, rfl⟩, ?_⟩
            rw [hvisit, visitLanes_of_ne (hnull n hmem hdone)]
            simp only [PathGroup.mk.injEq, true_and]
            constructor <;> ext k <;> by_cases hk : k = n <;> grind
      · have hvisit : PathGroup.visit done next n ⟨active, nullPc, mask⟩ =
            ⟨active, nullPc, mask⟩ := by
          simp [PathGroup.visit, hmem]
        have hne : i ≠ n := fun heq => hmem (heq ▸ hi)
        obtain ⟨p, ⟨j, hj, hjn, hjp⟩, hrun⟩ := ih ⟨i, hi, by omega, hdi⟩ hnull
        refine ⟨p, ⟨j, hj, by omega, hjp⟩, ?_⟩
        rw [hvisit, hrun]
        simp only [PathGroup.mk.injEq, true_and]
        constructor <;> ext k <;> by_cases hk : k = n <;> grind

theorem visitLanes_of_done (hdone : ∀ i ∈ active, done i = true) :
    PathGroup.visitLanes done next n ⟨active, nullPc, mask⟩ =
      ⟨active.filter fun i => n ≤ i, nullPc, mask⟩ := by
  induction n generalizing active with
  | zero => simp [PathGroup.visitLanes]
  | succ n ih =>
      rw [PathGroup.visitLanes]
      by_cases hmem : n ∈ active
      · have hvisit : PathGroup.visit done next n ⟨active, nullPc, mask⟩ =
            ⟨active.erase n, nullPc, mask⟩ := by
          simp [PathGroup.visit, hmem, hdone n hmem]
        rw [hvisit, ih fun i hi => hdone i (Finset.mem_of_mem_erase hi)]
        simp only [PathGroup.mk.injEq, and_true]
        ext k
        by_cases hk : k = n <;> grind
      · have hvisit : PathGroup.visit done next n ⟨active, nullPc, mask⟩ =
            ⟨active, nullPc, mask⟩ := by
          simp [PathGroup.visit, hmem]
        rw [hvisit, ih hdone]
        simp only [PathGroup.mk.injEq, and_true]
        ext k
        by_cases hk : k = n <;> grind

/-- A lane set inside the warp, with next PCs: what the grouping loop is run on. -/
structure Groupable (n : ℕ) (done : ℕ → Bool) (next : ℕ → UInt32) (active : Finset ℕ) : Prop where
  lt : ∀ i ∈ active, i < n
  ne_null : ∀ i ∈ active, done i = false → next i ≠ nullPc

theorem divergentPaths_round (fuel : ℕ) (paths : List Path) (h : Groupable n done next active)
    (hlive : (liveLanes done active).Nonempty) :
    ∃ p, (lanesTo done next active p).Nonempty ∧
      divergentPaths n done next (fuel + 1) active paths =
        divergentPaths n done next fuel
          (active.filter fun i => done i = false ∧ next i ≠ p)
          (insertPath (p, lanesTo done next active p) paths) := by
  obtain ⟨i, hi⟩ := hlive
  obtain ⟨hmem, hdi⟩ := mem_liveLanes.mp hi
  obtain ⟨p, ⟨j, hj, hjn, hjd, hjp⟩, hrun⟩ :=
    visitLanes_of_null (n := n) ∅ ⟨i, hmem, h.lt i hmem, hdi⟩ h.ne_null
  have hne : active ≠ ∅ := Finset.ne_empty_of_mem hmem
  have hp : p ≠ nullPc := hjp ▸ h.ne_null j hj hjd
  have hrest : (active.filter fun i => n ≤ i ∨ (done i = false ∧ next i ≠ p)) =
      active.filter fun i => done i = false ∧ next i ≠ p := by
    ext k
    have hlt := h.lt k
    grind
  have hgroup : (active.filter fun i => i < n ∧ done i = false ∧ next i = p) =
      lanesTo done next active p := by
    ext k
    have hlt := h.lt k
    grind [mem_lanesTo]
  refine ⟨p, ⟨j, mem_lanesTo.mpr ⟨hj, hjd, hjp⟩⟩, ?_⟩
  rw [divergentPaths, if_neg hne]
  simp only [hrun, if_neg hp, Finset.empty_union, hrest, hgroup]

theorem divergentPaths_nil (h : Groupable n done next active) (hne : active ≠ ∅)
    (hdone : liveLanes done active = ∅) :
    divergentPaths n done next (fuel + 1) active paths = .ok paths := by
  have hall : ∀ i ∈ active, done i = true := by
    intro i hi
    by_contra hdi
    exact Finset.notMem_empty i (hdone ▸ mem_liveLanes.mpr ⟨hi, by simpa using hdi⟩)
  have hempty : (active.filter fun i => n ≤ i) = ∅ := by
    ext i
    have hlt := h.lt i
    grind
  rw [divergentPaths, if_neg hne]
  simp [visitLanes_of_done hall, hempty]

theorem divergentPaths_empty : divergentPaths n done next fuel ∅ paths = .ok paths := by
  unfold divergentPaths
  simp

theorem divergentPaths_singleton (h : Groupable n done next active)
    (hlive : (liveLanes done active).Nonempty) (hp : ∀ i ∈ liveLanes done active, next i = p) :
    divergentPaths n done next active.card active [] = .ok [(p, liveLanes done active)] := by
  obtain ⟨i, hi⟩ := hlive
  obtain ⟨fuel, hfuel⟩ : ∃ fuel, active.card = fuel + 1 :=
    Nat.exists_eq_add_one_of_ne_zero
      (Finset.card_ne_zero_of_mem (mem_liveLanes.mp hi).1)
  obtain ⟨q, ⟨j, hj⟩, hrun⟩ := divergentPaths_round fuel [] h ⟨i, hi⟩
  obtain ⟨hjm, hjd, rfl⟩ := mem_lanesTo.mp hj
  have hjp : next j = p := hp j (mem_liveLanes.mpr ⟨hjm, hjd⟩)
  have hrest : (active.filter fun i => done i = false ∧ next i ≠ next j) = ∅ := by
    ext k
    grind [mem_liveLanes, hp k]
  have hgroup : lanesTo done next active (next j) = liveLanes done active := by
    ext k
    grind [mem_liveLanes, mem_lanesTo, hp k]
  rw [hfuel, hrun, hrest, hgroup, hjp, divergentPaths_empty]
  rfl

theorem divergentPaths_pair (h : Groupable n done next active) (hne : p ≠ q)
    (hp : (lanesTo done next active p).Nonempty) (hq : (lanesTo done next active q).Nonempty)
    (hpq : ∀ i ∈ liveLanes done active, next i = p ∨ next i = q) :
    divergentPaths n done next active.card active [] =
        .ok [(p, lanesTo done next active p), (q, lanesTo done next active q)] ∨
      divergentPaths n done next active.card active [] =
        .ok [(q, lanesTo done next active q), (p, lanesTo done next active p)] := by
  -- the order of the two rounds does not matter
  have hround : ∀ p q, p ≠ q → (lanesTo done next active q).Nonempty →
      (∀ i ∈ liveLanes done active, next i = p ∨ next i = q) →
      ∀ fuel, divergentPaths n done next (fuel + 1)
          (active.filter fun i => done i = false ∧ next i ≠ p) [(p, lanesTo done next active p)] =
        .ok (if q < p then [(q, lanesTo done next active q), (p, lanesTo done next active p)]
          else [(p, lanesTo done next active p), (q, lanesTo done next active q)]) := by
    intro p q hne hq hpq fuel
    have hrest : liveLanes done (active.filter fun i => done i = false ∧ next i ≠ p) =
        lanesTo done next active q := by
      ext k
      grind [mem_liveLanes, mem_lanesTo, hpq k]
    have hgroupable : Groupable n done next
        (active.filter fun i => done i = false ∧ next i ≠ p) :=
      ⟨fun i hi => h.lt i (Finset.mem_of_mem_filter i hi),
        fun i hi => h.ne_null i (Finset.mem_of_mem_filter i hi)⟩
    obtain ⟨r, ⟨j, hj⟩, hrun⟩ := divergentPaths_round fuel
      [(p, lanesTo done next active p)] hgroupable (hrest ▸ hq)
    have hr : r = q := by grind [mem_liveLanes, mem_lanesTo, hpq j]
    subst hr
    have hlast : ((active.filter fun i => done i = false ∧ next i ≠ p).filter
        fun i => done i = false ∧ next i ≠ r) = ∅ := by
      ext k
      grind [mem_liveLanes, hpq k]
    have hgroup : lanesTo done next (active.filter fun i => done i = false ∧ next i ≠ p) r =
        lanesTo done next active r := by
      ext k
      grind [mem_lanesTo]
    rw [hrun, hlast, hgroup, divergentPaths_empty]
    simp only [insertPath, if_neg hne.symm]
  obtain ⟨i, hi⟩ := hp
  obtain ⟨j, hj⟩ := hq
  have hi' := mem_lanesTo.mp hi
  have hj' := mem_lanesTo.mp hj
  obtain ⟨fuel, hfuel⟩ : ∃ fuel, active.card = fuel + 1 + 1 := by
    have hij : i ≠ j := by
      rintro rfl
      exact hne (hi'.2.2.symm.trans hj'.2.2)
    obtain ⟨fuel, hfuel⟩ := Nat.exists_eq_add_of_lt
      (Finset.one_lt_card.mpr ⟨i, hi'.1, j, hj'.1, hij⟩)
    exact ⟨fuel, by omega⟩
  obtain ⟨r, ⟨k, hk⟩, hrun⟩ := divergentPaths_round (fuel + 1) [] h
    ⟨i, mem_liveLanes.mpr ⟨hi'.1, hi'.2.1⟩⟩
  have hk' := mem_lanesTo.mp hk
  rw [hfuel, hrun]
  rcases hpq k (mem_liveLanes.mpr ⟨hk'.1, hk'.2.1⟩) with hkp | hkq
  · obtain rfl : r = p := hk'.2.2.symm.trans hkp
    have hpaths := hround r q hne ⟨j, hj⟩ hpq fuel
    by_cases hlt : q < r
    · exact .inr (hpaths.trans (by rw [if_pos hlt]))
    · exact .inl (hpaths.trans (by rw [if_neg hlt]))
  · obtain rfl : r = q := hk'.2.2.symm.trans hkq
    have hpaths := hround r p hne.symm ⟨i, hi⟩ (fun i hi => (hpq i hi).symm) fuel
    by_cases hlt : p < r
    · exact .inl (hpaths.trans (by rw [if_pos hlt]))
    · exact .inr (hpaths.trans (by rw [if_neg hlt]))

/-! ## The update -/

section Update

variable {top : SimtStackEntry} {rest : List SimtStackEntry} {inst : UpdateInst} {a b : Path}

/-- What the caller of `update` provides: it is at the PC of the top entry, whose mask
is not empty, and no thread that is not done has the null PC. -/
structure Updatable (n : ℕ) (done : ℕ → Bool) (next : ℕ → UInt32) (inst : UpdateInst)
    (top : SimtStackEntry) : Prop where
  pc : top.pc = inst.pc
  mask : top.activeMask ≠ ∅
  groupable : Groupable n done next top.activeMask

section

variable (h : Updatable n done next inst top)
include h

theorem Updatable.update_eq
    (hpaths : divergentPaths n done next top.activeMask.card top.activeMask [] = .ok paths)
    (hlength : paths.length ≤ 2) :
    update n (top :: rest) done next inst =
      handlePaths inst paths.length top paths.length paths ⟨top :: rest, false, nullPc⟩ := by
  have hpc : ¬ top.pc ≠ inst.pc := not_not.mpr h.pc
  simp only [update, if_neg hpc, if_neg h.mask, hpaths, bind, Except.bind,
    if_neg (Nat.not_lt.mpr hlength)]

theorem Updatable.update_done (hdone : liveLanes done top.activeMask = ∅) :
    update n (top :: rest) done next inst = .ok rest := by
  obtain ⟨fuel, hfuel⟩ : ∃ fuel, top.activeMask.card = fuel + 1 :=
    Nat.exists_eq_add_one_of_ne_zero fun hzero => h.mask (Finset.card_eq_zero.mp hzero)
  have hpaths : divergentPaths n done next top.activeMask.card top.activeMask [] = .ok [] := by
    rw [hfuel]
    exact divergentPaths_nil h.groupable h.mask hdone
  rw [h.update_eq hpaths (Nat.zero_le 2)]
  rfl

variable (hlive : (liveLanes done top.activeMask).Nonempty)
  (hp : ∀ i ∈ liveLanes done top.activeMask, next i = p)
include hlive hp

theorem Updatable.update_one : update n (top :: rest) done next inst =
      handlePaths inst 1 top 1 [(p, liveLanes done top.activeMask)]
        ⟨top :: rest, false, nullPc⟩ :=
  h.update_eq (divergentPaths_singleton h.groupable hlive hp) (by decide : (1 : ℕ) ≤ 2)

omit hp in
omit hlive in
omit h in
theorem takePath_singleton (notTakenPc : UInt32) (path : Path) :
    takePath notTakenPc [path] = some (path, []) := by
  by_cases heq : path.1 = notTakenPc <;> simp [takePath, heq]

theorem Updatable.update_call (hop : inst.op = .callOps) : update n (top :: rest) done next inst =
      .ok (pushCall (p, liveLanes done top.activeMask) (top :: rest)) := by
  rw [h.update_one hlive hp, handlePaths, takePath_singleton]
  simp [hop]

theorem Updatable.update_return (hop : inst.op = .retOps) (htype : top.type = .call) :
    update n (top :: rest) done next inst =
      popCall (p, liveLanes done top.activeMask) (top :: rest) := by
  rw [h.update_one hlive hp, handlePaths, takePath_singleton]
  simp [hop, htype]

theorem Updatable.update_advance (hcall : inst.op ≠ .callOps)
    (hret : ¬ (inst.op = .retOps ∧ top.type = .call)) :
    update n (top :: rest) done next inst =
      .ok (if p = top.recvgPc ∧ top.type ≠ .call then rest
        else { top with pc := p, activeMask := liveLanes done top.activeMask } :: rest) := by
  rw [h.update_one hlive hp, handlePaths, takePath_singleton]
  simp only [hcall, hret, if_false, handlePaths, handlePath, markDivergence, setTop]
  by_cases hrec : p = top.recvgPc ∧ top.type ≠ .call
  · simp [hrec]
  · simp [hrec]

end

/-- The entry a diverged path gets. -/
def divergedEntry (recvgPc : UInt32) (path : Path) : SimtStackEntry :=
  { pc := path.1, activeMask := path.2, recvgPc := recvgPc }

/-- The stack behind a divergence: the paths that do not already reconverge, over the
entry that waits for them. -/
def diverged (recvgPc : UInt32) (paths : List Path) (top : SimtStackEntry)
    (rest : List SimtStackEntry) : List SimtStackEntry :=
  (paths.filter fun path => path.1 ≠ recvgPc).map (divergedEntry recvgPc) ++
    if recvgPc = top.recvgPc then rest else { top with pc := recvgPc } :: rest

theorem handlePath_pair (hne : a.1 ≠ b.1) (hcall : top.type = .call → inst.recvgPc ≠ top.recvgPc)
    (hshared : top.type = .normal → a.1 = top.recvgPc ∨ b.1 = top.recvgPc →
      inst.recvgPc = top.recvgPc) :
    (handlePath inst.recvgPc 2 top b (handlePath inst.recvgPc 2 top a
      ⟨top :: rest, false, nullPc⟩)).stack.tail = diverged inst.recvgPc [b, a] top rest := by
  obtain ⟨a, ma⟩ := a
  obtain ⟨b, mb⟩ := b
  obtain ⟨pc, depth, mask, recvg, type⟩ := top
  simp only at hne hcall hshared
  cases type with
  | call =>
      have hr : inst.recvgPc ≠ recvg := hcall rfl
      by_cases ha : a = inst.recvgPc
      · have hb : b ≠ inst.recvgPc := fun hb => hne (ha.trans hb.symm)
        simp [handlePath, markDivergence, setTop, diverged, divergedEntry, hr, ha, hb]
      · by_cases hb : b = inst.recvgPc <;>
          simp [handlePath, markDivergence, setTop, diverged, divergedEntry, hr, ha, hb]
  | normal =>
      by_cases hr : inst.recvgPc = recvg
      · by_cases ha : a = recvg
        · have hb : b ≠ recvg := fun hb => hne (ha.trans hb.symm)
          simp [handlePath, markDivergence, setTop, diverged, divergedEntry, hr, ha, hb]
        · by_cases hb : b = recvg <;>
            simp [handlePath, markDivergence, setTop, diverged, divergedEntry, hr, ha, hb]
      · have ha : a ≠ recvg := fun ha => hr (hshared rfl (.inl ha))
        have hb : b ≠ recvg := fun hb => hr (hshared rfl (.inr hb))
        by_cases har : a = inst.recvgPc
        · have hbr : b ≠ inst.recvgPc := fun hbr => hne (har.trans hbr.symm)
          simp [handlePath, markDivergence, setTop, diverged, divergedEntry, hr, hb, har, hbr]
        · by_cases hbr : b = inst.recvgPc <;>
            simp [handlePath, markDivergence, setTop, diverged, divergedEntry, hr, ha, hb, har, hbr]

theorem takePath_pair (notTakenPc : UInt32) (hne : a.1 ≠ b.1) :
    takePath notTakenPc [a, b] = some (a, [b]) ∨ takePath notTakenPc [a, b] = some (b, [a]) := by
  by_cases ha : a.1 = notTakenPc
  · have hb : b.1 ≠ notTakenPc := fun hb => hne (ha.trans hb.symm)
    exact .inl (by simp [takePath, ha, hb])
  · by_cases hb : b.1 = notTakenPc
    · exact .inr (by simp [takePath, ha, hb])
    · exact .inl (by simp [takePath, ha, hb])

theorem markDivergence_stack_ne_nil {r t : UInt32} {k : ℕ} {u : UpdateState}
    (h : u.stack ≠ []) : (markDivergence r k t u).stack ≠ [] := by
  rw [markDivergence]
  split
  · by_cases hr : r = t <;> simp [hr, h]
  · exact h

theorem handlePath_stack_ne_nil (r : UInt32) (k : ℕ) (top : SimtStackEntry) (path : Path)
    {u : UpdateState} (h : u.stack ≠ []) : (handlePath r k top path u).stack ≠ [] := by
  simp only [handlePath]
  split
  · exact h
  split
  · exact markDivergence_stack_ne_nil h
  · exact List.cons_ne_nil _ _

theorem handlePaths_pair (hne : a.1 ≠ b.1) (hcallOp : inst.op ≠ .callOps)
    (hretOp : inst.op ≠ .retOps) (hcall : top.type = .call → inst.recvgPc ≠ top.recvgPc)
    (hshared : top.type = .normal → a.1 = top.recvgPc ∨ b.1 = top.recvgPc →
      inst.recvgPc = top.recvgPc) :
    handlePaths inst 2 top 2 [a, b] ⟨top :: rest, false, nullPc⟩ =
        .ok (diverged inst.recvgPc [b, a] top rest) ∨
      handlePaths inst 2 top 2 [a, b] ⟨top :: rest, false, nullPc⟩ =
        .ok (diverged inst.recvgPc [a, b] top rest) := by
  have htwo : ∀ x y : Path, takePath (inst.pc + inst.isize) [a, b] = some (x, [y]) →
      handlePaths inst 2 top 2 [a, b] ⟨top :: rest, false, nullPc⟩ =
        .ok (handlePath inst.recvgPc 2 top y
          (handlePath inst.recvgPc 2 top x ⟨top :: rest, false, nullPc⟩)).stack.tail := by
    intro x y htake
    rw [handlePaths, htake]
    simp only [hcallOp, hretOp, false_and, if_false]
    rw [handlePaths, takePath_singleton]
    simp only [hcallOp, hretOp, false_and, if_false]
    have hstart : (⟨top :: rest, false, nullPc⟩ : UpdateState).stack ≠ [] := List.cons_ne_nil _ _
    have hfirst := handlePath_stack_ne_nil inst.recvgPc 2 top x hstart
    have hsecond := handlePath_stack_ne_nil inst.recvgPc 2 top y hfirst
    obtain ⟨e, es, hstack⟩ := List.exists_cons_of_ne_nil hsecond
    rw [handlePaths, hstack]
    rfl
  rcases takePath_pair (inst.pc + inst.isize) hne with htake | htake
  · exact .inl ((htwo a b htake).trans (congrArg _ (handlePath_pair hne hcall hshared)))
  · exact .inr ((htwo b a htake).trans (congrArg _
      (handlePath_pair hne.symm hcall fun htype hor => hshared htype hor.symm)))

theorem Updatable.update_diverge (h : Updatable n done next inst top) (hne : p ≠ q)
    (hp : (lanesTo done next top.activeMask p).Nonempty)
    (hq : (lanesTo done next top.activeMask q).Nonempty)
    (hpq : ∀ i ∈ liveLanes done top.activeMask, next i = p ∨ next i = q)
    (hcallOp : inst.op ≠ .callOps) (hretOp : inst.op ≠ .retOps)
    (hcall : top.type = .call → inst.recvgPc ≠ top.recvgPc)
    (hshared : top.type = .normal → p = top.recvgPc ∨ q = top.recvgPc →
      inst.recvgPc = top.recvgPc) :
    update n (top :: rest) done next inst =
        .ok (diverged inst.recvgPc [(p, lanesTo done next top.activeMask p),
          (q, lanesTo done next top.activeMask q)] top rest) ∨
      update n (top :: rest) done next inst =
        .ok (diverged inst.recvgPc [(q, lanesTo done next top.activeMask q),
          (p, lanesTo done next top.activeMask p)] top rest) := by
  rcases divergentPaths_pair h.groupable hne hp hq hpq with hpaths | hpaths
  · rw [h.update_eq hpaths le_rfl]
    exact (handlePaths_pair hne hcallOp hretOp hcall hshared).symm
  · rw [h.update_eq hpaths le_rfl]
    exact handlePaths_pair hne.symm hcallOp hretOp hcall fun htype hor => hshared htype hor.symm

end Update

end GpuCalorie.Simt
