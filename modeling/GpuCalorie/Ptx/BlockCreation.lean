/-
# The cuts between basic blocks

Behind the first instruction the leaders are the elements behind an instruction that ends its
block, and the first labels behind the others. So from one instruction to the next, over the labels
in between, the second loop begins a new block exactly if there are labels or the first ends its
block, and what it has noted in the end follows by induction over the rest of the list.
-/

import GpuCalorie.Ptx.ControlFlow
import GpuCalorie.Ptx.ProgramLayout
import Mathlib.Data.List.TakeWhile

namespace GpuCalorie.Ptx.ControlFlow

open GpuCalorie.Math Assembly

variable {instructions i rest labels before after front : List Statement}
  {pI pJ r y : Instruction} {s : Creating} {g : FlowGraph Statement} {bb : ℕ → ℕ} {b fuel : ℕ}

/-! ## Leaders -/

/-- Whether an element is a leader by the one before it. -/
def leaderAt : Statement → Statement → Bool
  | .label _, _ => false
  | .instruction pI, cur => endsBlock pI || isLabel cur

/-- The leaders behind an element. -/
def cutsFrom (prev : Statement) : List Statement → List (List Statement)
  | [] => []
  | cur :: rest => (if leaderAt prev cur then [cur :: rest] else []) ++ cutsFrom cur rest

/-- The leaders behind the first element of a list. -/
def cutsBehind : List Statement → List (List Statement)
  | [] => []
  | cur :: rest => cutsFrom cur rest

theorem cutsFrom_label (l : Symbol) :
    cutsFrom (.label l) rest = cutsBehind (findNextReal rest) := by
  induction rest generalizing l with
  | nil => rfl
  | cons st rest ih =>
      cases st with
      | label l' => exact ih l'
      | instruction pI => rfl

theorem length_findNextReal_le : (findNextReal rest).length ≤ rest.length :=
  (List.dropWhile_sublist isLabel).length_le

theorem findNextReal_not_label (l : Symbol) (i : List Statement) :
    findNextReal rest ≠ .label l :: i := by
  induction rest with
  | nil => exact fun h => nomatch h
  | cons st rest ih =>
      cases st with
      | label l' => exact ih
      | instruction pI => exact fun h => nomatch h

theorem cutsFrom_of_endsBlock (hends : endsBlock pI = true) :
    cutsFrom (.instruction pI) rest =
      (if rest = [] then [] else [rest]) ++ cutsBehind (findNextReal rest) := by
  cases rest with
  | nil => rfl
  | cons st rest =>
      rw [cutsFrom, leaderAt, hends, Bool.true_or, if_pos rfl, if_neg (List.cons_ne_nil _ _)]
      cases st with
      | label l => rw [cutsFrom_label]; rfl
      | instruction pJ => rfl

theorem leadersFrom_eq (fuel : ℕ) :
    (∀ i : List Statement, i.length ≤ fuel → (∀ l rest, i ≠ .label l :: rest) →
      leadersFrom fuel i = cutsBehind i) ∧
    (∀ (i : List Statement) (pI : Instruction), i.length ≤ fuel → endsBlock pI = false →
      leadersFrom fuel i = cutsFrom (.instruction pI) i) := by
  induction fuel with
  | zero =>
      constructor
      · intro i hi _
        obtain rfl := List.length_eq_zero_iff.mp (Nat.le_zero.mp hi)
        rfl
      · intro i pI hi _
        obtain rfl := List.length_eq_zero_iff.mp (Nat.le_zero.mp hi)
        rfl
  | succ fuel ih =>
      obtain ⟨hat, hbehind⟩ := ih
      have hskip : ∀ rest : List Statement, rest.length ≤ fuel →
          leadersFrom fuel (findNextReal rest) = cutsBehind (findNextReal rest) := fun rest hrest =>
        hat _ (length_findNextReal_le.trans hrest) findNextReal_not_label
      have hreal : ∀ (pI : Instruction) (rest : List Statement), rest.length ≤ fuel →
          leadersFrom (fuel + 1) (.instruction pI :: rest) = cutsFrom (.instruction pI) rest := by
        intro pI rest hrest
        rw [leadersFrom]
        cases hends : endsBlock pI with
        | true => rw [if_pos rfl, cutsFrom_of_endsBlock hends, hskip rest hrest]
        | false => exact hbehind rest pI hrest hends
      constructor
      · rintro (_ | ⟨l | pI, rest⟩) hi hnot
        · rfl
        · exact absurd rfl (hnot l rest)
        · exact hreal pI rest (Nat.le_of_succ_le_succ hi)
      · rintro (_ | ⟨l | pJ, rest⟩) pI hi hends
        · rfl
        · rw [leadersFrom, hskip rest (Nat.le_of_succ_le_succ hi), cutsFrom, cutsFrom_label]
          simp [leaderAt, isLabel]
        · rw [hreal pJ rest (Nat.le_of_succ_le_succ hi), cutsFrom]
          simp [leaderAt, isLabel, hends]

theorem leaders_tail (hone : ∀ l l' rest, instructions ≠ .label l :: .label l' :: rest)
    (hfirst : ∀ pI pJ rest, instructions = .instruction pI :: .instruction pJ :: rest →
      endsBlock pI = false) :
    (leaders instructions).tail = cutsBehind (findNextReal instructions) := by
  rw [leaders, List.tail_cons]
  cases instructions with
  | nil => rfl
  | cons st rest =>
      rw [List.tail_cons]
      cases st with
      | label l =>
          have hnot : ∀ l' i, rest ≠ .label l' :: i := by
            rintro l' i rfl
            exact hone l l' i rfl
          have hstay : findNextReal rest = rest := by
            cases rest with
            | nil => rfl
            | cons st rest =>
                cases st with
                | label l' => exact absurd rfl (hnot l' rest)
                | instruction pI => rfl
          have hskip : findNextReal (.label l :: rest) = findNextReal rest := rfl
          rw [hskip, hstay, List.length_cons]
          exact (leadersFrom_eq _).1 rest (Nat.le_succ _) hnot
      | instruction pI =>
          cases hends : endsBlock pI with
          | false => exact (leadersFrom_eq _).2 rest pI (Nat.le_succ _) hends
          | true =>
              cases rest with
              | nil => rfl
              | cons st rest =>
                  cases st with
                  | instruction pJ =>
                      rw [hfirst pI pJ rest rfl] at hends
                      cases hends
                  | label l =>
                      show leadersFrom ((rest.length + 1) + 1) (.label l :: rest) =
                        cutsFrom (.instruction pI) (.label l :: rest)
                      rw [cutsFrom_of_endsBlock hends, leadersFrom,
                        (leadersFrom_eq _).1 _ (length_findNextReal_le.trans (Nat.le_succ _))
                          findNextReal_not_label]
                      rfl

/-! ## The loop over the list -/

theorem length_le_of_mem_cutsFrom {prev : Statement} (h : i ∈ cutsFrom prev rest) :
    i.length ≤ rest.length := by
  induction rest generalizing prev with
  | nil => exact absurd h List.not_mem_nil
  | cons st rest ih =>
      rw [cutsFrom] at h
      rcases List.mem_append.mp h with h | h
      · split_ifs at h
        · rw [List.mem_singleton.mp h]
        · exact absurd h List.not_mem_nil
      · exact (ih h).trans (Nat.le_succ _)

theorem visitLeader_of_length {n : ℕ} (hleaders : ∀ j ∈ s.leaders, j.length ≤ n)
    (hi : n < i.length) : visitLeader i s = s := by
  refine if_neg fun h => ?_
  exact absurd (hleaders i (List.mem_of_mem_head? h)) (Nat.not_le.mpr hi)

theorem visitLeader_of_leader {later : List (List Statement)} {next : Statement}
    (hleaders : s.leaders = i :: later) (hnext : findNextReal i = next :: rest) :
    visitLeader i s = { s with
      graph := pushBlock (closeBlock s.graph s.lastReal) (some next)
      lastReal := next
      leaders := later } := by
  rw [visitLeader, hleaders, List.head?_cons, if_pos rfl, hnext]
  rfl

theorem visitFrom_labels (hlabels : ∀ st ∈ labels, isLabel st = true)
    (hleaders : ∀ j ∈ s.leaders, j.length ≤ rest.length) :
    visitFrom (labels ++ rest) s = visitFrom rest s := by
  induction labels with
  | nil => rfl
  | cons st labels ih =>
      obtain ⟨hst, hrest⟩ := List.forall_mem_cons.mp hlabels
      have hlt : rest.length < (st :: (labels ++ rest)).length := by
        rw [List.length_cons, List.length_append]
        omega
      rw [List.cons_append, visitFrom, visitLeader_of_length hleaders hlt]
      cases st with
      | label l => exact ih hrest
      | instruction pI => cases hst

theorem findNextReal_labels (hlabels : ∀ st ∈ labels, isLabel st = true) :
    findNextReal (labels ++ .instruction y :: rest) = .instruction y :: rest := by
  induction labels with
  | nil => rfl
  | cons st labels ih =>
      obtain ⟨hst, hrest⟩ := List.forall_mem_cons.mp hlabels
      cases st with
      | label l => exact ih hrest
      | instruction pI => cases hst

/-- The graph at the next instruction. -/
def advance (r : Instruction) (labels : List Statement) (y : Instruction) (s : Creating) :
    FlowGraph Statement :=
  if endsBlock r = true ∨ labels ≠ [] then
    pushBlock (closeBlock s.graph s.lastReal) (some (.instruction y))
  else s.graph

/-- The loop at the next instruction. -/
def advanced (r : Instruction) (labels : List Statement) (y : Instruction)
    (rest : List Statement) (s : Creating) : Creating where
  graph := advance r labels y s
  lastReal := .instruction y
  leaders := cutsFrom (.instruction y) rest
  bb := Function.update s.bb y.uid ((advance r labels y s).size - 1)

theorem visitFrom_next
    (hleaders : s.leaders = cutsFrom (.instruction r) (labels ++ .instruction y :: rest))
    (hlabels : ∀ st ∈ labels, isLabel st = true) :
    visitFrom (labels ++ .instruction y :: rest) s =
      visitFrom rest (advanced r labels y rest s) := by
  have hbehind : ∀ j ∈ cutsFrom (.instruction y) rest, j.length ≤ rest.length :=
    fun j hj => length_le_of_mem_cutsFrom hj
  cases labels with
  | nil =>
      rw [List.nil_append] at hleaders ⊢
      rw [cutsFrom, leaderAt, isLabel, Bool.or_false] at hleaders
      rw [visitFrom]
      congr 1
      cases hends : endsBlock r with
      | true =>
          rw [hends, if_pos rfl] at hleaders
          rw [visitLeader_of_leader hleaders rfl]
          simp [assignBb, advanced, advance, hends]
      | false =>
          rw [hends, if_neg Bool.false_ne_true, List.nil_append] at hleaders
          rw [visitLeader_of_length (n := rest.length) (hleaders ▸ hbehind) (Nat.lt_succ_self _)]
          simp [assignBb, advanced, advance, hends, hleaders]
  | cons st labels =>
      obtain ⟨hst, hrest⟩ := List.forall_mem_cons.mp hlabels
      cases st with
      | instruction pI => cases hst
      | label l =>
          rw [List.cons_append] at hleaders ⊢
          rw [cutsFrom, leaderAt, isLabel, Bool.or_true, if_pos rfl, cutsFrom_label,
            findNextReal_labels hrest] at hleaders
          have hnext : findNextReal (.label l :: (labels ++ .instruction y :: rest)) =
              .instruction y :: rest := findNextReal_labels hrest
          rw [visitFrom, visitLeader_of_leader hleaders hnext, assignBb, visitFrom_labels hrest,
            visitFrom, visitLeader_of_length hbehind (Nat.lt_succ_self _)]
          · simp [assignBb, advanced, advance, cutsBehind]
          · exact fun j hj => (hbehind j hj).trans (Nat.le_succ _)

/-! ## Lists by their instructions -/

section

variable (hlabels : ∀ st ∈ labels, isLabel st = true)
include hlabels

theorem reals_labels : reals labels = [] := by
  induction labels with
  | nil => rfl
  | cons st labels ih =>
      obtain ⟨hst, hrest⟩ := List.forall_mem_cons.mp hlabels
      cases st with
      | label l => exact ih hrest
      | instruction pI => cases hst

theorem reals_labels_append : reals (labels ++ .instruction y :: rest) = y :: reals rest := by
  rw [reals_append, reals_labels hlabels]
  rfl

omit hlabels in
theorem labels_or_instruction (i : List Statement) :
    (∀ st ∈ i, isLabel st = true) ∨ ∃ labels y rest, i = labels ++ .instruction y :: rest ∧
      ∀ st ∈ labels, isLabel st = true := by
  induction i with
  | nil => exact .inl fun st hst => absurd hst List.not_mem_nil
  | cons st i ih =>
      cases st with
      | instruction pI => exact .inr ⟨[], pI, i, rfl, fun st hst => absurd hst List.not_mem_nil⟩
      | label l =>
          rcases ih with hall | ⟨labels, y, rest, rfl, hall⟩
          · exact .inl (List.forall_mem_cons.mpr ⟨rfl, hall⟩)
          · exact .inr ⟨.label l :: labels, y, rest, rfl, List.forall_mem_cons.mpr ⟨rfl, hall⟩⟩

theorem labels_append_eq
    (h : labels ++ .instruction y :: rest = before ++ .instruction pI :: after) :
    (before = labels ∧ y = pI ∧ rest = after) ∨
      ∃ front, before = labels ++ .instruction y :: front ∧
        rest = front ++ .instruction pI :: after := by
  induction labels generalizing before with
  | nil =>
      cases before with
      | nil =>
          obtain ⟨heq, hrest⟩ := List.cons.inj h
          exact .inl ⟨rfl, Statement.instruction.inj heq, hrest⟩
      | cons st front =>
          obtain ⟨heq, hrest⟩ := List.cons.inj h
          exact .inr ⟨front, heq ▸ rfl, hrest⟩
  | cons st labels ih =>
      obtain ⟨hst, hall⟩ := List.forall_mem_cons.mp hlabels
      cases before with
      | nil =>
          obtain ⟨heq, -⟩ := List.cons.inj h
          rw [heq] at hst
          cases hst
      | cons st' before =>
          obtain ⟨heq, hrest⟩ := List.cons.inj h
          rcases ih hall hrest with ⟨rfl, hy, hafter⟩ | ⟨front, rfl, hafter⟩
          · exact .inl ⟨heq ▸ rfl, hy, hafter⟩
          · exact .inr ⟨front, heq ▸ rfl, hafter⟩

end

/-! ## What the loop leaves -/

@[simp]
theorem size_pushBlock (ptxBegin : Option Statement) :
    (pushBlock g ptxBegin).size = g.size + 1 := rfl

@[simp]
theorem block_pushBlock_size (ptxBegin : Option Statement) :
    (pushBlock g ptxBegin).block g.size =
      { bbId := g.size, ptxBegin := ptxBegin, ptxEnd := none } :=
  Function.update_self ..

theorem block_pushBlock_of_lt (ptxBegin : Option Statement) (hb : b < g.size) :
    (pushBlock g ptxBegin).block b = g.block b :=
  Function.update_of_ne hb.ne ..

@[simp]
theorem size_closeBlock (st : Statement) : (closeBlock g st).size = g.size := rfl

theorem block_closeBlock_last (st : Statement) :
    (closeBlock g st).block (g.size - 1) = { g.block (g.size - 1) with ptxEnd := some st } :=
  Function.update_self ..

theorem block_closeBlock_of_lt (st : Statement) (hb : b + 1 < g.size) :
    (closeBlock g st).block b = g.block b :=
  Function.update_of_ne (by omega) ..

/-- No edges are there yet. -/
def Unlinked (g : FlowGraph Statement) : Prop :=
  ∀ b, (g.block b).successorIds = ∅ ∧ (g.block b).predecessorIds = ∅

theorem Unlinked.closeBlock (h : Unlinked g) (st : Statement) : Unlinked (closeBlock g st) := by
  intro b
  by_cases hb : b = g.size - 1
  · rw [hb, block_closeBlock_last]
    exact h _
  · have hsame : (ControlFlow.closeBlock g st).block b = g.block b := Function.update_of_ne hb ..
    rw [hsame]
    exact h b

theorem Unlinked.pushBlock (h : Unlinked g) (ptxBegin : Option Statement) :
    Unlinked (pushBlock g ptxBegin) := by
  intro b
  by_cases hb : b = g.size
  · rw [hb, block_pushBlock_size]
    exact ⟨rfl, rfl⟩
  · have hsame : (ControlFlow.pushBlock g ptxBegin).block b = g.block b :=
      Function.update_of_ne hb ..
    rw [hsame]
    exact h b

/-- The graph and the blocks of the instructions after the rest of the list, from an instruction
on: what is cut behind it. -/
structure Cut (r : Instruction) (i : List Statement) (s : Creating) (g : FlowGraph Statement)
    (bb : ℕ → ℕ) : Prop where
  kept : ∀ uid, (∀ pI ∈ reals i, pI.uid ≠ uid) → bb uid = s.bb uid
  next : ∀ before pI labels pJ after,
    .instruction r :: i = before ++ .instruction pI :: (labels ++ .instruction pJ :: after) →
      (∀ st ∈ labels, isLabel st = true) →
        bb pJ.uid = if endsBlock pI = true ∨ labels ≠ [] then bb pI.uid + 1 else bb pI.uid
  size : ∀ pI, (r :: reals i).getLast? = some pI → g.size = bb pI.uid + 1
  grows : s.graph.size ≤ g.size
  above : ∀ pI ∈ reals i, s.graph.size ≤ bb pI.uid + 1
  earlier : ∀ b, b + 1 < s.graph.size → g.block b = s.graph.block b
  current : (g.block (s.graph.size - 1)).ptxBegin = (s.graph.block (s.graph.size - 1)).ptxBegin
  bbId : ∀ b, s.graph.size ≤ b + 1 → b < g.size → (g.block b).bbId = b
  ptxBegin : ∀ b, s.graph.size ≤ b → b < g.size → ∃ front pI back,
    reals i = front ++ pI :: back ∧ (g.block b).ptxBegin = some (.instruction pI) ∧
      bb pI.uid = b ∧ ∀ pJ ∈ front, bb pJ.uid < b
  ptxEnd : ∀ b, s.graph.size ≤ b + 1 → b < g.size → ∃ front pI back,
    r :: reals i = front ++ pI :: back ∧ (g.block b).ptxEnd = some (.instruction pI) ∧
      bb pI.uid = b ∧ ∀ pJ ∈ back, b < bb pJ.uid
  unlinked : Unlinked s.graph → Unlinked g

/-- The loop at an instruction, in the last block so far. -/
structure At (r : Instruction) (i : List Statement) (s : Creating) : Prop where
  lastReal : s.lastReal = .instruction r
  bb : s.bb r.uid + 1 = s.graph.size
  bbId : (s.graph.block (s.graph.size - 1)).bbId = s.graph.size - 1
  leaders : s.leaders = cutsFrom (.instruction r) i

theorem closeBlock_closeBlock (st st' : Statement) :
    closeBlock (closeBlock g st) st' = closeBlock g st' := by
  simp [closeBlock, FlowGraph.modify]

theorem visitFrom_trailing (hlabels : ∀ st ∈ i, isLabel st = true) (s : Creating) :
    closeBlock (visitFrom i s).graph (visitFrom i s).lastReal = closeBlock s.graph s.lastReal ∧
      (visitFrom i s).bb = s.bb := by
  induction i generalizing s with
  | nil => exact ⟨rfl, rfl⟩
  | cons st rest ih =>
      obtain ⟨hst, hrest⟩ := List.forall_mem_cons.mp hlabels
      cases st with
      | instruction pI => cases hst
      | label l =>
          have hend : findNextReal (.label l :: rest) = [] :=
            List.dropWhile_eq_nil_iff.mpr hlabels
          rw [visitFrom, assignBb, visitLeader, hend]
          split_ifs
          · obtain ⟨hgraph, hbb⟩ := ih hrest { s with
              graph := closeBlock s.graph s.lastReal, leaders := s.leaders.tail }
            exact ⟨hgraph.trans (closeBlock_closeBlock _ _), hbb⟩
          · exact ih hrest s

theorem At.cut_labels (hs : At r i s) (hlabels : ∀ st ∈ i, isLabel st = true) :
    Cut r i s (closeBlock s.graph s.lastReal) s.bb := by
  have hreals := reals_labels hlabels
  have hlast : s.graph.size - 1 = s.bb r.uid := by rw [← hs.bb, Nat.add_sub_cancel]
  have honly : ∀ b, s.graph.size ≤ b + 1 → b < s.graph.size → b = s.graph.size - 1 :=
    fun b hle hlt => by omega
  constructor
  case kept => exact fun _ _ => rfl
  case next =>
    intro before pI labels pJ after hsplit _
    have hcount := congrArg (fun l => (reals l).length) hsplit
    simp [hreals] at hcount
    omega
  case size =>
    intro pI hpI
    rw [hreals] at hpI
    obtain rfl : r = pI := Option.some.inj hpI
    exact hs.bb.symm
  case grows => exact Nat.le_refl _
  case above =>
    intro pI hpI
    rw [hreals] at hpI
    exact absurd hpI List.not_mem_nil
  case earlier => exact fun b hb => block_closeBlock_of_lt _ hb
  case current => rw [block_closeBlock_last]
  case bbId =>
    intro b hle hlt
    rw [honly b hle hlt, block_closeBlock_last]
    exact hs.bbId
  case ptxBegin => exact fun b hle hlt => absurd hlt (Nat.not_lt.mpr hle)
  case ptxEnd =>
    intro b hle hlt
    refine ⟨[], r, [], by rw [hreals]; rfl, ?_, ?_, fun pJ hJ => absurd hJ List.not_mem_nil⟩
    · rw [honly b hle hlt, block_closeBlock_last, hs.lastReal]
    · rw [honly b hle hlt, hlast]
  case unlinked => exact fun hnone => hnone.closeBlock _

theorem advance_of_cut (hcut : endsBlock r = true ∨ labels ≠ []) :
    advance r labels y s = pushBlock (closeBlock s.graph s.lastReal) (some (.instruction y)) :=
  if_pos hcut

theorem advance_of_not (hcut : ¬ (endsBlock r = true ∨ labels ≠ [])) :
    advance r labels y s = s.graph :=
  if_neg hcut

theorem size_advance (r : Instruction) (labels : List Statement) (y : Instruction)
    (hsize : 0 < s.graph.size) : (advance r labels y s).size =
    if endsBlock r = true ∨ labels ≠ [] then s.graph.size - 1 + 2 else s.graph.size := by
  rw [advance]
  split_ifs
  · rw [size_pushBlock, size_closeBlock]
    omega
  · rfl

theorem At.advanced (hs : At r i s) : At y rest (advanced r labels y rest s) := by
  have hpos : 0 < s.graph.size := hs.bb ▸ Nat.succ_pos _
  constructor
  case lastReal => rfl
  case bb =>
    have hsize : 0 < (advance r labels y s).size := by
      rw [size_advance r labels y hpos]
      split_ifs <;> omega
    show Function.update s.bb y.uid ((advance r labels y s).size - 1) y.uid + 1 = _
    rw [Function.update_self]
    exact Nat.sub_add_cancel hsize
  case bbId =>
    show ((advance r labels y s).block ((advance r labels y s).size - 1)).bbId = _
    by_cases hcut : endsBlock r = true ∨ labels ≠ []
    · rw [ControlFlow.advanced, advance_of_cut hcut, size_pushBlock, Nat.add_sub_cancel,
        block_pushBlock_size]
    · rw [ControlFlow.advanced, advance_of_not hcut]
      exact hs.bbId
  case leaders => rfl

theorem At.cut_next {labels : List Statement} (hs : At r (labels ++ .instruction y :: rest) s)
    (hlabels : ∀ st ∈ labels, isLabel st = true) (hne : r.uid ≠ y.uid)
    (hfresh : ∀ pI ∈ reals rest, pI.uid ≠ r.uid ∧ pI.uid ≠ y.uid)
    (hcut : Cut y rest (ControlFlow.advanced r labels y rest s) g bb) :
    Cut r (labels ++ .instruction y :: rest) s g bb := by
  have hreals : reals (labels ++ .instruction y :: rest) = y :: reals rest :=
    reals_labels_append hlabels
  have hpos : 0 < s.graph.size := hs.bb ▸ Nat.succ_pos _
  have hsize := size_advance r labels y hpos
  have hr : bb r.uid + 1 = s.graph.size := by
    rw [hcut.kept r.uid fun pI hpI => (hfresh pI hpI).1, ← hs.bb]
    exact congrArg (· + 1) (Function.update_of_ne hne ..)
  have hy : bb y.uid + 1 = (advance r labels y s).size := by
    rw [hcut.kept y.uid fun pI hpI => (hfresh pI hpI).2]
    have hat : At y rest (ControlFlow.advanced r labels y rest s) := hs.advanced
    exact hat.bb
  have hle : s.graph.size ≤ (advance r labels y s).size := by
    rw [hsize]
    split_ifs <;> omega
  have hbegun : endsBlock r = true ∨ labels ≠ [] →
      (advance r labels y s).size = s.graph.size + 1 := by
    intro hcutting
    rw [advance_of_cut hcutting]
    rfl
  have hstay : ¬ (endsBlock r = true ∨ labels ≠ []) →
      (ControlFlow.advanced r labels y rest s).graph = s.graph := advance_of_not
  -- The block of `r` is closed, and what is behind it does not change it.
  have hclosed : endsBlock r = true ∨ labels ≠ [] → g.block (s.graph.size - 1) =
      { s.graph.block (s.graph.size - 1) with ptxEnd := some s.lastReal } := by
    intro hcutting
    have hlt : s.graph.size - 1 + 1 < (advance r labels y s).size := by
      rw [hbegun hcutting]
      omega
    rw [hcut.earlier _ hlt]
    show (advance r labels y s).block _ = _
    rw [advance_of_cut hcutting, block_pushBlock_of_lt _ (by rw [size_closeBlock]; omega),
      block_closeBlock_last]
  constructor
  case kept =>
    intro uid hother
    rw [hreals] at hother
    obtain ⟨hyne, hrest⟩ := List.forall_mem_cons.mp hother
    rw [hcut.kept uid hrest]
    exact Function.update_of_ne (Ne.symm hyne) ..
  case next =>
    intro before pI labels' pJ after hsplit hlabels'
    cases before with
    | nil =>
        obtain ⟨heq, hrest⟩ := List.cons.inj hsplit
        obtain rfl := Statement.instruction.inj heq
        rcases labels_append_eq hlabels hrest with ⟨rfl, rfl, rfl⟩ | ⟨front, rfl, -⟩
        · have hstep : bb y.uid + 1 =
              if endsBlock r = true ∨ labels' ≠ [] then bb r.uid + 1 + 1 else bb r.uid + 1 := by
            rw [hy, hsize, hr]
            split_ifs <;> omega
          split_ifs at hstep ⊢ <;> omega
        · have hy' := hlabels' (.instruction y) (List.mem_append_right _ List.mem_cons_self)
          cases hy'
    | cons st before =>
        obtain ⟨-, hrest⟩ := List.cons.inj hsplit
        rcases labels_append_eq hlabels hrest with ⟨rfl, rfl, rfl⟩ | ⟨front, rfl, rfl⟩
        · exact hcut.next [] y labels' pJ after rfl hlabels'
        · exact hcut.next (.instruction y :: front) pI labels' pJ after rfl hlabels'
  case size =>
    intro pI hpI
    rw [hreals, List.getLast?_cons_cons] at hpI
    exact hcut.size pI hpI
  case grows => exact hle.trans hcut.grows
  case above =>
    intro pI hpI
    rw [hreals] at hpI
    rcases List.mem_cons.mp hpI with rfl | hpI
    · rw [hy]
      exact hle
    · exact hle.trans (hcut.above pI hpI)
  case earlier =>
    intro b hb
    rw [hcut.earlier b (Nat.lt_of_lt_of_le hb hle)]
    show (advance r labels y s).block b = _
    rw [advance]
    split_ifs
    · rw [block_pushBlock_of_lt _ (by rw [size_closeBlock]; omega), block_closeBlock_of_lt _ hb]
    · rfl
  case current =>
    by_cases hcutting : endsBlock r = true ∨ labels ≠ []
    · rw [hclosed hcutting]
    · have hsame := hcut.current
      rwa [hstay hcutting] at hsame
  case bbId =>
    intro b hle' hlt
    by_cases hcutting : endsBlock r = true ∨ labels ≠ []
    · rcases Nat.eq_or_lt_of_le hle' with heq | hgt
      · obtain rfl : b = s.graph.size - 1 := by omega
        rw [hclosed hcutting]
        exact hs.bbId
      · exact hcut.bbId b ((hbegun hcutting).trans_le (Nat.succ_le_of_lt hgt)) hlt
    · refine hcut.bbId b ?_ hlt
      rw [hstay hcutting]
      exact hle'
  case ptxBegin =>
    intro b hle' hlt
    rw [hreals]
    have hlater : (advance r labels y s).size ≤ b → ∃ front pI back,
        y :: reals rest = front ++ pI :: back ∧
          (g.block b).ptxBegin = some (.instruction pI) ∧ bb pI.uid = b ∧
            ∀ pJ ∈ front, bb pJ.uid < b := by
      intro hge
      obtain ⟨front, pI, back, hsplit, hbegin, hpI, hfront⟩ := hcut.ptxBegin b hge hlt
      refine ⟨y :: front, pI, back, by rw [hsplit]; rfl, hbegin, hpI, fun pJ hJ => ?_⟩
      rcases List.mem_cons.mp hJ with rfl | hJ
      · omega
      · exact hfront pJ hJ
    by_cases hcutting : endsBlock r = true ∨ labels ≠ []
    · rcases Nat.eq_or_lt_of_le hle' with rfl | hgt
      · have hnew : (g.block ((advance r labels y s).size - 1)).ptxBegin =
            ((advance r labels y s).block ((advance r labels y s).size - 1)).ptxBegin :=
          hcut.current
        rw [hbegun hcutting, Nat.add_sub_cancel] at hnew
        refine ⟨[], y, reals rest, rfl, hnew.trans ?_, ?_, fun pJ hJ => absurd hJ List.not_mem_nil⟩
        · rw [advance_of_cut hcutting, ← size_closeBlock s.lastReal, block_pushBlock_size]
        · exact Nat.succ.inj (hy.trans (hbegun hcutting))
      · apply hlater
        exact (hbegun hcutting).trans_le hgt
    · apply hlater
      rw [advance_of_not hcutting]
      exact hle'
  case ptxEnd =>
    intro b hle' hlt
    rw [hreals]
    have hlater : (advance r labels y s).size ≤ b + 1 → ∃ front pI back,
        r :: y :: reals rest = front ++ pI :: back ∧
          (g.block b).ptxEnd = some (.instruction pI) ∧ bb pI.uid = b ∧
            ∀ pJ ∈ back, b < bb pJ.uid := by
      intro hge
      obtain ⟨front, pI, back, hsplit, hend⟩ := hcut.ptxEnd b hge hlt
      exact ⟨r :: front, pI, back, by rw [hsplit]; rfl, hend⟩
    by_cases hcutting : endsBlock r = true ∨ labels ≠ []
    · rcases Nat.eq_or_lt_of_le hle' with heq | hgt
      · obtain rfl : b = s.graph.size - 1 := by omega
        refine ⟨[], r, y :: reals rest, rfl, ?_, by omega, fun pJ hJ => ?_⟩
        · rw [hclosed hcutting, hs.lastReal]
        · have hsize' := hbegun hcutting
          rcases List.mem_cons.mp hJ with rfl | hJ
          · omega
          · have habove : (advance r labels y s).size ≤ bb pJ.uid + 1 := hcut.above pJ hJ
            omega
      · exact hlater ((hbegun hcutting).trans_le (Nat.succ_le_of_lt hgt))
    · apply hlater
      rw [advance_of_not hcutting]
      exact hle'
  case unlinked =>
    intro hnone
    apply hcut.unlinked
    show Unlinked (advance r labels y s)
    rw [advance]
    split_ifs
    · exact (hnone.closeBlock _).pushBlock _
    · exact hnone

theorem At.cut (hs : At r i s) (hnodup : ((r :: reals i).map Instruction.uid).Nodup) :
    Cut r i s (closeBlock (visitFrom i s).graph (visitFrom i s).lastReal) (visitFrom i s).bb := by
  induction hlen : i.length using Nat.strong_induction_on generalizing r i s with
  | _ n ih =>
      rcases labels_or_instruction i with hlabels | ⟨labels, y, rest, rfl, hlabels⟩
      · obtain ⟨hgraph, hbb⟩ := visitFrom_trailing hlabels s
        rw [hgraph, hbb]
        exact hs.cut_labels hlabels
      · rw [reals_labels_append hlabels, List.map_cons, List.map_cons, List.nodup_cons,
          List.nodup_cons] at hnodup
        obtain ⟨hr, hy, hrest⟩ := hnodup
        rw [List.mem_cons, not_or] at hr
        have hlt : rest.length < n := by
          rw [← hlen, List.length_append, List.length_cons]
          omega
        rw [visitFrom_next hs.leaders hlabels]
        refine hs.cut_next hlabels hr.1 (fun pI hpI => ⟨?_, ?_⟩) ?_
        · rintro heq
          exact hr.2 (heq ▸ List.mem_map_of_mem hpI)
        · rintro heq
          exact hy (heq ▸ List.mem_map_of_mem hpI)
        · exact ih _ hlt hs.advanced (List.nodup_cons.mpr ⟨hy, hrest⟩) rfl

/-! ## The blocks -/

theorem exists_first (hone : ∀ l l' rest, instructions ≠ .label l :: .label l' :: rest)
    (hreal : reals instructions ≠ []) : ∃ head r rest,
      instructions = head ++ .instruction r :: rest ∧ (head = [] ∨ ∃ l, head = [.label l]) := by
  rcases instructions with _ | ⟨l | r, rest⟩
  · exact absurd rfl hreal
  · rcases rest with _ | ⟨l' | r, rest⟩
    · exact absurd rfl hreal
    · exact absurd rfl (hone l l' rest)
    · exact ⟨[.label l], r, rest, rfl, .inr ⟨l, rfl⟩⟩
  · exact ⟨[], r, rest, rfl, .inl rfl⟩

/-- The loop behind the first instruction. -/
def firstState (r : Instruction) (rest : List Statement) : Creating where
  graph := pushBlock noBlocks (some (.instruction r))
  lastReal := .instruction r
  leaders := cutsFrom (.instruction r) rest
  bb := Function.update (fun _ => 0) r.uid 0

theorem firstState_at : At r rest (firstState r rest) := by
  constructor
  case lastReal => rfl
  case bb =>
    show Function.update (fun _ => 0) r.uid 0 r.uid + 1 = 1
    rw [Function.update_self]
  case bbId => rfl
  case leaders => rfl

theorem createBasicBlocks_eq
    (hone : ∀ l l' rest, instructions ≠ .label l :: .label l' :: rest)
    (hfirst : ∀ pI pJ rest, instructions = .instruction pI :: .instruction pJ :: rest →
      endsBlock pI = false)
    (hsplit : instructions = front ++ .instruction r :: rest)
    (hfront : front = [] ∨ ∃ l, front = [.label l]) :
    createBasicBlocks instructions =
      .ok (pushBlock (closeBlock (visitFrom rest (firstState r rest)).graph
        (visitFrom rest (firstState r rest)).lastReal) none,
        (visitFrom rest (firstState r rest)).bb) := by
  have hnext : findNextReal instructions = .instruction r :: rest := by
    rw [hsplit]
    rcases hfront with rfl | ⟨l, rfl⟩
    · rfl
    · rfl
  have hleaders : (leaders instructions).tail = cutsFrom (.instruction r) rest := by
    rw [leaders_tail hone hfirst, hnext]
    rfl
  have hbehind : ∀ j ∈ cutsFrom (.instruction r) rest, j.length ≤ rest.length :=
    fun j hj => length_le_of_mem_cutsFrom hj
  have hvisit : ∀ st : Statement, visitFrom instructions
      { graph := pushBlock noBlocks (some (.instruction r))
        lastReal := st
        leaders := cutsFrom (.instruction r) rest
        bb := fun _ => 0 } = visitFrom rest (firstState r rest) := by
    intro st
    rw [hsplit]
    rcases hfront with rfl | ⟨l, rfl⟩
    · rw [List.nil_append, visitFrom, visitLeader_of_length hbehind (Nat.lt_succ_self _)]
      rfl
    · rw [List.singleton_append, visitFrom,
        visitLeader_of_length hbehind (Nat.lt_succ_of_lt (Nat.lt_succ_self _)), assignBb, visitFrom,
        visitLeader_of_length hbehind (Nat.lt_succ_self _)]
      rfl
  obtain ⟨first, tail, hcons⟩ : ∃ first tail, instructions = first :: tail := by
    rw [hsplit]
    rcases hfront with rfl | ⟨l, rfl⟩
    · exact ⟨_, _, rfl⟩
    · exact ⟨_, _, rfl⟩
  subst hcons
  simp only [createBasicBlocks, hnext, hleaders, hvisit]

theorem Cut.partitions (hcut : Cut r rest (firstState r rest) g bb)
    (hfresh : ∀ pI ∈ reals rest, pI.uid ≠ r.uid)
    (hsplit : instructions = front ++ .instruction r :: rest)
    (hlabels : ∀ st ∈ front, isLabel st = true) :
    Partitions instructions (pushBlock g none) bb := by
  have hreals : reals instructions = r :: reals rest := by
    rw [hsplit]
    exact reals_labels_append hlabels
  have hr : bb r.uid = 0 := by
    rw [hcut.kept r.uid hfresh]
    show Function.update (fun _ => 0) r.uid 0 r.uid = 0
    rw [Function.update_self]
  constructor
  case first =>
    intro pI hpI
    rw [firstReal, hreals] at hpI
    obtain rfl : r = pI := Option.some.inj hpI
    exact hr
  case next =>
    intro before pI labels pJ after hplace hlabels'
    rw [hsplit] at hplace
    rcases labels_append_eq hlabels hplace with ⟨rfl, rfl, rfl⟩ | ⟨middle, rfl, rfl⟩
    · exact hcut.next [] r labels pJ after rfl hlabels'
    · exact hcut.next (.instruction r :: middle) pI labels pJ after rfl hlabels'
  case size =>
    intro pI hpI
    rw [hreals] at hpI
    rw [size_pushBlock, hcut.size pI hpI]
  case bbId =>
    intro b hb
    rcases Nat.lt_succ_iff_lt_or_eq.mp hb with hlt | rfl
    · rw [block_pushBlock_of_lt _ hlt]
      exact hcut.bbId b (Nat.succ_le_succ (Nat.zero_le b)) hlt
    · rw [block_pushBlock_size]
  case ptxBegin =>
    intro b hb
    have hlt : b < g.size := Nat.lt_of_succ_lt_succ hb
    rw [block_pushBlock_of_lt _ hlt, hreals]
    cases b with
    | zero =>
        exact ⟨[], r, reals rest, rfl, hcut.current, hr,
          fun pJ hJ => absurd hJ List.not_mem_nil⟩
    | succ b =>
        obtain ⟨before, pI, after, hplace, hbegin, hpI, hbefore⟩ :=
          hcut.ptxBegin (b + 1) (Nat.succ_le_succ (Nat.zero_le b)) hlt
        refine ⟨r :: before, pI, after, by rw [hplace]; rfl, hbegin, hpI, fun pJ hJ => ?_⟩
        rcases List.mem_cons.mp hJ with rfl | hJ
        · rw [hr]
          exact Nat.succ_pos b
        · exact hbefore pJ hJ
  case ptxEnd =>
    intro b hb
    have hlt : b < g.size := Nat.lt_of_succ_lt_succ hb
    rw [block_pushBlock_of_lt _ hlt, hreals]
    exact hcut.ptxEnd b (Nat.succ_le_succ (Nat.zero_le b)) hlt
  case exit =>
    rw [size_pushBlock, Nat.add_sub_cancel, block_pushBlock_size]
    exact ⟨rfl, rfl⟩

theorem Constructible.partitions (hc : Constructible instructions) :
    ∃ g bb, createBasicBlocks instructions = .ok (g, bb) ∧ Partitions instructions g bb ∧
      Unlinked g := by
  obtain ⟨pI, hlast, -⟩ := hc.last
  have hreal : reals instructions ≠ [] := by
    intro hnone
    rw [hnone] at hlast
    cases hlast
  obtain ⟨front, r, rest, hsplit, hfront⟩ := exists_first hc.oneLabel hreal
  have hlabels : ∀ st ∈ front, isLabel st = true := by
    rcases hfront with rfl | ⟨l, rfl⟩
    · exact fun st hst => absurd hst List.not_mem_nil
    · exact fun st hst => by rw [List.mem_singleton.mp hst]; rfl
  have hreals : reals instructions = r :: reals rest := by
    rw [hsplit]
    exact reals_labels_append hlabels
  have hnodup := hc.nodup
  rw [hreals] at hnodup
  have hcut := firstState_at.cut hnodup
  refine ⟨_, _, createBasicBlocks_eq hc.oneLabel hc.first hsplit hfront, ?_, ?_⟩
  · rw [List.map_cons, List.nodup_cons] at hnodup
    refine hcut.partitions (fun pI hpI heq => ?_) hsplit hlabels
    exact hnodup.1 (heq ▸ List.mem_map_of_mem hpI)
  · exact (hcut.unlinked (Unlinked.pushBlock (fun _ => ⟨rfl, rfl⟩) _)).pushBlock _

theorem Partitions.le_and_straight (hp : Partitions instructions g bb) (middle : List Statement)
    (hplace : instructions = before ++ .instruction pI :: (middle ++ .instruction pJ :: after)) :
    bb pI.uid ≤ bb pJ.uid ∧ (bb pI.uid = bb pJ.uid →
      endsBlock pI = false ∧ ∀ st ∈ middle, isLabel st = false) := by
  induction hn : middle.length using Nat.strong_induction_on generalizing before pI middle with
  | _ n ih =>
      rcases labels_or_instruction (middle ++ .instruction pJ :: after) with
        hall | ⟨labels, y, rest, hrest, hlabels⟩
      · have hreal := hall (.instruction pJ) (List.mem_append_right _ List.mem_cons_self)
        cases hreal
      have hnext := hp.next before pI labels y rest (hrest ▸ hplace) hlabels
      rcases labels_append_eq hlabels hrest.symm with ⟨rfl, rfl, rfl⟩ | ⟨front, rfl, rfl⟩
      · rw [hnext]
        split_ifs with hcut
        · exact ⟨Nat.le_succ _, fun h => absurd h (Nat.ne_of_lt (Nat.lt_succ_self _))⟩
        · rw [not_or, Bool.not_eq_true, not_not] at hcut
          obtain ⟨hends, rfl⟩ := hcut
          exact ⟨le_rfl, fun _ => ⟨hends, fun st hst => absurd hst List.not_mem_nil⟩⟩
      · have hplace' : instructions = (before ++ .instruction pI :: labels) ++
            .instruction y :: (front ++ .instruction pJ :: after) := by
          rw [hplace]
          simp
        obtain ⟨hle, hsame⟩ := ih front.length (by rw [← hn]; simp; omega) front hplace' rfl
        rw [hnext] at hle hsame
        split_ifs at hle hsame with hcut
        · exact ⟨Nat.le_of_succ_le hle, fun h => absurd (h ▸ hle) (Nat.not_succ_le_self _)⟩
        · rw [not_or, Bool.not_eq_true, not_not] at hcut
          obtain ⟨hends, rfl⟩ := hcut
          refine ⟨hle, fun h => ⟨hends, List.forall_mem_cons.mpr ⟨rfl, (hsame h).2⟩⟩⟩

theorem Partitions.straight (hp : Partitions instructions g bb) : Straight instructions bb :=
  fun _ _ middle _ _ hplace => (hp.le_and_straight middle hplace).2

end GpuCalorie.Ptx.ControlFlow
