/-
# The edges between basic blocks

In the memory that `ptx_assemble` leaves, the instruction behind another one and the one behind the
label of a branch stand where `connect_basic_blocks` looks for them. So a block is linked to the
blocks of what can be executed after its last instruction, and to no others.
-/

import GpuCalorie.Ptx.BlockCreation

namespace GpuCalorie.Ptx.ControlFlow

open GpuCalorie.Math Assembly

variable {instructions before after rest : List Statement} {pI pJ : Instruction}
  {info : Assembly.FunctionInfo} {memSize : ℕ} {index bb : ℕ → ℕ} {g h : FlowGraph Statement}
  {successors : ℕ → Finset ℕ} {S : Finset ℕ} {i : ℕ} {name : String} {c : Context}

/-! ## Places in a list -/

theorem behind_unique {α : Type*} {before after before' after' : List α} {a a' : α}
    (h : before ++ a :: after = before' ++ a' :: after') (ha' : a' ∉ after) (ha : a ∉ after') :
    after = after' := by
  rcases List.append_eq_append_iff.mp h with ⟨middle, -, hrest⟩ | ⟨middle, -, hrest⟩
  · cases middle with
    | nil => exact (List.cons.inj hrest).2
    | cons b middle =>
        obtain ⟨-, rfl⟩ := List.cons.inj hrest
        exact absurd (List.mem_append_right _ List.mem_cons_self) ha'
  · cases middle with
    | nil => exact (List.cons.inj hrest).2.symm
    | cons b middle =>
        obtain ⟨-, rfl⟩ := List.cons.inj hrest
        exact absurd (List.mem_append_right _ List.mem_cons_self) ha

theorem mem_reals : pI ∈ reals instructions ↔ .instruction pI ∈ instructions := by
  induction instructions with
  | nil => exact iff_of_false List.not_mem_nil List.not_mem_nil
  | cons st rest ih =>
      cases st with
      | label l => rw [reals_label, ih, List.mem_cons, or_iff_right (fun h => nomatch h)]
      | instruction pJ => rw [reals_instruction, List.mem_cons, List.mem_cons, ih,
          Statement.instruction.injEq]

theorem Constructible.behind_eq (hc : Constructible instructions) {before' after' : List Statement}
    (h : instructions = before ++ .instruction pI :: after)
    (h' : instructions = before' ++ .instruction pI :: after') : after = after' := by
  have hnot : ∀ {front back : List Statement}, instructions = front ++ .instruction pI :: back →
      Statement.instruction pI ∉ back := by
    intro front back hsplit hmem
    have hnodup := hc.nodup
    rw [hsplit, reals_append, reals_instruction, List.map_append, List.map_cons] at hnodup
    exact (List.nodup_cons.mp (List.nodup_append.mp hnodup).2.1).1
      (List.mem_map_of_mem (mem_reals.mpr hmem))
  exact behind_unique (h.symm.trans h') (hnot h) (hnot h')

theorem labelOffset_eq_none (n : ℕ) (hnone : ∀ l, .label l ∈ rest → l.name ≠ name) :
    labelOffset name n rest = none := by
  induction rest generalizing n with
  | nil => rfl
  | cons st rest ih =>
      have hrest := fun n => ih n fun l hl => hnone l (List.mem_cons_of_mem _ hl)
      cases st with
      | label l =>
          rw [labelOffset, hrest, if_neg (hnone l List.mem_cons_self)]
          rfl
      | instruction pI => rw [labelOffset, hrest]

/-! ## Places in the memory -/

namespace Assembled

variable (ha : Assembled info memSize index instructions)
include ha

theorem instrMem_first (h : instructions = before ++ after) (hfirst : firstReal after = some pJ) :
    info.instrMem (bytes before) = some (some pJ) := by
  obtain ⟨rest, hrest⟩ := List.head?_eq_some_iff.mp hfirst
  rw [ha.instrMem, h, reals_append, hrest]
  exact getElem?_layout instSize_pos _ _ _

theorem instrMem_next (h : instructions = before ++ .instruction pI :: after)
    (hfirst : firstReal after = some pJ) :
    info.instrMem (index pI.uid + pI.instSize) = some (some pJ) ∧
      index pI.uid + pI.instSize < memSize := by
  have hplace : bytes (before ++ [.instruction pI]) = index pI.uid + pI.instSize := by
    rw [ha.index before pI after h, bytes_append]
    rfl
  have h' : instructions = (before ++ [.instruction pI]) ++ after := by
    rw [h, List.append_assoc, List.singleton_append]
  constructor
  · rw [← hplace]
    exact ha.instrMem_first h' hfirst
  · have hsize := ha.memSize
    obtain ⟨rest, hrest⟩ := List.head?_eq_some_iff.mp hfirst
    have hpos : 0 < bytes after := by
      rw [bytes, hrest, extent_cons]
      exact Nat.add_pos_left (instSize_pos pJ) _
    rw [h', bytes_append, hplace] at hsize
    omega

theorem instrMem_label {l : Symbol} (h : instructions = before ++ .label l :: after)
    (hname : l.name = name) (hlast : ∀ l', .label l' ∈ after → l'.name ≠ name)
    (hfirst : firstReal after = some pJ) :
    info.instrMem ((info.labels name).getD 0) = some (some pJ) := by
  have hoffset : labelOffset name 0 instructions = some (bytes before) := by
    rw [h, labelOffset_append, Nat.zero_add, labelOffset, labelOffset_eq_none _ hlast,
      if_pos hname]
    rfl
  rw [ha.labels name _ hoffset]
  exact ha.instrMem_first h hfirst

end Assembled

theorem assembled_of_ptxAssemble {d : Definition} {s t : Assembler} (hs : Standing s)
    (hnew : NewObjects s d) (hassembled : (s.functions d.function).assembled = false)
    (hfits : s.pcToInsn.length + s.pcToInsn.length % maxInstSize + bytes d.instructions ≤ addrs)
    (hmemory : bytes d.instructions ≤ maxInstSize * (d.instructions.length + 1) % addrs)
    (hrun : ptxAssemble d s = .ok t) :
    Assembled (t.functions d.function) (maxInstSize * (d.instructions.length + 1) % addrs)
      (fun uid => (t.pc uid).getD 0 - (t.functions d.function).startPc) d.instructions := by
  obtain ⟨loaded, hloads, hloaded⟩ := hs.load hnew hfits hmemory
  rw [ptxAssemble_of_loaded hassembled hloads] at hrun
  cases hresolve : resolveFrom (loadedInfo d s loaded) d.symtab loaded.pc (loaded.n + 1) 0
    s.address with
  | error e =>
      rw [hresolve] at hrun
      cases hrun
  | ok address =>
      rw [hresolve] at hrun
      cases hrun
      have hinfo : Function.update s.functions d.function (loadedInfo d s loaded) d.function =
          loadedInfo d s loaded := Function.update_self ..
      dsimp only
      rw [hinfo]
      constructor
      case labels =>
        intro name v hv
        show loaded.labels name = some v
        rw [hloaded.labels, hv]
        rfl
      case instrMem => exact hloaded.instrMem
      case memSize => exact hmemory
      case index =>
        intro before pI after hplace
        have hplaced := hloaded.placed (reals before) pI (reals after)
          (by rw [hplace, reals_append, reals_instruction])
        have hpos : 0 < bytes d.instructions := by
          rw [hplace, bytes_append, bytes_instruction]
          exact Nat.add_pos_right _ (Nat.add_pos_left (instSize_pos pI) _)
        have hstart : (loadedInfo d s loaded).startPc =
            s.pcToInsn.length + s.pcToInsn.length % maxInstSize := by
          show (s.nextPc + s.nextPc % maxInstSize) % addrs = _
          rw [hs.nextPc, Nat.mod_add_mod, Nat.mod_mod_of_dvd _ (by decide)]
          exact Nat.mod_eq_of_lt (by omega)
        rw [hplaced, hstart, hs.length_padding.1]
        exact Nat.add_sub_cancel_left ..

/-! ## What can be executed next -/

/-- Where a branch leads. -/
def Leads (instructions : List Statement) (pI next : Instruction) : Prop :=
  pI.opcode = .braOp ∧ ∃ before l after, instructions = before ++ .label l :: after ∧
    l.name = pI.target.name ∧ (∀ l', .label l' ∈ after → l'.name ≠ pI.target.name) ∧
      firstReal after = some next

theorem Constructible.exists_leads (hc : Constructible instructions)
    (hmem : pI ∈ reals instructions) (hbranch : pI.opcode = .braOp) :
    ∃ y, Leads instructions pI y := by
  obtain ⟨before, l, after, hplace, hname, hlast, hbehind⟩ := hc.targets pI hmem hbranch
  obtain ⟨y, hy⟩ := Option.ne_none_iff_exists'.mp hbehind
  exact ⟨y, hbranch, before, l, after, hplace, hname, hlast, hy⟩

theorem Leads.unique {y z : Instruction} (hy : Leads instructions pI y)
    (hz : Leads instructions pI z) : y = z := by
  obtain ⟨-, before, l, after, hplace, hname, hlast, hfirst⟩ := hy
  obtain ⟨-, before', l', after', hplace', hname', hlast', hfirst'⟩ := hz
  have hafter : after = after' := behind_unique (hplace.symm.trans hplace')
    (fun hmem => hlast l' hmem hname') (fun hmem => hlast' l hmem hname)
  rw [hafter, hfirst'] at hfirst
  exact (Option.some.inj hfirst).symm

theorem Constructible.exists_behind (hc : Constructible instructions)
    (hplace : instructions = before ++ .instruction pI :: after)
    (hgoes : neverFalls pI = false) : ∃ y, firstReal after = some y := by
  cases hfirst : firstReal after with
  | some y => exact ⟨y, rfl⟩
  | none =>
      obtain ⟨pJ, hlast, hnever⟩ := hc.last
      have hnone : reals after = [] := List.head?_eq_none_iff.mp hfirst
      rw [hplace, reals_append, reals_instruction, hnone, List.getLast?_concat] at hlast
      rw [← Option.some.inj hlast, hgoes] at hnever
      cases hnever

theorem Constructible.nextExecuted_some (hc : Constructible instructions)
    (hplace : instructions = before ++ .instruction pI :: after) :
    NextExecuted instructions pI (some pJ) ↔
      (neverFalls pI = false ∧ firstReal after = some pJ) ∨ Leads instructions pI pJ := by
  constructor
  · intro h
    cases h with
    | falls place goesOn behind =>
        rw [hc.behind_eq place hplace] at behind
        exact .inl ⟨goesOn, behind⟩
    | jumps isBranch place name last behind =>
        exact .inr ⟨isBranch, _, _, _, place, name, last, behind⟩
  · rintro (⟨goesOn, behind⟩ | ⟨isBranch, _, _, _, place, name, last, behind⟩)
    · exact .falls hplace goesOn behind
    · exact .jumps isBranch place name last behind

theorem nextExecuted_none : NextExecuted instructions pI none ↔ isReturn pI = true :=
  ⟨fun h => by cases h; assumption, .left⟩

/-- The successors that a block of a last instruction should have. -/
def Succeeds (instructions : List Statement) (size : ℕ) (bb : ℕ → ℕ) (pI : Instruction) (q : ℕ) :
    Prop :=
  (q + 1 = size ∧ NextExecuted instructions pI none) ∨
    ∃ pJ, NextExecuted instructions pI (some pJ) ∧ bb pJ.uid = q

theorem Constructible.succeeds_iff (hc : Constructible instructions)
    (hplace : instructions = before ++ .instruction pI :: after) (size q : ℕ) :
    Succeeds instructions size bb pI q ↔
      (isReturn pI = true ∧ q + 1 = size) ∨
        (neverFalls pI = false ∧ ∃ y, firstReal after = some y ∧ q = bb y.uid) ∨
          ∃ y, Leads instructions pI y ∧ q = bb y.uid := by
  simp only [Succeeds, nextExecuted_none, hc.nextExecuted_some hplace]
  constructor
  · rintro (⟨hq, hret⟩ | ⟨pJ, ⟨hgoes, hfirst⟩ | hleads, rfl⟩)
    · exact .inl ⟨hret, hq⟩
    · exact .inr (.inl ⟨hgoes, pJ, hfirst, rfl⟩)
    · exact .inr (.inr ⟨pJ, hleads, rfl⟩)
  · rintro (⟨hret, hq⟩ | ⟨hgoes, y, hfirst, rfl⟩ | ⟨y, hleads, rfl⟩)
    · exact .inl ⟨hq, hret⟩
    · exact .inr ⟨y, .inl ⟨hgoes, hfirst⟩, rfl⟩
    · exact .inr ⟨y, .inr hleads, rfl⟩

/-! ## One block -/

theorem linkTo_ok {addr : ℕ} (hcell : c.info.instrMem addr = some (some pJ)) :
    linkTo c i addr h = .ok (h.link i (c.bb pJ.uid)) := by
  rw [linkTo, hcell]

theorem hasSuccessors_link (hs : g.HasSuccessors (Function.update successors i S) h)
    (hi : i < g.size) (target : ℕ) :
    g.HasSuccessors (Function.update successors i (insert target S)) (h.link i target) := by
  have hlinked := hs.link hi target
  rwa [Function.update_self, Function.update_idem] at hlinked

section ConnectEnd

variable {c : Context} (hc : Constructible instructions)
  (ha : Assembled c.info c.memSize c.index instructions)
  (hplace : instructions = before ++ .instruction pI :: after)
  (hs : g.HasSuccessors (Function.update successors i ∅) h) (hi : i < g.size)
include hc ha hplace hs hi

theorem connectEnd_of_return (hret : isReturn pI = true) :
    ∃ h' S, connectEnd c i pI h = .ok h' ∧
      g.HasSuccessors (Function.update successors i S) h' ∧
        ∀ q, q ∈ S ↔ Succeeds instructions g.size c.bb pI q := by
  have hnot : ∀ y, ¬ Leads instructions pI y := by
    rintro y ⟨hbranch, -⟩
    simp [isReturn, hbranch] at hret
  have hexit : ∀ q, q = h.size - 1 ↔ q + 1 = g.size := by
    intro q
    rw [hs.size]
    omega
  have hleft := hasSuccessors_link hs hi (h.size - 1)
  simp only [hc.succeeds_iff hplace, connectEnd, if_pos hret]
  cases hpred : pI.hasPred with
  | false =>
      have hnever : neverFalls pI = true := by simp [neverFalls, hpred, hret]
      refine ⟨_, _, rfl, hleft, fun q => ?_⟩
      simp [hexit, hret, hnever, hnot]
  | true =>
      have hgoes : neverFalls pI = false := by simp [neverFalls, hpred]
      obtain ⟨y, hy⟩ := hc.exists_behind hplace hgoes
      obtain ⟨hcell, hlt⟩ := ha.instrMem_next hplace hy
      refine ⟨_, _, ?_, hasSuccessors_link hleft hi (c.bb y.uid), fun q => ?_⟩
      · rw [if_pos rfl, if_pos hlt, hcell]
        exact linkTo_ok hcell
      · simp [hexit, hret, hgoes, hnot, hy, or_comm]

theorem connectEnd_of_branch (hbranch : pI.opcode = .braOp) :
    ∃ h' S, connectEnd c i pI h = .ok h' ∧
      g.HasSuccessors (Function.update successors i S) h' ∧
        ∀ q, q ∈ S ↔ Succeeds instructions g.size c.bb pI q := by
  have hret : ¬ isReturn pI = true := by simp [isReturn, hbranch]
  have hmem : pI ∈ reals instructions := by
    rw [hplace, reals_append, reals_instruction]
    exact List.mem_append_right _ List.mem_cons_self
  obtain ⟨z, hz⟩ := hc.exists_leads hmem hbranch
  have honly : ∀ y, Leads instructions pI y ↔ y = z :=
    fun y => ⟨fun hy => hy.unique hz, fun h => h ▸ hz⟩
  obtain ⟨-, front, l, back, hlabel, hname, hlast, hfirst⟩ := hz
  have hcell := ha.instrMem_label hlabel hname hlast hfirst
  have hjump := hasSuccessors_link hs hi (c.bb z.uid)
  simp only [hc.succeeds_iff hplace, connectEnd, if_neg hret, if_pos hbranch, linkTo_ok hcell]
  cases hpred : pI.hasPred with
  | false =>
      have hnever : neverFalls pI = true := by simp [neverFalls, hpred, hbranch]
      refine ⟨_, _, ?_, hjump, fun q => ?_⟩
      · exact if_neg (not_not_intro ⟨hbranch, rfl⟩)
      · simp [hret, hnever, honly]
  | true =>
      have hgoes : neverFalls pI = false := by simp [neverFalls, hpred]
      obtain ⟨y, hy⟩ := hc.exists_behind hplace hgoes
      obtain ⟨hnext, -⟩ := ha.instrMem_next hplace hy
      refine ⟨_, _, ?_, hasSuccessors_link hjump hi (c.bb y.uid), fun q => ?_⟩
      · exact (if_pos (fun h => nomatch h.2)).trans (linkTo_ok hnext)
      · simp [hret, hgoes, honly, hy]

theorem connectEnd_of_other (hret : ¬ isReturn pI = true) (hbranch : pI.opcode ≠ .braOp) :
    ∃ h' S, connectEnd c i pI h = .ok h' ∧
      g.HasSuccessors (Function.update successors i S) h' ∧
        ∀ q, q ∈ S ↔ Succeeds instructions g.size c.bb pI q := by
  have hnot : ∀ y, ¬ Leads instructions pI y := fun y hleads => hbranch hleads.1
  have hgoes : neverFalls pI = false := by simp [neverFalls, hret, hbranch]
  obtain ⟨y, hy⟩ := hc.exists_behind hplace hgoes
  obtain ⟨hnext, -⟩ := ha.instrMem_next hplace hy
  simp only [hc.succeeds_iff hplace, connectEnd, if_neg hret, if_neg hbranch]
  refine ⟨_, _, ?_, hasSuccessors_link hs hi (c.bb y.uid), fun q => ?_⟩
  · exact (if_pos (fun h => hbranch h.1)).trans (linkTo_ok hnext)
  · simp [hret, hgoes, hnot, hy]

theorem connectEnd_ok :
    ∃ h' S, connectEnd c i pI h = .ok h' ∧
      g.HasSuccessors (Function.update successors i S) h' ∧
        ∀ q, q ∈ S ↔ Succeeds instructions g.size c.bb pI q := by
  by_cases hret : isReturn pI = true
  · exact connectEnd_of_return hc ha hplace hs hi hret
  by_cases hbranch : pI.opcode = .braOp
  · exact connectEnd_of_branch hc ha hplace hs hi hbranch
  · exact connectEnd_of_other hc ha hplace hs hi hret hbranch

end ConnectEnd

/-! ## All blocks -/

/-- The blocks below `k` have their edges, and the others have none yet. -/
structure ConnectedBelow (instructions : List Statement) (g : FlowGraph Statement) (bb : ℕ → ℕ)
    (k : ℕ) (successors : ℕ → Finset ℕ) : Prop where
  done : ∀ b < k, ∀ pI, (g.block b).ptxEnd = some (.instruction pI) → ∀ q,
    q ∈ successors b ↔ Succeeds instructions g.size bb pI q
  rest : ∀ b, k ≤ b → successors b = ∅

theorem ConnectedBelow.start :
    ConnectedBelow instructions g bb 0 fun _ => ∅ :=
  ⟨fun b hb => absurd hb (Nat.not_lt_zero b), fun _ _ => rfl⟩

theorem ConnectedBelow.next {k : ℕ} (hk : ConnectedBelow instructions g bb k successors)
    (hS : ∀ pI, (g.block k).ptxEnd = some (.instruction pI) → ∀ q,
      q ∈ S ↔ Succeeds instructions g.size bb pI q) :
    ConnectedBelow instructions g bb (k + 1) (Function.update successors k S) := by
  constructor
  case done =>
    intro b hb pI hend q
    rcases Nat.lt_succ_iff_lt_or_eq.mp hb with hlt | rfl
    · rw [Function.update_of_ne hlt.ne]
      exact hk.done b hlt pI hend q
    · rw [Function.update_self]
      exact hS pI hend q
  case rest =>
    intro b hb
    rw [Function.update_of_ne (Nat.ne_of_gt hb)]
    exact hk.rest b (Nat.le_of_succ_le hb)

theorem connectBlock_ok {k : ℕ} (hc : Constructible instructions)
    (ha : Assembled c.info c.memSize c.index instructions)
    (hp : Partitions instructions g c.bb) (hk : k < g.size)
    (hs : g.HasSuccessors successors h) (hbelow : ConnectedBelow instructions g c.bb k successors) :
    ∃ h' successors', connectBlock c k h = .ok h' ∧ g.HasSuccessors successors' h' ∧
      ConnectedBelow instructions g c.bb (k + 1) successors' := by
  have hnone : successors k = ∅ := hbelow.rest k le_rfl
  rw [connectBlock, hs.ptxEnd]
  rcases Nat.lt_or_ge (k + 1) g.size with hlt | hge
  · obtain ⟨front, pI, back, hreals, hend, -, -⟩ := hp.ptxEnd k hlt
    have hmem : pI ∈ reals instructions := by
      rw [hreals]
      exact List.mem_append_right _ List.mem_cons_self
    obtain ⟨before, after, hplace⟩ := List.append_of_mem (mem_reals.mp hmem)
    have hempty : g.HasSuccessors (Function.update successors k ∅) h := by
      rwa [← hnone, Function.update_eq_self]
    obtain ⟨h', S, hrun, hs', hS⟩ := connectEnd_ok hc ha hplace hempty hk
    rw [hend]
    refine ⟨h', _, hrun, hs', hbelow.next fun pJ hpJ => ?_⟩
    rw [hend] at hpJ
    obtain rfl : pI = pJ := Statement.instruction.inj (Option.some.inj hpJ)
    exact hS
  · obtain rfl : k = g.size - 1 := by omega
    rw [hp.exit.2]
    refine ⟨h, _, rfl, hs, ?_⟩
    have hnext : ConnectedBelow instructions g c.bb (g.size - 1 + 1)
        (Function.update successors (g.size - 1) ∅) := hbelow.next fun pI hpI => by
      rw [hp.exit.2] at hpI
      cases hpI
    rwa [← hnone, Function.update_eq_self] at hnext

theorem connectBasicBlocks_ok (hc : Constructible instructions)
    (ha : Assembled c.info c.memSize c.index instructions)
    (hp : Partitions instructions g c.bb) (hu : Unlinked g) :
    ∃ h successors, connectBasicBlocks c g = .ok h ∧ g.HasSuccessors successors h ∧
      ConnectedBelow instructions g c.bb g.size successors := by
  have hstart : g.HasSuccessors (fun _ => ∅) g := by
    refine ⟨rfl, fun _ => rfl, fun _ => rfl, fun _ => rfl, fun i _ => (hu i).1, fun w _ v => ?_⟩
    simp [(hu w).2]
  obtain ⟨h, hrun, successors, hs, hbelow⟩ := countUp_ok
    (I := fun k h => ∃ successors, g.HasSuccessors successors h ∧
      ConnectedBelow instructions g c.bb k successors) g.size
    (fun k hk h ⟨successors, hs, hbelow⟩ => by
      obtain ⟨h', successors', hrun, hs', hbelow'⟩ := connectBlock_ok hc ha hp hk hs hbelow
      exact ⟨h', hrun, successors', hs', hbelow'⟩)
    ⟨fun _ => ∅, hstart, .start⟩
  exact ⟨h, successors, hrun, hs, hbelow⟩

theorem Partitions.of_hasSuccessors (hp : Partitions instructions g bb)
    (hs : g.HasSuccessors successors h) : Partitions instructions h bb := by
  constructor
  case first => exact hp.first
  case next => exact hp.next
  case size => exact fun pI hpI => hs.size.trans (hp.size pI hpI)
  case bbId => exact fun b hb => (hs.bbId b).trans (hp.bbId b (hs.size ▸ hb))
  case ptxBegin =>
    intro b hb
    rw [hs.ptxBegin]
    exact hp.ptxBegin b (hs.size ▸ hb)
  case ptxEnd =>
    intro b hb
    rw [hs.ptxEnd]
    exact hp.ptxEnd b (hs.size ▸ hb)
  case exit =>
    rw [hs.size, hs.ptxBegin, hs.ptxEnd]
    exact hp.exit

theorem createBasicBlocks_of_controlFlowGraph
    (hok : controlFlowGraph info memSize index instructions = .ok (g, bb)) :
    ∃ g', createBasicBlocks instructions = .ok (g', bb) := by
  rw [controlFlowGraph] at hok
  cases hcreate : createBasicBlocks instructions with
  | error e =>
      rw [hcreate] at hok
      cases hok
  | ok created =>
      obtain ⟨g', bb'⟩ := created
      rw [hcreate] at hok
      cases hconnect : connectBasicBlocks { info, memSize, index, bb := bb' } g' with
      | error e =>
          dsimp only [bind, Except.bind] at hok
          rw [hconnect] at hok
          cases hok
      | ok h =>
          dsimp only [bind, Except.bind] at hok
          rw [hconnect] at hok
          cases hok
          exact ⟨g', rfl⟩

/-- A loop of one block, in which the first instruction goes on over the label. -/
def loopDefinition : Definition where
  function := 0
  instructions :=
    [.instruction ⟨0, .otherOp, false, false, ⟨"", 1⟩⟩, .label ⟨"loop", 0⟩,
      .instruction ⟨1, .braOp, true, true, ⟨"loop", 0⟩⟩,
      .instruction ⟨2, .retOp, false, false, ⟨"", 1⟩⟩]
  symtab name := if name = "loop" then some ⟨"loop", 0⟩ else none

theorem loop_constructible : Constructible loopDefinition.instructions := by
  constructor
  case nodup => decide
  case oneLabel => exact fun l l' rest h => nomatch h
  case first => exact fun pI pJ rest h => nomatch h
  case last => exact ⟨⟨2, .retOp, false, false, ⟨"", 1⟩⟩, by decide, by decide⟩
  case targets =>
    intro pI hpI hbranch
    have honly : ∀ pI ∈ reals loopDefinition.instructions, pI.opcode = .braOp →
        pI.target.name = "loop" := by decide
    rw [honly pI hpI hbranch]
    exact ⟨[.instruction ⟨0, .otherOp, false, false, ⟨"", 1⟩⟩], ⟨"loop", 0⟩,
      [.instruction ⟨1, .braOp, true, true, ⟨"loop", 0⟩⟩,
        .instruction ⟨2, .retOp, false, false, ⟨"", 1⟩⟩], rfl, rfl, by simp, by decide⟩

/-- A label that no branch leads to. -/
def unusedDefinition : Definition where
  function := 0
  instructions :=
    [.instruction ⟨0, .otherOp, false, false, ⟨"", 1⟩⟩, .label ⟨"unused", 0⟩,
      .instruction ⟨1, .retOp, false, false, ⟨"", 1⟩⟩]
  symtab _ := none

/-- The blocks are as large as they can be: two instructions in a row are in one block exactly if
control cannot be transferred behind the first and no branch leads to the second. -/
def Maximal (instructions : List Statement) (bb : ℕ → ℕ) : Prop :=
  ∀ before pI labels pJ after,
    instructions = before ++ .instruction pI :: (labels ++ .instruction pJ :: after) →
      (∀ st ∈ labels, isLabel st = true) →
        (bb pI.uid = bb pJ.uid ↔
          pI.opcode ∉ [.braOp, .retOp, .retpOp, .exitOp, .breakOp] ∧
            ∀ pK ∈ reals instructions, ¬ Leads instructions pK pJ)

end GpuCalorie.Ptx.ControlFlow
