/-
# Launches of a kernel

In runs of launches from the host and from the device, the entries of the parameters say what was
declared, and the offsets and addresses they have are those the parser has recorded. So all layouts
agree if each parameter is placed as it should be, and only then: what is wrong shows in a launch
of either kind.
-/

import GpuCalorie.Ptx.ParamAgreement

namespace GpuCalorie.Ptx.Params

open GpuCalorie.Hardware GpuCalorie.Math GpuCalorie.Ptx.Symbols

variable {e : ℕ} {decls : List ParamEntry} {params params' : List ParamInfo}
    {values : List HostValue}

/-! ## Entries of parameters -/

/-- The entry of a parameter whose offset is to be `o`. -/
structure Describes (d : ParamEntry) (o : ℕ) (p : ParamInfo) : Prop where
  size : p.size = d.numBits
  ptr : p.isPtrShared = d.isPtrShared
  alignment : p.alignmentSpec = d.alignment
  /-- A value that was passed before had the same size. -/
  nbytes : ∀ v ∈ p.value, v.nbytes = d.size
  offset : ∀ o' ∈ p.offset, o' = o
  address : ∀ o' ∈ p.address, o' = o

theorem ParamEntry.describes_info (d : ParamEntry) (o : ℕ) : Describes d o d.info :=
  ⟨rfl, rfl, rfl, nofun, nofun, nofun⟩

/-- The entries of parameters behind a number. -/
def Described : ℕ → List ParamEntry → List ParamInfo → Prop
  | _, [], [] => True
  | e, d :: decls, p :: params =>
    Describes d (roundUp e d.gAlignment) p ∧ Described
      (roundUp e d.gAlignment + d.size) decls params
  | _, _, _ => False

/-- The entries of parameters that have been passed values. -/
def Loaded : ℕ → List ParamEntry → List HostValue → List ParamInfo → Prop
  | _, [], [], [] => True
  | e, d :: decls, v :: values, p :: params =>
    (Describes d (roundUp e d.gAlignment) p ∧
      p.value = some { start := v, nbytes := d.size, offset := roundUp e d.gAlignment } ∧
      p.offset = some (roundUp e d.gAlignment)) ∧
    Loaded (roundUp e d.gAlignment + d.size) decls values params
  | _, _, _, _ => False

theorem described_info (e : ℕ) (decls : List ParamEntry) :
    Described e decls (decls.map ParamEntry.info) := by
  induction decls generalizing e with
  | nil => trivial
  | cons d decls ih => exact ⟨d.describes_info _, ih _⟩

theorem Described.offset_eq (h : Described e decls params) : ∀ p ∈ params.zip (configsOf e decls),
    (∀ o ∈ p.1.offset, o = p.2.2) ∧ ∀ o ∈ p.1.address, o = p.2.2 := by
  induction decls generalizing e params with
  | nil =>
      intro p hp
      rw [configsOf, List.map_nil, List.zip_nil_left, List.zip_nil_right] at hp
      exact absurd hp List.not_mem_nil
  | cons d decls ih =>
      cases params with
      | nil => exact h.elim
      | cons q params =>
          intro p hp
          obtain rfl | hp := List.mem_cons.1 hp
          · exact ⟨h.1.offset, h.1.address⟩
          · exact ih h.2 p hp

/-! ## A launch from the host -/

/-- The arguments the host makes of values. -/
abbrev hostArgs (values : List HostValue) (configs : List (ℕ × ℕ)) : List HostArg :=
  List.zipWith (fun start config => { start, nbytes := config.1, offset := config.2 }) values
    configs

theorem Describes.addParamData {d : ParamEntry} {o : ℕ} {p : ParamInfo} (h : Describes d o p)
    (hplain : d.Plain)
    (v : HostValue) : p.addParamData { start := v, nbytes := d.size, offset := o } = .ok { p with
      value := some { start := v, nbytes := d.size, offset := o }, offset := some o } := by
  have hptr : p.isPtrShared = false := h.ptr.trans hplain.2
  have hnbytes : (p.value.any fun v => v.nbytes ≠ d.size) = false := by
    cases hvalue : p.value with
    | none => rfl
    | some v => exact decide_eq_false (not_not_intro (h.nbytes v hvalue))
  rw [ParamInfo.addParamData, hptr, if_neg Bool.false_ne_true]
  dsimp only
  rw [hnbytes, if_neg Bool.false_ne_true]

theorem addArgs_ok (hplain : ∀ d ∈ decls, d.Plain) (h : Described e decls params)
    (hlength : values.length = decls.length) :
    ∃ params', addArgs params (hostArgs values (configsOf e decls)) = .ok params' ∧
      Loaded e decls values params' := by
  induction decls generalizing e params values with
  | nil =>
      obtain rfl := List.length_eq_zero_iff.1 hlength
      cases params with
      | nil => exact ⟨[], rfl, trivial⟩
      | cons p params => exact h.elim
  | cons d decls ih =>
      cases params with
      | nil => exact h.elim
      | cons p params =>
          cases values with
          | nil => cases hlength
          | cons v values =>
              obtain ⟨params', hrest, hloaded⟩ := ih
                (fun d' hd' => hplain d' (List.mem_cons_of_mem d hd')) h.2 (Nat.succ.inj hlength)
              refine ⟨{ p with
                value := some { start := v, nbytes := d.size, offset := roundUp e d.gAlignment }
                offset := some (roundUp e d.gAlignment) } :: params', ?_, ⟨?_, rfl, rfl⟩, hloaded⟩
              · rw [configsOf_cons, hostArgs, List.zipWith_cons_cons, addArgs,
                  h.1.addParamData (hplain d List.mem_cons_self)]
                dsimp only [bind, Except.bind]
                rw [hrest]
                rfl
              · exact ⟨h.1.size, h.1.ptr, h.1.alignment,
                  fun v' hv' => by rw [← Option.some.inj hv'],
                  fun o' ho' => (Option.some.inj ho').symm, h.1.address⟩

theorem finalizeLoop_ok (hknown : ∀ d ∈ decls, d.Known) (hplain : ∀ d ∈ decls, d.Plain)
    (h : Loaded e decls values params) (mem : ℕ → UInt8) :
    ∃ params', finalizeLoop e mem params = .ok (params', stores e mem decls values) ∧
      Described e decls params' ∧ params'.map (·.address) = (configsOf e decls).map (some ·.2) := by
  induction decls generalizing e params values mem with
  | nil =>
      cases values with
      | nil =>
          cases params with
          | nil => exact ⟨[], rfl, trivial, rfl⟩
          | cons p params => exact h.elim
      | cons v values => cases params <;> exact h.elim
  | cons d decls ih =>
      cases values with
      | nil => cases params <;> exact h.elim
      | cons v values =>
          cases params with
          | nil => exact h.elim
          | cons p params =>
              obtain ⟨⟨hdescribes, hvalue, hoffset⟩, hloaded⟩ := h
              have hd := hknown d List.mem_cons_self
              have hd' := hplain d List.mem_cons_self
              obtain ⟨params', hrest, hdescribed, haddress⟩ := ih
                (fun d' hd' => hknown d' (List.mem_cons_of_mem d hd'))
                (fun d' hd' => hplain d' (List.mem_cons_of_mem d hd')) hloaded
                (copyWords mem v (roundUp e d.gAlignment) d.size)
              have hptr : p.isPtrShared = false := hdescribes.ptr.trans hd'.2
              have hsize : min d.size (p.size / 8) = d.size := by
                rw [hdescribes.size, hd.numBits_eq hd'.1]
                omega
              have halign : p.alignmentSpec.getD d.size = d.gAlignment := by
                rw [hdescribes.alignment]
                rfl
              have hround : (e + d.gAlignment - 1) / d.gAlignment * d.gAlignment =
                roundUp e d.gAlignment := rfl
              refine ⟨{ p with address := some (roundUp e d.gAlignment) } :: params', ?_,
                ⟨?_, hdescribed⟩, ?_⟩
              · rw [finalizeLoop, hptr, if_neg Bool.false_ne_true, hvalue]
                dsimp only
                rw [hsize, halign, if_neg hd.gAlignment_pos.ne', hoffset, hround,
                  if_neg (not_not_intro rfl),
                  hrest]
                rfl
              · exact ⟨hdescribes.size, hdescribes.ptr, hdescribes.alignment, hdescribes.nbytes,
                  hdescribes.offset,
                  fun o' ho' => (Option.some.inj ho').symm⟩
              · rw [List.map_cons, haddress, configsOf_cons, List.map_cons]

/-! ## A launch from the device -/

theorem alignedLoop_ok (hplaced : AllPlaced e decls) (h : Described e decls params) :
    ∃ params' size, alignedLoop e params = .ok (params', size) ∧ Described e decls params' := by
  induction decls generalizing e params with
  | nil =>
      cases params with
      | nil => exact ⟨[], e, rfl, trivial⟩
      | cons p params => exact h.elim
  | cons d decls ih =>
      cases params with
      | nil => exact h.elim
      | cons p params =>
          obtain ⟨params', size, hrest, hdescribed⟩ := ih hplaced.2 h.2
          have hknown := hplaced.1.known
          have hargSize : p.size / 8 = d.size := by
            rw [h.1.size, hknown.numBits_eq hplaced.1.plain.1]
            omega
          have hrounds : (e + d.size - 1) / d.size * d.size = roundUp e d.gAlignment :=
            hplaced.1.rounds
          refine ⟨{ p with
              offset := some (roundUp e d.gAlignment)
              address := some (roundUp e d.gAlignment) } :: params', size, ?_, ⟨?_, hdescribed⟩⟩
          · rw [alignedLoop]
            dsimp only
            rw [hargSize, if_neg hknown.size_pos.ne', hrounds, hrest]
            rfl
          · exact ⟨h.1.size, h.1.ptr, h.1.alignment, h.1.nbytes, fun o' ho' =>
              (Option.some.inj ho').symm,
              fun o' ho' => (Option.some.inj ho').symm⟩

/-! ## Runs of launches -/

/-- A kernel whose entries say what was declared. -/
structure Kept (decls : List ParamEntry) (f : FunctionInfo) : Prop where
  configs : f.configs = configsOf 0 decls
  params : Described 0 decls f.params

theorem length_configsOf (e : ℕ) (decls : List ParamEntry) :
    (configsOf e decls).length = decls.length := by
  rw [configsOf, List.length_zip, List.length_map, length_offsets, Nat.min_self]

theorem Kept.launch_ok {f : FunctionInfo} (h : Kept decls f) (hknown : ∀ d ∈ decls, d.Known)
    (hplain : ∀ d ∈ decls, d.Plain) (hlength : values.length = decls.length) :
    ∃ f', launch f values = .ok (f', stores 0 (fun _ => 0) decls values) ∧
      Kept decls f' ∧ f'.params.map (·.address) = (configsOf 0 decls).map (some ·.2) := by
  obtain ⟨params₁, hargs, hloaded⟩ := addArgs_ok hplain h.params hlength
  obtain ⟨params₂, hfinalize, hdescribed, haddress⟩ :=
    finalizeLoop_ok hknown hplain hloaded fun _ => 0
  refine ⟨{ f with params := params₂ }, ?_, ⟨h.configs, hdescribed⟩, haddress⟩
  rw [launch, h.configs, hargs]
  dsimp only [bind, Except.bind]
  rw [hfinalize]
  rfl

theorem Kept.step_ok {f : FunctionInfo} (h : Kept decls f) (hplaced : AllPlaced 0 decls)
    (a : KernelStep)
    (henabled : Enabled f a) : ∃ f', step f a = .ok f' ∧ Kept decls f' := by
  cases a with
  | launch values =>
      have hlength : values.length = decls.length := by
        rw [Enabled, h.configs, length_configsOf] at henabled
        exact henabled
      obtain ⟨f', hlaunch, hkept, -⟩ := h.launch_ok hplaced.known hplaced.plain hlength
      refine ⟨f', ?_, hkept⟩
      rw [step, hlaunch]
      rfl
  | getArgsAlignedSize =>
      rw [step, getArgsAlignedSize]
      cases f.argsAlignedSize with
      | some size => exact ⟨f, rfl, h⟩
      | none =>
          obtain ⟨params', total, hloop, hdescribed⟩ := alignedLoop_ok hplaced h.params
          dsimp only
          rw [hloop]
          exact ⟨_, rfl, h.configs, hdescribed⟩

theorem Kept.reachable {f₀ : FunctionInfo} (h : Kept decls f₀) (hplaced : AllPlaced 0 decls)
    {r : Except ParamFailure FunctionInfo} (hr : (machine f₀).Reachable r) :
    ∃ f, r = .ok f ∧ Kept decls f := by
  have hor : OkOr (Kept decls) (fun _ => False) r := by
    refine hr.invariant_ofExcept_all ?_ ?_
    · rintro _ rfl
      exact h
    · intro f a hf henabled
      obtain ⟨f', hstep, hkept⟩ := hf.step_ok hplaced a henabled
      rw [hstep]
      exact hkept
  cases r with
  | ok f => exact ⟨f, rfl, hor⟩
  | error e => exact hor.elim

theorem AllPlaced.agrees (hplaced : AllPlaced 0 decls) :
    ∃ f₀, parse decls = .ok f₀ ∧ Agrees decls f₀ := by
  have hkept : Kept decls { params := decls.map ParamEntry.info, configs := configsOf 0 decls } :=
    ⟨rfl, described_info 0 decls⟩
  refine ⟨_, parse_ok hplaced.known, ?_, ?_, ?_, hplaced.disjoint, hplaced.aligned⟩
  · intro r hr
    obtain ⟨f, hf, -⟩ := hkept.reachable hplaced hr
    exact ⟨f, hf⟩
  · intro f hf
    obtain ⟨f', hf', hdescribed⟩ := hkept.reachable hplaced hf
    obtain rfl := Except.ok.inj hf'
    exact hdescribed.params.offset_eq
  · intro f hf values hlength
    obtain ⟨f', hf', hdescribed⟩ := hkept.reachable hplaced hf
    obtain rfl := Except.ok.inj hf'
    obtain ⟨f₁, hlaunch, -, haddress⟩ := hdescribed.launch_ok hplaced.known hplaced.plain hlength
    exact ⟨f₁, _, hlaunch, haddress, hplaced.reads _ values⟩

/-! ## What goes wrong otherwise -/

section Converse

abbrev AllOf (P : ℕ → ParamEntry → List ParamEntry → Prop) (e : ℕ) (decls : List ParamEntry) :
    Prop :=
  AtEach ParamEntry.size ParamEntry.gAlignment P e decls

theorem isPtrShared_of_addArgs {args : List HostArg} (hlength : args.length = decls.length)
    (h : addArgs (decls.map ParamEntry.info) args = .ok params') :
    ∀ d ∈ decls, d.isPtrShared = false := by
  induction decls generalizing args params' with
  | nil => exact fun d hd => absurd hd List.not_mem_nil
  | cons d decls ih =>
      cases args with
      | nil => cases hlength
      | cons arg args =>
          rw [List.map_cons, addArgs] at h
          obtain ⟨p, hp, h⟩ := bind_eq_ok.1 h
          obtain ⟨rest, hrest, -⟩ := bind_eq_ok.1 h
          intro d' hd'
          obtain rfl | hd' := List.mem_cons.1 hd'
          · by_contra hptr
            rw [ParamInfo.addParamData, if_pos (Bool.not_eq_false _ ▸ hptr)] at hp
            cases hp
          · exact ih (Nat.succ.inj hlength) hrest d' hd'

theorem rounds_of_alignedLoop {total : ℕ} (hknown : ∀ d ∈ decls, d.Known)
    (h : alignedLoop e (decls.map ParamEntry.info) = .ok (params', total))
    (hoffset : ∀ p ∈ params'.zip (configsOf e decls), ∀ o ∈ p.1.offset, o = p.2.2) :
    AllOf (fun e d _ => d.array ≠ .noDim ∧ roundUp e d.size = roundUp e d.gAlignment) e decls := by
  induction decls generalizing e params' total with
  | nil => trivial
  | cons d decls ih =>
      have hd := hknown d List.mem_cons_self
      rw [List.map_cons, alignedLoop] at h
      dsimp only at h
      split_ifs at h with hzero
      obtain ⟨⟨rest, size⟩, hrest, h⟩ := bind_eq_ok.1 h
      obtain ⟨rfl, rfl⟩ := Prod.mk.inj (Except.ok.inj h)
      have hdim : d.array ≠ .noDim := by
        intro hnoDim
        have hbits : d.info.size = 0 := by
          change d.numBits = 0
          rw [ParamEntry.numBits, hnoDim]
        exact hzero (by rw [hbits])
      have hargSize : d.info.size / 8 = d.size := by
        change d.numBits / 8 = d.size
        rw [hd.numBits_eq hdim]
        omega
      rw [hargSize] at hrest hoffset
      have hround : roundUp e d.size = roundUp e d.gAlignment :=
        hoffset (_, _) List.mem_cons_self _ rfl
      change alignedLoop (roundUp e d.size + d.size) _ = _ at hrest
      rw [hround] at hrest
      exact ⟨⟨hdim, hround⟩, ih (fun d' hd' => hknown d' (List.mem_cons_of_mem d hd')) hrest
        fun p hp => hoffset p (List.mem_cons_of_mem _ hp)⟩

theorem next_of_disjoint
    (h : (decls.zip (configsOf e decls)).Pairwise fun p q => p.2.2 + p.1.bytes ≤ q.2.2) :
    AllOf (fun e d rest => ∀ next ∈ rest.head?,
      roundUp e d.gAlignment + d.bytes ≤ roundUp (roundUp e d.gAlignment + d.size) next.gAlignment)
        e decls := by
  induction decls generalizing e with
  | nil => trivial
  | cons d decls ih =>
      obtain ⟨hhead, hrest⟩ := List.pairwise_cons.1 h
      refine ⟨fun next hnext => ?_, ih hrest⟩
      cases decls with
      | nil => cases hnext
      | cons d' decls =>
          obtain rfl := Option.some.inj hnext
          exact hhead _ List.mem_cons_self

theorem requiredAlignment_of_aligned
    (h : ∀ p ∈ decls.zip (configsOf e decls), p.1.requiredAlignment ∣ p.2.2) :
    AllOf (fun e d _ => d.requiredAlignment ∣ roundUp e d.gAlignment) e decls := by
  induction decls generalizing e with
  | nil => trivial
  | cons d decls ih =>
      exact ⟨h _ List.mem_cons_self, ih fun p hp => h p (List.mem_cons_of_mem _ hp)⟩

theorem words_of_reads {mem : ℕ → UInt8} (hknown : ∀ d ∈ decls, d.Known)
    (hmem : ∀ a, e + 3 ≤ a → mem a = 0)
    (hnext : AllOf (fun e d rest => ∀ next ∈ rest.head?,
      roundUp e d.gAlignment + d.bytes ≤ roundUp (roundUp e d.gAlignment + d.size) next.gAlignment)
        e decls)
    (h : ∀ p ∈ decls.zip ((List.replicate decls.length fun _ => 1).zip (configsOf e decls)),
      cells (stores e mem decls (List.replicate decls.length fun _ => 1)) p.2.2.2 p.1.bytes
        = cells p.2.1 0 p.1.bytes) :
    AllOf (fun _ d _ => d.bytes ≤ 4 * ((d.size + 3) / 4)) e decls := by
  induction decls generalizing e mem with
  | nil => trivial
  | cons d decls ih =>
      have hrest : ∀ d ∈ decls, d.Known := fun d' hd' => hknown d' (List.mem_cons_of_mem d hd')
      have hle : e ≤ roundUp e d.gAlignment :=
        le_roundUp (hknown d List.mem_cons_self).gAlignment_pos
      rw [List.length_cons, List.replicate_succ] at h
      refine ⟨?_, ih hrest (fun a ha => ?_) hnext.2 fun p hp => h p (List.mem_cons_of_mem _ hp)⟩
      · by_contra hlt
        have hbyte := congrArg (·[4 * ((d.size + 3) / 4)]?) (h _ List.mem_cons_self)
        dsimp only at hbyte
        rw [stores, List.getElem?_eq_getElem (by rw [length_cells]; omega),
          List.getElem?_eq_getElem (by rw [length_cells]; omega)] at hbyte
        simp only [cells, List.getElem_map, List.getElem_range] at hbyte
        rw [stores_of_lt hrest fun next hnext' =>
          ?_, copyWords_eq, overwrite_of_le (by rw [length_cells]),
          hmem _ (by have hpos := (hknown d List.mem_cons_self).size_pos; omega)] at hbyte
        · exact absurd hbyte (by decide)
        · have hend := hnext.1 next hnext'
          omega
      · rw [copyWords_eq, overwrite_of_le (by rw [length_cells]; omega)]
        exact hmem a (by omega)

end Converse

/-! ## When all layouts agree -/

/-- In every run of launches the layouts agree, and values are found where they are read, if and
only if each parameter is placed as it should be. -/
theorem agrees_iff (decls : List ParamEntry) :
    (∃ f₀, parse decls = .ok f₀ ∧ Agrees decls f₀) ↔
    AtEach ParamEntry.size ParamEntry.gAlignment FitsAt 0 decls := by
  constructor
  · rintro ⟨f₀, hparse, hagrees⟩
    have hknown := known_of_foldlM hparse
    obtain rfl := Except.ok.inj ((parse_ok hknown).symm.trans hparse)
    have hkept : Kept decls { params := decls.map ParamEntry.info, configs := configsOf 0 decls } :=
      ⟨rfl, described_info 0 decls⟩
    have hstart := @TransitionSystem.Reachable.init _ _ (machine
      { params := decls.map ParamEntry.info, configs := configsOf 0 decls }) _ ⟨_, rfl, rfl⟩
    -- a launch from the device
    have hstep := @TransitionSystem.Reachable.step _ _ _ _ _ KernelStep.getArgsAlignedSize hstart
      ⟨_, rfl, trivial, rfl⟩
    obtain ⟨f, hf⟩ := hagrees.succeeds _ hstep
    rw [hf] at hstep
    have hoffset := hagrees.offset f hstep
    rw [step] at hf
    obtain ⟨⟨f', size⟩, hsize, rfl⟩ := map_eq_ok.1 hf
    obtain ⟨⟨params, total⟩, hloop, hpair⟩ := bind_eq_ok.1 hsize
    obtain ⟨rfl, -⟩ := Prod.mk.inj (Except.ok.inj hpair)
    have hrounds := rounds_of_alignedLoop hknown hloop fun p hp => (hoffset p hp).1
    -- a launch from the host with values of ones
    obtain ⟨f', mem, hlaunch, -, hreads⟩ :=
      hagrees.passes _ hstart (List.replicate decls.length fun _ => 1)
      List.length_replicate
    have hptr : ∀ d ∈ decls, d.isPtrShared = false := by
      obtain ⟨params', hargs, -⟩ := bind_eq_ok.1 hlaunch
      exact isPtrShared_of_addArgs (by simp [length_configsOf]) hargs
    have hdim : ∀ d ∈ decls, d.array ≠ .noDim := (hrounds.mono fun _ _ _ h => h.1).forall_mem
    have hplain : ∀ d ∈ decls, d.Plain := fun d hd => ⟨hdim d hd, hptr d hd⟩
    obtain ⟨f₁, hlaunch₁, -, -⟩ :=
      @Kept.launch_ok decls (List.replicate decls.length fun _ => 1) _ hkept hknown
      hplain List.length_replicate
    obtain ⟨rfl, rfl⟩ := Prod.mk.inj (Except.ok.inj (hlaunch₁.symm.trans hlaunch))
    have hnext := next_of_disjoint hagrees.disjoint
    have hwords := words_of_reads hknown (fun _ _ => rfl) hnext hreads
    have haligned := requiredAlignment_of_aligned hagrees.aligned
    have hall :=
      ((AtEach.of_forall (fun d hd => And.intro (hknown d hd) (hplain d hd)) 0).and hrounds).and
      ((haligned.and hwords).and hnext)
    exact hall.mono fun e d rest h =>
      ⟨h.1.1.1, h.1.1.2, h.1.2.2, fun _ => ⟨h.2.1.1, h.2.1.2, h.2.2⟩⟩
  · intro h
    exact AllPlaced.agrees (h.mono fun e d rest hfits => hfits.placed)

/-- An array of words behind a word. -/
def wordAndArray : List ParamEntry :=
  [{ type := .scalar .u32 }, { type := .scalar .b8, alignment := some 4, array := .dim 12 }]

/-- The layouts may not agree. -/
theorem not_agrees : ¬ ∃ f₀, parse wordAndArray = .ok f₀ ∧ Agrees wordAndArray f₀ := by
  rintro ⟨f₀, hparse, hagrees⟩
  obtain rfl := Except.ok.inj ((parse_ok (known_of_foldlM hparse)).symm.trans hparse)
  have hoffset := hagrees.offset _ (.step (.init ⟨_, rfl, rfl⟩)
    (⟨_, rfl, trivial, rfl⟩ : (machine _).step _ KernelStep.getArgsAlignedSize _))
  -- the array has the offset 12 in one layout and 4 in the other
  have hwrong := (hoffset _ (List.mem_cons_of_mem _ List.mem_cons_self)).1 12 rfl
  exact absurd hwrong (by decide)

end GpuCalorie.Ptx.Params
