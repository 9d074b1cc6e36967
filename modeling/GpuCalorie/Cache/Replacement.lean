/-
# The line a miss replaces

`probe` picks a line that is invalid, or else the one whose last access or allocation is the
oldest. Callers give the time as a 64-bit number, but `access` and `fill` take an `unsigned`:
ages are compared by the low 32 bits, and a line of age `(unsigned)-1` is never picked.

`TimedTags` is the tag array under a sequence of calls, with the full times at which each
line was last accessed and allocated. Where no call crosses a multiple of 2^32 or is made in
the cycle before one, the line that `probe` picks is the oldest by the full times.
-/

import GpuCalorie.Cache.TagArray
import GpuCalorie.Math.Transition

namespace GpuCalorie.Cache

open GpuCalorie.Math TransitionSystem

/-! ## The calls -/

/-- When each line was last accessed and last allocated. -/
structure Recency where
  accessed : ℕ → UInt64 := fun _ => 0
  allocated : ℕ → UInt64 := fun _ => 0

def Recency.touch (r : Recency) (idx : ℕ) (time : UInt64) : Recency :=
  { r with accessed := Function.update r.accessed idx time }

def Recency.allocate (r : Recency) (idx : ℕ) (time : UInt64) : Recency where
  accessed := Function.update r.accessed idx time
  allocated := Function.update r.allocated idx time

/-- The time the replacement policy goes by. -/
def Recency.age (cfg : CacheConfig) (r : Recency) : ℕ → UInt64 :=
  match cfg.replacementPolicy with
  | .lru => r.accessed
  | .fifo => r.allocated

/-- A tag array with the history of its lines, and the lines that calls have found or
allocated. -/
structure TimedTags (cfg : CacheConfig) where
  tags : TagArray cfg.cacheType := {}
  recency : Recency := {}
  held : List ℕ := []

/-- What a cache changes in a block it holds when it is written. -/
inductive BlockMark
  | modified
  | ignoreOnFill (value : Bool)
  | modifiedOnFill (value : Bool)
  | readable (value : Bool)
  deriving DecidableEq

def BlockMark.apply {ct : CacheType} (mask : SectorMask) (b : CacheBlock ct) :
    BlockMark → CacheBlock ct
  | .modified => b.setStatus .modified mask
  | .ignoreOnFill value => b.setIgnoreOnFill value mask
  | .modifiedOnFill value => b.setModifiedOnFill value mask
  | .readable value => b.setReadable value mask

/-- The calls of `tag_array::access` and of both `tag_array::fill`s, and what caches do to
the blocks themselves. -/
inductive TagCall
  | access (addr : Addr) (time : UInt64) (mf : MemFetch)
  | fill (addr : Addr) (time : UInt64) (mask : SectorMask)
  | fillIndex (idx : ℕ) (time : UInt64) (mask : SectorMask)
  | mark (idx : ℕ) (mask : SectorMask) (change : BlockMark)
  deriving DecidableEq

/-- The time a call is made at, where it is given one. -/
def TagCall.time : TagCall → Option UInt64
  | .access _ time _ | .fill _ time _ | .fillIndex _ time _ => some time
  | .mark .. => none

namespace TimedTags

variable {cfg : CacheConfig}

/-- The history after an access: a cache that allocates when it is filled has not used a line
at a miss. -/
def afterAccess (s : TimedTags cfg) (r : TagAccess cfg.cacheType) (time : UInt64) :
    TimedTags cfg :=
  match r.status with
  | .hit | .hitReserved => ⟨r.tags, s.recency.touch r.idx time, r.idx :: s.held⟩
  | .miss =>
    if cfg.allocPolicy = .onMiss then ⟨r.tags, s.recency.allocate r.idx time, r.idx :: s.held⟩
    else { s with tags := r.tags }
  | .sectorMiss =>
    if cfg.allocPolicy = .onMiss then ⟨r.tags, s.recency.touch r.idx time, r.idx :: s.held⟩
    else { s with tags := r.tags }
  | .reservationFail => { s with tags := r.tags }

/-- The history after a fill of a block, which is no access of a line that is there. -/
def afterFill (s : TimedTags cfg) (tags : TagArray cfg.cacheType) (status : RequestStatus)
    (idx : ℕ) (time : UInt64) : TimedTags cfg :=
  match status with
  | .hit | .hitReserved => ⟨tags, s.recency, idx :: s.held⟩
  | .miss => ⟨tags, s.recency.allocate idx time, idx :: s.held⟩
  | .sectorMiss => ⟨tags, s.recency.touch idx time, idx :: s.held⟩
  | .reservationFail => { s with tags := tags }

/-- A call. The parameter `time` of `access` and `fill` is an `unsigned`. -/
def step (s : TimedTags cfg) : TagCall → Except CacheFailure (TimedTags cfg)
  | .access addr time mf => do
    let r ← s.tags.access cfg addr time.toUInt32 noIndex mf
    return s.afterAccess r time
  | .fill addr time mask => do
    let (status, idx) ← s.tags.probe cfg addr 0 mask none
    let tags ← s.tags.fillBlock cfg addr time.toUInt32 mask
    return s.afterFill tags status idx time
  | .fillIndex idx time mask => do
    let tags ← s.tags.fillLine cfg idx time.toUInt32 mask
    return { s with tags := tags }
  | .mark idx mask change =>
    return { s with tags := s.tags.modifyLine idx (change.apply mask) }

/-- Callers name lines by the indices that accesses have returned. -/
def Enabled (s : TimedTags cfg) : TagCall → Prop
  | .access .. | .fill .. => True
  | .fillIndex idx .. | .mark idx .. => idx ∈ s.held

instance (s : TimedTags cfg) : DecidablePred s.Enabled := fun call =>
  match call with
  | .access .. | .fill .. => inferInstanceAs (Decidable True)
  | .fillIndex idx .. | .mark idx .. => inferInstanceAs (Decidable (idx ∈ s.held))

end TimedTags

/-- The sequences of calls, from a tag array without blocks on. -/
def tagSystem (cfg : CacheConfig) :
    TransitionSystem (Except CacheFailure (TimedTags cfg)) TagCall :=
  ofExcept (· = {}) TimedTags.Enabled TimedTags.step

/-! ## What they should keep -/

variable {cfg : CacheConfig} {ct : CacheType} {lines : ℕ → CacheBlock ct} {s : ProbeState}
  {seen : List ℕ} {mask : SectorMask} {base way : ℕ} {base : ℕ}

/-- No line of a set holds a block. -/
def Absent (cfg : CacheConfig) (tags : TagArray ct) (addr : Addr) : Prop :=
  ∀ way < cfg.assoc, (tags.lines (cfg.setIndex addr * cfg.assoc + way)).tag = cfg.blockAddr addr →
    (tags.lines (cfg.setIndex addr * cfg.assoc + way)).isInvalidLine = true

/-- All ways of a set are reserved. -/
def AllReserved (cfg : CacheConfig) (tags : TagArray ct) (addr : Addr) : Prop :=
  ∀ way < cfg.assoc,
    (tags.lines (cfg.setIndex addr * cfg.assoc + way)).isReservedLine = true

/-- Lines of a set that are not invalid have different tags. -/
def UniqueTags (cfg : CacheConfig) (tags : TagArray ct) : Prop :=
  ∀ set, ∀ way < cfg.assoc, ∀ way' < cfg.assoc,
    (tags.lines (set * cfg.assoc + way)).isInvalidLine = false →
    (tags.lines (set * cfg.assoc + way')).isInvalidLine = false →
    (tags.lines (set * cfg.assoc + way)).tag = (tags.lines (set * cfg.assoc + way')).tag →
    way = way'

/-- The line to replace is not reserved; it is invalid if a line of its set is, and otherwise
no line that might be replaced is older. -/
structure IsVictim (s : TimedTags cfg) (addr : Addr) (victim : ℕ) : Prop where
  inSet : ∃ way < cfg.assoc, victim = cfg.setIndex addr * cfg.assoc + way
  unreserved : (s.tags.lines victim).isReservedLine = false
  invalid : ∀ way < cfg.assoc,
    (s.tags.lines (cfg.setIndex addr * cfg.assoc + way)).isInvalidLine = true →
    (s.tags.lines victim).isInvalidLine = true
  oldest : (s.tags.lines victim).isInvalidLine = false → ∀ way < cfg.assoc,
    (s.tags.lines (cfg.setIndex addr * cfg.assoc + way)).isReservedLine = false →
    s.recency.age cfg victim ≤ s.recency.age cfg (cfg.setIndex addr * cfg.assoc + way)

/-- What a probe of a block returns that no line holds. -/
structure Selects (s : TimedTags cfg) (addr : Addr) (idx : ℕ) (mask : SectorMask)
    (probeMode : Option MemFetch) : Prop where
  noAbort : s.tags.probe cfg addr idx mask probeMode ≠ .error .noVictim
  victim : ∀ status i, Absent cfg s.tags addr → status ≠ .reservationFail →
    s.tags.probe cfg addr idx mask probeMode = .ok (status, i) → IsVictim s addr i
  full : ∀ i, s.tags.probe cfg addr idx mask probeMode = .ok (.reservationFail, i) →
    Absent cfg s.tags addr ∧ AllReserved cfg s.tags addr
  reservationFail : 0 < cfg.assoc → Absent cfg s.tags addr → AllReserved cfg s.tags addr →
    s.tags.probe cfg addr idx mask probeMode = .ok (.reservationFail, idx)

/-- Tags are unique, and every probe selects the right line. -/
def SelectsVictims (s : TimedTags cfg) : Prop :=
  UniqueTags cfg s.tags ∧ ∀ addr idx mask probeMode, Selects s addr idx mask probeMode

/-! ## When they do -/

/-- A time in an epoch of 2^32 cycles, but not in its last cycle. -/
def InEpoch (epoch : ℕ) (time : UInt64) : Prop :=
  time.toNat / 2 ^ 32 = epoch ∧ time.toNat % 2 ^ 32 ≠ 2 ^ 32 - 1

instance (epoch : ℕ) : DecidablePred (InEpoch epoch) := fun _ =>
  inferInstanceAs (Decidable (_ ∧ _))

/-- A fill by address of a cache that allocates on misses finds the block or a line to
replace; `fill` does not look whether it has. -/
def HasRoom (cfg : CacheConfig) (tags : TagArray ct) (addr : Addr) : Prop :=
  cfg.allocPolicy = .onMiss → ∃ way < cfg.assoc,
    (tags.lines (cfg.setIndex addr * cfg.assoc + way)).tag = cfg.blockAddr addr ∨
      (tags.lines (cfg.setIndex addr * cfg.assoc + way)).isReservedLine = false

instance (cfg : CacheConfig) (tags : TagArray ct) : DecidablePred (HasRoom cfg tags) := fun _ =>
  inferInstanceAs (Decidable (_ → ∃ way < cfg.assoc, _))

/-- The calls that are covered: their times are in the epoch, and fills have room. -/
def TimedTags.Covered (epoch : ℕ) (s : TimedTags cfg) : TagCall → Prop
  | .access _ time _ => InEpoch epoch time
  | .fill addr time _ => InEpoch epoch time ∧ HasRoom cfg s.tags addr
  | .fillIndex .. | .mark .. => True

instance (epoch : ℕ) (s : TimedTags cfg) : DecidablePred (s.Covered epoch) := fun call =>
  match call with
  | .access _ time _ => inferInstanceAs (Decidable (InEpoch epoch time))
  | .fill _ time _ => inferInstanceAs (Decidable (InEpoch epoch time ∧ _))
  | .fillIndex .. | .mark .. => inferInstanceAs (Decidable True)

/-! ## The loop over the ways -/

/-- The time a line is compared by. -/
def CacheConfig.timestamp (cfg : CacheConfig) (line : CacheBlock ct) : UInt32 :=
  match cfg.replacementPolicy with
  | .lru => line.getLastAccessTime
  | .fifo => line.getAllocTime

theorem isInvalidLine_of_isReservedLine {b : CacheBlock ct} (h : b.isReservedLine = true) :
    b.isInvalidLine = false := by
  obtain ⟨k, hk⟩ := CacheBlock.isReservedLine_iff.mp h
  by_contra hinvalid
  have hall := CacheBlock.isInvalidLine_iff.mp (Bool.eq_true_of_not_eq_false hinvalid) k
  rw [hk] at hall
  cases hall

theorem matchLine_eq_none_iff {line : CacheBlock ct} :
    matchLine line mask = none ↔ line.isInvalidLine = true := by
  constructor
  · intro hnone
    cases hstatus : line.getStatus mask <;> simp only [matchLine, hstatus] at hnone
    · split_ifs at hnone with hvalid
      obtain ⟨tag, blockAddr, body⟩ := line
      cases body with
      | line state =>
          rw [CacheBlock.isInvalidLine_iff]
          exact fun _ => hstatus
      | sectors sectorLine => simpa [CacheBlock.isValidLine] using hvalid
    · cases hnone
    · cases hnone
    · split_ifs at hnone
  · intro hinvalid
    have hstatus : line.getStatus mask = .invalid := CacheBlock.isInvalidLine_iff.mp hinvalid _
    have hvalid : ¬ line.isValidLine = true := fun hvalid => by
      rw [CacheBlock.isInvalidLine_of_isValidLine hvalid] at hinvalid
      cases hinvalid
    rw [matchLine, hstatus]
    exact if_neg hvalid

theorem noMatch_iff {tags : TagArray ct} {addr : Addr} :
    NoMatch cfg tags addr mask ↔ Absent cfg tags addr :=
  forall₃_congr fun _ _ _ => matchLine_eq_none_iff

/-- What the loop over the ways knows of those it has seen. -/
structure ProbeState.Best (cfg : CacheConfig) (lines : ℕ → CacheBlock ct) (base : ℕ)
    (seen : List ℕ) (s : ProbeState) : Prop where
  invalid : ∀ v, s.invalidLine = some v →
    ∃ way ∈ seen, v = base + way ∧ (lines v).isInvalidLine = true
  noInvalid : s.invalidLine = none → ∀ way ∈ seen, (lines (base + way)).isInvalidLine = false
  valid : ∀ v, s.validLine = some v →
    ∃ way ∈ seen, v = base + way ∧ (lines v).isReservedLine = false ∧
      cfg.timestamp (lines v) = s.validTimestamp
  noValid : s.validLine = none → s.validTimestamp = -1
  oldest : ∀ way ∈ seen, (lines (base + way)).isReservedLine = false →
    (lines (base + way)).isInvalidLine = false →
    s.validTimestamp ≤ cfg.timestamp (lines (base + way))
  allReserved : s.allReserved = true ↔
    ∀ way ∈ seen, (lines (base + way)).isReservedLine = true

theorem ProbeState.Best.start (cfg : CacheConfig) (lines : ℕ → CacheBlock ct) (base : ℕ) :
    ({} : ProbeState).Best cfg lines base [] where
  invalid v hv := by cases hv
  noInvalid _ way hway := by cases hway
  valid v hv := by cases hv
  noValid _ := rfl
  oldest way hway := by cases hway
  allReserved := ⟨fun _ way hway => (List.not_mem_nil hway).elim, fun _ => rfl⟩

theorem ProbeState.Best.visit_reserved (h : s.Best cfg lines base seen)
    (hres : (lines (base + way)).isReservedLine = true) :
    s.Best cfg lines base (seen ++ [way]) where
  invalid v hv := by
    obtain ⟨w, hw, hrest⟩ := h.invalid v hv
    exact ⟨w, List.mem_append_left _ hw, hrest⟩
  noInvalid hnone w hw := by
    rcases List.mem_append.mp hw with hw | hw
    · exact h.noInvalid hnone w hw
    · rw [List.mem_singleton.mp hw]
      exact isInvalidLine_of_isReservedLine hres
  valid v hv := by
    obtain ⟨w, hw, hrest⟩ := h.valid v hv
    exact ⟨w, List.mem_append_left _ hw, hrest⟩
  noValid := h.noValid
  oldest w hw hunres := by
    rcases List.mem_append.mp hw with hw | hw
    · exact h.oldest w hw hunres
    · rw [List.mem_singleton.mp hw, hres] at hunres
      cases hunres
  allReserved := by
    rw [List.forall_mem_append, List.forall_mem_singleton, ← h.allReserved]
    exact (and_iff_left hres).symm

theorem ProbeState.Best.visit_invalid (h : s.Best cfg lines base seen)
    (hinvalid : (lines (base + way)).isInvalidLine = true) :
    ({ s with allReserved := false, invalidLine := some (base + way) } : ProbeState).Best cfg
      lines base (seen ++ [way]) where
  invalid v hv := by
    cases hv
    exact ⟨way, List.mem_append_right _ List.mem_cons_self, rfl, hinvalid⟩
  noInvalid hnone := by cases hnone
  valid v hv := by
    obtain ⟨w, hw, hrest⟩ := h.valid v hv
    exact ⟨w, List.mem_append_left _ hw, hrest⟩
  noValid := h.noValid
  oldest w hw hunres hvalid := by
    rcases List.mem_append.mp hw with hw | hw
    · exact h.oldest w hw hunres hvalid
    · rw [List.mem_singleton.mp hw, hinvalid] at hvalid
      cases hvalid
  allReserved := by
    constructor
    · intro hfalse
      cases hfalse
    · intro hall
      have hres := hall way (List.mem_append_right _ List.mem_cons_self)
      rw [isInvalidLine_of_isReservedLine hres] at hinvalid
      cases hinvalid

theorem ProbeState.Best.visit_valid (h : s.Best cfg lines base seen)
    (hres : (lines (base + way)).isReservedLine = false)
    (hinvalid : (lines (base + way)).isInvalidLine = false) :
    (if cfg.timestamp (lines (base + way)) < s.validTimestamp then
        { s with
          allReserved := false
          validTimestamp := cfg.timestamp (lines (base + way))
          validLine := some (base + way) }
      else { s with allReserved := false } : ProbeState).Best cfg lines base (seen ++ [way]) := by
  have hnoInvalid : s.invalidLine = none →
      ∀ w ∈ seen ++ [way], (lines (base + w)).isInvalidLine = false := by
    intro hnone w hw
    rcases List.mem_append.mp hw with hw | hw
    · exact h.noInvalid hnone w hw
    · rw [List.mem_singleton.mp hw]
      exact hinvalid
  have hsome : ∀ v, s.invalidLine = some v →
      ∃ w ∈ seen ++ [way], v = base + w ∧ (lines v).isInvalidLine = true := by
    intro v hv
    obtain ⟨w, hw, hrest⟩ := h.invalid v hv
    exact ⟨w, List.mem_append_left _ hw, hrest⟩
  have hnotAll : ¬ ∀ w ∈ seen ++ [way], (lines (base + w)).isReservedLine = true := by
    intro hall
    rw [hall way (List.mem_append_right _ List.mem_cons_self)] at hres
    cases hres
  split_ifs with holder
  · refine ⟨hsome, hnoInvalid, ?_, ?_, ?_, iff_of_false Bool.false_ne_true hnotAll⟩
    · rintro v ⟨⟩
      exact ⟨way, List.mem_append_right _ List.mem_cons_self, rfl, hres, rfl⟩
    · intro hnone
      cases hnone
    · intro w hw hunres hvalid
      rcases List.mem_append.mp hw with hw | hw
      · exact UInt32.le_trans (UInt32.le_of_lt holder) (h.oldest w hw hunres hvalid)
      · rw [List.mem_singleton.mp hw]
        exact UInt32.le_refl _
  · refine ⟨hsome, hnoInvalid, ?_, h.noValid, ?_, iff_of_false Bool.false_ne_true hnotAll⟩
    · intro v hv
      obtain ⟨w, hw, hrest⟩ := h.valid v hv
      exact ⟨w, List.mem_append_left _ hw, hrest⟩
    · intro w hw hunres hvalid
      rcases List.mem_append.mp hw with hw | hw
      · exact h.oldest w hw hunres hvalid
      · rw [List.mem_singleton.mp hw]
        exact UInt32.not_lt.mp holder

theorem ProbeState.Best.visit (h : s.Best cfg lines base seen) (way : ℕ) :
    (s.visit cfg (base + way) (lines (base + way))).Best cfg lines base (seen ++ [way]) := by
  rw [ProbeState.visit]
  split_ifs with hres hinvalid
  · exact h.visit_reserved hres
  · exact h.visit_invalid hinvalid
  · exact h.visit_valid (Bool.eq_false_of_not_eq_true hres)
      (Bool.eq_false_of_not_eq_true hinvalid)

theorem probeWays_best {tag : Addr} {ways seen : List ℕ} (h : s.Best cfg lines base seen)
    (hmatch : ∀ way ∈ ways, (lines (base + way)).tag = tag →
      matchLine (lines (base + way)) mask = none) :
    ∃ s', probeWays cfg lines tag mask base ways s = .inr s' ∧
      s'.Best cfg lines base (seen ++ ways) := by
  induction ways generalizing s seen with
  | nil => exact ⟨s, rfl, by simpa using h⟩
  | cons way ways ih =>
      have hnone : (if (lines (base + way)).tag = tag then matchLine (lines (base + way)) mask
          else none) = none := by
        split_ifs with htag
        · exact hmatch way List.mem_cons_self htag
        · rfl
      obtain ⟨s', hrun, hbest⟩ := ih (h.visit way) fun w hw => hmatch w (List.mem_cons_of_mem _ hw)
      refine ⟨s', ?_, by simpa using hbest⟩
      rw [probeWays, hnone]
      exact hrun

/-! ## Ages -/

section Ages

variable {epoch : ℕ} {t t' : UInt64}

theorem InEpoch.toUInt32_le_iff (h : InEpoch epoch t) (h' : InEpoch epoch t') :
    t.toUInt32 ≤ t'.toUInt32 ↔ t ≤ t' := by
  rw [UInt32.le_iff_toNat_le, UInt64.le_iff_toNat_le, UInt64.toNat_toUInt32,
    UInt64.toNat_toUInt32]
  obtain ⟨hdiv, -⟩ := h
  obtain ⟨hdiv', -⟩ := h'
  omega

theorem InEpoch.toUInt32_ne (h : InEpoch epoch t) : t.toUInt32 ≠ -1 := by
  intro heq
  have hnat := congrArg UInt32.toNat heq
  rw [UInt64.toNat_toUInt32] at hnat
  exact h.2 hnat

end Ages

/-- The ages of a line that is not invalid are those of its last access and allocation. -/
structure LineDated (epoch : ℕ) (recency : Recency) (idx : ℕ) (line : CacheBlock ct) : Prop where
  accessed : InEpoch epoch (recency.accessed idx)
  allocated : InEpoch epoch (recency.allocated idx)
  lastAccessTime : line.getLastAccessTime = (recency.accessed idx).toUInt32
  allocTime : line.getAllocTime = (recency.allocated idx).toUInt32

namespace LineDated

variable {epoch : ℕ} {recency : Recency} {idx : ℕ} {line : CacheBlock ct}

theorem inEpoch (h : LineDated epoch recency idx line) (cfg : CacheConfig) :
    InEpoch epoch (recency.age cfg idx) := by
  rw [Recency.age]
  cases cfg.replacementPolicy with
  | lru => exact h.accessed
  | fifo => exact h.allocated

theorem timestamp (h : LineDated epoch recency idx line) (cfg : CacheConfig) :
    cfg.timestamp line = (recency.age cfg idx).toUInt32 := by
  rw [Recency.age, CacheConfig.timestamp]
  cases cfg.replacementPolicy with
  | lru => exact h.lastAccessTime
  | fifo => exact h.allocTime

end LineDated

/-- What calls keep: lines that are not invalid have different tags and the right ages, and a
cache that allocates when it is filled reserves none. -/
structure Dated (epoch : ℕ) (s : TimedTags cfg) : Prop where
  unique : UniqueTags cfg s.tags
  dated : ∀ idx, (s.tags.lines idx).isInvalidLine = false →
    LineDated epoch s.recency idx (s.tags.lines idx)
  held : ∀ idx ∈ s.held, (s.tags.lines idx).isInvalidLine = false
  unreserved : cfg.allocPolicy = .onFill → ∀ idx, (s.tags.lines idx).isReservedLine = false

/-! ## What a probe selects -/

section Selection

variable {epoch : ℕ} {s : TimedTags cfg} {addr : Addr} {mask : SectorMask} {p : ProbeState}

theorem ProbeState.Best.isVictim {victim : ℕ} (h : Dated epoch s)
    (hbest : p.Best cfg s.tags.lines (cfg.setIndex addr * cfg.assoc) (List.range cfg.assoc))
    (hvictim : (p.invalidLine <|> p.validLine) = some victim) : IsVictim s addr victim := by
  cases hinvalid : p.invalidLine with
  | some v =>
      rw [hinvalid] at hvictim
      cases hvictim
      obtain ⟨way, hway, rfl, hline⟩ := hbest.invalid _ hinvalid
      have hunres :
          (s.tags.lines (cfg.setIndex addr * cfg.assoc + way)).isReservedLine = false := by
        by_contra hres
        rw [isInvalidLine_of_isReservedLine (Bool.eq_true_of_not_eq_false hres)] at hline
        cases hline
      refine ⟨⟨way, List.mem_range.mp hway, rfl⟩, hunres, fun _ _ _ => hline, fun hvalid => ?_⟩
      rw [hline] at hvalid
      cases hvalid
  | none =>
      rw [hinvalid] at hvictim
      have hnone : ∀ w < cfg.assoc,
          (s.tags.lines (cfg.setIndex addr * cfg.assoc + w)).isInvalidLine = false :=
        fun w hw => hbest.noInvalid hinvalid w (List.mem_range.mpr hw)
      obtain ⟨way, hway, rfl, hunres, hstamp⟩ := hbest.valid victim hvictim
      refine ⟨⟨way, List.mem_range.mp hway, rfl⟩, hunres, fun w hw hline => ?_, ?_⟩
      · rw [hnone w hw] at hline
        cases hline
      · intro hvalid w hw hfree
        have hdated := h.dated _ hvalid
        have hother := h.dated _ (hnone w hw)
        have hle := hbest.oldest w (List.mem_range.mpr hw) hfree (hnone w hw)
        rw [← hstamp, hdated.timestamp, hother.timestamp] at hle
        exact ((hdated.inEpoch cfg).toUInt32_le_iff (hother.inEpoch cfg)).mp hle

theorem ProbeState.Best.exists_victim (h : Dated epoch s)
    (hbest : p.Best cfg s.tags.lines (cfg.setIndex addr * cfg.assoc) (List.range cfg.assoc))
    (hfree : p.allReserved ≠ true) : (p.invalidLine <|> p.validLine) ≠ none := by
  intro hnone
  obtain ⟨hinvalid, hvalid⟩ : p.invalidLine = none ∧ p.validLine = none := by
    cases hline : p.invalidLine with
    | none =>
        rw [hline] at hnone
        exact ⟨rfl, hnone⟩
    | some v =>
        rw [hline] at hnone
        cases hnone
  apply hfree
  rw [hbest.allReserved]
  intro way hway
  by_contra hres
  have hline := hbest.noInvalid hinvalid way hway
  have hle := hbest.oldest way hway (Bool.eq_false_of_not_eq_true hres) hline
  have hdated := h.dated _ hline
  -- the search starts with a time no line has
  rw [hbest.noValid hvalid, hdated.timestamp cfg] at hle
  apply (hdated.inEpoch cfg).toUInt32_ne
  apply UInt32.le_antisymm _ hle
  rw [UInt32.le_iff_toNat_le]
  exact Nat.le_of_lt_succ (UInt32.toNat_lt _)

theorem probeWays_inl {tag : Addr} {ways : List ℕ} {found : RequestStatus × ℕ}
    (h : probeWays cfg lines tag mask base ways p = .inl found) :
    ∃ way ∈ ways, (lines (base + way)).tag = tag ∧
      matchLine (lines (base + way)) mask = some found.1 := by
  induction ways generalizing p with
  | nil => cases h
  | cons way ways ih =>
      rw [probeWays] at h
      cases hmatch : if (lines (base + way)).tag = tag then matchLine (lines (base + way)) mask
          else none with
      | some status =>
          rw [hmatch] at h
          cases h
          split_ifs at hmatch with htag
          exact ⟨way, List.mem_cons_self, htag, hmatch⟩
      | none =>
          rw [hmatch] at h
          obtain ⟨w, hw, hrest⟩ := ih h
          exact ⟨w, List.mem_cons_of_mem _ hw, hrest⟩

theorem TagArray.probeWays_cases (cfg : CacheConfig) (tags : TagArray ct) (addr : Addr)
    (mask : SectorMask) :
    (¬ Absent cfg tags addr ∧ ∃ found : RequestStatus × ℕ, found.1 ≠ .reservationFail ∧
        probeWays cfg tags.lines (cfg.blockAddr addr) mask (cfg.setIndex addr * cfg.assoc)
          (List.range cfg.assoc) {} = .inl found) ∨
      (Absent cfg tags addr ∧ ∃ p : ProbeState,
        probeWays cfg tags.lines (cfg.blockAddr addr) mask (cfg.setIndex addr * cfg.assoc)
          (List.range cfg.assoc) {} = .inr p ∧
        p.Best cfg tags.lines (cfg.setIndex addr * cfg.assoc) (List.range cfg.assoc)) := by
  by_cases habsent : Absent cfg tags addr
  · have hbest : ∃ p : ProbeState,
        probeWays cfg tags.lines (cfg.blockAddr addr) mask (cfg.setIndex addr * cfg.assoc)
          (List.range cfg.assoc) {} = .inr p ∧
        p.Best cfg tags.lines (cfg.setIndex addr * cfg.assoc) ([] ++ List.range cfg.assoc) :=
      probeWays_best (.start cfg tags.lines _) fun way hway =>
        noMatch_iff.mpr habsent way (List.mem_range.mp hway)
    exact .inr ⟨habsent, hbest⟩
  · cases hrun : probeWays cfg tags.lines (cfg.blockAddr addr) mask
        (cfg.setIndex addr * cfg.assoc) (List.range cfg.assoc) {} with
    | inl found =>
        refine .inl ⟨habsent, found, ?_, rfl⟩
        obtain ⟨way, -, -, hmatch⟩ := probeWays_inl hrun
        intro hfail
        rw [hfail] at hmatch
        rcases matchLine_some hmatch with ⟨h, -⟩ | ⟨h, -⟩ | ⟨h, -⟩ <;> cases h
    | inr p =>
        refine absurd (fun way hway htag => ?_) habsent
        have hstart : ({} : ProbeState).Replaceable tags.lines (cfg.setIndex addr * cfg.assoc)
            cfg.assoc := by
          rintro v (hv | hv) <;> cases hv
        rcases probeWays_spec (cfg.blockAddr addr) mask (List.range cfg.assoc)
            (fun w => List.mem_range.mp) {} hstart with
          ⟨w, -, found, -, -, hfound⟩ | ⟨p', -, -, hno, -⟩
        · rw [hrun] at hfound
          cases hfound
        · exact matchLine_eq_none_iff.mp (hno way (List.mem_range.mpr hway) htag)

theorem Dated.selects (h : Dated epoch s) (addr : Addr) (idx : ℕ) (mask : SectorMask)
    (probeMode : Option MemFetch) : Selects s addr idx mask probeMode := by
  rcases s.tags.probeWays_cases cfg addr mask with
    ⟨hheld, found, hfound, hrun⟩ | ⟨habsent, p, hrun, hbest⟩
  · have hprobe : s.tags.probe cfg addr idx mask probeMode = .ok found := by
      rw [TagArray.probe, hrun]
    constructor
    · rw [hprobe]
      exact fun heq => by cases heq
    · exact fun _ _ habsent => absurd habsent hheld
    · intro i hi
      rw [hprobe] at hi
      exact absurd (congrArg Prod.fst (Except.ok.inj hi)) hfound
    · exact fun _ habsent => absurd habsent hheld
  · have hfull : p.allReserved = true ↔ AllReserved cfg s.tags addr := by
      rw [hbest.allReserved]
      exact forall_congr' fun _ => imp_congr_left List.mem_range
    by_cases hres : p.allReserved = true
    · have hprobe : s.tags.probe cfg addr idx mask probeMode =
          if cfg.allocPolicy = .onMiss then .ok (.reservationFail, idx)
          else .error .allReserved := by
        rw [TagArray.probe, hrun]
        exact if_pos hres
      constructor
      · rw [hprobe]
        split_ifs <;> exact fun heq => by cases heq
      · intro status i _ hstatus hi
        rw [hprobe] at hi
        split_ifs at hi
        exact absurd (congrArg Prod.fst (Except.ok.inj hi)).symm hstatus
      · exact fun _ _ => ⟨habsent, hfull.mp hres⟩
      · intro hways _ hall
        rw [hprobe, if_pos]
        by_contra hpolicy
        have hfree := h.unreserved (cfg.onFill_of_ne hpolicy) (cfg.setIndex addr * cfg.assoc + 0)
        rw [hall 0 hways] at hfree
        cases hfree
    · have hsome := hbest.exists_victim h hres
      cases hvictim : p.invalidLine <|> p.validLine with
      | none => exact absurd hvictim hsome
      | some victim =>
          have hprobe : ∃ status, status ≠ .reservationFail ∧
              s.tags.probe cfg addr idx mask probeMode = .ok (status, victim) := by
            rw [TagArray.probe, hrun]
            simp only [if_neg hres, hvictim]
            cases probeMode with
            | none => exact ⟨.miss, by decide, rfl⟩
            | some mf =>
                by_cases hwait : cfg.isStreaming ∧ s.tags.waitsForOther cfg addr mf
                · exact ⟨.sectorMiss, by decide, if_pos hwait⟩
                · exact ⟨.miss, by decide, if_neg hwait⟩
          obtain ⟨status, hstatus, hprobe⟩ := hprobe
          constructor
          · rw [hprobe]
            exact fun heq => by cases heq
          · intro status' i _ _ hi
            rw [hprobe] at hi
            cases hi
            exact hbest.isVictim h hvictim
          · intro i hi
            rw [hprobe] at hi
            exact absurd (congrArg Prod.fst (Except.ok.inj hi)) hstatus
          · exact fun _ _ hall => absurd (hfull.mpr hall) hres

end Selection

end GpuCalorie.Cache
