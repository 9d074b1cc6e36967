/-
# The tag array

`probe` looks a block up in its set, or picks the line that is replaced. `Probed` says
what its outcomes mean, and `TagAccessed` what an access does to the line it found; later
proofs use these and never the loop over the ways.
-/

import GpuCalorie.Cache.Block
import GpuCalorie.Math.Outcome

namespace GpuCalorie.Cache

open GpuCalorie.Math

/-- `tag_array`: its lines by index, and the instructions that wait for a block of a
streaming cache. -/
structure TagArray (ct : CacheType) where
  lines : ℕ → CacheBlock ct := fun _ => .empty ct
  pendingLines : Addr → Option ℕ := fun _ => none

variable {cfg : CacheConfig} {ct : CacheType}

/-! ## Probing -/

/-- What a line with the right tag means for a request. -/
def matchLine (line : CacheBlock ct) (mask : SectorMask) : Option RequestStatus :=
  match line.getStatus mask with
  | .reserved => some .hitReserved
  | .valid => some .hit
  | .modified => if line.isReadable mask then some .hit else some .sectorMiss
  | .invalid => if line.isValidLine then some .sectorMiss else none

/-- The variables of the loop over the ways. -/
structure ProbeState where
  invalidLine : Option ℕ := none
  validLine : Option ℕ := none
  validTimestamp : UInt32 := -1
  allReserved : Bool := true

/-- A line that does not match may be replaced unless it is reserved; of the valid ones
the oldest is. -/
def ProbeState.visit (cfg : CacheConfig) (index : ℕ) (line : CacheBlock ct) (s : ProbeState) :
    ProbeState :=
  if line.isReservedLine then s
  else if line.isInvalidLine then { s with allReserved := false, invalidLine := some index }
  else
    let timestamp :=
      match cfg.replacementPolicy with
      | .lru => line.getLastAccessTime
      | .fifo => line.getAllocTime
    if timestamp < s.validTimestamp then
      { s with allReserved := false, validTimestamp := timestamp, validLine := some index }
    else { s with allReserved := false }

/-- The loop over the ways of a set, until one matches. -/
def probeWays (cfg : CacheConfig) (lines : ℕ → CacheBlock ct) (tag : Addr) (mask : SectorMask)
    (base : ℕ) : List ℕ → ProbeState → (RequestStatus × ℕ) ⊕ ProbeState
  | [], s => .inr s
  | way :: ways, s =>
    let line := lines (base + way)
    match if line.tag = tag then matchLine line mask else none with
    | some status => .inl (status, base + way)
    | none => probeWays cfg lines tag mask base ways (s.visit cfg (base + way) line)

/-- In a streaming cache another instruction waits for the block of a read. -/
def TagArray.waitsForOther (cfg : CacheConfig) (tags : TagArray ct) (addr : Addr)
    (mf : MemFetch) : Bool :=
  match tags.pendingLines (cfg.blockAddr addr) with
  | some uid => !mf.isWrite && uid ≠ mf.instUid
  | none => false

/-- `probe`. In probe mode it is given the request. -/
def TagArray.probe (cfg : CacheConfig) (tags : TagArray ct) (addr : Addr) (idx : ℕ)
    (mask : SectorMask) (probeMode : Option MemFetch) : Except CacheFailure (RequestStatus × ℕ) :=
  let base := cfg.setIndex addr * cfg.assoc
  match probeWays cfg tags.lines (cfg.blockAddr addr) mask base (List.range cfg.assoc) {} with
  | .inl found => .ok found
  | .inr s =>
    if s.allReserved then
      if cfg.allocPolicy = .onMiss then .ok (.reservationFail, idx) else .error .allReserved
    else
      match s.invalidLine <|> s.validLine with
      | none => .error .noVictim
      | some victim =>
        match probeMode with
        | some mf =>
          if cfg.isStreaming ∧ tags.waitsForOther cfg addr mf then .ok (.sectorMiss, victim)
          else .ok (.miss, victim)
        | none => .ok (.miss, victim)

/-- The index of no line, `(unsigned)-1`. -/
def noIndex : ℕ := 2 ^ 32 - 1

/-- What an access would find. -/
def TagArray.outcome (cfg : CacheConfig) (tags : TagArray ct) (addr : Addr) (mask : SectorMask) :
    Option (RequestStatus × ℕ) :=
  (tags.probe cfg addr noIndex mask none).toOption

/-- No line of a set holds the sector, or another sector, of a block. -/
def NoMatch (cfg : CacheConfig) (tags : TagArray ct) (addr : Addr) (mask : SectorMask) : Prop :=
  ∀ way < cfg.assoc, (tags.lines (cfg.setIndex addr * cfg.assoc + way)).tag = cfg.blockAddr addr →
    matchLine (tags.lines (cfg.setIndex addr * cfg.assoc + way)) mask = none

/-- What the outcome of a probe means. -/
inductive Probed (cfg : CacheConfig) (tags : TagArray ct) (addr : Addr) (mask : SectorMask) :
    RequestStatus → ℕ → Prop
  | found {status : RequestStatus} {way : ℕ} (inSet : way < cfg.assoc)
      (tag : (tags.lines (cfg.setIndex addr * cfg.assoc + way)).tag = cfg.blockAddr addr)
      (matched : matchLine (tags.lines (cfg.setIndex addr * cfg.assoc + way)) mask = some status) :
      Probed cfg tags addr mask status (cfg.setIndex addr * cfg.assoc + way)
  | victim {status : RequestStatus} {way : ℕ} (inSet : way < cfg.assoc)
      (noMatch : NoMatch cfg tags addr mask)
      (unreserved :
        (tags.lines (cfg.setIndex addr * cfg.assoc + way)).isReservedLine = false)
      (miss : status = .miss ∨ (status = .sectorMiss ∧ cfg.isStreaming = true)) :
      Probed cfg tags addr mask status (cfg.setIndex addr * cfg.assoc + way)
  | full {idx : ℕ} (noMatch : NoMatch cfg tags addr mask)
      (reserved : ∀ way < cfg.assoc,
        (tags.lines (cfg.setIndex addr * cfg.assoc + way)).isReservedLine = true)
      (onMiss : cfg.allocPolicy = .onMiss) :
      Probed cfg tags addr mask .reservationFail idx

variable {tags tags' : TagArray ct} {addr tag : Addr} {mask : SectorMask} {base idx idx' : ℕ}
  {status : RequestStatus} {lines : ℕ → CacheBlock ct} {probeMode : Option MemFetch} {time : UInt32}
  {mf : MemFetch} {i : ℕ}

/-- The lines that may be replaced are lines that are not reserved. -/
def ProbeState.Replaceable (lines : ℕ → CacheBlock ct) (base assoc : ℕ) (s : ProbeState) : Prop :=
  ∀ v, s.invalidLine = some v ∨ s.validLine = some v →
    ∃ way < assoc, v = base + way ∧ (lines v).isReservedLine = false

theorem ProbeState.Replaceable.visit {s : ProbeState} {assoc way : ℕ}
    (h : s.Replaceable lines base assoc) (hway : way < assoc) :
    (s.visit cfg (base + way) (lines (base + way))).Replaceable lines base assoc := by
  intro v hv
  have hself : (lines (base + way)).isReservedLine ≠ true → v = base + way →
      ∃ way < assoc, v = base + way ∧ (lines v).isReservedLine = false := by
    rintro hres rfl
    exact ⟨way, hway, rfl, by simpa using hres⟩
  simp only [ProbeState.visit] at hv
  split_ifs at hv with hres hinv htime
  · exact h v hv
  · rcases hv with hv | hv
    · exact hself hres (Option.some.inj hv).symm
    · exact h v (.inr hv)
  · rcases hv with hv | hv
    · exact h v (.inl hv)
    · exact hself hres (Option.some.inj hv).symm
  · exact h v hv

theorem ProbeState.allReserved_visit {s : ProbeState} (index : ℕ) (line : CacheBlock ct) :
    (s.visit cfg index line).allReserved = (s.allReserved && line.isReservedLine) := by
  simp only [ProbeState.visit]
  split_ifs with hres hinv htime <;> simp [hres]

theorem probeWays_spec {assoc : ℕ} (tag : Addr) (mask : SectorMask) (ways : List ℕ)
    (hways : ∀ way ∈ ways, way < assoc)
    (s : ProbeState) (hs : s.Replaceable lines base assoc) :
    (∃ way ∈ ways, ∃ status, (lines (base + way)).tag = tag ∧
        matchLine (lines (base + way)) mask = some status ∧
        probeWays cfg lines tag mask base ways s = .inl (status, base + way)) ∨
      ∃ s', probeWays cfg lines tag mask base ways s = .inr s' ∧
        s'.Replaceable lines base assoc ∧
        (∀ way ∈ ways, (lines (base + way)).tag = tag →
          matchLine (lines (base + way)) mask = none) ∧
        s'.allReserved =
          (s.allReserved && ways.all fun way => (lines (base + way)).isReservedLine) := by
  induction ways generalizing s with
  | nil => exact .inr ⟨s, rfl, hs, by simp, by simp⟩
  | cons way ways ih =>
      have hway : way < assoc := hways way List.mem_cons_self
      have hrest : ∀ w ∈ ways, w < assoc := fun w hw => hways w (List.mem_cons_of_mem _ hw)
      rw [probeWays]
      cases hmatch : if (lines (base + way)).tag = tag then matchLine (lines (base + way)) mask
          else none with
      | some status =>
          have htag : (lines (base + way)).tag = tag := by
            by_contra hne
            simp [hne] at hmatch
          rw [if_pos htag] at hmatch
          exact .inl ⟨way, List.mem_cons_self, status, htag, hmatch, rfl⟩
      | none =>
          have hnone : (lines (base + way)).tag = tag →
              matchLine (lines (base + way)) mask = none := by
            intro htag
            rwa [if_pos htag] at hmatch
          rcases ih hrest _ (hs.visit hway) with ⟨w, hw, hfound⟩ | ⟨s', hrun, hs', hno, hall⟩
          · exact .inl ⟨w, List.mem_cons_of_mem _ hw, hfound⟩
          · refine .inr ⟨s', hrun, hs', ?_, ?_⟩
            · intro w hw
              rcases List.mem_cons.mp hw with rfl | hw
              · exact hnone
              · exact hno w hw
            · rw [hall, ProbeState.allReserved_visit, List.all_cons, Bool.and_assoc]

theorem matchLine_some {line : CacheBlock ct} (h : matchLine line mask = some status) :
    (status = .hitReserved ∧ line.getStatus mask = .reserved) ∨
      (status = .hit ∧ (line.getStatus mask = .valid ∨ line.getStatus mask = .modified)) ∨
      (status = .sectorMiss ∧ (line.getStatus mask = .modified ∨
        (line.getStatus mask = .invalid ∧ line.isValidLine = true))) := by
  cases hstatus : line.getStatus mask <;> simp only [matchLine, hstatus] at h
  · split_ifs at h with hvalid
    cases h
    exact .inr (.inr ⟨rfl, .inr ⟨rfl, hvalid⟩⟩)
  · cases h
    exact .inl ⟨rfl, rfl⟩
  · cases h
    exact .inr (.inl ⟨rfl, .inl rfl⟩)
  · split_ifs at h
    · cases h
      exact .inr (.inl ⟨rfl, .inr rfl⟩)
    · cases h
      exact .inr (.inr ⟨rfl, .inl rfl⟩)

theorem TagArray.probe_ok (h : tags.probe cfg addr idx mask probeMode = .ok (status, idx')) :
    Probed cfg tags addr mask status idx' ∧
      (status = .reservationFail → idx' = idx) := by
  have hstart : ({} : ProbeState).Replaceable tags.lines (cfg.setIndex addr * cfg.assoc)
      cfg.assoc := by
    rintro v (hv | hv) <;> cases hv
  simp only [TagArray.probe] at h
  rcases probeWays_spec (cfg.blockAddr addr) mask (List.range cfg.assoc)
      (fun w => List.mem_range.mp) {} hstart with
    ⟨way, hway, found, htag, hmatch, hrun⟩ | ⟨s, hrun, hs, hno, hall⟩
  · rw [hrun] at h
    obtain ⟨rfl, rfl⟩ := Prod.mk.inj (Except.ok.inj h)
    refine ⟨.found (List.mem_range.mp hway) htag hmatch, ?_⟩
    rintro rfl
    rcases matchLine_some hmatch with ⟨h, -⟩ | ⟨h, -⟩ | ⟨h, -⟩ <;> cases h
  · have hnoMatch : NoMatch cfg tags addr mask :=
      fun way hway => hno way (List.mem_range.mpr hway)
    rw [hrun] at h
    simp only at h
    split_ifs at h with hres honMiss
    · obtain ⟨rfl, rfl⟩ := Prod.mk.inj (Except.ok.inj h)
      refine ⟨.full hnoMatch ?_ honMiss, fun _ => rfl⟩
      rw [hall, Bool.true_and, List.all_eq_true] at hres
      exact fun way hway => hres way (List.mem_range.mpr hway)
    · have hvictim : ∀ v, (s.invalidLine <|> s.validLine) = some v →
          ∃ way < cfg.assoc, v = cfg.setIndex addr * cfg.assoc + way ∧
            (tags.lines v).isReservedLine = false := by
        intro v hv
        apply hs
        cases hinv : s.invalidLine with
        | none =>
            rw [hinv] at hv
            exact .inr hv
        | some w =>
            rw [hinv] at hv
            exact .inl hv
      cases hv : s.invalidLine <|> s.validLine with
      | none =>
          rw [hv] at h
          cases h
      | some v =>
          obtain ⟨way, hway, rfl, hunreserved⟩ := hvictim v hv
          rw [hv] at h
          cases probeMode with
          | none =>
              obtain ⟨rfl, rfl⟩ := Prod.mk.inj (Except.ok.inj h)
              exact ⟨.victim hway hnoMatch hunreserved (.inl rfl), fun h => by cases h⟩
          | some mf =>
              simp only at h
              split_ifs at h with hwait
              · obtain ⟨rfl, rfl⟩ := Prod.mk.inj (Except.ok.inj h)
                exact ⟨.victim hway hnoMatch hunreserved (.inr ⟨rfl, hwait.1⟩),
                  fun h => by cases h⟩
              · obtain ⟨rfl, rfl⟩ := Prod.mk.inj (Except.ok.inj h)
                exact ⟨.victim hway hnoMatch hunreserved (.inl rfl), fun h => by cases h⟩

/-- The assertions of `probe` and `access`. -/
def tagFailures : List CacheFailure :=
  [.allReserved, .noVictim, .sectorMissOfLine, .allocateSector]

theorem TagArray.probe_error {e : CacheFailure}
    (h : tags.probe cfg addr idx mask probeMode = .error e) : e ∈ tagFailures := by
  simp only [TagArray.probe] at h
  cases hrun : probeWays cfg tags.lines (cfg.blockAddr addr) mask (cfg.setIndex addr * cfg.assoc)
      (List.range cfg.assoc) {} with
  | inl found =>
      rw [hrun] at h
      cases h
  | inr s =>
      rw [hrun] at h
      simp only at h
      split_ifs at h with hres honMiss
      · cases h
        simp [tagFailures]
      · cases hv : s.invalidLine <|> s.validLine with
        | none =>
            rw [hv] at h
            cases h
            simp [tagFailures]
        | some v =>
            rw [hv] at h
            cases probeMode with
            | none => cases h
            | some mf =>
                simp only at h
                split_ifs at h

theorem TagArray.probe_none {status' : RequestStatus} {i i' : ℕ}
    (h : tags.probe cfg addr idx mask probeMode = .ok (status, i))
    (h' : tags.probe cfg addr idx' mask none = .ok (status', i')) :
    (status' = status ∨ (cfg.isStreaming = true ∧ status = .sectorMiss ∧ status' = .miss)) ∧
      (status ≠ .reservationFail → i' = i) := by
  simp only [TagArray.probe] at h h'
  cases hrun : probeWays cfg tags.lines (cfg.blockAddr addr) mask (cfg.setIndex addr * cfg.assoc)
      (List.range cfg.assoc) {} with
  | inl found =>
      rw [hrun] at h h'
      have heq := (Except.ok.inj h).symm.trans (Except.ok.inj h')
      exact ⟨.inl (congrArg Prod.fst heq).symm, fun _ => (congrArg Prod.snd heq).symm⟩
  | inr s =>
      rw [hrun] at h h'
      simp only at h h'
      by_cases hres : s.allReserved = true
      · rw [if_pos hres] at h h'
        split_ifs at h h'
        obtain ⟨rfl, rfl⟩ := Prod.mk.inj (Except.ok.inj h)
        obtain ⟨rfl, rfl⟩ := Prod.mk.inj (Except.ok.inj h')
        exact ⟨.inl rfl, fun hne => absurd rfl hne⟩
      · rw [if_neg hres] at h h'
        cases hv : s.invalidLine <|> s.validLine with
        | none =>
            rw [hv] at h
            cases h
        | some v =>
            rw [hv] at h h'
            simp only at h h'
            obtain ⟨rfl, rfl⟩ := Prod.mk.inj (Except.ok.inj h')
            cases probeMode with
            | none =>
                obtain ⟨rfl, rfl⟩ := Prod.mk.inj (Except.ok.inj h)
                exact ⟨.inl rfl, fun _ => rfl⟩
            | some mf =>
                simp only at h
                split_ifs at h with hwait
                · obtain ⟨rfl, rfl⟩ := Prod.mk.inj (Except.ok.inj h)
                  exact ⟨.inr ⟨hwait.1, rfl, rfl⟩, fun _ => rfl⟩
                · obtain ⟨rfl, rfl⟩ := Prod.mk.inj (Except.ok.inj h)
                  exact ⟨.inl rfl, fun _ => rfl⟩

theorem TagArray.probe_idx (idx' : ℕ) (h : tags.probe cfg addr idx mask probeMode = .ok (status, i))
    (hne : status ≠ .reservationFail) :
    tags.probe cfg addr idx' mask probeMode = .ok (status, i) := by
  simp only [TagArray.probe] at h ⊢
  cases hrun : probeWays cfg tags.lines (cfg.blockAddr addr) mask (cfg.setIndex addr * cfg.assoc)
      (List.range cfg.assoc) {} with
  | inl found =>
      rw [hrun] at h
      exact h
  | inr s =>
      rw [hrun] at h
      simp only at h ⊢
      by_cases hres : s.allReserved = true
      · rw [if_pos hres] at h
        split_ifs at h
        exact absurd (congrArg Prod.fst (Except.ok.inj h)).symm hne
      · rw [if_neg hres] at h ⊢
        exact h

theorem TagArray.outcome_of_hit (h : tags.probe cfg addr idx mask probeMode = .ok (.hit, i)) :
    tags.outcome cfg addr mask = some (.hit, i) := by
  simp only [TagArray.outcome, TagArray.probe] at h ⊢
  cases hrun : probeWays cfg tags.lines (cfg.blockAddr addr) mask (cfg.setIndex addr * cfg.assoc)
      (List.range cfg.assoc) {} with
  | inl found =>
      rw [hrun] at h
      rw [Except.ok.inj h]
      rfl
  | inr s =>
      rw [hrun] at h
      simp only at h
      split_ifs at h
      · cases h
      · cases hv : s.invalidLine <|> s.validLine with
        | none =>
            rw [hv] at h
            cases h
        | some v =>
            rw [hv] at h
            cases probeMode with
            | none => cases h
            | some mf =>
                simp only at h
                split_ifs at h <;> cases h

/-! ## Accessing -/

/-- Change one line. -/
def TagArray.modifyLine (tags : TagArray ct) (idx : ℕ) (change : CacheBlock ct → CacheBlock ct) :
    TagArray ct :=
  { tags with lines := Function.update tags.lines idx (change (tags.lines idx)) }

@[simp]
theorem TagArray.modifyLine_modifyLine (tags : TagArray ct) (idx : ℕ)
    (f g : CacheBlock ct → CacheBlock ct) :
    (tags.modifyLine idx f).modifyLine idx g = tags.modifyLine idx fun b => g (f b) := by
  simp [TagArray.modifyLine]

@[simp]
theorem TagArray.lines_modifyLine_self (tags : TagArray ct) (idx : ℕ)
    (change : CacheBlock ct → CacheBlock ct) :
    (tags.modifyLine idx change).lines idx = change (tags.lines idx) :=
  Function.update_self _ _ _

theorem TagArray.lines_modifyLine_ne (change : CacheBlock ct → CacheBlock ct) (h : i ≠ idx) :
    (tags.modifyLine idx change).lines i = tags.lines i :=
  Function.update_of_ne h _ _

/-- What `access` returns, and the tag array after it. -/
structure TagAccess (ct : CacheType) where
  status : RequestStatus
  idx : ℕ
  wb : Bool
  evicted : EvictedBlockInfo
  tags : TagArray ct

/-- `access`. -/
def TagArray.access (cfg : CacheConfig) (tags : TagArray ct) (addr : Addr) (time : UInt32)
    (idx : ℕ) (mf : MemFetch) : Except CacheFailure (TagAccess ct) := do
  let (status, idx) ← tags.probe cfg addr idx mf.sectorMask none
  match status with
  | .hitReserved | .hit =>
    return ⟨status, idx, false, {},
      tags.modifyLine idx (·.setLastAccessTime time mf.sectorMask)⟩
  | .miss =>
    if cfg.allocPolicy = .onMiss then
      let line := tags.lines idx
      let tags := tags.modifyLine idx
        (·.allocate (cfg.blockAddr addr) (cfg.blockAddr addr) time mf.sectorMask)
      if line.isModifiedLine then
        return ⟨status, idx, true, ⟨line.blockAddr, line.getModifiedSize⟩, tags⟩
      else return ⟨status, idx, false, {}, tags⟩
    else return ⟨status, idx, false, {}, tags⟩
  | .sectorMiss =>
    if cfg.cacheType ≠ .sector then .error .sectorMissOfLine
    else if cfg.allocPolicy = .onMiss then
      if (tags.lines idx).isValidLine then
        return ⟨status, idx, false, {}, tags.modifyLine idx (·.allocateSector time mf.sectorMask)⟩
      else .error .allocateSector
    else return ⟨status, idx, false, {}, tags⟩
  | .reservationFail => return ⟨status, idx, false, {}, tags⟩

/-- `access` where no write-back is expected. -/
def TagArray.accessNoWb (cfg : CacheConfig) (tags : TagArray ct) (addr : Addr) (time : UInt32)
    (idx : ℕ) (mf : MemFetch) : Except CacheFailure (TagAccess ct) := do
  let r ← tags.access cfg addr time idx mf
  if r.wb then .error .droppedWriteBack else return r

/-- `fill` of a block, which may have to be allocated. -/
def TagArray.fillBlock (cfg : CacheConfig) (tags : TagArray ct) (addr : Addr) (time : UInt32)
    (mask : SectorMask) : Except CacheFailure (TagArray ct) := do
  let (status, idx) ← tags.probe cfg addr 0 mask none
  match status with
  | .miss =>
    return (tags.modifyLine idx
      (·.allocate (cfg.blockAddr addr) (cfg.blockAddr addr) time mask)).modifyLine idx
        (·.fill time mask)
  | .sectorMiss =>
    if cfg.cacheType ≠ .sector then .error .sectorMissOfLine
    else if (tags.lines idx).isValidLine then
      return (tags.modifyLine idx (·.allocateSector time mask)).modifyLine idx (·.fill time mask)
    else .error .allocateSector
  | _ => return tags.modifyLine idx (·.fill time mask)

/-- `fill` of a line. -/
def TagArray.fillLine (cfg : CacheConfig) (tags : TagArray ct) (idx : ℕ) (time : UInt32)
    (mask : SectorMask) : Except CacheFailure (TagArray ct) :=
  if cfg.allocPolicy = .onMiss then .ok (tags.modifyLine idx (·.fill time mask))
  else .error .fillByIndex

/-- `add_pending_line`. -/
def TagArray.addPendingLine (cfg : CacheConfig) (tags : TagArray ct) (mf : MemFetch) :
    TagArray ct :=
  let addr := cfg.blockAddr mf.addr
  match tags.pendingLines addr with
  | some _ => tags
  | none =>
    { tags with pendingLines := Function.update tags.pendingLines addr (some mf.instUid) }

/-- `remove_pending_line`. -/
def TagArray.removePendingLine (cfg : CacheConfig) (tags : TagArray ct) (mf : MemFetch) :
    TagArray ct :=
  { tags with pendingLines := Function.update tags.pendingLines (cfg.blockAddr mf.addr) none }

/-- What an access did. -/
inductive TagAccessed (cfg : CacheConfig) (tags : TagArray ct) (addr : Addr) (time : UInt32)
    (mf : MemFetch) : TagAccess ct → Prop
  /-- A hit, or a miss that is already being served, only changes times. -/
  | touched {status : RequestStatus} {way : ℕ} (inSet : way < cfg.assoc)
      (tag : (tags.lines (cfg.setIndex addr * cfg.assoc + way)).tag = cfg.blockAddr addr)
      (matched : matchLine (tags.lines (cfg.setIndex addr * cfg.assoc + way)) mf.sectorMask =
        some status)
      (hit : status = .hit ∨ status = .hitReserved) :
      TagAccessed cfg tags addr time mf
        ⟨status, cfg.setIndex addr * cfg.assoc + way, false, {},
          tags.modifyLine (cfg.setIndex addr * cfg.assoc + way)
            (·.setLastAccessTime time mf.sectorMask)⟩
  /-- A miss takes a line that is not reserved, and says whether it was modified. -/
  | allocated {way : ℕ} {wb : Bool} {evicted : EvictedBlockInfo} (inSet : way < cfg.assoc)
      (noMatch : NoMatch cfg tags addr mf.sectorMask)
      (unreserved :
        (tags.lines (cfg.setIndex addr * cfg.assoc + way)).isReservedLine = false)
      (onMiss : cfg.allocPolicy = .onMiss)
      (dirty : wb = (tags.lines (cfg.setIndex addr * cfg.assoc + way)).isModifiedLine)
      (info : wb = true → evicted =
        ⟨(tags.lines (cfg.setIndex addr * cfg.assoc + way)).blockAddr,
          (tags.lines (cfg.setIndex addr * cfg.assoc + way)).getModifiedSize⟩) :
      TagAccessed cfg tags addr time mf
        ⟨.miss, cfg.setIndex addr * cfg.assoc + way, wb, evicted,
          tags.modifyLine (cfg.setIndex addr * cfg.assoc + way)
            (·.allocate (cfg.blockAddr addr) (cfg.blockAddr addr) time mf.sectorMask)⟩
  /-- A sector miss reserves a sector of a line. -/
  | allocatedSector {way : ℕ} (inSet : way < cfg.assoc)
      (tag : (tags.lines (cfg.setIndex addr * cfg.assoc + way)).tag = cfg.blockAddr addr)
      (matched : matchLine (tags.lines (cfg.setIndex addr * cfg.assoc + way)) mf.sectorMask =
        some .sectorMiss)
      (sector : cfg.cacheType = .sector) (onMiss : cfg.allocPolicy = .onMiss)
      (validLine : (tags.lines (cfg.setIndex addr * cfg.assoc + way)).isValidLine = true) :
      TagAccessed cfg tags addr time mf
        ⟨.sectorMiss, cfg.setIndex addr * cfg.assoc + way, false, {},
          tags.modifyLine (cfg.setIndex addr * cfg.assoc + way)
            (·.allocateSector time mf.sectorMask)⟩
  /-- A cache that allocates when it is filled waits for that. -/
  | deferred {status : RequestStatus} {idx : ℕ}
    (probed : Probed cfg tags addr mf.sectorMask status idx)
      (miss : status = .miss ∨ status = .sectorMiss) (onFill : cfg.allocPolicy = .onFill) :
      TagAccessed cfg tags addr time mf ⟨status, idx, false, {}, tags⟩
  | full {idx : ℕ} (probed : Probed cfg tags addr mf.sectorMask .reservationFail idx) :
      TagAccessed cfg tags addr time mf ⟨.reservationFail, idx, false, {}, tags⟩

theorem TagArray.access_ok {r : TagAccess ct}
    (h : tags.access cfg addr time idx mf = .ok r) : TagAccessed cfg tags addr time mf r := by
  rw [TagArray.access] at h
  cases hprobe : tags.probe cfg addr idx mf.sectorMask none with
  | error e =>
      rw [hprobe] at h
      cases h
  | ok found =>
      obtain ⟨status, i⟩ := found
      rw [hprobe] at h
      have hprobed := (TagArray.probe_ok hprobe).1
      cases status with
      | hit =>
          cases h
          cases hprobed with
          | found inSet tag matched => exact .touched inSet tag matched (.inl rfl)
          | victim _ _ _ miss => rcases miss with hmiss | ⟨hmiss, -⟩ <;> cases hmiss
      | hitReserved =>
          cases h
          cases hprobed with
          | found inSet tag matched => exact .touched inSet tag matched (.inr rfl)
          | victim _ _ _ miss => rcases miss with hmiss | ⟨hmiss, -⟩ <;> cases hmiss
      | miss =>
          by_cases honMiss : cfg.allocPolicy = .onMiss
          · simp only [bind, Except.bind, if_pos honMiss] at h
            cases hprobed with
            | found _ _ matched =>
                rcases matchLine_some matched with ⟨hs, -⟩ | ⟨hs, -⟩ | ⟨hs, -⟩ <;> cases hs
            | @victim _ way inSet noMatch unreserved _ =>
                split_ifs at h with hmod
                · cases h
                  exact .allocated inSet noMatch unreserved honMiss hmod.symm fun _ => rfl
                · cases h
                  refine .allocated inSet noMatch unreserved honMiss ?_ fun hwb => by cases hwb
                  simpa using hmod
          · simp only [bind, Except.bind, if_neg honMiss] at h
            cases h
            exact .deferred hprobed (.inl rfl) (cfg.onFill_of_ne honMiss)
      | sectorMiss =>
          simp only [bind, Except.bind] at h
          split_ifs at h with hsector honMiss hvalid
          · cases h
            cases hprobed with
            | found inSet tag matched =>
                exact .allocatedSector inSet tag matched (not_not.mp hsector) honMiss hvalid
            | victim _ _ _ miss =>
                -- a streaming cache allocates when it is filled
                rcases miss with hmiss | ⟨-, hstreaming⟩
                · cases hmiss
                · rw [cfg.streaming hstreaming] at honMiss
                  cases honMiss
          · cases h
            exact .deferred hprobed (.inr rfl) (cfg.onFill_of_ne honMiss)
      | reservationFail =>
          cases h
          exact .full hprobed

theorem TagArray.access_error {e : CacheFailure}
    (h : tags.access cfg addr time idx mf = .error e) : e ∈ tagFailures := by
  rw [TagArray.access] at h
  cases hprobe : tags.probe cfg addr idx mf.sectorMask none with
  | error e' =>
      rw [hprobe] at h
      cases h
      exact TagArray.probe_error hprobe
  | ok found =>
      obtain ⟨status, i⟩ := found
      rw [hprobe] at h
      simp only [bind, Except.bind] at h
      cases status with
      | hit => cases h
      | hitReserved => cases h
      | miss =>
          simp only at h
          split_ifs at h <;> cases h
      | sectorMiss =>
          simp only at h
          split_ifs at h <;> cases h <;> simp [tagFailures]
      | reservationFail => cases h

theorem TagArray.access_probe {r : TagAccess ct} (h : tags.access cfg addr time idx mf = .ok r) :
    tags.probe cfg addr idx mf.sectorMask none = .ok (r.status, r.idx) := by
  rw [TagArray.access] at h
  cases hprobe : tags.probe cfg addr idx mf.sectorMask none with
  | error e' =>
      rw [hprobe] at h
      cases h
  | ok found =>
      obtain ⟨status, i⟩ := found
      rw [hprobe] at h
      simp only [bind, Except.bind] at h
      cases status with
      | hit => cases h; rfl
      | hitReserved => cases h; rfl
      | miss =>
          simp only at h
          split_ifs at h <;> cases h <;> rfl
      | sectorMiss =>
          simp only at h
          split_ifs at h <;> cases h <;> rfl
      | reservationFail => cases h; rfl

/-- An access after a probe that found `status` at `idx`. -/
structure TagTaken (cfg : CacheConfig) (tags : TagArray ct) (addr : Addr) (time : UInt32)
    (mf : MemFetch) (status : RequestStatus) (idx : ℕ) (r : TagAccess ct) : Prop where
  accessed : TagAccessed cfg tags addr time mf r
  status_eq : r.status = status ∨
    (cfg.isStreaming = true ∧ status = .sectorMiss ∧ r.status = .miss)
  idx_eq : status ≠ .reservationFail → r.idx = idx
  probed : r.status ≠ .reservationFail →
    tags.outcome cfg addr mf.sectorMask = some (r.status, r.idx)

theorem TagArray.access_spec
    (hprobe : tags.probe cfg addr i mf.sectorMask probeMode = .ok (status, idx)) :
    OkOr (TagTaken cfg tags addr time mf status idx) (· ∈ tagFailures)
      (tags.access cfg addr time idx' mf) := by
  apply OkOr.intro
  · intro r hr
    have hsame := TagArray.probe_none hprobe (TagArray.access_probe hr)
    refine ⟨TagArray.access_ok hr, hsame.1, hsame.2, fun htaken => ?_⟩
    rw [TagArray.outcome, TagArray.probe_idx noIndex (TagArray.access_probe hr) htaken]
    rfl
  · exact fun e he => TagArray.access_error he

theorem TagAccessed.miss_of_wb {r : TagAccess ct}
    (h : TagAccessed cfg tags addr time mf r) (hwb : r.wb = true) :
    r.status = .miss ∧ cfg.allocPolicy = .onMiss := by
  cases h with
  | touched => cases hwb
  | allocated _ _ _ onMiss => exact ⟨rfl, onMiss⟩
  | allocatedSector => cases hwb
  | deferred => cases hwb
  | full => cases hwb

namespace TagTaken

variable {mf : MemFetch} {time : UInt32} {r : TagAccess ct}
  (h : TagTaken cfg tags addr time mf status idx r)
include h

theorem hit_iff : r.status = .hit ↔ status = .hit := by
  rcases h.status_eq with heq | ⟨-, hstatus, hr⟩
  · rw [heq]
  · simp [hstatus, hr]

theorem reservationFail_iff : r.status = .reservationFail ↔ status = .reservationFail := by
  rcases h.status_eq with heq | ⟨-, hstatus, hr⟩
  · rw [heq]
  · simp [hstatus, hr]

theorem miss_of_wb (hwb : r.wb = true) : status = .miss := by
  have hmiss := h.accessed.miss_of_wb hwb
  rcases h.status_eq with heq | ⟨hstreaming, -⟩
  · rw [← heq]
    exact hmiss.1
  · have honFill := cfg.streaming hstreaming
    rw [hmiss.2] at honFill
    cases honFill

end TagTaken

theorem TagArray.accessNoWb_spec
    (hprobe : tags.probe cfg addr i mf.sectorMask probeMode = .ok (status, idx)) :
    OkOr (fun r => TagTaken cfg tags addr time mf status idx r ∧ r.wb = false)
      (fun e => e ∈ tagFailures ∨ e = .droppedWriteBack)
      (tags.accessNoWb cfg addr time idx' mf) := by
  rw [TagArray.accessNoWb]
  apply OkOr.bind ((TagArray.access_spec hprobe).mono (fun _ h => h) fun _ => .inl)
  intro r hr
  apply OkOr.ite
  · exact fun _ => .inr rfl
  · exact fun hwb => ⟨hr, by simpa using hwb⟩

end GpuCalorie.Cache
