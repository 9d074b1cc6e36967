/-
# Cache blocks

A line is one unit of state (`line_cache_block`) or four sectors (`sector_cache_block`).
`CacheBlock.stateAt` gives the state a sector of the line has: of a block without sectors all
have the same. The functions that change a sector are all `CacheBlock.update`, and
`stateAt_update` says what each does to every sector of either kind of block: those the mask
covers change.
-/

import GpuCalorie.Cache.Types

namespace GpuCalorie.Cache

/-- The state of a block without sectors, or of one sector. -/
structure SectorState where
  allocTime : UInt32 := 0
  lastAccessTime : UInt32 := 0
  fillTime : UInt32 := 0
  status : BlockState := .invalid
  ignoreOnFill : Bool := false
  modifiedOnFill : Bool := false
  readable : Bool := true

/-- The members of `sector_cache_block`. -/
structure SectorLine where
  lineAllocTime : UInt32 := 0
  lineLastAccessTime : UInt32 := 0
  lineFillTime : UInt32 := 0
  sector : Fin 4 → SectorState := fun _ => {}

/-- The members of a block of each kind. -/
inductive BlockBody : CacheType → Type
  | line (state : SectorState) : BlockBody .normal
  | sectors (sectorLine : SectorLine) : BlockBody .sector

/-- `cache_block_t`. -/
structure CacheBlock (ct : CacheType) where
  tag : Addr
  blockAddr : Addr
  body : BlockBody ct

variable {ct : CacheType}

/-- The constructors of blocks. -/
def CacheBlock.empty : (ct : CacheType) → CacheBlock ct
  | .normal => ⟨0, 0, .line {}⟩
  | .sector => ⟨0, 0, .sectors {}⟩

/-- The mask of a request covers a sector: any mask covers a block without sectors. -/
def Covers (ct : CacheType) (mask : SectorMask) (k : Fin 4) : Prop :=
  ct = .normal ∨ getSectorIndex mask = k

instance (ct : CacheType) (mask : SectorMask) (k : Fin 4) : Decidable (Covers ct mask k) :=
  inferInstanceAs (Decidable (_ ∨ _))

/-- The state of a sector. -/
def BlockBody.stateAt : BlockBody ct → Fin 4 → SectorState
  | .line state, _ => state
  | .sectors sectorLine, k => sectorLine.sector k

/-- Change the state of the sector of a mask. -/
def BlockBody.update (mask : SectorMask) (change : SectorState → SectorState) :
    BlockBody ct → BlockBody ct
  | .line state => .line (change state)
  | .sectors sectorLine =>
    let sidx := getSectorIndex mask
    .sectors { sectorLine with
      sector := Function.update sectorLine.sector sidx (change (sectorLine.sector sidx)) }

/-- Change the members of a line with sectors that are not those of a sector. -/
def BlockBody.updateLine (change : SectorLine → SectorLine) : BlockBody ct → BlockBody ct
  | .line state => .line state
  | .sectors sectorLine => .sectors { change sectorLine with sector := sectorLine.sector }

namespace CacheBlock

variable (b : CacheBlock ct)

/-- The state of a sector of a block. -/
def stateAt (k : Fin 4) : SectorState :=
  b.body.stateAt k

/-- Change the state of the sector of a mask. -/
def update (mask : SectorMask) (change : SectorState → SectorState) : CacheBlock ct :=
  { b with body := b.body.update mask change }

/-- Change the times of a line with sectors. -/
def updateLine (change : SectorLine → SectorLine) : CacheBlock ct :=
  { b with body := b.body.updateLine change }

/-! ## What the source computes of a block -/

/-- `get_status`. -/
def getStatus (mask : SectorMask) : BlockState :=
  (b.stateAt (getSectorIndex mask)).status

/-- `is_readable`. -/
def isReadable (mask : SectorMask) : Bool :=
  (b.stateAt (getSectorIndex mask)).readable

/-- `is_invalid_line`. -/
def isInvalidLine : Bool :=
  decide (∀ k, (b.stateAt k).status = .invalid)

/-- `is_valid_line`: a line without sectors is `VALID`, one with sectors is not invalid. -/
def isValidLine : Bool :=
  match b.body with
  | .line state => decide (state.status = .valid)
  | .sectors _ => !b.isInvalidLine

/-- `is_reserved_line`. -/
def isReservedLine : Bool :=
  decide (∃ k, (b.stateAt k).status = .reserved)

/-- `is_modified_line`. -/
def isModifiedLine : Bool :=
  decide (∃ k, (b.stateAt k).status = .modified)

/-- `get_last_access_time`. -/
def getLastAccessTime : UInt32 :=
  match b.body with
  | .line state => state.lastAccessTime
  | .sectors sectorLine => sectorLine.lineLastAccessTime

/-- `get_alloc_time`. -/
def getAllocTime : UInt32 :=
  match b.body with
  | .line state => state.allocTime
  | .sectors sectorLine => sectorLine.lineAllocTime

/-- `get_modified_size`. -/
def getModifiedSize : ℕ :=
  match b.body with
  | .line _ => 4 * sectorSize
  | .sectors sectorLine =>
    (Finset.univ.filter fun k => (sectorLine.sector k).status = .modified).card * sectorSize

/-! ## How the source changes a block -/

/-- `allocate`. A line without sectors keeps `m_readable`. -/
def allocate (tag blockAddr : Addr) (time : UInt32) (mask : SectorMask) : CacheBlock ct :=
  match b.body with
  | .line state =>
    ⟨tag, blockAddr, .line { state with
      allocTime := time
      lastAccessTime := time
      fillTime := 0
      status := .reserved
      ignoreOnFill := false
      modifiedOnFill := false }⟩
  | .sectors _ =>
    ⟨tag, blockAddr, .sectors
      { lineAllocTime := time
        lineLastAccessTime := time
        sector := Function.update (fun _ => {}) (getSectorIndex mask)
          { allocTime := time, lastAccessTime := time, status := .reserved } }⟩

/-- `allocate_sector`: a sector that was modified will be modified when it is filled. -/
def allocateSector (time : UInt32) (mask : SectorMask) : CacheBlock ct :=
  (b.update mask fun s =>
    { allocTime := time
      lastAccessTime := time
      fillTime := 0
      status := .reserved
      ignoreOnFill := false
      modifiedOnFill := decide (s.status = .modified)
      readable := true }).updateLine
    fun line => { line with lineLastAccessTime := time, lineFillTime := 0 }

/-- `fill`. -/
def fill (time : UInt32) (mask : SectorMask) : CacheBlock ct :=
  (b.update mask fun s =>
    { s with
      status := if s.modifiedOnFill then .modified else .valid
      fillTime := time }).updateLine
    fun line => { line with lineFillTime := time }

/-- `set_last_access_time`. -/
def setLastAccessTime (time : UInt32) (mask : SectorMask) : CacheBlock ct :=
  (b.update mask fun s => { s with lastAccessTime := time }).updateLine
    fun line => { line with lineLastAccessTime := time }

/-- `set_status`. -/
def setStatus (status : BlockState) (mask : SectorMask) : CacheBlock ct :=
  b.update mask fun s => { s with status := status }

/-- `set_ignore_on_fill`. -/
def setIgnoreOnFill (ignore : Bool) (mask : SectorMask) : CacheBlock ct :=
  b.update mask fun s => { s with ignoreOnFill := ignore }

/-- `set_modified_on_fill`. -/
def setModifiedOnFill (modified : Bool) (mask : SectorMask) : CacheBlock ct :=
  b.update mask fun s => { s with modifiedOnFill := modified }

/-- `set_m_readable`. -/
def setReadable (readable : Bool) (mask : SectorMask) : CacheBlock ct :=
  b.update mask fun s => { s with readable := readable }

/-! ## The sectors afterwards -/

variable {b} {mask : SectorMask} {k : Fin 4} {time : UInt32}

theorem stateAt_of_covers (h : Covers ct mask k) :
    b.stateAt (getSectorIndex mask) = b.stateAt k := by
  obtain ⟨tag, blockAddr, body⟩ := b
  cases body with
  | line state => rfl
  | sectors sectorLine =>
      rcases h with hct | hk
      · cases hct
      · rw [hk]

@[simp]
theorem covers_getSectorIndex (ct : CacheType) (mask : SectorMask) :
    Covers ct mask (getSectorIndex mask) :=
  .inr rfl

theorem stateAt_update (change : SectorState → SectorState) :
    (b.update mask change).stateAt k = if Covers ct mask k then change (b.stateAt k) else b.stateAt
    k := by
  obtain ⟨tag, blockAddr, body⟩ := b
  cases body with
  | line state => rw [if_pos (.inl rfl)]; rfl
  | sectors sectorLine =>
      by_cases hk : getSectorIndex mask = k
      · subst hk
        rw [if_pos (covers_getSectorIndex _ _)]
        exact Function.update_self _ _ _
      · have hnot : ¬ Covers .sector mask k := by
          rintro (hct | hk')
          · cases hct
          · exact hk hk'
        rw [if_neg hnot]
        exact Function.update_of_ne (Ne.symm hk) _ _

@[simp]
theorem stateAt_updateLine (change : SectorLine → SectorLine) :
    (b.updateLine change).stateAt k = b.stateAt k := by
  obtain ⟨tag, blockAddr, body⟩ := b
  cases body <;> rfl

theorem stateAt_setStatus (status : BlockState) : (b.setStatus status mask).stateAt k =
    if Covers ct mask k then { b.stateAt k with status := status } else b.stateAt k :=
  stateAt_update _

theorem stateAt_setIgnoreOnFill (ignore : Bool) : (b.setIgnoreOnFill ignore mask).stateAt k =
    if Covers ct mask k then { b.stateAt k with ignoreOnFill := ignore } else b.stateAt k :=
  stateAt_update _

theorem stateAt_setModifiedOnFill (modified : Bool) :
    (b.setModifiedOnFill modified mask).stateAt k =
    if Covers ct mask k then { b.stateAt k with modifiedOnFill := modified } else b.stateAt k :=
  stateAt_update _

theorem stateAt_setReadable (readable : Bool) : (b.setReadable readable mask).stateAt k =
    if Covers ct mask k then { b.stateAt k with readable := readable } else b.stateAt k :=
  stateAt_update _

theorem stateAt_setLastAccessTime : (b.setLastAccessTime time mask).stateAt k =
    if Covers ct mask k then { b.stateAt k with lastAccessTime := time } else b.stateAt k := by
  rw [setLastAccessTime, stateAt_updateLine, stateAt_update]

theorem status_setLastAccessTime (b : CacheBlock ct) :
    ((b.setLastAccessTime time mask).stateAt k).status = (b.stateAt k).status := by
  rw [stateAt_setLastAccessTime]
  split_ifs <;> rfl

theorem stateAt_fill : (b.fill time mask).stateAt k =
    if Covers ct mask k then
      { b.stateAt k with
        status := if (b.stateAt k).modifiedOnFill then .modified else .valid
        fillTime := time }
    else b.stateAt k := by
  rw [fill, stateAt_updateLine, stateAt_update]

theorem stateAt_allocateSector : (b.allocateSector time mask).stateAt k =
    if Covers ct mask k then
      { allocTime := time
        lastAccessTime := time
        status := .reserved
        modifiedOnFill := decide ((b.stateAt k).status = .modified) }
    else b.stateAt k := by
  rw [allocateSector, stateAt_updateLine, stateAt_update]

theorem stateAt_allocate_of_covers (tag blockAddr : Addr) (h : Covers ct mask k) :
    ((b.allocate tag blockAddr time mask).stateAt k).status = .reserved ∧
      ((b.allocate tag blockAddr time mask).stateAt k).modifiedOnFill = false := by
  obtain ⟨_, _, body⟩ := b
  cases body with
  | line state => exact ⟨rfl, rfl⟩
  | sectors sectorLine =>
      rcases h with hct | rfl
      · cases hct
      · simp [allocate, CacheBlock.stateAt, BlockBody.stateAt]

theorem stateAt_allocate_of_not_covers (tag blockAddr : Addr) (h : ¬ Covers ct mask k) :
    ((b.allocate tag blockAddr time mask).stateAt k).status = .invalid := by
  obtain ⟨_, _, body⟩ := b
  cases body with
  | line state => exact absurd (.inl rfl) h
  | sectors sectorLine =>
      have hk : k ≠ getSectorIndex mask := fun hk => h (.inr hk.symm)
      simp [allocate, CacheBlock.stateAt, BlockBody.stateAt, hk]

/-! ## Tags afterwards -/

@[simp] theorem tag_setLastAccessTime : (b.setLastAccessTime time mask).tag = b.tag := rfl

@[simp] theorem tag_fill : (b.fill time mask).tag = b.tag := rfl

@[simp] theorem tag_allocateSector : (b.allocateSector time mask).tag = b.tag := rfl

@[simp] theorem tag_allocate (tag blockAddr : Addr) :
    (b.allocate tag blockAddr time mask).tag = tag := by
  obtain ⟨_, _, body⟩ := b
  cases body <;> rfl

/-! ## Lines by their sectors -/

theorem isReservedLine_iff : b.isReservedLine = true ↔ ∃ k, (b.stateAt k).status = .reserved :=
  decide_eq_true_iff

theorem isModifiedLine_iff : b.isModifiedLine = true ↔ ∃ k, (b.stateAt k).status = .modified :=
  decide_eq_true_iff

theorem isInvalidLine_iff : b.isInvalidLine = true ↔ ∀ k, (b.stateAt k).status = .invalid :=
  decide_eq_true_iff

theorem isInvalidLine_of_isValidLine (h : b.isValidLine = true) : b.isInvalidLine = false := by
  obtain ⟨tag, blockAddr, body⟩ := b
  cases body with
  | line state =>
      have hvalid : state.status = .valid := by simpa [isValidLine] using h
      simp [isInvalidLine, CacheBlock.stateAt, BlockBody.stateAt, hvalid]
  | sectors sectorLine => simpa [isValidLine] using h

end CacheBlock

end GpuCalorie.Cache
