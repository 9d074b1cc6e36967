/-
# Allocations do not overlap

As long as the sizes, rounded up to 256 bytes, add up to what is between the start of the heap
and the window from which instructions are fetched, regions are one after the other, and the
memory is as if each region had one of its own. Otherwise some region has an address in that
window.
-/

import GpuCalorie.DeviceMemory.Allocation

namespace GpuCalorie.DeviceMemory

open GpuCalorie.Math

/-- Regions are aligned and have different addresses, none of them in another window. -/
structure Layout (regions : List Region) : Prop where
  aligned : ∀ r ∈ regions, 256 ∣ r.start
  distinct : ∀ r ∈ regions, ∀ i j, i < r.size → j < r.size →
    (r.start + i) % 2 ^ 32 = (r.start + j) % 2 ^ 32 → i = j
  disjoint : regions.Pairwise fun r r' => ∀ i j, i < r.size → j < r'.size →
    (r.start + i) % 2 ^ 32 ≠ (r'.start + j) % 2 ^ 32
  window : ∀ r ∈ regions, ∀ i < r.size,
    staticAllocLimit ≤ (r.start + i) % 2 ^ 32 ∧ (r.start + i) % 2 ^ 32 < programMemStart

/-- A size, rounded up to a multiple of 256. -/
def rounded (size : ℕ) : ℕ := (size + 255) / 256 * 256

/-- The regions of allocations that start with the pointer somewhere. -/
def regionsFrom : ℕ → List ℕ → List Region
  | _, [] => []
  | devMalloc, size :: rest => ⟨devMalloc, size⟩ :: regionsFrom (bump devMalloc size) rest

variable {devMalloc size : ℕ} {sizes : List ℕ} {s t : Gpgpu} {apart : Apart} {k offset : ℕ}
    {r : Region}

theorem bump_eq (h : devMalloc + rounded size < 2 ^ 64) :
    bump devMalloc size = devMalloc + rounded size := by
  rw [rounded] at h ⊢
  rw [bump]
  split_ifs <;> omega

/-! ## One region after the other -/

theorem regionsFrom_concat (devMalloc : ℕ) (sizes : List ℕ) (size : ℕ) :
    regionsFrom devMalloc (sizes ++ [size])
      = regionsFrom devMalloc sizes ++ [⟨sizes.foldl bump devMalloc, size⟩] := by
  induction sizes generalizing devMalloc with
  | nil => rfl
  | cons first rest ih =>
      rw [List.cons_append, regionsFrom, regionsFrom, ih, List.foldl_cons, List.cons_append]

theorem regionsFrom_sorted {bound : ℕ} (haligned : 256 ∣ devMalloc)
    (hbound : devMalloc + (sizes.map rounded).sum ≤ bound) (hlt : bound < 2 ^ 64) :
    (∀ r ∈ regionsFrom devMalloc sizes,
        256 ∣ r.start ∧ devMalloc ≤ r.start ∧ r.start + r.size ≤ bound) ∧
      (regionsFrom devMalloc sizes).Pairwise fun r r' => r.start + r.size ≤ r'.start := by
  induction sizes generalizing devMalloc with
  | nil => exact ⟨fun _ h => absurd h List.not_mem_nil, .nil⟩
  | cons size rest ih =>
      rw [List.map_cons, List.sum_cons] at hbound
      have hle : size ≤ rounded size := by
        rw [rounded]
        omega
      have hnext : bump devMalloc size = devMalloc + rounded size := bump_eq (by omega)
      have haligned' : 256 ∣ bump devMalloc size := by
        rw [hnext, rounded]
        omega
      obtain ⟨hrest, hsorted⟩ := ih haligned' (by omega)
      refine ⟨fun r hr => ?_, List.pairwise_cons.mpr ⟨fun r hr => ?_, hsorted⟩⟩
      · rcases List.mem_cons.mp hr with rfl | hr
        · exact ⟨haligned, le_rfl, by dsimp only; omega⟩
        · obtain ⟨h₁, h₂, h₃⟩ := hrest r hr
          exact ⟨h₁, by omega, h₃⟩
      · have hstart := (hrest r hr).2.1
        dsimp only
        omega

theorem layout_of_le (haligned : 256 ∣ devMalloc) (hheap : globalHeapStart ≤ devMalloc)
    (hbound : devMalloc + (sizes.map rounded).sum ≤ programMemStart) :
    Layout (regionsFrom devMalloc sizes) := by
  have hprogram := programMemStart_eq
  have hstatic := staticAllocLimit_eq
  have hheap' := globalHeapStart_eq
  obtain ⟨hregions, hsorted⟩ := regionsFrom_sorted haligned hbound (by decide)
  have hmod : ∀ r ∈ regionsFrom devMalloc sizes, ∀ i < r.size,
      (r.start + i) % 2 ^ 32 = r.start + i := by
    intro r hr i hi
    have hend := (hregions r hr).2.2
    exact Nat.mod_eq_of_lt (by omega)
  constructor
  case aligned => exact fun r hr => (hregions r hr).1
  case distinct =>
    intro r hr i j hi hj heq
    rw [hmod r hr i hi, hmod r hr j hj] at heq
    omega
  case disjoint =>
    refine hsorted.imp_of_mem fun {r r'} hr hr' hle i j hi hj => ?_
    rw [hmod r hr i hi, hmod r' hr' j hj]
    omega
  case window =>
    intro r hr i hi
    obtain ⟨-, hstart, hend⟩ := hregions r hr
    rw [hmod r hr i hi]
    omega

theorem le_of_layout (haligned : 256 ∣ devMalloc) (hle : devMalloc ≤ programMemStart)
    (h : Layout (regionsFrom devMalloc sizes)) :
    devMalloc + (sizes.map rounded).sum ≤ programMemStart := by
  have hprogram := programMemStart_eq
  induction sizes generalizing devMalloc with
  | nil => exact hle
  | cons size rest ih =>
      rw [List.map_cons, List.sum_cons, ← Nat.add_assoc]
      have hend : devMalloc + size ≤ programMemStart := by
        by_contra hbeyond
        have hwindow := (h.window ⟨devMalloc, size⟩ List.mem_cons_self (programMemStart - devMalloc)
          (by dsimp only; omega)).2
        dsimp only at hwindow
        omega
      have hrounded : devMalloc + rounded size ≤ programMemStart := by
        rw [rounded]
        omega
      have hrest : Layout (regionsFrom (bump devMalloc size) rest) :=
        ⟨fun r hr => h.aligned r (List.mem_cons_of_mem _ hr), fun r hr =>
          h.distinct r (List.mem_cons_of_mem _ hr),
          (List.pairwise_cons.mp h.disjoint).2, fun r hr => h.window r (List.mem_cons_of_mem _ hr)⟩
      rw [bump_eq (hrounded.trans_lt (by decide))] at hrest
      refine ih ?_ hrounded hrest
      rw [rounded]
      omega

/-! ## The loops of copies -/

section Loops

variable {m : MemorySpaceImpl globalBlock} {addr count : ℕ}

theorem writeByte_ok (haddr : addr < programMemStart) (byte : UInt8) :
    ∃ m', m.write (addr % 2 ^ 32) [byte] = .ok m' ∧
      m'.content = overwrite m.content addr [byte] := by
  have hprogram := programMemStart_eq
  have hsize : globalBlock.size = 8192 := rfl
  rw [Nat.mod_eq_of_lt (by omega)]
  exact MemorySpaceImpl.write_ok (by omega) (by rw [List.length_singleton]; omega) (by
    rw [List.length_singleton]
    omega)

theorem readByte_ok (haddr : addr < programMemStart) :
    m.read (addr % 2 ^ 32) 1 = .ok [m.content addr] := by
  have hprogram := programMemStart_eq
  have hsize : globalBlock.size = 8192 := rfl
  rw [Nat.mod_eq_of_lt (by omega)]
  refine MemorySpaceImpl.read_ok (by omega) (.inr ?_)
  omega

theorem writeBytes_ok {src : List UInt8} (hend : addr + src.length ≤ programMemStart) :
    ∃ m', Gpgpu.writeBytes m addr src = .ok m' ∧ m'.content = overwrite m.content addr src := by
  induction src generalizing m addr with
  | nil => exact ⟨m, rfl, overwrite_nil.symm⟩
  | cons byte rest ih =>
      rw [List.length_cons] at hend
      obtain ⟨m₁, hwrite, hcontent⟩ :=
        writeByte_ok (m := m) (show addr < programMemStart by omega) byte
      obtain ⟨m₂, hrest, hfinal⟩ :=
        ih (m := m₁) (show addr + 1 + rest.length ≤ programMemStart by omega)
      refine ⟨m₂, ?_, ?_⟩
      · rw [Gpgpu.writeBytes, hwrite]
        exact hrest
      · rw [hfinal, hcontent]
        exact (overwrite_append m.content addr [byte] rest).symm

theorem readBytes_ok (hend : addr + count ≤ programMemStart) :
    Gpgpu.readBytes m addr count = .ok (cells m.content addr count) := by
  induction count generalizing addr with
  | zero => rfl
  | succ count ih =>
      rw [Gpgpu.readBytes, readByte_ok (by omega)]
      dsimp only [bind, Except.bind]
      rw [ih (by omega), Nat.add_comm count 1, cells_add]
      rfl

end Loops

/-! ## Each region has a memory of its own -/

/-- The regions are one after the other, and have the bytes they would have apart. -/
structure Holds (s : Gpgpu) (apart : Apart) : Prop where
  devMalloc_le : s.devMalloc ≤ programMemStart
  regions : ∀ r ∈ s.regions, r.start + r.size ≤ s.devMalloc
  sorted : s.regions.Pairwise fun r r' => r.start + r.size ≤ r'.start
  bytes : ∀ k r, s.regions[k]? = some r → ∀ i < r.size,
    s.globalMem.content (r.start + i) = apart k i
  fresh : ∀ a, s.devMalloc ≤ a → s.globalMem.content a = 0
  unused : ∀ k, s.regions.length ≤ k → ∀ i, apart k i = 0

namespace Holds

theorem init : Holds {} fun _ _ => 0 where
  devMalloc_le := by decide
  regions _ h := absurd h List.not_mem_nil
  sorted := .nil
  bytes _ _ h := nomatch h
  fresh _ _ := rfl
  unused _ _ _ := rfl

theorem address (hr : s.regions[k]? = some r) : s.address k offset = r.start + offset := by
  rw [Gpgpu.address, hr]
  rfl

variable (h : Holds s apart) (hr : s.regions[k]? = some r)
include h hr

theorem end_le : r.start + r.size ≤ programMemStart :=
  (h.regions r (List.mem_of_getElem? hr)).trans h.devMalloc_le

omit hr in
theorem allocate (hbound : s.devMalloc + rounded size ≤ programMemStart) :
    Holds (s.allocate size) apart := by
  have hnext : (s.allocate size).devMalloc = s.devMalloc + rounded size :=
    bump_eq (hbound.trans_lt (by decide))
  have hle : size ≤ rounded size := by
    rw [rounded]
    omega
  constructor
  case devMalloc_le => omega
  case regions =>
    intro r hr
    rw [hnext]
    rcases List.mem_append.mp hr with hold | hnew
    · have hend := h.regions r hold
      omega
    · rw [List.mem_singleton.mp hnew]
      dsimp only
      omega
  case sorted =>
    refine List.pairwise_append.mpr ⟨h.sorted, List.pairwise_singleton _ _, fun r hr r' hr' => ?_⟩
    rw [List.mem_singleton.mp hr']
    exact h.regions r hr
  case bytes =>
    intro k r hr i hi
    change (s.regions ++ [⟨s.devMalloc, size⟩])[k]? = some r at hr
    rcases Nat.lt_or_ge k s.regions.length with hlt | hge
    · rw [List.getElem?_append_left hlt] at hr
      exact h.bytes k r hr i hi
    · rw [List.getElem?_append_right hge] at hr
      rw [List.getElem?_singleton] at hr
      obtain ⟨-, hnew⟩ := Option.ite_none_right_eq_some.mp hr
      cases hnew
      rw [h.unused k hge]
      exact h.fresh _ (Nat.le_add_right _ _)
  case fresh => exact fun a ha => h.fresh a (by omega)
  case unused =>
    intro k hk
    refine h.unused k ?_
    change (s.regions ++ [_]).length ≤ k at hk
    rw [List.length_append] at hk
    omega

theorem put {src : List UInt8}
    (hin : offset + src.length ≤ r.size) {m : MemorySpaceImpl globalBlock}
    (hm : m.content = overwrite s.globalMem.content (r.start + offset) src) :
    Holds { s with globalMem := m } (apart.put k offset src) := by
  have hend := h.regions r (List.mem_of_getElem? hr)
  constructor
  case devMalloc_le => exact h.devMalloc_le
  case regions => exact h.regions
  case sorted => exact h.sorted
  case bytes =>
    intro l q hq i hi
    dsimp only at hq
    show m.content (q.start + i) = Function.update apart k _ l i
    rw [hm]
    by_cases heq : l = k
    · rw [heq] at hq
      cases hr.symm.trans hq
      rw [heq, Function.update_self, overwrite, overwrite]
      have hbytes := h.bytes k r hr i hi
      rw [hbytes, show r.start + i - (r.start + offset) = i - offset by omega]
      exact if_congr (by omega) rfl rfl
    · rw [Function.update_of_ne heq, ← h.bytes l q hq i hi]
      obtain ⟨hl, rfl⟩ := List.getElem?_eq_some_iff.mp hq
      obtain ⟨hk, rfl⟩ := List.getElem?_eq_some_iff.mp hr
      have hsorted := List.pairwise_iff_getElem.mp h.sorted
      rcases Nat.lt_or_gt_of_ne heq with hlt | hgt
      · have hbefore := hsorted l k hl hk hlt
        exact overwrite_of_lt (by omega)
      · have hafter := hsorted k l hk hl hgt
        exact overwrite_of_le (by omega)
  case fresh =>
    intro a ha
    rw [hm, overwrite_of_le (by dsimp only at ha; omega)]
    exact h.fresh a ha
  case unused =>
    intro l hl i
    have hne : l ≠ k := by
      rintro rfl
      obtain ⟨hlt, -⟩ := List.getElem?_eq_some_iff.mp hr
      exact Nat.lt_irrefl _ (Nat.lt_of_lt_of_le hlt hl)
    show Function.update apart k _ l i = 0
    rw [Function.update_of_ne hne]
    exact h.unused l hl i

theorem moveBytes {k' offset' count : ℕ} {r' : Region}
    (hr' : s.regions[k']? = some r') (hin : offset + count ≤ r.size)
    (hin' : offset' + count ≤ r'.size) :
    ∃ m, Gpgpu.moveBytes s.globalMem (r.start + offset) (r'.start + offset') count = .ok m ∧
      Holds { s with globalMem := m } (apart.move k offset k' offset' count) := by
  induction count generalizing s apart offset offset' with
  | zero => exact ⟨s.globalMem, rfl, h⟩
  | succ count ih =>
      have hend := h.end_le hr
      have hend' := h.end_le hr'
      obtain ⟨m, hwrite, hm⟩ := writeByte_ok (m := s.globalMem)
        (show r.start + offset < programMemStart by omega) (apart k' offset')
      have hnext :=
        h.put hr (show offset + [apart k' offset'].length ≤
        r.size by rw [List.length_singleton]; omega) hm
      obtain ⟨m', hmove, hfinal⟩ := ih hnext hr hr' (show offset + 1 + count ≤ r.size by omega)
        (show offset' + 1 + count ≤ r'.size by omega)
      refine ⟨m', ?_, hfinal⟩
      rw [Gpgpu.moveBytes, readByte_ok (by omega), h.bytes k' r' hr' offset' (by omega)]
      dsimp only [bind, Except.bind]
      rw [hwrite]
      exact hmove

theorem memcpyFromGpu {count : ℕ} (hin : offset + count ≤ r.size) :
    s.memcpyFromGpu (r.start + offset) count = .ok (cells (apart k) offset count) := by
  have hprogram := programMemStart_eq
  have hend := h.end_le hr
  rw [Gpgpu.memcpyFromGpu, Gpgpu.bounded, if_pos (by omega), readBytes_ok (by omega)]
  refine congrArg Except.ok (List.map_congr_left fun i hi => ?_)
  have hlt := List.mem_range.mp hi
  rw [Nat.add_assoc]
  exact h.bytes k r hr (offset + i) (by omega)

end Holds

/-! ## Sequences of calls -/

/-- Calls one after the other. -/
def runCalls (s : Gpgpu) (calls : List Call) : Except MemoryFailure Gpgpu :=
  calls.foldlM Gpgpu.call s

/-- What the regions are to have after calls. -/
def apartAfter (apart : Apart) (calls : List Call) : Apart := calls.foldl Apart.call apart

/-- The sizes of the allocations. -/
def sizesAfter (sizes : List ℕ) (calls : List Call) : List ℕ := calls.foldl Call.sizes sizes

/-- The regions are where the pointer was. -/
structure Placed (s : Gpgpu) (sizes : List ℕ) : Prop where
  devMalloc : s.devMalloc = sizes.foldl bump globalHeapStart
  regions : s.regions = regionsFrom globalHeapStart sizes

theorem Placed.allocate (h : Placed s sizes) (size : ℕ) : Placed (s.allocate size)
    (sizes ++ [size]) where
  devMalloc := by
    rw [List.foldl_append, ← h.devMalloc]
    rfl
  regions := by
    rw [regionsFrom_concat, ← h.devMalloc, ← h.regions]
    rfl

theorem Placed.call (h : Placed s sizes) (call : Call) (hcall : s.call call = .ok t) :
    Placed t (call.sizes sizes) := by
  have hcopy : ∀ {count : ℕ} {loop : Except MemoryFailure (MemorySpaceImpl globalBlock)},
      (Gpgpu.bounded count do
        let m ← loop
        return { s with globalMem := m }) = .ok t → Placed t sizes := by
    intro count loop hok
    rw [Gpgpu.bounded] at hok
    split_ifs at hok
    cases loop with
    | error e => cases hok
    | ok m =>
        cases hok
        exact ⟨h.devMalloc, h.regions⟩
  cases call with
  | malloc size =>
      cases hcall
      exact h.allocate size
  | mallocarray size =>
      cases hcall
      exact h.allocate size
  | toGpu k offset src => exact hcopy hcall
  | memset k offset c count => exact hcopy hcall
  | gpuToGpu k offset k' offset' count => exact hcopy hcall

theorem Placed.run (h : Placed s sizes) (calls : List Call) (hrun : runCalls s calls = .ok t) :
    Placed t (sizesAfter sizes calls) := by
  induction calls generalizing s sizes with
  | nil =>
      cases hrun
      exact h
  | cons call rest ih =>
      change (s.call call >>= fun s => runCalls s rest) = .ok t at hrun
      cases hcall : s.call call with
      | error e =>
          rw [hcall] at hrun
          cases hrun
      | ok s' =>
          rw [hcall] at hrun
          exact ih (h.call call hcall) hrun

theorem sum_le_sizesAfter (sizes : List ℕ) (calls : List Call) :
    (sizes.map rounded).sum ≤ ((sizesAfter sizes calls).map rounded).sum := by
  induction calls generalizing sizes with
  | nil => exact le_rfl
  | cons call rest ih =>
      refine le_trans ?_ (ih (call.sizes sizes))
      cases call <;> simp [Call.sizes]

theorem foldl_bump (haligned : 256 ∣ devMalloc)
    (hbound : devMalloc + (sizes.map rounded).sum ≤ programMemStart) :
    sizes.foldl bump devMalloc = devMalloc + (sizes.map rounded).sum := by
  induction sizes generalizing devMalloc with
  | nil => rfl
  | cons size rest ih =>
      have hprogram := programMemStart_eq
      rw [List.map_cons, List.sum_cons] at hbound ⊢
      have hnext : bump devMalloc size = devMalloc + rounded size := bump_eq (by omega)
      rw [List.foldl_cons, hnext, ih (by rw [rounded]; omega) (by omega), Nat.add_assoc]

theorem region_of_size (h : Placed s sizes) (hsize : sizes[k]? = some size) :
    ∃ r, s.regions[k]? = some r ∧ r.size = size := by
  have hsizes : ∀ devMalloc, (regionsFrom devMalloc sizes).map Region.size = sizes := by
    clear hsize h
    induction sizes with
    | nil => exact fun _ => rfl
    | cons first rest ih =>
        intro devMalloc
        rw [regionsFrom, List.map_cons, ih]
  have hmap : (s.regions.map Region.size)[k]? = some size := by rw [h.regions, hsizes, hsize]
  rw [List.getElem?_map] at hmap
  obtain ⟨r, hr, heq⟩ := Option.map_eq_some_iff.mp hmap
  exact ⟨r, hr, heq⟩

theorem Holds.call (h : Holds s apart) (hplaced : Placed s sizes) {call : Call}
    (hvalid : call.Valid sizes)
    (hbound : globalHeapStart + ((call.sizes sizes).map rounded).sum ≤ programMemStart) :
    ∃ t, s.call call = .ok t ∧ Holds t (apart.call call) := by
  have hprogram := programMemStart_eq
  have hallocate : ∀ size, globalHeapStart + ((sizes ++ [size]).map rounded).sum ≤ programMemStart →
      Holds (s.allocate size) apart := by
    intro size hsum
    rw [List.map_append, List.sum_append, List.map_singleton, List.sum_singleton] at hsum
    refine h.allocate ?_
    rw [hplaced.devMalloc, foldl_bump (by decide) (by omega)]
    omega
  have hwrite : ∀ {k offset : ℕ} (src : List UInt8),
    (∃ size ∈ sizes[k]?, offset + src.length ≤ size) →
      ∃ t, (Gpgpu.bounded src.length do
        let m ← Gpgpu.writeBytes s.globalMem (s.address k offset) src
        return { s with globalMem := m }) = .ok t ∧ Holds t (apart.put k offset src) := by
    rintro k offset src ⟨size, hsize, hin⟩
    obtain ⟨r, hr, rfl⟩ := region_of_size hplaced hsize
    have hend := h.end_le hr
    obtain ⟨m, hwrite, hm⟩ := writeBytes_ok (m := s.globalMem)
      (show r.start + offset + src.length ≤ programMemStart by omega)
    refine ⟨_, ?_, h.put hr hin hm⟩
    rw [Gpgpu.bounded, if_pos (by omega), Holds.address hr, hwrite]
    rfl
  cases call with
  | malloc size => exact ⟨_, rfl, hallocate size hbound⟩
  | mallocarray size => exact ⟨_, rfl, hallocate size hbound⟩
  | toGpu k offset src => exact hwrite src hvalid
  | memset k offset c count =>
      have hlength : (List.replicate count c).length = count := List.length_replicate
      obtain ⟨t, ht, hholds⟩ := hwrite (List.replicate count c) (by rw [hlength]; exact hvalid)
      rw [hlength] at ht
      exact ⟨t, ht, hholds⟩
  | gpuToGpu k offset k' offset' count =>
      obtain ⟨⟨size, hsize, hin⟩, size', hsize', hin'⟩ := hvalid
      obtain ⟨r, hr, rfl⟩ := region_of_size hplaced hsize
      obtain ⟨r', hr', rfl⟩ := region_of_size hplaced hsize'
      have hend := h.end_le hr
      obtain ⟨m, hmove, hholds⟩ := h.moveBytes hr hr' hin hin'
      refine ⟨_, ?_, hholds⟩
      rw [Gpgpu.call, Gpgpu.memcpyGpuToGpu, Gpgpu.bounded, if_pos (by omega), Holds.address hr,
        Holds.address hr', hmove]
      rfl

theorem Holds.run (h : Holds s apart) (hplaced : Placed s sizes) {calls : List Call}
    (hvalid : ValidCalls sizes calls)
    (hbound : globalHeapStart + ((sizesAfter sizes calls).map rounded).sum ≤ programMemStart) :
    ∃ t, runCalls s calls = .ok t ∧ Holds t (apartAfter apart calls) := by
  induction calls generalizing s apart sizes with
  | nil => exact ⟨s, rfl, h⟩
  | cons call rest ih =>
      obtain ⟨hcall, hrest⟩ := hvalid
      have hsum := sum_le_sizesAfter (call.sizes sizes) rest
      change globalHeapStart + ((sizesAfter (call.sizes sizes) rest).map rounded).sum ≤ _ at hbound
      obtain ⟨t, ht, hholds⟩ := h.call hplaced hcall (by omega)
      obtain ⟨v, hv, hfinal⟩ := ih hholds (hplaced.call call ht) hrest hbound
      refine ⟨v, ?_, hfinal⟩
      show (s.call call >>= fun s => runCalls s rest) = _
      rw [ht]
      exact hv

/-- Regions have different addresses, and what is copied from a region is what was copied or set
there last. -/
def NeverAlias (calls : List Call) : Prop :=
  ∃ s, runCalls {} calls = .ok s ∧ Layout s.regions ∧
    ∀ k r, s.regions[k]? = some r → ∀ offset count, offset + count ≤ r.size →
      s.memcpyFromGpu (r.start + offset) count
        = .ok (cells (apartAfter (fun _ _ => 0) calls k) offset count)

/-- This is so exactly when all rounded sizes fit between the start of the heap and the window
of instructions. -/
theorem neverAlias_iff {calls : List Call} (hvalid : ValidCalls [] calls) :
    NeverAlias calls ↔ globalHeapStart + ((sizesAfter [] calls).map rounded).sum ≤
      programMemStart := by
  have hplaced : Placed {} [] := ⟨rfl, rfl⟩
  constructor
  · rintro ⟨s, hrun, hlayout, -⟩
    rw [(hplaced.run calls hrun).regions] at hlayout
    exact le_of_layout (by decide) (by decide) hlayout
  · intro hbound
    obtain ⟨s, hrun, hholds⟩ := Holds.init.run hplaced hvalid hbound
    refine ⟨s, hrun, ?_, fun k r hr offset count hin => hholds.memcpyFromGpu hr hin⟩
    rw [(hplaced.run calls hrun).regions]
    exact layout_of_le (by decide) le_rfl hbound

/-- Two regions, one of which is overwritten with bytes of the other. -/
theorem neverAlias_twoRegions :
    NeverAlias [.malloc 3, .mallocarray 300, .toGpu 0 0 [1, 2, 3], .memset 1 256 7 4,
      .gpuToGpu 1 257 0 1 2] :=
  (neverAlias_iff (by decide +kernel)).mpr (by decide +kernel)

/-- The second region begins where instructions are fetched from. -/
theorem not_neverAlias : ¬ NeverAlias [.malloc 0x30000000, .malloc 4] := by
  rintro ⟨s, hrun, hlayout, -⟩
  have hplaced : Placed {} [] := ⟨rfl, rfl⟩
  rw [(hplaced.run _ hrun).regions] at hlayout
  exact absurd (le_of_layout (by decide) (by decide) hlayout) (by decide +kernel)

end GpuCalorie.DeviceMemory
