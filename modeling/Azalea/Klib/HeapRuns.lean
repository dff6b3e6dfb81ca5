import Azalea.Klib.HeapFree

/-!
# Klib — runs of kmalloc and kfree

A run starts with the allocator unused and calls `kmalloc` and `kfree`, the second for blocks that it
was given and has not freed (`HeapRun`).  Calls that do not return end the run.

- `slabs_in_order`: in every state between calls each slab is in the one list that its count belongs
  to, the count is the number of bits set, and there are not too many free slabs.
- `blocks_in_order`: in every state between calls the blocks in use are apart from each other and from
  the headers of the slabs, and as long as was asked for, if nothing larger than `2^53` is asked for.
-/

namespace Azalea.Klib
open Azalea.Bitmaps Azalea.Halts Azalea.Mem Azalea.Runs Azalea.Tiling Function VmmRangeData

/-- The heap, and the blocks that its callers have. -/
structure HeapRun where
  heap : Heap
  given : List Block

/-- A call. -/
inductive HeapOp where
  | kmalloc (fuel : Nat) (memSize : UInt64)
  | kfree (memBlock : Nat)

/-- One call. -/
def HeapRun.step (s : HeapRun) : HeapOp → Option HeapRun
  | .kmalloc fuel memSize =>
      match kmalloc fuel memSize s.heap with
      | .ok (a, h) => some ⟨h, ⟨a, memSize⟩ :: s.given⟩
      | .error _ => none
  | .kfree memBlock =>
      match kfree memBlock s.heap with
      | .ok h => some ⟨h, s.given.filter (·.addr ≠ memBlock)⟩
      | .error _ => none

/-- Only a block that the caller has is freed. -/
def HeapRun.Owns (s : HeapRun) : HeapOp → Prop
  | .kmalloc _ _ => True
  | .kfree memBlock => ∃ b ∈ s.given, b.addr = memBlock

/-- And nothing is asked for whose pages cannot be counted in 32 bits. -/
def HeapRun.Asks (s : HeapRun) (op : HeapOp) : Prop :=
  s.Owns op ∧ match op with
    | .kmalloc _ memSize => memSize.toNat ≤ 2 ^ 53
    | .kfree _ => True

/-- The heap when the kernel starts: `mem_vmm_initialize` has used an initial item for each of its
ranges. -/
def Heap.boot (ranges : List VmmRangeData) (mapping : Mapping) (slabs : Nat → SlabHeader)
    (context : Nat) : Heap where
  mem := ⟨ranges, mapping⟩
  initialListItemsUsed := ranges.length
  initialRangesUsed := ranges.length
  rangeItems := fun _ => (none, none)
  lists := fun _ => []
  slabs := slabs
  largeAllocations := []
  allocator := .uninitialized
  context := context
  owned := []
  live := []

/-- The blocks that callers have are in use, and nothing else is kept in them. -/
structure HeapRun.Inv (s : HeapRun) : Prop where
  heap : s.heap.Fresh ∧ s.given = [] ∨ s.heap.Inv none ∧ s.heap.allocator = .initialized
  given : ∀ b ∈ s.given, b ∈ s.heap.live ∧ ∀ u, ¬ s.heap.Holds u b.addr
  large : ∀ g ∈ s.heap.largeAllocations, ∃ b ∈ s.given, b.addr = g.addr

section
variable {s s' : HeapRun} {op : HeapOp} {ranges : List VmmRangeData} {mapping : Mapping}
  {slabs : Nat → SlabHeader} {context : Nat}

theorem Heap.boot_fresh (hinit : memVmmInitialize = some ranges) :
    (Heap.boot ranges mapping slabs context).Fresh := by
  have hinv := memVmmInitialize_inv hinit
  exact ⟨⟨hinv.tiles, hinv.wf⟩, fun _ => rfl, fun _ => rfl, rfl, rfl, rfl, rfl⟩

theorem HeapRun.Inv.heapInv (hi : s.Inv) : s.heap.Inv none := by
  rcases hi.heap with ⟨hfresh, -⟩ | ⟨hinv, -⟩
  · exact hfresh.inv
  · exact hinv

/-- **Every call keeps the invariant.** -/
theorem HeapRun.Inv.step (hi : s.Inv) (howns : s.Owns op) (hstep : s.step op = some s') : s'.Inv := by
  cases op with
  | kmalloc fuel size =>
      rw [HeapRun.step] at hstep
      split at hstep
      next a h hok =>
        obtain rfl := Option.some.inj hstep
        rcases hi.heap with ⟨hfresh, hnil⟩ | ⟨hinv, hinit⟩
        · obtain ⟨hinv, hinit, hblock, hunheld, hlarge⟩ := kmalloc_boot hfresh hok
          refine ⟨.inr ⟨hinv, hinit⟩, fun b hb => ?_, fun g hg => ?_⟩
          · rw [hnil] at hb
            obtain rfl := List.mem_singleton.mp hb
            exact ⟨hblock, hunheld⟩
          · exact ⟨_, List.mem_cons_self .., (hlarge g hg).symm⟩
        · have hks := kmalloc_ok fuel size s.heap a h hinv (fun hcase => (by rw [hinit] at hcase; cases hcase)) hok
          refine ⟨.inr ⟨hks.inv, hks.ext.allocator.trans hinit⟩, fun b hb => ?_, fun g hg => ?_⟩
          · rcases List.mem_cons.mp hb with rfl | hb
            · exact ⟨hks.block, hks.unheld⟩
            · obtain ⟨hlive, hunheld⟩ := hi.given b hb
              refine ⟨hks.ext.live b hlive, fun u hu => ?_⟩
              rcases hks.ext.heldNew u b.addr hu with hu | hnew
              · exact hunheld u hu
              · exact hnew b hlive rfl
          · rcases hks.large g hg with hg | haddr
            · obtain ⟨b, hb, heq⟩ := hi.large g hg
              exact ⟨b, List.mem_cons_of_mem _ hb, heq⟩
            · exact ⟨_, List.mem_cons_self .., haddr.symm⟩
      next => cases hstep
  | kfree memBlock =>
      obtain ⟨b, hb, rfl⟩ := howns
      rw [HeapRun.step] at hstep
      split at hstep
      next h hok =>
        obtain rfl := Option.some.inj hstep
        obtain ⟨hlive, hunheld⟩ := hi.given b hb
        rcases hi.heap with ⟨-, hnil⟩ | ⟨hinv, hinit⟩
        · rw [hnil] at hb
          cases hb
        · have hks := kfree_ok hinv hlive hunheld hok
          refine ⟨.inr ⟨hks.inv, hks.allocator.trans hinit⟩, fun b' hb' => ?_, fun g hg => ?_⟩
          · obtain ⟨hmem, hne⟩ := List.mem_filter.mp hb'
            have hne' : b' ≠ b := by
              rintro rfl
              simp at hne
            obtain ⟨hlive', hunheld'⟩ := hi.given b' hmem
            exact hks.kept b' hlive' hne' hunheld'
          · obtain ⟨hg, hne⟩ := hks.large g hg
            obtain ⟨b', hb', heq⟩ := hi.large g hg
            refine ⟨b', List.mem_filter.mpr ⟨hb', ?_⟩, heq⟩
            rw [← heq] at hne
            simp [hne]
      next => cases hstep

/-- **Every state that a run reaches is in order.** -/
theorem HeapRun.reach_inv (hinit : memVmmInitialize = some ranges)
    (hreach : Reach HeapRun.step HeapRun.Owns ⟨Heap.boot ranges mapping slabs context, []⟩ s) : s.Inv := by
  refine Reach.invariant (I := HeapRun.Inv) ⟨.inl ⟨Heap.boot_fresh hinit, rfl⟩, fun b hb => ?_,
    fun g hg => ?_⟩ (fun s op s' hi howns hstep => hi.step howns hstep) hreach
  · cases hb
  · cases hg

end

/-! ### Slabs -/

/-- What is said of the slabs. -/
structure Heap.SlabsInOrder (h : Heap) : Prop where
  listed : ∀ w i, ∀ slab ∈ h.lists (w, i), (slab, i) ∈ h.owned
  one : ∀ slab i, (slab, i) ∈ h.owned →
    ∃ w, slab ∈ h.lists (w, i) ∧ ∀ l, slab ∈ h.lists l → l = (w, i)
  nodup : ∀ l, (h.lists l).Nodup
  free : ∀ i, ∀ slab ∈ h.lists (.free, i), (h.slabs slab).allocationCount = 0
  partly : ∀ i, ∀ slab ∈ h.lists (.partly, i), 0 < (h.slabs slab).allocationCount ∧
    (h.slabs slab).allocationCount < numChunksPerSlab i
  full : ∀ i, ∀ slab ∈ h.lists (.full, i), (h.slabs slab).allocationCount = numChunksPerSlab i
  counted : ∀ slab i, (slab, i) ∈ h.owned →
    (h.slabs slab).allocationCount = count (h.slabs slab).bitmap (numChunksPerSlab i)
  beyond : ∀ slab i, (slab, i) ∈ h.owned → ∀ p, numChunksPerSlab i ≤ p → p < 64 * bitmapWords i →
    bit (h.slabs slab).bitmap p = false
  spare : ∀ i, (h.lists (.free, i)).length ≤ maxFreeSlabs

theorem Heap.Filed.slabsInOrder {h : Heap} (hf : h.Filed none) : h.SlabsInOrder := by
  have hfiled : ∀ slab i, (slab, i) ∈ h.owned → ∃ w, slab ∈ h.lists (w, i) := by
    intro slab i hs
    rcases hf.filed (slab, i) hs with hout | hlist
    · cases hout
    · exact hlist
  have hok : ∀ slab i, (slab, i) ∈ h.owned → (h.slabs slab).Ok i := by
    intro slab i hs
    obtain ⟨w, hw⟩ := hfiled slab i hs
    exact (hf.header _ _ hw).2.1
  constructor
  case listed => exact fun w i slab hs => hf.listed (w, i) slab hs
  case one =>
    intro slab i hs
    obtain ⟨w, hw⟩ := hfiled slab i hs
    exact ⟨w, hw, fun l hl => hf.list_eq hl hw⟩
  case nodup => exact hf.nodup
  case free => exact fun i slab hs => (hf.header _ _ hs).2.2
  case partly => exact fun i slab hs => (hf.header _ _ hs).2.2
  case full => exact fun i slab hs => (hf.header _ _ hs).2.2
  case counted => exact fun slab i hs => (hok slab i hs).counted
  case beyond => exact fun slab i hs => (hok slab i hs).beyond
  case spare => exact hf.spare

/-- **The slabs are in order** in every state between calls. -/
theorem slabs_in_order {ranges : List VmmRangeData} {mapping : Mapping} {slabs : Nat → SlabHeader}
    {context : Nat} {s : HeapRun} (hinit : memVmmInitialize = some ranges)
    (hreach : Reach HeapRun.step HeapRun.Owns ⟨Heap.boot ranges mapping slabs context, []⟩ s) :
    s.heap.SlabsInOrder :=
  (HeapRun.reach_inv hinit hreach).heapInv.filed.slabsInOrder

/-- A run when the kernel has started, with eight physical pages. -/
def bootRun (ranges : List VmmRangeData) : HeapRun :=
  ⟨Heap.boot ranges (bootKernelMem ranges).mapping (fun _ => ⟨none, 0, fun _ => 0⟩) 0, []⟩

/-- The first block, allocated and freed. -/
theorem slabs_in_order_first_block :
    ∃ ranges s₁ s₂, memVmmInitialize = some ranges ∧
      (bootRun ranges).step (.kmalloc 3 8) = some s₁ ∧
      s₁.step (.kfree 18446744073705390136) = some s₂ ∧ s₂.heap.SlabsInOrder := by
  have hsome : (memVmmInitialize.bind fun ranges =>
      ((bootRun ranges).step (.kmalloc 3 8)).bind fun s₁ =>
        if s₁.given.map (·.addr) = [18446744073705390136] then
          (s₁.step (.kfree 18446744073705390136)).map (·.given.length)
        else none).isSome = true := by
    decide +kernel
  obtain ⟨_, hbind⟩ := Option.isSome_iff_exists.mp hsome
  obtain ⟨ranges, hinit, hbind⟩ := Option.bind_eq_some_iff.mp hbind
  obtain ⟨s₁, hs₁, hbind⟩ := Option.bind_eq_some_iff.mp hbind
  split at hbind
  next hgiven =>
    obtain ⟨s₂, hs₂, -⟩ := Option.map_eq_some_iff.mp hbind
    have howns : s₁.Owns (.kfree 18446744073705390136) :=
      List.mem_map.mp (hgiven ▸ List.mem_singleton_self _)
    exact ⟨ranges, s₁, s₂, hinit, hs₁, hs₂,
      slabs_in_order hinit (.step _ (.step (.kmalloc 3 8) .refl trivial hs₁) howns hs₂)⟩
  next => cases hbind

/-! ### Blocks -/

/-- The length of the block at an address, as `kfree` would find it. -/
def Heap.blockLen (h : Heap) (addr : Nat) : Nat :=
  if addr % sizeOfPage = 0 then
    match h.largeAllocations.find? (·.addr = addr) with
    | some large => large.pages.toNat * sizeOfPage
    | none => 0
  else
    match (h.slabs (addr - addr % sizeOfPage)).listObj with
    | some (_, i) => chunkSizes i
    | none => 0

/-- Two blocks do not overlap. -/
def Heap.Apart (h : Heap) (b b' : Block) : Prop :=
  b.addr + h.blockLen b.addr ≤ b'.addr ∨ b'.addr + h.blockLen b'.addr ≤ b.addr

/-- What is said of the blocks in use. -/
structure Heap.BlocksInOrder (h : Heap) : Prop where
  apart : h.live.Pairwise h.Apart
  inside : ∀ b ∈ h.live, ∃ r ∈ h.mem.ranges, r.allocated = true ∧
    ((∃ s ∈ h.owned, s.1 = r.start.toNat) ∨ ∃ g ∈ h.largeAllocations, g.addr = r.start.toNat) ∧
    r.start.toNat ≤ b.addr ∧ b.addr + h.blockLen b.addr ≤ r.start.toNat + r.pages * sizeOfPage
  long : ∀ b ∈ h.live, b.size.toNat ≤ h.blockLen b.addr
  headers : ∀ b ∈ h.live, ∀ s ∈ h.owned, b.addr + h.blockLen b.addr ≤ s.1 ∨
    s.1 + firstBitmapEntryOffset + 8 * bitmapWords s.2 ≤ b.addr
  aligned : ∀ b ∈ h.live, b.addr % sizeOfPage = 0 ↔ slabIdx b.size = none

section
variable {h : Heap} {b b' : Block} {r r' : VmmRangeData} {s : Nat × SlabIdx}

/-- Two ranges are apart. -/
theorem RangesOk.apart {ranges : List VmmRangeData} (hok : RangesOk ranges) (hr : r ∈ ranges)
    (hr' : r' ∈ ranges) (hne : r.start ≠ r'.start) :
    r.start.toNat + r.pages * 2097152 ≤ r'.start.toNat ∨
      r'.start.toNat + r'.pages * 2097152 ≤ r.start.toNat := by
  rw [(hok.wf r hr).start_eq, (hok.wf r' hr').start_eq]
  rcases hok.tiles.eq_or_apart hr hr' with heq | hle | hle
  · exact absurd (congrArg VmmRangeData.start heq) hne
  · omega
  · omega

/-- Where a block in use is: the slab and the index of its chunk, or its entry. -/
theorem Heap.Inv.place (hi : h.Inv none) (hb : b ∈ h.live) :
    (∃ s ∈ h.owned, ∃ k < numChunksPerSlab s.2, b.addr = s.1 + chunkOffset s.2 k ∧
      slabIdx b.size = some s.2 ∧ h.blockLen b.addr = chunkSizes s.2) ∨
    (slabIdx b.size = none ∧ ∃ g ∈ h.largeAllocations, b.addr = g.addr ∧
      g.pages = requiredPages b.size ∧ h.blockLen b.addr = g.pages.toNat * 2097152) := by
  have hmod := hi.addr_mod hb
  rcases hi.live b hb with ⟨s, hs, k, hk, haddr, -, hsize⟩ | ⟨hsize, g, hg, haddr, hpages⟩
  · refine .inl ⟨s, hs, k, hk, haddr, hsize, ?_⟩
    obtain hout | ⟨w, hw⟩ := hi.filed.filed s hs
    · cases hout
    have hslab : b.addr - b.addr % sizeOfPage = s.1 := by
      have hoff := (chunk_mod (hi.slab_aligned hs) hk).1
      rw [haddr]
      change _ - _ % 2097152 = _
      omega
    rw [Heap.blockLen, if_neg (by rw [hmod, hsize]; exact fun hcase => (by cases hcase)), hslab,
      (hi.filed.header _ _ hw).1]
  · refine .inr ⟨hsize, g, hg, haddr.symm, hpages, ?_⟩
    have hfind : h.largeAllocations.find? (·.addr = b.addr) = some g := by
      cases hf : h.largeAllocations.find? (·.addr = b.addr) with
      | none => exact absurd haddr (by simpa using List.find?_eq_none.mp hf g hg)
      | some g' =>
          have haddr' : g'.addr = b.addr := by simpa using List.find?_some hf
          exact congrArg some (List.inj_on_of_nodup_map hi.largeOnce (List.mem_of_find?_eq_some hf) hg
            (haddr'.trans haddr.symm))
    rw [Heap.blockLen, if_pos (hmod.mpr hsize), hfind]
    rfl

/-- The range that a block in use lies in. -/
theorem Heap.Inv.home (hi : h.Inv none) (hb : b ∈ h.live) : ∃ r ∈ h.mem.ranges, r.allocated = true ∧
    ((∃ s ∈ h.owned, s.1 = r.start.toNat) ∨ ∃ g ∈ h.largeAllocations, g.addr = r.start.toNat) ∧
    r.start.toNat ≤ b.addr ∧ b.addr + h.blockLen b.addr ≤ r.start.toNat + r.pages * 2097152 := by
  rcases hi.place hb with ⟨s, hs, k, hk, haddr, -, hlen⟩ | ⟨-, g, hg, haddr, -, hlen⟩
  · obtain ⟨r, hr, halloc, hstart⟩ := hi.slabRange s hs
    have hfit := (chunk_fits hk).2
    have hpos := (hi.ranges.wf r hr).dyadic.pos
    exact ⟨r, hr, halloc, .inl ⟨s, hs, hstart.symm⟩, by omega, by omega⟩
  · obtain ⟨r, hr, halloc, hstart, hle, -⟩ := hi.largeRange g hg
    exact ⟨r, hr, halloc, .inr ⟨g, hg, hstart.symm⟩, by omega, by omega⟩

/-- A slab and a large allocation are apart. -/
theorem Heap.Inv.slab_large {g : LargeAllocation} (hi : h.Inv none) (hs : s ∈ h.owned)
    (hg : g ∈ h.largeAllocations) :
    s.1 + 2097152 ≤ g.addr ∨ g.addr + g.pages.toNat * 2097152 ≤ s.1 := by
  obtain ⟨r, hr, -, hstart⟩ := hi.slabRange s hs
  obtain ⟨r', hr', -, hstart', hle, -⟩ := hi.largeRange g hg
  have hpos := (hi.ranges.wf r hr).dyadic.pos
  have hne : r.start ≠ r'.start := by
    intro heq
    rw [heq, hstart'] at hstart
    exact hi.largeApart g hg s hs hstart.symm
  rcases hi.ranges.apart hr hr' hne with hap | hap
  · left
    omega
  · right
    omega

/-- Two large allocations are apart. -/
theorem Heap.Inv.large_large {g g' : LargeAllocation} (hi : h.Inv none) (hg : g ∈ h.largeAllocations)
    (hg' : g' ∈ h.largeAllocations) (hne : g.addr ≠ g'.addr) :
    g.addr + g.pages.toNat * 2097152 ≤ g'.addr ∨ g'.addr + g'.pages.toNat * 2097152 ≤ g.addr := by
  obtain ⟨r, hr, -, hstart, hle, -⟩ := hi.largeRange g hg
  obtain ⟨r', hr', -, hstart', hle', -⟩ := hi.largeRange g' hg'
  have hne' : r.start ≠ r'.start := by
    intro heq
    rw [heq, hstart'] at hstart
    exact hne hstart.symm
  rcases hi.ranges.apart hr hr' hne' with hap | hap
  · left
    omega
  · right
    omega

/-- Two slabs are apart. -/
theorem Heap.Inv.slab_slab {t : Nat × SlabIdx} (hi : h.Inv none) (hs : s ∈ h.owned) (ht : t ∈ h.owned)
    (hne : s.1 ≠ t.1) : s.1 + 2097152 ≤ t.1 ∨ t.1 + 2097152 ≤ s.1 := by
  have hal := hi.slab_aligned hs
  have hal' := hi.slab_aligned ht
  omega

/-- Two blocks in use are apart. -/
theorem Heap.Inv.apart (hi : h.Inv none) (hb : b ∈ h.live) (hb' : b' ∈ h.live) (hne : b ≠ b') :
    h.Apart b b' := by
  have haddr : b.addr ≠ b'.addr := fun heq => hne (hi.live_inj hb hb' heq)
  rw [Heap.Apart]
  rcases hi.place hb with ⟨s, hs, k, hk, hs₁, -, hlen⟩ | ⟨-, g, hg, hg₁, -, hlen⟩ <;>
    rcases hi.place hb' with ⟨t, ht, l, hl, ht₁, -, hlen'⟩ | ⟨-, g', hg', hg₁', -, hlen'⟩
  · have hfit := (chunk_fits hk).2
    have hfit' := (chunk_fits hl).2
    by_cases heq : s.1 = t.1
    · obtain rfl := owned_inj hi.filed.once hs ht heq
      rcases Nat.lt_trichotomy k l with hlt | rfl | hlt
      · have hap := chunk_apart (i := s.2) hlt
        omega
      · exact absurd (hs₁.trans ht₁.symm) haddr
      · have hap := chunk_apart (i := s.2) hlt
        omega
    · have hap := hi.slab_slab hs ht heq
      omega
  · have hfit := (chunk_fits hk).2
    have hap := hi.slab_large hs hg'
    omega
  · have hfit := (chunk_fits hl).2
    have hap := hi.slab_large ht hg
    omega
  · have hap := hi.large_large hg hg' (hg₁ ▸ hg₁' ▸ haddr)
    omega

/-- No block in use overlaps the header and the bitmap of a slab. -/
theorem Heap.Inv.header_apart (hi : h.Inv none) (hb : b ∈ h.live) (hs : s ∈ h.owned) :
    b.addr + h.blockLen b.addr ≤ s.1 ∨
      s.1 + firstBitmapEntryOffset + 8 * bitmapWords s.2 ≤ b.addr := by
  have hheader : firstBitmapEntryOffset + 8 * bitmapWords s.2 ≤ 2097152 := by
    have hpos := numChunksPerSlab_pos s.2
    have hfit := chunk_fits (i := s.2) (k := 0) (by omega)
    omega
  rcases hi.place hb with ⟨t, ht, k, hk, ht₁, -, hlen⟩ | ⟨-, g, hg, hg₁, -, hlen⟩
  · have hfit := chunk_fits hk
    by_cases heq : t.1 = s.1
    · obtain rfl := owned_inj hi.filed.once ht hs heq
      omega
    · have hap := hi.slab_slab ht hs heq
      omega
  · have hap := hi.slab_large hs hg
    omega

end

/-! ### Sizes -/

theorem slabIdx_le {size : UInt64} {i : SlabIdx} (h : slabIdx size = some i) :
    size.toNat ≤ chunkSizes i := by
  simpa using List.find?_some h

/-- The pages are enough, if there are less than `2^32` of them. -/
theorem requiredPages_long {size : UInt64} (hsize : slabIdx size = none) (hle : size.toNat ≤ 2 ^ 53)
    (hpos : 0 < (requiredPages size).toNat) :
    size.toNat ≤ (requiredPages size).toNat * 2097152 := by
  have hnz : 0 < size.toNat := by
    refine Nat.pos_of_ne_zero fun hzero => ?_
    rw [UInt64.toNat_inj.mp (hzero.trans UInt64.toNat_zero.symm)] at hsize
    cases hsize
  have hpages : (requiredPages size).toNat = ((size.toNat - 1) / 2097152 + 1) % 2 ^ 32 := by
    rw [requiredPages, UInt64.toNat_toUInt32, UInt64.toNat_add, UInt64.toNat_div, UInt64.toNat_sub_of_le,
      memPageSize]
    · simp only [UInt64.reduceToNat]
      omega
    · rw [UInt64.le_iff_toNat_le]
      exact hnz
  omega

/-- The blocks that callers have were asked for, none of them too large. -/
def HeapRun.Small (s : HeapRun) : Prop :=
  s.Inv ∧ ∀ b ∈ s.given, b.size.toNat ≤ 2 ^ 53

theorem HeapRun.Small.step {s s' : HeapRun} {op : HeapOp} (hs : s.Small) (hasks : s.Asks op)
    (hstep : s.step op = some s') : s'.Small := by
  refine ⟨hs.1.step hasks.1 hstep, ?_⟩
  cases op with
  | kmalloc fuel size =>
      rw [HeapRun.step] at hstep
      split at hstep
      next =>
        obtain rfl := Option.some.inj hstep
        intro b hb
        rcases List.mem_cons.mp hb with rfl | hb
        · exact hasks.2
        · exact hs.2 b hb
      next => cases hstep
  | kfree memBlock =>
      rw [HeapRun.step] at hstep
      split at hstep
      next =>
        obtain rfl := Option.some.inj hstep
        exact fun b hb => hs.2 b (List.mem_of_mem_filter hb)
      next => cases hstep

/-- A block in use is as long as was asked for. -/
theorem HeapRun.Small.long {s : HeapRun} {b : Block} (hs : s.Small) (hb : b ∈ s.heap.live) :
    b.size.toNat ≤ s.heap.blockLen b.addr := by
  have hi := hs.1.heapInv
  rcases hi.place hb with ⟨t, -, k, -, -, hsize, hlen⟩ | ⟨hsize, g, hg, haddr, hpages, hlen⟩
  · rw [hlen]
    exact slabIdx_le hsize
  · -- a large block is one that a caller has
    obtain ⟨b', hb', haddr'⟩ := hs.1.large g hg
    obtain rfl := hi.live_inj hb (hs.1.given b' hb').1 (haddr.trans haddr'.symm)
    obtain ⟨-, -, -, -, -, hpos⟩ := hi.largeRange g hg
    rw [hlen, hpages]
    exact requiredPages_long hsize (hs.2 b hb') (hpages ▸ hpos)

/-- **The blocks are in order** in every state between calls, where nothing larger than `2^53` is
asked for. -/
theorem blocks_in_order {ranges : List VmmRangeData} {mapping : Mapping} {slabs : Nat → SlabHeader}
    {context : Nat} {s : HeapRun} (hinit : memVmmInitialize = some ranges)
    (hreach : Reach HeapRun.step HeapRun.Asks ⟨Heap.boot ranges mapping slabs context, []⟩ s) :
    s.heap.BlocksInOrder ∧ ∀ b ∈ s.given, b ∈ s.heap.live := by
  have hs : s.Small := by
    refine Reach.invariant (I := HeapRun.Small) ⟨HeapRun.reach_inv hinit .refl, fun b hb => ?_⟩
      (fun s op s' hs hasks hstep => hs.step hasks hstep) hreach
    cases hb
  have hi := hs.1.heapInv
  refine ⟨⟨?_, fun b hb => hi.home hb, fun b hb => hs.long hb,
    fun b hb t ht => hi.header_apart hb ht, fun b hb => hi.addr_mod hb⟩, fun b hb => (hs.1.given b hb).1⟩
  have hnodup : s.heap.live.Nodup := .of_map _ hi.liveOnce
  refine hnodup.pairwise_of_forall_ne fun b hb b' hb' hne => ?_
  exact hi.apart hb hb' hne

/-- A block of the largest size there are chunks for, and one of a page and a byte. -/
theorem blocks_in_order_first_blocks :
    ∃ ranges s₁ s₂, memVmmInitialize = some ranges ∧
      (bootRun ranges).step (.kmalloc 3 262144) = some s₁ ∧
      s₁.step (.kmalloc 3 2097153) = some s₂ ∧ s₂.heap.BlocksInOrder ∧
      ∀ b ∈ s₂.given, b ∈ s₂.heap.live := by
  have hsome : (memVmmInitialize.bind fun ranges =>
      ((bootRun ranges).step (.kmalloc 3 262144)).bind fun s₁ =>
        (s₁.step (.kmalloc 3 2097153)).map (·.given.length)).isSome = true := by
    decide +kernel
  obtain ⟨_, hbind⟩ := Option.isSome_iff_exists.mp hsome
  obtain ⟨ranges, hinit, hbind⟩ := Option.bind_eq_some_iff.mp hbind
  obtain ⟨s₁, hs₁, hbind⟩ := Option.bind_eq_some_iff.mp hbind
  obtain ⟨s₂, hs₂, -⟩ := Option.map_eq_some_iff.mp hbind
  obtain ⟨hblocks, hgiven⟩ := blocks_in_order hinit
    (.step (.kmalloc 3 2097153) (.step (.kmalloc 3 262144) .refl ⟨trivial, by decide⟩ hs₁)
      ⟨trivial, by decide⟩ hs₂)
  exact ⟨ranges, s₁, s₂, hinit, hs₁, hs₂, hblocks, hgiven⟩

/-- `2^53 + 1` bytes are one page. -/
theorem blocks_in_order_fails :
    ¬ ∀ (ranges : List VmmRangeData) (mapping : Mapping) (slabs : Nat → SlabHeader) (context : Nat)
      (s : HeapRun), memVmmInitialize = some ranges →
      Reach HeapRun.step HeapRun.Owns ⟨Heap.boot ranges mapping slabs context, []⟩ s →
      s.heap.BlocksInOrder := by
  intro hall
  have hsome : (memVmmInitialize.bind fun ranges =>
      ((bootRun ranges).step (.kmalloc 3 9007199254740993)).map (·.given.map (·.size))) =
        some [9007199254740993] := by
    decide +kernel
  obtain ⟨ranges, hinit, hbind⟩ := Option.bind_eq_some_iff.mp hsome
  obtain ⟨s, hs, hgiven⟩ := Option.map_eq_some_iff.mp hbind
  have hreach : Reach HeapRun.step HeapRun.Owns (bootRun ranges) s :=
    .step (.kmalloc 3 9007199254740993) .refl trivial hs
  have hinv := HeapRun.reach_inv hinit hreach
  obtain ⟨b, hb, hsize⟩ := List.mem_map.mp (hgiven ▸ List.mem_singleton_self (9007199254740993 : UInt64))
  have hlive := (hinv.given b hb).1
  have hlong := (hall _ _ _ _ s hinit hreach).long b hlive
  rcases hinv.heapInv.place hlive with ⟨t, -, k, -, -, hidx, -⟩ | ⟨-, g, -, -, hpages, hlen⟩
  · rw [hsize] at hidx
    exact absurd hidx (by rw [show slabIdx 9007199254740993 = none by decide]; simp)
  · rw [hlen, hpages, hsize] at hlong
    exact absurd hlong (by decide)

end Azalea.Klib
