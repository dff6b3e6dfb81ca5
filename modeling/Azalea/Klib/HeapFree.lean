import Azalea.Klib.HeapAlloc

/-!
# Klib — kfree keeps the allocator in order

`kfree` finds the slab of a chunk from its address and the size of the chunk from the list that the
slab is in.  `mem_deallocate_pages` leaves the range of the pages allocated, so that nothing else is
freed on the way.

- `kfree_ok`: freeing a block in use that nothing is kept in keeps the invariant, and the other
  blocks in use stay in use.
-/

namespace Azalea.Klib
open Azalea.Bitmaps Azalea.Halts Azalea.Mem Function VmmRangeData

/-- The header of a slab, when a chunk of it is given back. -/
def SlabHeader.freed (k : Nat) (s : SlabHeader) : SlabHeader :=
  { s with
    bitmap := clearBit s.bitmap k
    allocationCount := s.allocationCount - 1 }

/-- What giving back a chunk leaves as it is. -/
structure SameBlocks (h h' : Heap) : Prop where
  ranges : h'.mem.ranges = h.mem.ranges
  large : h'.largeAllocations = h.largeAllocations
  items : h'.rangeItems = h.rangeItems
  allocator : h'.allocator = h.allocator
  live : h'.live = h.live
  owned : ∀ s ∈ h'.owned, s ∈ h.owned

section
variable {h h' : Heap} {out : Option (Nat × SlabIdx)} {s : Nat × SlabIdx} {l : SlabList × SlabIdx}
  {k a slab : Nat} {i : SlabIdx} {b : Block} {u : Holder} {header : SlabHeader}

theorem SameBlocks.holds (hs : SameBlocks h h') : h'.Holds u a ↔ h.Holds u a := by
  cases u with
  | node addr => rw [Heap.Holds, Heap.Holds, hs.large]
  | listItem start =>
      rw [Heap.Holds, Heap.Holds, Heap.HasRange, Heap.HasRange, hs.ranges, hs.items]
  | rangeItem start =>
      rw [Heap.Holds, Heap.Holds, Heap.HasRange, Heap.HasRange, hs.ranges, hs.items]

theorem SameBlocks.trans {h'' : Heap} (hs : SameBlocks h h') (hs' : SameBlocks h' h'') :
    SameBlocks h h'' :=
  ⟨hs'.ranges.trans hs.ranges, hs'.large.trans hs.large, hs'.items.trans hs.items,
    hs'.allocator.trans hs.allocator, hs'.live.trans hs.live,
    fun s hs'' => hs.owned s (hs'.owned s hs'')⟩

/-- Slabs and their bits change, and the chunks in use stay chunks. -/
theorem Heap.Inv.refree (hi : h.Inv out) {out' : Option (Nat × SlabIdx)} (hfiled : h'.Filed out')
    (hs : SameBlocks h h') (hchunks : ∀ b ∈ h.live, h.IsChunk b → h'.IsChunk b) : h'.Inv out' := by
  have hholds : ∀ {u a}, h'.Holds u a ↔ h.Holds u a := hs.holds
  obtain ⟨hranges, hlarge, -, -, hlive, howned⟩ := hs
  refine ⟨hranges ▸ hi.ranges, hfiled, fun s hs => ?_, ?_, fun g hg s hs => ?_, hlarge ▸ hi.largeOnce,
    hlive ▸ hi.liveOnce, fun b hb => ?_, fun u a hu => ?_,
    fun u v a hu hv => hi.heldOnce u v a (hholds.mp hu) (hholds.mp hv)⟩
  · rw [hranges]
    exact hi.slabRange s (howned s hs)
  · rw [hranges, hlarge]
    exact hi.largeRange
  · exact hi.largeApart g (hlarge ▸ hg) s (howned s hs)
  · rw [hlive] at hb
    exact (hi.live b hb).imp (hchunks b hb) fun hl => hl.mono fun g hg => hlarge ▸ hg
  · rw [hlive]
    exact hi.held u a (hholds.mp hu)

theorem mem_drop : b ∈ (h.drop a).live ↔ b ∈ h.live ∧ b.addr ≠ a := by
  simp [Heap.drop]

/-- A block is dropped. -/
theorem Heap.Inv.drop (hi : h.Inv none) (hnot : ∀ u, ¬ h.Holds u a) : (h.drop a).Inv none := by
  have hholds : ∀ {u a'}, (h.drop a).Holds u a' ↔ h.Holds u a' := by
    intro u a'
    cases u <;> exact Iff.rfl
  refine ⟨hi.ranges, hi.filed.congr rfl rfl rfl, hi.slabRange, hi.largeRange, hi.largeApart,
    hi.largeOnce, ?_, fun b hb => hi.live b (mem_drop.mp hb).1, fun u a' hu => ?_,
    fun u v a' hu hv => hi.heldOnce u v a' (hholds.mp hu) (hholds.mp hv)⟩
  · exact hi.liveOnce.sublist (List.filter_sublist.map _)
  · obtain ⟨b, hb, haddr, hsize⟩ := hi.held u a' (hholds.mp hu)
    refine ⟨b, mem_drop.mpr ⟨hb, fun heq => hnot u ?_⟩, haddr, hsize⟩
    rw [← heq, haddr]
    exact hholds.mp hu

/-- The chunks in use are still there when another one is given back. -/
theorem Heap.Inv.chunk_kept (hi : h.Inv none) (hs : s ∈ h.owned) (hk : k < numChunksPerSlab s.2)
    (hnot : ∀ b ∈ h.live, b.addr ≠ s.1 + chunkOffset s.2 k) (hb : b ∈ h.live) (hc : h.IsChunk b)
    (howned : ∀ t ∈ h.owned, t ∈ h'.owned)
    (hslab : (h'.slabs s.1).bitmap = clearBit (h.slabs s.1).bitmap k)
    (hother : ∀ t, t ≠ s.1 → (h'.slabs t).bitmap = (h.slabs t).bitmap) : h'.IsChunk b := by
  obtain ⟨t, ht, j, hj, haddr, hbit, hsize⟩ := hc
  refine ⟨t, howned t ht, j, hj, haddr, ?_, hsize⟩
  by_cases heq : t.1 = s.1
  · obtain rfl := owned_inj hi.filed.once ht hs heq
    have hne : j ≠ k := by
      rintro rfl
      exact hnot b hb haddr
    rw [hslab, bit_clearBit, hbit, decide_eq_true hne]
    rfl
  · rw [hother t.1 heq]
    exact hbit

/-- The slab of a chunk that is given back is taken out of its list. -/
theorem Heap.removeSlab_setHeader (hlist : header.listObj = some l) :
    (h.setHeader slab header).removeSlab slab =
      some ((h.unfile l slab).setHeader slab { header with listObj := none }) := by
  rw [Heap.removeSlab, Heap.setHeader]
  simp only [update_self, hlist, Option.map_some, update_idem, Heap.unfile, Heap.setHeader]

/-- The index of a chunk is found from its address. -/
theorem chunkIdx_chunkOffset (hk : k < numChunksPerSlab i) : chunkIdx i (chunkOffset i k) = k := by
  have hfit := (chunk_fits hk).2
  have hle : firstOffsetInSlab i ≤ chunkOffset i k := Nat.le_add_left ..
  have hmod : (chunkOffset i k + 2 ^ 32 - firstOffsetInSlab i) % 2 ^ 32 =
      chunkOffset i k - firstOffsetInSlab i := by
    omega
  rw [chunkIdx, hmod, chunkOffset_div]

/-- The slab is out of its list, with one chunk less in use. -/
theorem Heap.Inv.takeOut (hi : h.Inv none) (hmem : slab ∈ h.lists l) (hk : k < numChunksPerSlab l.2)
    (hbit : bit (h.slabs slab).bitmap k = true)
    (hnot : ∀ b ∈ h.live, b.addr ≠ slab + chunkOffset l.2 k) :
    ∃ h₁, (h.setHeader slab ((h.slabs slab).freed k)).removeSlab slab = some h₁ ∧
      h₁.Inv (some (slab, l.2)) ∧ SameBlocks h h₁ ∧ h₁.owned = h.owned ∧ h₁.context = h.context ∧
      (h₁.slabs slab).allocationCount = (h.slabs slab).allocationCount - 1 := by
  obtain ⟨hlist, hok, -⟩ := hi.filed.header l slab hmem
  have howned := hi.filed.listed l slab hmem
  obtain ⟨header, hheader⟩ : ∃ header : SlabHeader, header =
    { (h.slabs slab).freed k with listObj := none } := ⟨_, rfl⟩
  have hslab : ((h.unfile l slab).setHeader slab header).slabs slab = header := update_self ..
  have hother : ∀ t, t ≠ slab →
      (((h.unfile l slab).setHeader slab header).slabs t).bitmap = (h.slabs t).bitmap := by
    intro t ht
    rw [Heap.setHeader]
    dsimp only
    rw [update_of_ne ht, (unfile_bits t).2]
  have hok' : header.Ok l.2 := by
    have hfree := hok.free hk hbit
    rw [hheader]
    exact ⟨hfree.counted, hfree.beyond⟩
  have hsame : SameBlocks h ((h.unfile l slab).setHeader slab header) :=
    ⟨rfl, rfl, rfl, rfl, rfl, fun _ ht => ht⟩
  refine ⟨(h.unfile l slab).setHeader slab header, ?_, ?_, hsame, rfl, rfl, ?_⟩
  · rw [hheader]
    exact Heap.removeSlab_setHeader hlist
  · refine hi.refree ((hi.filed.removeSlab hmem).2.setHeader (by rw [hheader]) hok') hsame
      fun b hb hc => ?_
    refine hi.chunk_kept howned hk hnot hb hc (fun t ht => ht) ?_ hother
    dsimp only
    rw [hslab, hheader]
    rfl
  · rw [hslab, hheader]
    rfl

/-- A slab that is out is put in a list. -/
theorem Heap.Inv.putBack (hi : h.Inv (some (slab, i))) (hl : l.2 = i)
    (hcount : Matches l (h.slabs slab).allocationCount)
    (hspare : l.1 = .free → (h.lists l).length < maxFreeSlabs) :
    (h.addTail l slab).Inv none ∧ SameBlocks h (h.addTail l slab) := by
  have hsame : SameBlocks h (h.addTail l slab) := ⟨rfl, rfl, rfl, rfl, rfl, fun _ ht => ht⟩
  refine ⟨hi.refree (hi.filed.fileSlab hl (List.perm_append_singleton ..) hcount hspare) hsame
    fun b _ hc => ?_, hsame⟩
  refine hc.mono (fun s hs => hs) fun s _ j hj => ?_
  rwa [Heap.addTail, (fileSlab_bits s.1).2]

/-- A slab that is out and has no chunk in use is given back. -/
theorem Heap.Inv.retire {mem : KernelMem} (hi : h.Inv (some (slab, i)))
    (hcount : (h.slabs slab).allocationCount = 0) (hranges : mem.ranges = h.mem.ranges) :
    Heap.Inv { h with mem := mem, owned := h.owned.filter (·.1 ≠ slab) } none ∧
      SameBlocks h { h with mem := mem, owned := h.owned.filter (·.1 ≠ slab) } := by
  obtain ⟨howned, -, hok⟩ := hi.filed.out _ rfl
  have hmem : ∀ {s}, s ∈ h.owned.filter (·.1 ≠ slab) ↔ s ∈ h.owned ∧ s.1 ≠ slab := by
    intro s
    simp
  have hfiled : Heap.Filed { h with mem := mem, owned := h.owned.filter (·.1 ≠ slab) } none := by
    refine ⟨fun l a ha => hmem.mpr ⟨hi.filed.listed l a ha, ?_⟩, fun s hs => .inr ?_, hi.filed.nodup, ?_,
      hi.filed.header, fun s hs => (by cases hs), hi.filed.spare⟩
    · rintro rfl
      exact hi.filed.not_out ha
    · obtain ⟨hs, hne⟩ := hmem.mp hs
      rcases hi.filed.filed s hs with hout | hlist
      · exact absurd (congrArg Prod.fst (Option.some.inj hout)).symm hne
      · exact hlist
    · exact hi.filed.once.sublist (List.filter_sublist.map _)
  have hsame : SameBlocks h { h with mem := mem, owned := h.owned.filter (·.1 ≠ slab) } :=
    ⟨hranges, rfl, rfl, rfl, rfl, fun s hs => (hmem.mp hs).1⟩
  refine ⟨hi.refree hfiled hsame fun b _ hc => ?_, hsame⟩
  obtain ⟨s, hs, k, hk, haddr, hbit, hsize⟩ := hc
  refine ⟨s, hmem.mpr ⟨hs, fun heq => ?_⟩, k, hk, haddr, hbit, hsize⟩
  -- the chunk would be counted
  obtain rfl := owned_inj hi.filed.once hs howned heq
  exact absurd hcount (hok.count_pos hk hbit).ne'

/-- **A chunk is given back** to the slab that it is found in. -/
theorem Heap.Inv.freeFrom (hi : h.Inv none) (hmem : slab ∈ h.lists l) (hw : l.1 ≠ .free)
    (hk : k < numChunksPerSlab l.2) (hbit : bit (h.slabs slab).bitmap k = true)
    (hnot : ∀ b ∈ h.live, b.addr ≠ slab + chunkOffset l.2 k) {wasFull : Bool}
    (hfull : wasFull = true ↔ l.1 = .full)
    (hok : h.freeFrom slab l.2 wasFull (slab + chunkOffset l.2 k) = .ok h') :
    h'.Inv none ∧ SameBlocks h h' := by
  obtain ⟨header, hheader, hok⟩ := bind_ok.mp hok
  rw [Nat.add_sub_cancel_left, chunkIdx_chunkOffset hk, freeChunk_spec hk hbit, orPanic_some,
    Except.ok.injEq] at hheader
  change (h.slabs slab).freed k = header at hheader
  subst hheader
  obtain ⟨hlist, hslab, hmatches⟩ := hi.filed.header l slab hmem
  have hpos := hslab.count_pos hk hbit
  have hle := hslab.count_le
  obtain ⟨h₁, hremove, hi₁, hs₁, howned, hcontext, hcount⟩ := hi.takeOut hmem hk hbit hnot
  change (h.setHeader slab ((h.slabs slab).freed k)).removeSlab slab = some h₁ at hremove
  change (if (h.slabs slab).allocationCount - 1 = 0 then _ else _) = _ at hok
  split at hok
  next hzero =>
    obtain ⟨h₁', hremove', hok⟩ := bind_ok.mp hok
    change orPanic ((h.setHeader slab ((h.slabs slab).freed k)).removeSlab slab) = _ at hremove'
    rw [hremove, orPanic_some, Except.ok.injEq] at hremove'
    subst hremove'
    rw [Heap.retireSlab] at hok
    split at hok
    next =>
      obtain ⟨mem, hdealloc, hok⟩ := bind_ok.mp hok
      cases hok
      obtain ⟨hi₂, hs₂⟩ := hi₁.retire (hcount.trans hzero)
        (memDeallocatePages_ranges (orPanic_ok.mp hdealloc))
      exact ⟨hi₂, hs₁.trans hs₂⟩
    next hlen =>
      cases hok
      obtain ⟨hi₂, hs₂⟩ := hi₁.putBack (l := (.free, l.2)) rfl (hcount.trans hzero)
        fun _ => Nat.not_le.mp hlen
      exact ⟨hi₂, hs₁.trans hs₂⟩
  next hne =>
    split at hok
    next =>
      obtain ⟨h₁', hremove', hok⟩ := bind_ok.mp hok
      change orPanic ((h.setHeader slab ((h.slabs slab).freed k)).removeSlab slab) = _ at hremove'
      rw [hremove, orPanic_some, Except.ok.injEq] at hremove'
      subst hremove'
      cases hok
      have hpartly : Matches (.partly, l.2) (h₁.slabs slab).allocationCount := by
        change 0 < _ ∧ _ < numChunksPerSlab l.2
        omega
      obtain ⟨hi₂, hs₂⟩ := hi₁.putBack (l := (.partly, l.2)) rfl hpartly fun hcase => (by cases hcase)
      exact ⟨hi₂, hs₁.trans hs₂⟩
    next hnotFull =>
      cases hok
      have hpartly : Matches l ((h.slabs slab).allocationCount - 1) := by
        obtain ⟨w, i⟩ := l
        cases w with
        | free => exact absurd rfl hw
        | partly =>
            have hmatches' : 0 < _ ∧ _ < numChunksPerSlab i := hmatches
            change 0 < _ ∧ _ < numChunksPerSlab i
            omega
        | full => exact absurd (hfull.mpr rfl) hnotFull
      have hsame : SameBlocks h (h.setHeader slab ((h.slabs slab).freed k)) :=
        ⟨rfl, rfl, rfl, rfl, rfl, fun _ ht => ht⟩
      refine ⟨hi.refree (hi.filed.recount hmem hlist (hslab.free hk hbit) hpartly) hsame
        fun b hb hc => ?_, hsame⟩
      refine hi.chunk_kept (hi.filed.listed l slab hmem) hk hnot hb hc (fun t ht => ht) ?_ fun t ht => ?_
      · exact congrArg SlabHeader.bitmap (update_self slab _ h.slabs)
      · exact congrArg SlabHeader.bitmap (update_of_ne ht _ h.slabs)

/-- **`kfree`, for a chunk** that is no block in use any more. -/
theorem kfreeChunk_ok (hi : h.Inv none) (hs : s ∈ h.owned) (hk : k < numChunksPerSlab s.2)
    (hbit : bit (h.slabs s.1).bitmap k = true)
    (hnot : ∀ b ∈ h.live, b.addr ≠ s.1 + chunkOffset s.2 k)
    (hok : kfreeChunk (s.1 + chunkOffset s.2 k) h = .ok h') : h'.Inv none ∧ SameBlocks h h' := by
  have hmod := (chunk_mod (hi.slab_aligned hs) hk).1
  have hslab : s.1 + chunkOffset s.2 k - (s.1 + chunkOffset s.2 k) % sizeOfPage = s.1 := by
    change _ - _ % 2097152 = _
    omega
  obtain hout | ⟨w, hw⟩ := hi.filed.filed s hs
  · cases hout
  obtain ⟨hlist, hslabOk, hmatches⟩ := hi.filed.header _ _ hw
  rw [kfreeChunk, hslab, hlist] at hok
  cases w with
  | free => exact absurd hmatches (hslabOk.count_pos hk hbit).ne'
  | partly =>
      exact hi.freeFrom hw (fun hcase => (by cases hcase)) hk hbit hnot
        ⟨fun hcase => (by cases hcase), fun hcase => (by cases hcase)⟩ hok
  | full =>
      exact hi.freeFrom hw (fun hcase => (by cases hcase)) hk hbit hnot
        ⟨fun _ => rfl, fun _ => rfl⟩ hok

/-- An entry of `large_allocations` is erased. -/
theorem Heap.Inv.erase {g : LargeAllocation} {mem : KernelMem} (hi : h.Inv none)
    (hg : g ∈ h.largeAllocations) (hranges : mem.ranges = h.mem.ranges)
    (hnot : ∀ b ∈ h.live, b.addr ≠ g.addr) :
    Heap.Inv { h with mem := mem, largeAllocations := h.largeAllocations.erase g } none ∧
      ∀ {u a}, Heap.Holds { h with mem := mem, largeAllocations := h.largeAllocations.erase g } u a →
        h.Holds u a ∧ u ≠ .node g.addr := by
  have hnodup : h.largeAllocations.Nodup := .of_map _ hi.largeOnce
  have hmem : ∀ {g'}, g' ∈ h.largeAllocations.erase g ↔ g' ≠ g ∧ g' ∈ h.largeAllocations :=
    hnodup.mem_erase_iff
  have hholds : ∀ {u a}, Heap.Holds
      { h with mem := mem, largeAllocations := h.largeAllocations.erase g } u a →
        h.Holds u a ∧ u ≠ .node g.addr := by
    intro u a hu
    cases u with
    | node addr =>
        obtain ⟨g', hg', haddr, hnode⟩ := hu
        obtain ⟨hne, hg'⟩ := hmem.mp hg'
        refine ⟨⟨g', hg', haddr, hnode⟩, fun heq => hne ?_⟩
        exact List.inj_on_of_nodup_map hi.largeOnce hg' hg (haddr.trans (Holder.node.inj heq))
    | listItem start =>
        rw [Heap.Holds, Heap.HasRange] at hu
        dsimp only at hu
        rw [hranges] at hu
        exact ⟨hu, fun hcase => (by cases hcase)⟩
    | rangeItem start =>
        rw [Heap.Holds, Heap.HasRange] at hu
        dsimp only at hu
        rw [hranges] at hu
        exact ⟨hu, fun hcase => (by cases hcase)⟩
  refine ⟨⟨hranges ▸ hi.ranges, hi.filed.congr rfl rfl rfl, ?_, fun g' hg' => ?_,
    fun g' hg' => hi.largeApart g' (hmem.mp hg').2, hi.largeOnce.sublist (List.erase_sublist.map _),
    hi.liveOnce, fun b hb => ?_, fun u a hu => hi.held u a (hholds hu).1,
    fun u v a hu hv => hi.heldOnce u v a (hholds hu).1 (hholds hv).1⟩, hholds⟩
  · dsimp only
    rw [hranges]
    exact hi.slabRange
  · dsimp only
    rw [hranges]
    exact hi.largeRange g' (hmem.mp hg').2
  · rcases hi.live b hb with hlive | ⟨hsize, g', hg', haddr⟩
    · exact .inl hlive
    · refine .inr ⟨hsize, g', hmem.mpr ⟨?_, hg'⟩, haddr⟩
      rintro rfl
      exact hnot b hb haddr.1.symm

/-- What `kfree` does. -/
structure KfreeSpec (h : Heap) (b : Block) (h' : Heap) : Prop where
  inv : h'.Inv none
  allocator : h'.allocator = h.allocator
  ranges : h'.mem.ranges = h.mem.ranges
  items : h'.rangeItems = h.rangeItems
  owned : ∀ s ∈ h'.owned, s ∈ h.owned
  large : ∀ g ∈ h'.largeAllocations, g ∈ h.largeAllocations ∧ g.addr ≠ b.addr
  gone : b ∉ h'.live
  kept : ∀ b' ∈ h.live, b' ≠ b → (∀ u, ¬ h.Holds u b'.addr) →
    b' ∈ h'.live ∧ ∀ u, ¬ h'.Holds u b'.addr

/-- Two blocks in use are at two addresses. -/
theorem Heap.Inv.live_inj {b' : Block} (hi : h.Inv out) (hb : b ∈ h.live) (hb' : b' ∈ h.live)
    (heq : b.addr = b'.addr) : b = b' :=
  List.inj_on_of_nodup_map hi.liveOnce hb hb' heq

/-- A block of a size that there are slabs for is a chunk. -/
theorem Heap.Inv.isChunk (hi : h.Inv out) (hb : b ∈ h.live) (hsize : slabIdx b.size ≠ none) :
    h.IsChunk b :=
  (hi.live b hb).resolve_right fun hl => hsize hl.1

/-- **Whether a block is on a page tells how it was allocated.** -/
theorem Heap.Inv.addr_mod (hi : h.Inv out) (hb : b ∈ h.live) :
    b.addr % sizeOfPage = 0 ↔ slabIdx b.size = none := by
  change _ % 2097152 = 0 ↔ _
  rcases hi.live b hb with ⟨s, hs, k, hk, haddr, -, hsize⟩ | ⟨hsize, g, hg, haddr, -⟩
  · obtain ⟨hmod, hpos⟩ := chunk_mod (hi.slab_aligned hs) hk
    rw [haddr, hmod, hsize]
    exact ⟨fun hzero => absurd hzero hpos.ne', fun hcase => (by cases hcase)⟩
  · obtain ⟨r, hr, -, hstart, -⟩ := hi.largeRange g hg
    have hal := Nat.mod_eq_zero_of_dvd (hi.ranges.wf r hr).aligned
    rw [hstart, haddr] at hal
    exact ⟨fun _ => hsize, fun _ => hal⟩

/-- A chunk is freed. -/
theorem Heap.Inv.kfree_chunk (hi : h.Inv none) (hb : b ∈ h.live) (hsize : slabIdx b.size ≠ none)
    (hunheld : ∀ u, ¬ h.Holds u b.addr) (hok : kfreeChunk b.addr (h.drop b.addr) = .ok h') :
    h'.Inv none ∧ SameBlocks (h.drop b.addr) h' := by
  obtain ⟨s, hs, k, hk, haddr, hbit, -⟩ := hi.isChunk hb hsize
  refine kfreeChunk_ok (hi.drop hunheld) hs hk hbit (fun b' hb' => ?_) (haddr ▸ hok)
  rw [← haddr]
  exact (mem_drop.mp hb').2

/-- **`kfree`.** -/
theorem kfree_ok (hi : h.Inv none) (hb : b ∈ h.live) (hunheld : ∀ u, ¬ h.Holds u b.addr)
    (hok : kfree b.addr h = .ok h') : KfreeSpec h b h' := by
  have hdrop : ∀ {u a'}, (h.drop b.addr).Holds u a' ↔ h.Holds u a' := by
    intro u a'
    cases u <;> exact Iff.rfl
  rw [kfree] at hok
  split at hok
  next => cases hok
  next =>
    split at hok
    next hmod =>
      obtain ⟨g, hfind, hok⟩ := bind_ok.mp hok
      obtain ⟨mem, hdealloc, hok⟩ := bind_ok.mp hok
      rw [orPanic_ok] at hfind
      have hg := List.mem_of_find?_eq_some hfind
      have haddr : g.addr = b.addr := by simpa using List.find?_some hfind
      have hnode : h.Holds (.node g.addr) g.node := ⟨g, hg, rfl, rfl⟩
      -- the entry goes, and then nothing is kept in its node
      obtain ⟨hi₁, hheld⟩ := (hi.drop hunheld).erase hg
        (memDeallocatePages_ranges (orPanic_ok.mp hdealloc)) fun b' hb' => haddr ▸ (mem_drop.mp hb').2
      obtain ⟨b₂, hb₂, haddr₂, hsize₂⟩ := (hi.drop hunheld).held _ _ (hdrop.mpr hnode)
      rw [← haddr₂] at hok
      have hunheld₂ : ∀ u, ¬ Heap.Holds { h.drop b.addr with
          mem := mem, largeAllocations := h.largeAllocations.erase g } u b₂.addr := by
        intro u hu
        obtain ⟨hu', hne⟩ := hheld hu
        exact hne (hi.heldOnce u _ _ (hdrop.mp hu') (haddr₂ ▸ hnode))
      obtain ⟨hi₂, hs₂⟩ := hi₁.kfree_chunk hb₂ hsize₂ hunheld₂ hok
      have hranges := memDeallocatePages_ranges (orPanic_ok.mp hdealloc)
      refine ⟨hi₂, hs₂.allocator, hs₂.ranges.trans hranges, hs₂.items, hs₂.owned, fun g' hg' => ?_,
        fun hmem => ?_, fun b' hb' hne hunheld' => ⟨?_, fun u hu => ?_⟩⟩
      · rw [hs₂.large] at hg'
        have hne := ((List.Nodup.of_map _ hi.largeOnce).mem_erase_iff.mp hg').1
        refine ⟨List.mem_of_mem_erase hg', fun heq => hne ?_⟩
        exact List.inj_on_of_nodup_map hi.largeOnce (List.mem_of_mem_erase hg') hg
          (heq.trans haddr.symm)
      · rw [hs₂.live] at hmem
        exact (mem_drop.mp (mem_drop.mp hmem).1).2 rfl
      · rw [hs₂.live]
        refine mem_drop.mpr ⟨mem_drop.mpr ⟨hb', fun heq => hne (hi.live_inj hb' hb heq)⟩, fun heq => ?_⟩
        rw [haddr₂] at heq
        exact hunheld' _ (heq ▸ hnode)
      · have hu₂ := hs₂.holds.mp hu
        refine hunheld' u (hdrop.mp (hheld (u := u) ?_).1)
        cases u <;> exact hu₂
    next hmod =>
      have hsize : slabIdx b.size ≠ none := fun hsize => hmod ((hi.addr_mod hb).mpr hsize)
      obtain ⟨hi₁, hs₁⟩ := hi.kfree_chunk hb hsize hunheld hok
      refine ⟨hi₁, hs₁.allocator, hs₁.ranges, hs₁.items, hs₁.owned, fun g hg => ⟨hs₁.large ▸ hg, ?_⟩,
        fun hmem => ?_, fun b' hb' hne hunheld' => ⟨?_, fun u hu => ?_⟩⟩
      · obtain ⟨r, hr, -, hstart, -⟩ := hi.largeRange g (hs₁.large ▸ hg)
        have hal := Nat.mod_eq_zero_of_dvd (hi.ranges.wf r hr).aligned
        exact fun heq => hmod (by rw [← heq, ← hstart]; exact hal)
      · rw [hs₁.live] at hmem
        exact (mem_drop.mp hmem).2 rfl
      · rw [hs₁.live]
        exact mem_drop.mpr ⟨hb', fun heq => hne (hi.live_inj hb' hb heq)⟩
      · exact hunheld' u (hdrop.mp (hs₁.holds.mp hu))

end

end Azalea.Klib
