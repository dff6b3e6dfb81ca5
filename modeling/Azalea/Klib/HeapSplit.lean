import Azalea.Klib.HeapInvariant

/-!
# Klib — taking a range while the allocator is in use

`mem_vmm_split_range` allocates its items with `kmalloc` and then halves the range that it was
given.  A `kmalloc` that it makes may allocate a page itself, and then takes the smallest range:
where that is the range that is being split, the split goes on with a range that is allocated, and
ends in an assertion that fails.

- `KmallocSpec`: what a `kmalloc` does to a heap, and `ChunkTaken`, what one for a chunk does to the
  ranges and the free slabs.
- `allocatePages_spec`: a range for pages, on top of a `kmalloc` that does that.
-/

namespace Azalea.Klib
open Azalea.Bitmaps Azalea.Halts Azalea.Mem Azalea.Tiling Function VmmRangeData

/-- Only the ranges, their items and what is mapped differ. -/
structure SameSlabs (h h' : Heap) : Prop where
  lists : h'.lists = h.lists
  slabs : h'.slabs = h.slabs
  owned : h'.owned = h.owned
  large : h'.largeAllocations = h.largeAllocations
  live : h'.live = h.live
  allocator : h'.allocator = h.allocator

/-- A block is in use, and nothing is kept in it. -/
def Heap.IsSpare (h : Heap) (a : Nat) : Prop :=
  (∃ b ∈ h.live, b.addr = a ∧ slabIdx b.size ≠ none) ∧ ∀ u, ¬ h.Holds u a

/-- The blocks for the items of a range, which were not in use in `h₀`. -/
structure Heap.AreSpare (h₀ h : Heap) (items : Option Nat × Option Nat) : Prop where
  listItem : ∀ a, items.1 = some a → h.IsSpare a ∧ ∀ b ∈ h₀.live, b.addr ≠ a
  rangeItem : ∀ a, items.2 = some a → h.IsSpare a ∧ ∀ b ∈ h₀.live, b.addr ≠ a
  apart : ∀ a, items.1 = some a → items.2 ≠ some a

/-- What a `kmalloc` for a chunk does to the ranges and the free slabs: nothing, or it takes the
first page of the range that is suitable for one page. -/
structure ChunkTaken (h h' : Heap) : Prop where
  kept : ∀ r ∈ h.mem.ranges, r ∈ h'.mem.ranges ∨ r.Free ∧ ⟨r.start, 1, true⟩ ∈ h'.mem.ranges
  how : (h'.mem.ranges = h.mem.ranges ∧
      ∀ i, (h'.lists (.free, i)).length ≤ (h.lists (.free, i)).length) ∨
    ∃ it, memVmmGetSuitableRange 1 h.mem.ranges = some it ∧
      ⟨it.item.start, 1, true⟩ ∈ h'.mem.ranges
  large : h'.largeAllocations = h.largeAllocations

/-- What a `kmalloc` that gives a block does. -/
structure KmallocSpec (size : UInt64) (h : Heap) (a : Nat) (h' : Heap) : Prop where
  ready : h.allocator = .initialized
  inv : h'.Inv none
  ext : Extends h h'
  block : ⟨a, size⟩ ∈ h'.live
  new : ∀ b ∈ h.live, b.addr ≠ a
  unheld : ∀ u, ¬ h'.Holds u a
  chunk : slabIdx size ≠ none → ChunkTaken h h'
  large : ∀ g ∈ h'.largeAllocations, g ∈ h.largeAllocations ∨ g.addr = a

/-- A `kmalloc` that may be called inside. -/
def KmallocOk (kmalloc : UInt64 → Heap → Res (Nat × Heap)) : Prop :=
  ∀ size h a h', h.Inv none → h.allocator ≠ .uninitialized → kmalloc size h = .ok (a, h') →
    KmallocSpec size h a h'

section
variable {kmalloc : UInt64 → Heap → Res (Nat × Heap)} {h h' h'' : Heap}
  {out : Option (Nat × SlabIdx)} {a : Nat} {start : UInt64} {r : VmmRangeData} {n : UInt32}
  {it : ListItem VmmRangeData} {items : Option Nat × Option Nat} {item : Option Nat} {levels : Nat}

theorem SameSlabs.refl (h : Heap) : SameSlabs h h := ⟨rfl, rfl, rfl, rfl, rfl, rfl⟩

theorem SameSlabs.trans (hs : SameSlabs h h') (hs' : SameSlabs h' h'') : SameSlabs h h'' :=
  ⟨hs'.lists.trans hs.lists, hs'.slabs.trans hs.slabs, hs'.owned.trans hs.owned,
    hs'.large.trans hs.large, hs'.live.trans hs.live, hs'.allocator.trans hs.allocator⟩

/-- The ranges change, and those that are allocated stay. -/
theorem Heap.Inv.rerange (hi : h.Inv out) (hs : SameSlabs h h') (hranges : RangesOk h'.mem.ranges)
    (hkept : ∀ r ∈ h.mem.ranges, r.allocated = true → r ∈ h'.mem.ranges)
    (hheld : ∀ u a, h'.Holds u a → ∃ b ∈ h.live, b.addr = a ∧ slabIdx b.size ≠ none)
    (honce : ∀ u v a, h'.Holds u a → h'.Holds v a → u = v) : h'.Inv out := by
  obtain ⟨hlists, hslabs, howned, hlarge, hlive, -⟩ := hs
  refine ⟨hranges, hi.filed.congr hlists hslabs howned, fun s hs => ?_, fun g hg => ?_, ?_,
    hlarge ▸ hi.largeOnce, hlive ▸ hi.liveOnce, fun b hb => ?_, hlive ▸ hheld, honce⟩
  · obtain ⟨r, hr, ha, hstart⟩ := hi.slabRange s (howned ▸ hs)
    exact ⟨r, hkept r hr ha, ha, hstart⟩
  · obtain ⟨r, hr, ha, hstart⟩ := hi.largeRange g (hlarge ▸ hg)
    exact ⟨r, hkept r hr ha, ha, hstart⟩
  · rw [hlarge, howned]
    exact hi.largeApart
  · rw [hlive] at hb
    refine (hi.live b hb).imp (fun hc => hc.mono (fun s hs => howned ▸ hs) ?_)
      fun hl => hl.mono fun g hg => hlarge ▸ hg
    intro s _ k hk
    rwa [hslabs]

theorem SameSlabs.extends (hs : SameSlabs h h')
    (hranges : ∀ r ∈ h.mem.ranges, r ∈ h'.mem.ranges ∨ r.Free ∧ h'.HasRange r.start)
    (hheld : ∀ u a, h.Holds u a → h'.Holds u a)
    (hnew : ∀ u a, h'.Holds u a → h.Holds u a ∨ ∀ b ∈ h.live, b.addr ≠ a) : Extends h h' where
  ranges := hranges
  live _ hb := hs.live ▸ hb
  owned _ ho := hs.owned ▸ ho
  ownedNew _ ho := .inl (hs.owned ▸ ho)
  large _ hg := hs.large ▸ hg
  largeNew _ hg := .inl (hs.large ▸ hg)
  held := hheld
  heldNew := hnew
  allocator := hs.allocator

/-- What is kept where, when neither the ranges nor their items change. -/
theorem SameSlabs.holds {u : Holder} (hs : SameSlabs h h') (hranges : h'.mem.ranges = h.mem.ranges)
    (hitems : h'.rangeItems = h.rangeItems) : h'.Holds u a ↔ h.Holds u a := by
  cases u with
  | node addr => rw [Heap.Holds, Heap.Holds, hs.large]
  | listItem start =>
      rw [Heap.Holds, Heap.Holds, Heap.HasRange, Heap.HasRange, hranges, hitems]
  | rangeItem start =>
      rw [Heap.Holds, Heap.Holds, Heap.HasRange, Heap.HasRange, hranges, hitems]

/-- Neither the ranges nor their items change. -/
theorem Heap.Inv.sameRanges (hi : h.Inv out) (hs : SameSlabs h h')
    (hranges : h'.mem.ranges = h.mem.ranges) (hitems : h'.rangeItems = h.rangeItems) :
    h'.Inv out ∧ Extends h h' := by
  have hholds : ∀ {u a}, h'.Holds u a ↔ h.Holds u a := hs.holds hranges hitems
  refine ⟨hi.rerange hs (hranges ▸ hi.ranges) (fun r hr _ => hranges ▸ hr) ?_ ?_, ?_⟩
  · exact fun u a hu => hi.held u a (hholds.mp hu)
  · exact fun u v a hu hv => hi.heldOnce u v a (hholds.mp hu) (hholds.mp hv)
  · exact hs.extends (fun r hr => .inl (hranges ▸ hr)) (fun u a hu => hholds.mpr hu)
      fun u a hu => .inl (hholds.mp hu)

theorem Heap.IsSpare.extends (hs : h.IsSpare a) (he : Extends h h') : h'.IsSpare a := by
  obtain ⟨⟨b, hb, haddr, hsize⟩, hnot⟩ := hs
  refine ⟨⟨b, he.live b hb, haddr, hsize⟩, fun u hu => ?_⟩
  rcases he.heldNew u a hu with hu | hnew
  · exact hnot u hu
  · exact hnew b hb haddr

theorem KmallocSpec.isSpare {size : UInt64} (hk : KmallocSpec size h a h')
    (hsize : slabIdx size ≠ none) : h'.IsSpare a :=
  ⟨⟨_, hk.block, rfl, hsize⟩, hk.unheld⟩

theorem SameSlabs.chunkTaken (hs : SameSlabs h h') (hranges : h'.mem.ranges = h.mem.ranges) :
    ChunkTaken h h' :=
  ⟨fun _ hr => .inl (hranges ▸ hr), .inl ⟨hranges, fun _ => by rw [hs.lists]⟩, hs.large⟩

theorem ChunkTaken.trans (hc : ChunkTaken h h') (hc' : ChunkTaken h' h'') (he : Extends h' h'') :
    ChunkTaken h h'' := by
  refine ⟨fun r hr => ?_, ?_, hc'.large.trans hc.large⟩
  · rcases hc.kept r hr with hr' | ⟨hfree, hr'⟩
    · exact hc'.kept r hr'
    · exact .inr ⟨hfree, he.kept hr' rfl⟩
  · rcases hc.how with ⟨hranges, hlen⟩ | ⟨it, hit, htaken⟩
    · rcases hc'.how with ⟨hranges', hlen'⟩ | ⟨it, hit, htaken⟩
      · exact .inl ⟨hranges'.trans hranges, fun i => (hlen' i).trans (hlen i)⟩
      · exact .inr ⟨it, hranges ▸ hit, htaken⟩
    · exact .inr ⟨it, hit, he.kept htaken rfl⟩

/-! ### Items -/

/-- What allocating an item does. -/
structure ItemTaken (h : Heap) (item : Option Nat) (h' : Heap) : Prop where
  inv : h'.Inv none
  ext : Extends h h'
  spare : ∀ a, item = some a → h'.IsSpare a ∧ ∀ b ∈ h.live, b.addr ≠ a
  chunk : ChunkTaken h h'
  quiet : h.allocator = .initializing → SameSlabs h h'

/-- An item from `kmalloc`. -/
theorem KmallocSpec.itemTaken {size : UInt64} (hk : KmallocSpec size h a h') (hsize : slabIdx size ≠ none) :
    ItemTaken h (some a) h' := by
  refine ⟨hk.inv, hk.ext, fun a' ha => ?_, hk.chunk hsize, fun hq => ?_⟩
  · obtain rfl := Option.some.inj ha
    exact ⟨hk.isSpare hsize, hk.new⟩
  · rw [hk.ready] at hq
    cases hq

/-- One of the initial items. -/
theorem Heap.Inv.itemTaken (hi : h.Inv none) (hs : SameSlabs h h') (hranges : h'.mem.ranges = h.mem.ranges)
    (hitems : h'.rangeItems = h.rangeItems) : ItemTaken h none h' := by
  obtain ⟨hi', he⟩ := hi.sameRanges hs hranges hitems
  exact ⟨hi', he, fun a ha => (by cases ha), hs.chunkTaken hranges, fun _ => hs⟩

theorem memVmmAllocateListItem_spec (hk : KmallocOk kmalloc) (hi : h.Inv none)
    (ha : h.allocator ≠ .uninitialized) (hok : memVmmAllocateListItem kmalloc h = .ok (item, h')) :
    ItemTaken h item h' := by
  rw [memVmmAllocateListItem] at hok
  split at hok
  next =>
    obtain ⟨⟨a, h₁⟩, hkm, heq⟩ := bind_ok.mp hok
    cases heq
    exact (hk 32 h a h' hi ha hkm).itemTaken (by decide)
  next =>
    cases hok
    exact hi.itemTaken ⟨rfl, rfl, rfl, rfl, rfl, rfl⟩ rfl rfl

theorem memVmmAllocateRangeItem_spec (hk : KmallocOk kmalloc) (hi : h.Inv none)
    (ha : h.allocator ≠ .uninitialized) (hok : memVmmAllocateRangeItem kmalloc h = .ok (item, h')) :
    ItemTaken h item h' := by
  rw [memVmmAllocateRangeItem] at hok
  split at hok
  next =>
    obtain ⟨⟨a, h₁⟩, hkm, heq⟩ := bind_ok.mp hok
    cases heq
    exact (hk 24 h a h' hi ha hkm).itemTaken (by decide)
  next =>
    cases hok
    exact hi.itemTaken ⟨rfl, rfl, rfl, rfl, rfl, rfl⟩ rfl rfl

/-- Both items of a range. -/
theorem ItemTaken.both {item₁ item₂ : Option Nat} (h₁ : ItemTaken h item₁ h')
    (h₂ : ItemTaken h' item₂ h'') :
    h''.Inv none ∧ Extends h h'' ∧ ChunkTaken h h'' ∧ h.AreSpare h'' (item₁, item₂) ∧
      (h.allocator = .initializing → SameSlabs h h'') := by
  refine ⟨h₂.inv, h₁.ext.trans h₂.ext, h₁.chunk.trans h₂.chunk h₂.ext, ⟨fun a ha => ?_,
    fun a ha => ?_, ?_⟩, fun hq => ?_⟩
  · exact ⟨(h₁.spare a ha).1.extends h₂.ext, (h₁.spare a ha).2⟩
  · exact ⟨(h₂.spare a ha).1, fun b hb => (h₂.spare a ha).2 b (h₁.ext.live b hb)⟩
  · intro a ha ha'
    obtain ⟨⟨⟨b, hb, haddr, -⟩, -⟩, -⟩ := h₁.spare a ha
    exact (h₂.spare a ha').2 b hb haddr
  · exact (h₁.quiet hq).trans (h₂.quiet (h₁.ext.allocator.trans hq))

/-! ### Halving a range -/

theorem halve_sameSlabs : SameSlabs h (h.halve it items) := ⟨rfl, rfl, rfl, rfl, rfl, rfl⟩

theorem mem_halve : r ∈ (h.halve it items).mem.ranges ↔
    r ∈ it.prev ∨ r = it.item.firstHalf ∨ r = it.item.secondHalf ∨ r ∈ it.next := by
  simp [Heap.halve, Heap.setRanges]

theorem mem_toList : r ∈ it.toList ↔ r ∈ it.prev ∨ r = it.item ∨ r ∈ it.next := by
  simp [ListItem.toList]

theorem hasRange_halve (hlist : it.toList = h.mem.ranges) : (h.halve it items).HasRange start ↔
    h.HasRange start ∨ start = it.item.secondHalf.start := by
  simp only [Heap.HasRange, ← hlist, mem_halve, mem_toList]
  constructor
  · rintro ⟨r, hr | rfl | rfl | hr, rfl⟩
    · exact .inl ⟨r, .inl hr, rfl⟩
    · exact .inl ⟨it.item, .inr (.inl rfl), rfl⟩
    · exact .inr rfl
    · exact .inl ⟨r, .inr (.inr hr), rfl⟩
  · rintro (⟨r, hr | rfl | hr, rfl⟩ | rfl)
    · exact ⟨r, .inl hr, rfl⟩
    · exact ⟨it.item.firstHalf, .inr (.inl rfl), rfl⟩
    · exact ⟨r, .inr (.inr (.inr hr)), rfl⟩
    · exact ⟨it.item.secondHalf, .inr (.inr (.inl rfl)), rfl⟩

/-- No range starts in the middle of another. -/
theorem RangesOk.secondHalf_new (hok : RangesOk h.mem.ranges) (hr : r ∈ h.mem.ranges)
    (hx : r.pages ≠ 1) : ¬ h.HasRange r.secondHalf.start := by
  rintro ⟨z, hz, hstart⟩
  have hw := hok.wf r hr
  obtain ⟨-, hpage, -⟩ := secondHalf_wellFormed hw hx
  have hhalf := (hw.dyadic.half hx).1
  have hpos := hw.dyadic.pos
  have hpage' : z.page = r.page + r.pages / 2 := by rw [← hpage, page, hstart, page]
  have hposz := (hok.wf z hz).dyadic.pos
  obtain rfl : z = r := hok.tiles.covers_unique (p := z.page) hz hr ⟨Nat.le_refl _, by omega⟩
    ⟨by omega, by omega⟩
  omega

theorem holds_halve {u : Holder} (hlist : it.toList = h.mem.ranges)
    (hnew : ¬ h.HasRange it.item.secondHalf.start) : (h.halve it items).Holds u a ↔ h.Holds u a ∨
      u = .listItem it.item.secondHalf.start ∧ items.1 = some a ∨
      u = .rangeItem it.item.secondHalf.start ∧ items.2 = some a := by
  have hitems : ∀ s, (h.halve it items).rangeItems s =
      if s = it.item.secondHalf.start then items else h.rangeItems s := fun s => update_apply ..
  cases u with
  | node addr => simp [Heap.Holds, Heap.halve, Heap.setRanges]
  | listItem s =>
      simp only [Heap.Holds, hasRange_halve hlist, hitems, Holder.listItem.injEq, reduceCtorEq,
        false_and, or_false]
      by_cases hs : s = it.item.secondHalf.start
      · subst hs
        simp [hnew]
      · simp [hs]
  | rangeItem s =>
      simp only [Heap.Holds, hasRange_halve hlist, hitems, Holder.rangeItem.injEq, reduceCtorEq,
        false_and, false_or]
      by_cases hs : s = it.item.secondHalf.start
      · subst hs
        simp [hnew]
      · simp [hs]

/-- **A free range is halved**, with items that were allocated from `h₀` on. -/
theorem Heap.Inv.halve {h₀ : Heap} (hi : h.Inv none) (he : Extends h₀ h)
    (hlist : it.toList = h.mem.ranges) (hfree : it.item.Free) (hx : it.item.pages ≠ 1)
    (hitems : h₀.AreSpare h items) :
    (h.halve it items).Inv none ∧ Extends h₀ (h.halve it items) := by
  have hmem : it.item ∈ h.mem.ranges := by
    rw [← hlist, mem_toList]
    exact .inr (.inl rfl)
  have hnew := hi.ranges.secondHalf_new hmem hx
  have hholds : ∀ {u a}, (h.halve it items).Holds u a ↔ _ := holds_halve hlist hnew
  have hranges : RangesOk (h.halve it items).mem.ranges := by
    refine RangesOk.halve ?_ hx
    rw [← ListItem.toList, hlist]
    exact hi.ranges
  have hkept : ∀ r ∈ h.mem.ranges, r ∈ (h.halve it items).mem.ranges ∨ r = it.item := by
    intro r hr
    rw [← hlist, mem_toList] at hr
    rw [mem_halve]
    tauto
  constructor
  · refine hi.rerange halve_sameSlabs hranges (fun r hr ha => ?_) (fun u a hu => ?_)
      fun u v a hu hv => ?_
    · rcases hkept r hr with hr | rfl
      · exact hr
      · rw [hfree] at ha
        cases ha
    · rcases hholds.mp hu with hu' | ⟨-, hu'⟩ | ⟨-, hu'⟩
      · exact hi.held u a hu'
      · exact (hitems.listItem a hu').1.1
      · exact (hitems.rangeItem a hu').1.1
    · rcases hholds.mp hu with hu' | ⟨rfl, hu'⟩ | ⟨rfl, hu'⟩ <;>
        rcases hholds.mp hv with hv' | ⟨rfl, hv'⟩ | ⟨rfl, hv'⟩
      · exact hi.heldOnce u v a hu' hv'
      · exact absurd hu' ((hitems.listItem a hv').1.2 u)
      · exact absurd hu' ((hitems.rangeItem a hv').1.2 u)
      · exact absurd hv' ((hitems.listItem a hu').1.2 v)
      · rfl
      · exact absurd hv' (hitems.apart a hu')
      · exact absurd hv' ((hitems.rangeItem a hu').1.2 v)
      · exact absurd hu' (hitems.apart a hv')
      · rfl
  · refine ⟨fun r hr => ?_, he.live, he.owned, he.ownedNew, he.large, he.largeNew,
      fun u a hu => hholds.mpr (.inl (he.held u a hu)), fun u a hu => ?_, he.allocator⟩
    · rcases he.ranges r hr with hr | ⟨hr, hstart⟩
      · refine (hkept r hr).imp_right ?_
        rintro rfl
        exact ⟨hfree, (hasRange_halve hlist).mpr (.inl ⟨it.item, hmem, rfl⟩)⟩
      · exact .inr ⟨hr, (hasRange_halve hlist).mpr (.inl hstart)⟩
    · rcases hholds.mp hu with hu' | ⟨-, hu'⟩ | ⟨-, hu'⟩
      · exact he.heldNew u a hu'
      · exact .inr (hitems.listItem a hu').2
      · exact .inr (hitems.rangeItem a hu').2

/-! ### Splitting a range -/

/-- What a split that can be used leaves.  Where the range is the one that is selected for one page,
nothing else was taken on the way. -/
structure SplitSpec (h : Heap) (start : UInt64) (n : UInt32) (h' : Heap) : Prop where
  inv : h'.Inv none
  ext : Extends h h'
  large : h'.largeAllocations = h.largeAllocations
  quiet : h.allocator = .initializing → SameSlabs h h'
  range : ⟨start, n.toUInt64, false⟩ ∈ h'.mem.ranges
  alone : ∀ it, memVmmGetSuitableRange 1 h.mem.ranges = some it → it.item.start = start →
    (∀ r ∈ h.mem.ranges, r.start ≠ start → r ∈ h'.mem.ranges) ∧
      ∀ i, (h'.lists (.free, i)).length ≤ (h.lists (.free, i)).length

/-- The range has no pages any more. -/
def Heap.IsSpoilt (h : Heap) (start : UInt64) : Prop :=
  ∃ it, h.findRange start = .ok it ∧ it.item.numberOfPages = 0

theorem Heap.findRange_mem (hi : h.Inv none) (hr : r ∈ h.mem.ranges) :
    ∃ it, h.findRange r.start = .ok it ∧ it.item = r ∧ it.toList = h.mem.ranges := by
  obtain ⟨it, hfind, hitem, hlist⟩ := hi.ranges.find_start hr
  exact ⟨it, by rw [Heap.findRange, hfind, orPanic_some], hitem, hlist⟩

/-- A range that was taken in the meantime is halved to nothing. -/
theorem Heap.Inv.halve_taken (hi : h.Inv none) (hlist : it.toList = h.mem.ranges)
    (hitem : it.item = ⟨start, 1, true⟩) : (h.halve it items).IsSpoilt start := by
  have hok : RangesOk (it.prev.reverse ++ it.item :: it.next) := by
    rw [← ListItem.toList, hlist]
    exact hi.ranges
  have hbefore := hok.before
  rw [hitem] at hbefore
  refine ⟨⟨it.prev, it.item.firstHalf, it.item.secondHalf :: it.next⟩, ?_, ?_⟩
  · rw [Heap.findRange, Heap.halve]
    dsimp only [Heap.setRanges]
    rw [ListItem.find_append (by rw [hitem]; exact beq_self_eq_true _) hbefore, List.reverse_reverse,
      List.append_nil]
    rfl
  · rw [hitem]
    change (1 : UInt64) / 2 = 0
    decide

/-- One halving, when the range is still there. -/
theorem Heap.Inv.halve_range {h₀ : Heap} (hi : h.Inv none) (he : Extends h₀ h) (hc : ChunkTaken h₀ h)
    (hitems : h₀.AreSpare h items) (hlist : it.toList = h.mem.ranges) (hfree : it.item.Free)
    (hx : it.item.pages ≠ 1) :
    (h.halve it items).Inv none ∧ Extends h₀ (h.halve it items) ∧
      ∀ it₀, memVmmGetSuitableRange 1 h₀.mem.ranges = some it₀ → it₀.item.start = it.item.start →
        memVmmGetSuitableRange 1 (h.halve it items).mem.ranges =
          some ⟨it.prev, it.item.firstHalf, it.item.secondHalf :: it.next⟩ ∧
        (∀ r ∈ h₀.mem.ranges, r.start ≠ it.item.start → r ∈ (h.halve it items).mem.ranges) ∧
        ∀ i, ((h.halve it items).lists (.free, i)).length ≤ (h₀.lists (.free, i)).length := by
  obtain ⟨hi', he'⟩ := hi.halve he hlist hfree hx hitems
  refine ⟨hi', he', fun it₀ hsuit hstart => ?_⟩
  have hmem : it.item ∈ h.mem.ranges := by
    rw [← hlist, mem_toList]
    exact .inr (.inl rfl)
  rcases hc.how with ⟨hsame, hlen⟩ | ⟨it₁, hit₁, htaken⟩
  · -- the range that was selected is this one
    rw [← hsame] at hsuit
    obtain ⟨-, hlist₀, hit₀⟩ := getSuitableRange_iff.mp hsuit
    have heq : it₀ = it := by
      have hfind := (hlist ▸ hi.ranges).find_item
      have hfind₀ := (hlist₀ ▸ hi.ranges).find_item
      rw [hlist₀, ← hlist, hstart, hfind] at hfind₀
      exact (Option.some.inj hfind₀).symm
    subst heq
    refine ⟨getSuitableRange_iff.mpr ⟨by decide, rfl, hit₀.halve (hi.ranges.wf _ hmem) hx⟩,
      fun r hr hne => ?_, hlen⟩
    rw [← hsame, ← hlist, mem_toList] at hr
    rw [mem_halve]
    rcases hr with hr | rfl | hr
    · exact .inl hr
    · exact absurd rfl hne
    · exact .inr (.inr (.inr hr))
  · -- the page that was taken is not free
    rw [hsuit, Option.some.injEq] at hit₁
    rw [← hit₁, hstart] at htaken
    have heq := hi.ranges.unique hmem htaken rfl
    rw [heq] at hfree
    cases hfree

/-- The last half is of the size that is asked for. -/
theorem half_eq (hw : r.WellFormed) (hpow : ∃ j, n.toNat = 2 ^ j) (hlt : n.toNat < r.pages)
    (hle : ¬ r.numberOfPages / 2 > n.toUInt64) : r.numberOfPages / 2 = n.toUInt64 := by
  obtain ⟨j, hj⟩ := hpow
  have hle' : r.pages / 2 ≤ n.toNat := by
    rw [← toNat_half]
    simpa [UInt64.lt_iff_toNat_lt] using hle
  have hdvd : 2 * n.toNat ∣ r.pages := Dyadic.double_le (s := 0) ⟨⟨j, hj⟩, dvd_zero _⟩ hw.dyadic hlt
  have hge := Nat.le_of_dvd hw.dyadic.pos hdvd
  rw [← UInt64.toNat_inj, toNat_half, UInt32.toNat_toUInt64]
  omega

/-- **`mem_vmm_split_range`**, with a `kmalloc` for its items: the split can be used, or it will be
noticed that it cannot. -/
theorem splitRange_ok (hk : KmallocOk kmalloc) (hpow : ∃ j, n.toNat = 2 ^ j) :
    ∀ {levels : Nat} {h h' : Heap} {r : VmmRangeData}, h.Inv none → h.allocator ≠ .uninitialized →
      r ∈ h.mem.ranges → r.Free → n.toNat < r.pages →
      splitRange kmalloc r.start n levels h = .ok h' →
      h'.IsSpoilt r.start ∨ SplitSpec h r.start n h' := by
  intro levels
  induction levels with
  | zero => intro h h' r _ _ _ _ _ hok; cases hok
  | succ levels ih =>
      intro h h' r hi ha hr hfree hlt hok
      obtain ⟨⟨item₁, h₁⟩, hitem₁, hok⟩ := bind_ok.mp hok
      obtain ⟨⟨item₂, h₂⟩, hitem₂, hok⟩ := bind_ok.mp hok
      obtain ⟨it, hfind, hok⟩ := bind_ok.mp hok
      have ht₁ := memVmmAllocateListItem_spec hk hi ha hitem₁
      have ht₂ := memVmmAllocateRangeItem_spec hk ht₁.inv (ht₁.ext.allocator ▸ ha) hitem₂
      obtain ⟨hi₂, he₂, hc₂, hitems, hq₂⟩ := ht₁.both ht₂
      rcases hc₂.kept r hr with hr₂ | ⟨-, hr₂⟩
      · have hw := hi₂.ranges.wf r hr₂
        have hx : r.pages ≠ 1 := by
          obtain ⟨j, hj⟩ := hpow
          have hpos := Nat.two_pow_pos j
          omega
        obtain ⟨it', hfind', rfl, hlist⟩ := Heap.findRange_mem hi₂ hr₂
        rw [hfind', Except.ok.injEq] at hfind
        subst hfind
        obtain ⟨hi₃, he₃, hsuit⟩ := hi₂.halve_range he₂ hc₂ hitems hlist hfree hx
        have hmem₃ : it'.item.firstHalf ∈ (h₂.halve it' (item₁, item₂)).mem.ranges :=
          mem_halve.mpr (.inr (.inl rfl))
        split at hok
        next hgt =>
          have hgt' : n.toNat < it'.item.firstHalf.pages := by
            rw [(firstHalf_wellFormed hw hx).2.2, ← toNat_half]
            simpa [UInt64.lt_iff_toNat_lt] using hgt
          rcases ih hi₃ (he₃.allocator ▸ ha) hmem₃ hfree hgt' hok with hbad | hgood
          · exact .inl hbad
          · refine .inr ⟨hgood.inv, he₃.trans hgood.ext, hgood.large.trans hc₂.large, fun hq => ?_,
              hgood.range, fun it₀ hit₀ hstart => ?_⟩
            · exact ((hq₂ hq).trans halve_sameSlabs).trans (hgood.quiet (he₃.allocator.trans hq))
            obtain ⟨hsuit₃, hkept, hlen⟩ := hsuit it₀ hit₀ hstart
            obtain ⟨hkept', hlen'⟩ := hgood.alone _ hsuit₃ rfl
            exact ⟨fun r hr hne => hkept' r (hkept r hr hne) hne, fun i => (hlen' i).trans (hlen i)⟩
        next hle =>
          cases hok
          refine .inr ⟨hi₃, he₃, hc₂.large, fun hq => (hq₂ hq).trans halve_sameSlabs, ?_,
            fun it₀ hit₀ hstart => (hsuit it₀ hit₀ hstart).2⟩
          have heq : it'.item.firstHalf = ⟨it'.item.start, n.toUInt64, false⟩ := by
            rw [firstHalf, half_eq hw hpow hlt hle]
            exact congrArg _ hfree
          exact heq ▸ hmem₃
      · obtain ⟨it', hfind', hitem, hlist⟩ := Heap.findRange_mem hi₂ hr₂
        rw [hfind', Except.ok.injEq] at hfind
        subst hfind
        have hle : ¬ it'.item.numberOfPages / 2 > n.toUInt64 := by
          rw [hitem]
          simp [UInt64.lt_iff_toNat_lt]
        rw [if_neg hle] at hok
        cases hok
        exact .inl (hi₂.halve_taken hlist hitem)

/-! ### Taking a range -/

/-- What taking a range does. -/
structure RangeTaken (h : Heap) (start : UInt64) (n : UInt32) (h' : Heap) : Prop where
  inv : h'.Inv none
  ext : Extends h h'
  large : h'.largeAllocations = h.largeAllocations
  quiet : h.allocator = .initializing → SameSlabs h h'
  range : ⟨start, n.toUInt64, true⟩ ∈ h'.mem.ranges
  notSlab : ∀ s ∈ h'.owned, s.1 ≠ start.toNat
  notLarge : ∀ g ∈ h'.largeAllocations, g.addr ≠ start.toNat
  fresh : ∀ r ∈ h.mem.ranges, r.allocated = true → r.start ≠ start
  one : n = 1 → (∀ r ∈ h.mem.ranges, r ∈ h'.mem.ranges ∨ r.Free ∧ ⟨r.start, 1, true⟩ ∈ h'.mem.ranges) ∧
    (∃ it, memVmmGetSuitableRange 1 h.mem.ranges = some it ∧ it.item.start = start) ∧
    ∀ i, (h'.lists (.free, i)).length ≤ (h.lists (.free, i)).length

/-- A free range is marked. -/
theorem Heap.Inv.mark (hi : h.Inv none) (hr : ⟨start, n.toUInt64, false⟩ ∈ h.mem.ranges)
    (hok : h.markRange start n = .ok h') :
    h'.Inv none ∧ Extends h h' ∧ SameSlabs h h' ∧ ⟨start, n.toUInt64, true⟩ ∈ h'.mem.ranges ∧
      ∀ r ∈ h.mem.ranges, r.start ≠ start → r ∈ h'.mem.ranges := by
  obtain ⟨it, hfind, hitem, hlist⟩ := Heap.findRange_mem hi hr
  obtain ⟨it', hfind', hok⟩ := bind_ok.mp hok
  rw [hfind, Except.ok.injEq] at hfind'
  subst hfind'
  rw [hitem, if_neg (by simp), Except.ok.injEq] at hok
  have hs : SameSlabs h h' := by
    rw [← hok]
    exact ⟨rfl, rfl, rfl, rfl, rfl, rfl⟩
  have hitems : h'.rangeItems = h.rangeItems := by rw [← hok]; rfl
  have hranges : h'.mem.ranges = it.prev.reverse ++ ⟨start, n.toUInt64, true⟩ :: it.next := by
    rw [← hok]; rfl
  have hmem : ∀ {z}, z ∈ h.mem.ranges ↔ z ∈ it.prev ∨ z = ⟨start, n.toUInt64, false⟩ ∨ z ∈ it.next := by
    intro z
    rw [← hlist, mem_toList, hitem]
  have hmem' : ∀ {z}, z ∈ h'.mem.ranges ↔ z ∈ it.prev ∨ z = ⟨start, n.toUInt64, true⟩ ∨ z ∈ it.next := by
    intro z
    simp [hranges]
  have hkept : ∀ z ∈ h.mem.ranges, z ∈ h'.mem.ranges ∨ z = ⟨start, n.toUInt64, false⟩ := by
    intro z hz
    rw [hmem] at hz
    rw [hmem']
    tauto
  have htaken : ⟨start, n.toUInt64, true⟩ ∈ h'.mem.ranges := hmem'.mpr (.inr (.inl rfl))
  -- the ranges start where they did
  have hstarts : ∀ s, h'.HasRange s ↔ h.HasRange s := by
    intro s
    constructor
    · rintro ⟨z, hz, rfl⟩
      rcases hmem'.mp hz with hz | rfl | hz
      · exact ⟨z, hmem.mpr (.inl hz), rfl⟩
      · exact ⟨_, hr, rfl⟩
      · exact ⟨z, hmem.mpr (.inr (.inr hz)), rfl⟩
    · rintro ⟨z, hz, rfl⟩
      rcases hkept z hz with hz | rfl
      · exact ⟨z, hz, rfl⟩
      · exact ⟨_, htaken, rfl⟩
  have hholds : ∀ {u a}, h'.Holds u a ↔ h.Holds u a := by
    intro u a
    cases u with
    | node addr => rw [Heap.Holds, Heap.Holds, hs.large]
    | listItem s => rw [Heap.Holds, Heap.Holds, hstarts, hitems]
    | rangeItem s => rw [Heap.Holds, Heap.Holds, hstarts, hitems]
  have hok' : RangesOk h'.mem.ranges := by
    rw [hranges]
    have hold : RangesOk (it.prev.reverse ++ ⟨start, n.toUInt64, false⟩ :: it.next) := by
      rw [← hitem, ← ListItem.toList, hlist]
      exact hi.ranges
    exact hold.mark
  refine ⟨hi.rerange hs hok' (fun z hz ha => ?_) (fun u a hu => hi.held u a (hholds.mp hu))
    (fun u v a hu hv => hi.heldOnce u v a (hholds.mp hu) (hholds.mp hv)),
    hs.extends (fun z hz => ?_) (fun u a hu => hholds.mpr hu) fun u a hu => .inl (hholds.mp hu),
    hs, htaken, fun z hz hne => ?_⟩
  · rcases hkept z hz with hz | rfl
    · exact hz
    · cases ha
  · refine (hkept z hz).imp_right ?_
    rintro rfl
    exact ⟨rfl, _, htaken, rfl⟩
  · rcases hkept z hz with hz | rfl
    · exact hz
    · exact absurd rfl hne

/-- A range that has no pages is not marked. -/
theorem Heap.IsSpoilt.markRange (hs : h.IsSpoilt start) (hn : n ≠ 0) :
    h.markRange start n ≠ .ok h' := by
  obtain ⟨it, hfind, hzero⟩ := hs
  have hne : (0 : UInt64) ≠ n.toUInt64 := by
    intro heq
    refine hn (UInt32.toNat_inj.mp ?_)
    rw [← UInt32.toNat_toUInt64, ← heq]
    rfl
  rw [Heap.markRange, hfind, ok_bind, hzero, if_pos hne]
  exact fun hok => (by cases hok)

/-- **`mem_allocate_virtual_range`**, with a `kmalloc` for the items. -/
theorem allocateVirtualRange_ok (hk : KmallocOk kmalloc) (hi : h.Inv none)
    (ha : h.allocator ≠ .uninitialized)
    (hok : allocateVirtualRange kmalloc n h = .ok (start, h')) :
    RangeTaken h start (actualNumPages n) h' := by
  obtain ⟨it, hsuit, hok⟩ := bind_ok.mp hok
  obtain ⟨h₁, hsplit, hok⟩ := bind_ok.mp hok
  obtain ⟨h₂, hmark, hok⟩ := bind_ok.mp hok
  cases hok
  rw [orPanic_ok] at hsuit
  obtain ⟨hne, hlist, hit⟩ := getSuitableRange_iff.mp hsuit
  have hr : it.item ∈ h.mem.ranges := by
    rw [← hlist, mem_toList]
    exact .inr (.inl rfl)
  -- the range, split if it has to be
  have hgood : SplitSpec h it.item.start (actualNumPages n) h₁ := by
    split at hsplit
    next hsize =>
      have hlt : (actualNumPages n).toNat < it.item.pages := by
        refine lt_of_le_of_ne hit.enough fun heq => hsize (UInt64.toNat_inj.mp ?_)
        rw [UInt32.toNat_toUInt64, heq]
        rfl
      rcases splitRange_ok hk (actualNumPages_pow hne) hi ha hr hit.free hlt hsplit with hbad | hgood
      · exact absurd hmark (hbad.markRange hne)
      · exact hgood
    next hsize =>
      cases hsplit
      refine ⟨hi, .refl h, rfl, fun _ => .refl h, ?_,
        fun _ _ _ => ⟨fun r hr _ => hr, fun _ => Nat.le_refl _⟩⟩
      have heq : it.item = ⟨it.item.start, (actualNumPages n).toUInt64, false⟩ := by
        rw [← not_not.mp hsize]
        exact free_eq hit.free
      exact heq ▸ hr
  obtain ⟨hi₂, he₂, hs₂, htaken, hkept₂⟩ := hgood.inv.mark hgood.range hmark
  refine ⟨hi₂, hgood.ext.trans he₂, hs₂.large.trans hgood.large, fun hq => (hgood.quiet hq).trans hs₂,
    htaken, fun s hs hstart => ?_, fun g hg hstart => ?_, fun r hr' halloc hstart => ?_, fun hone => ?_⟩
  · obtain ⟨r, hr', halloc, hstart'⟩ := hgood.inv.slabRange s (hs₂.owned ▸ hs)
    have heq := hgood.inv.ranges.unique hr' hgood.range
      (UInt64.toNat_inj.mp (hstart'.trans hstart))
    rw [heq] at halloc
    cases halloc
  · obtain ⟨r, hr', halloc, hstart', -⟩ := hgood.inv.largeRange g (hs₂.large ▸ hg)
    have heq := hgood.inv.ranges.unique hr' hgood.range
      (UInt64.toNat_inj.mp (hstart'.trans hstart))
    rw [heq] at halloc
    cases halloc
  · have heq := hi.ranges.unique hr' hr hstart
    rw [heq, hit.free] at halloc
    cases halloc
  · rw [hone] at hsuit hgood htaken
    obtain ⟨hkept, hlen⟩ := hgood.alone it hsuit rfl
    refine ⟨fun r hr' => ?_, ⟨it, hsuit, rfl⟩, fun i => hs₂.lists ▸ hlen i⟩
    by_cases hstart : r.start = it.item.start
    · have heq := hi.ranges.unique hr' hr hstart
      exact .inr ⟨heq ▸ hit.free, hstart ▸ htaken⟩
    · exact .inl (hkept₂ r (hkept r hr' hstart) hstart)

end

end Azalea.Klib
