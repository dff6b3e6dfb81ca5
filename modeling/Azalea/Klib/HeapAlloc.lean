import Azalea.Klib.HeapSplit

/-!
# Klib — kmalloc keeps the allocator in order

A slab is taken from a list or from new pages, a chunk from the slab, and where the slab is nearly
full another slab is put by.  Each of these may call `kmalloc` again, by way of the address space;
`KmallocOk` is proved for `kmalloc` with each amount of fuel from `kmalloc` with one unit less.

- `kmalloc_ok`: a `kmalloc` that gives a block keeps the invariant, whatever happens inside of it.
- `kmalloc_boot`: so does the first one, which sets the allocator up.
-/

namespace Azalea.Klib
open Azalea.Bitmaps Azalea.Halts Azalea.Mem Azalea.Tiling Function VmmRangeData

section
variable {kmalloc : UInt64 → Heap → Res (Nat × Heap)} {h h' h'' : Heap}
  {a slab : Nat} {start : UInt64} {n : UInt32} {i : SlabIdx} {size : UInt64}

/-! ### Pages -/

/-- What is mapped is not what is allocated. -/
theorem RangeTaken.map (ht : RangeTaken h start n h') (hs : SameSlabs h' h'')
    (hranges : h''.mem.ranges = h'.mem.ranges) (hitems : h''.rangeItems = h'.rangeItems) :
    RangeTaken h start n h'' := by
  obtain ⟨hi, he⟩ := ht.inv.sameRanges hs hranges hitems
  refine ⟨hi, ht.ext.trans he, hs.large.trans ht.large, fun hq => (ht.quiet hq).trans hs,
    hranges ▸ ht.range, ?_, ?_, ht.fresh, ?_⟩
  · rw [hs.owned]
    exact ht.notSlab
  · rw [hs.large]
    exact ht.notLarge
  · rw [hranges, hs.lists]
    exact ht.one

/-- **`mem_allocate_pages`**, with a `kmalloc` for the items of the ranges. -/
theorem allocatePages_ok (hk : KmallocOk kmalloc) (hi : h.Inv none) (ha : h.allocator ≠ .uninitialized)
    (hok : allocatePages kmalloc n h = .ok (start, h')) :
    RangeTaken h start (actualNumPages n) h' := by
  rw [allocatePages] at hok
  split at hok
  next => cases hok
  next =>
    obtain ⟨⟨start', h₁⟩, hrange, hok⟩ := bind_ok.mp hok
    obtain ⟨h₂, hback, hok⟩ := bind_ok.mp hok
    cases hok
    obtain ⟨mapping, -, hback⟩ := bind_ok.mp hback
    cases hback
    exact (allocateVirtualRange_ok hk hi ha hrange).map ⟨rfl, rfl, rfl, rfl, rfl, rfl⟩ rfl rfl

/-! ### Slabs -/

/-- What taking a new slab does. -/
structure NewSlab (h : Heap) (slab : Nat) (i : SlabIdx) (h' : Heap) : Prop where
  inv : h'.Inv (some (slab, i))
  ext : Extends h h'
  empty : (h'.slabs slab).allocationCount = 0
  large : h'.largeAllocations = h.largeAllocations
  kept : ∀ r ∈ h.mem.ranges, r ∈ h'.mem.ranges ∨ r.Free ∧ ⟨r.start, 1, true⟩ ∈ h'.mem.ranges
  page : ∃ it, memVmmGetSuitableRange 1 h.mem.ranges = some it ∧
    ⟨it.item.start, 1, true⟩ ∈ h'.mem.ranges
  spare : ∀ j, (h'.lists (.free, j)).length ≤ (h.lists (.free, j)).length
  quiet : h.allocator = .initializing → h'.owned = (slab, i) :: h.owned

/-- A page that was taken is a slab. -/
theorem RangeTaken.newSlab (ht : RangeTaken h start 1 h') :
    NewSlab h start.toNat i (h'.newSlab start.toNat i) := by
  obtain ⟨hkept, ⟨it, hit, hstart⟩, hlen⟩ := ht.one rfl
  have hslabs : ∀ s ∈ h'.owned, (h'.newSlab start.toNat i).slabs s.1 = h'.slabs s.1 :=
    fun s hs => update_of_ne (ht.notSlab s hs) ..
  have hholds : ∀ {u a}, (h'.newSlab start.toNat i).Holds u a ↔ h'.Holds u a := by
    intro u a
    cases u <;> exact Iff.rfl
  constructor
  case inv =>
    refine ⟨ht.inv.ranges, ht.inv.filed.newSlab ht.notSlab, fun s hs => ?_, ht.inv.largeRange,
      fun g hg s hs => ?_, ht.inv.largeOnce, ht.inv.liveOnce, fun b hb => ?_,
      fun u a hu => ht.inv.held u a (hholds.mp hu),
      fun u v a hu hv => ht.inv.heldOnce u v a (hholds.mp hu) (hholds.mp hv)⟩
    · rcases List.mem_cons.mp hs with rfl | hs
      · exact ⟨_, ht.range, rfl, rfl⟩
      · exact ht.inv.slabRange s hs
    · rcases List.mem_cons.mp hs with rfl | hs
      · exact (ht.notLarge g hg).symm
      · exact ht.inv.largeApart g hg s hs
    · refine (ht.inv.live b hb).imp (fun hc => hc.mono (fun s hs => List.mem_cons_of_mem _ hs) ?_) id
      intro s hs k hk
      rwa [hslabs s hs]
  case ext =>
    refine ⟨ht.ext.ranges, ht.ext.live, fun s hs => List.mem_cons_of_mem _ (ht.ext.owned s hs),
      fun s hs => ?_, ht.ext.large, ht.ext.largeNew, fun u a hu => hholds.mpr (ht.ext.held u a hu),
      fun u a hu => ht.ext.heldNew u a (hholds.mp hu), ht.ext.allocator⟩
    rcases List.mem_cons.mp hs with rfl | hs
    · exact .inr fun r hr halloc heq => ht.fresh r hr halloc (UInt64.toNat_inj.mp heq)
    · exact ht.ext.ownedNew s hs
  case empty =>
    rw [Heap.newSlab]
    simp only [update_self]
    rfl
  case large => exact ht.large
  case kept => exact hkept
  case page => exact ⟨it, hit, hstart ▸ ht.range⟩
  case spare => exact hlen
  case quiet => exact fun hq => congrArg _ (ht.quiet hq).owned

/-- **`allocate_new_slab`.** -/
theorem allocateNewSlab_ok (hk : KmallocOk kmalloc) (hi : h.Inv none)
    (ha : h.allocator ≠ .uninitialized) (hok : allocateNewSlab kmalloc i h = .ok (slab, h')) :
    NewSlab h slab i h' := by
  obtain ⟨⟨page, h₁⟩, hpages, hok⟩ := bind_ok.mp hok
  cases hok
  have hone : actualNumPages 1 = 1 := by decide
  exact (hone ▸ allocatePages_ok hk hi ha hpages).newSlab

/-- What choosing a slab does. -/
structure SlabChosen (h : Heap) (slab : Nat) (i : SlabIdx) (h' : Heap) : Prop where
  inv : h'.Inv (some (slab, i))
  ext : Extends h h'
  room : (h'.slabs slab).allocationCount < numChunksPerSlab i
  chunk : ChunkTaken h h'

theorem NewSlab.chunkTaken (hn : NewSlab h slab i h') : ChunkTaken h h' :=
  ⟨hn.kept, .inr hn.page, hn.large⟩

theorem NewSlab.chosen (hn : NewSlab h slab i h') : SlabChosen h slab i h' := by
  have hpos := numChunksPerSlab_pos i
  have hempty := hn.empty
  exact ⟨hn.inv, hn.ext, by omega, hn.chunkTaken⟩

/-- A slab from a list. -/
theorem Heap.Inv.choose {w : SlabList} (hi : h.Inv none) (hmem : slab ∈ h.lists (w, i))
    (hw : w ≠ .full) (hok : h.removeSlab slab = some h') : SlabChosen h slab i h' := by
  obtain ⟨hremove, hfiled⟩ := hi.filed.removeSlab hmem
  rw [hremove, Option.some.injEq] at hok
  subst hok
  obtain ⟨-, -, hmatches⟩ := hi.filed.header (w, i) slab hmem
  have hrest : SameRest h (h.unfile (w, i) slab) := ⟨rfl, rfl, rfl, rfl, rfl⟩
  refine ⟨hi.refile hfiled hrest rfl fun s _ k hk => ?_, hrest.extends fun b hb => hb, ?_,
    fun r hr => .inl hr, .inl ⟨rfl, fun j => ?_⟩, rfl⟩
  · rwa [(unfile_bits s.1).2]
  · rw [(unfile_bits slab).1]
    have hpos := numChunksPerSlab_pos i
    cases w with
    | free =>
        have hzero : (h.slabs slab).allocationCount = 0 := hmatches
        omega
    | partly => exact hmatches.2
    | full => exact absurd rfl hw
  · rw [Heap.unfile]
    dsimp only
    by_cases hl : (SlabList.free, j) = (w, i)
    · rw [hl, update_self]
      exact List.length_erase_le
    · rw [update_of_ne hl]

theorem chooseSlab_ok (hk : KmallocOk kmalloc) (hi : h.Inv none) (ha : h.allocator ≠ .uninitialized)
    (hok : chooseSlab kmalloc i h = .ok (slab, h')) : SlabChosen h slab i h' := by
  rw [chooseSlab] at hok
  split at hok
  next slab' rest hlist =>
    obtain ⟨h₁, hremove, hok⟩ := bind_ok.mp hok
    cases hok
    exact hi.choose (w := .partly) (hlist ▸ List.mem_cons_self ..) (by decide) (orPanic_ok.mp hremove)
  next =>
    split at hok
    next slab' rest hlist =>
      obtain ⟨h₁, hremove, hok⟩ := bind_ok.mp hok
      cases hok
      exact hi.choose (w := .free) (hlist ▸ List.mem_cons_self ..) (by decide) (orPanic_ok.mp hremove)
    next => exact (allocateNewSlab_ok hk hi ha hok).chosen

/-- A new slab is put with the free ones. -/
theorem NewSlab.file {entries : List Nat} (hn : NewSlab h slab i h')
    (hentries : entries.Perm (slab :: h'.lists (.free, i)))
    (hlen : (h'.lists (.free, i)).length < maxFreeSlabs) :
    (h'.fileSlab (.free, i) slab entries).Inv none ∧
      Extends h (h'.fileSlab (.free, i) slab entries) := by
  have hrest : SameRest h' (h'.fileSlab (.free, i) slab entries) := ⟨rfl, rfl, rfl, rfl, rfl⟩
  refine ⟨hn.inv.refile (hn.inv.filed.fileSlab rfl hentries hn.empty fun _ => hlen) hrest rfl ?_,
    hn.ext.trans (hrest.extends fun b hb => hb)⟩
  intro s _ k hk
  rwa [(fileSlab_bits s.1).2]

/-- The slab that is allocated in advance is the only free one. -/
theorem preallocate_ok (hk : KmallocOk kmalloc) (hi : h.Inv none) (ha : h.allocator ≠ .uninitialized)
    (hok : preallocate kmalloc slab i h = .ok h') : h'.Inv none ∧ Extends h h' ∧ ChunkTaken h h' := by
  rw [preallocate] at hok
  split at hok
  next hneeds =>
    obtain ⟨⟨new, h₁⟩, hnew, hok⟩ := bind_ok.mp hok
    cases hok
    have hn := allocateNewSlab_ok hk hi ha hnew
    have hlen : (h₁.lists (.free, i)).length ≤ 0 := (hn.spare i).trans (hneeds.2 ▸ Nat.le_refl _)
    obtain ⟨hi', he⟩ := hn.file (.refl _) (hlen.trans_lt (by decide))
    exact ⟨hi', he, hn.kept, .inr hn.page, hn.large⟩
  next =>
    cases hok
    exact ⟨hi, .refl h, (SameSlabs.refl h).chunkTaken rfl⟩

/-- **`kmalloc`, for a chunk.** -/
theorem kmallocChunk_ok (hk : KmallocOk kmalloc) (hi : h.Inv none) (ha : h.allocator = .initialized)
    (hsize : slabIdx size = some i) (hok : kmallocChunk kmalloc i size h = .ok (a, h')) :
    KmallocSpec size h a h' := by
  have ha' : h.allocator ≠ .uninitialized := fun hcase => (by rw [ha] at hcase; cases hcase)
  obtain ⟨⟨slab, h₁⟩, hchoose, hok⟩ := bind_ok.mp hok
  obtain ⟨⟨addr, h₂⟩, htake, hok⟩ := bind_ok.mp hok
  obtain ⟨h₃, hspare, hok⟩ := bind_ok.mp hok
  cases hok
  have hc₁ := chooseSlab_ok hk hi ha' hchoose
  obtain ⟨a', h', htake', hi₂, hrest, hmem, hlive, hfree, -, hnew⟩ := hc₁.inv.takeChunk hc₁.room hsize
  rw [htake', Except.ok.injEq] at htake
  cases htake
  have hblock : ⟨a, size⟩ ∈ h₂.live := hlive ▸ List.mem_cons_self ..
  have he₂ : Extends h₁ h₂ := hrest.extends fun b hb => hlive ▸ List.mem_cons_of_mem _ hb
  have hc₂ : ChunkTaken h₁ h₂ := by
    refine ⟨fun r hr => .inl (hrest.ranges ▸ hr), .inl ⟨hrest.ranges, fun j => ?_⟩, hrest.large⟩
    rw [hfree j]
  have he₁₂ := hc₁.ext.trans he₂
  obtain ⟨hi₃, he₃, hc₃⟩ := preallocate_ok hk hi₂ (he₁₂.allocator ▸ ha') hspare
  have hc := (hc₁.chunk.trans hc₂ he₂).trans hc₃ he₃
  refine ⟨ha, hi₃, he₁₂.trans he₃, he₃.live _ hblock, fun b hb => hnew b (hc₁.ext.live b hb),
    fun u hu => ?_, fun _ => hc, fun g hg => .inl (hc.large ▸ hg)⟩
  -- what is kept in a block was there before the block
  rcases he₃.heldNew u a hu with hu | hnot
  · obtain ⟨b, hb, haddr, -⟩ := hc₁.inv.held u a (hrest.holds.mp hu)
    exact hnew b hb haddr
  · exact hnot _ hblock rfl

/-! ### Large allocations -/

/-- A range has at least as many pages as were asked for. -/
theorem le_actualNumPages (hn : actualNumPages n ≠ 0) : n.toNat ≤ (actualNumPages n).toNat := by
  have hval := actualNumPages_toNat n
  split at hval
  next => exact absurd (UInt32.toNat_inj.mp hval) hn
  next =>
    rw [hval]
    exact Nat.le_pow_clog (by decide) _

/-- No block in use starts on a page that is not a large allocation. -/
theorem Heap.Inv.not_live (hi : h.Inv none) (hmod : a % 2097152 = 0)
    (hnot : ∀ g ∈ h.largeAllocations, g.addr ≠ a) : ∀ b ∈ h.live, b.addr ≠ a := by
  intro b hb haddr
  rcases hi.live b hb with ⟨s, hs, k, hk, haddr', -⟩ | ⟨-, g, hg, haddr', -⟩
  · obtain ⟨hmod', hpos⟩ := chunk_mod (hi.slab_aligned hs) hk
    rw [← haddr', haddr, hmod] at hmod'
    omega
  · exact hnot g hg (haddr'.trans haddr)

/-- An entry in `large_allocations`, for a range, with a node in a block that nothing is kept in. -/
theorem Heap.Inv.insert {g : LargeAllocation} (hi : h.Inv none)
    (hrange : ∃ r ∈ h.mem.ranges, r.allocated = true ∧ r.start.toNat = g.addr ∧
      g.pages.toNat ≤ r.pages ∧ 0 < g.pages.toNat)
    (hapart : ∀ s ∈ h.owned, s.1 ≠ g.addr) (honce : ∀ g' ∈ h.largeAllocations, g'.addr ≠ g.addr)
    (hspare : h.IsSpare g.node) :
    Heap.Inv { h with largeAllocations := g :: h.largeAllocations } none ∧
      ∀ {u a}, Heap.Holds { h with largeAllocations := g :: h.largeAllocations } u a ↔
        h.Holds u a ∨ u = .node g.addr ∧ a = g.node := by
  have hholds : ∀ {u a}, Heap.Holds { h with largeAllocations := g :: h.largeAllocations } u a ↔
      h.Holds u a ∨ u = .node g.addr ∧ a = g.node := by
    intro u a
    cases u with
    | node addr =>
        simp only [Heap.Holds, List.mem_cons, exists_eq_or_imp, Holder.node.injEq]
        constructor
        · rintro (⟨rfl, rfl⟩ | hg)
          · exact .inr ⟨rfl, rfl⟩
          · exact .inl hg
        · rintro (hg | ⟨rfl, rfl⟩)
          · exact .inr hg
          · exact .inl ⟨rfl, rfl⟩
    | listItem s => simp [Heap.Holds, Heap.HasRange]
    | rangeItem s => simp [Heap.Holds, Heap.HasRange]
  refine ⟨⟨hi.ranges, hi.filed.congr rfl rfl rfl, hi.slabRange, fun g' hg => ?_, fun g' hg => ?_, ?_,
    hi.liveOnce, fun b hb => ?_, fun u a hu => ?_, fun u v a hu hv => ?_⟩, hholds⟩
  · rcases List.mem_cons.mp hg with rfl | hg
    · exact hrange
    · exact hi.largeRange g' hg
  · rcases List.mem_cons.mp hg with rfl | hg
    · exact hapart
    · exact hi.largeApart g' hg
  · refine List.nodup_cons.mpr ⟨fun hmem => ?_, hi.largeOnce⟩
    obtain ⟨g', hg, haddr⟩ := List.mem_map.mp hmem
    exact honce g' hg haddr
  · exact (hi.live b hb).imp id fun hl => hl.mono fun g' hg => List.mem_cons_of_mem _ hg
  · rcases hholds.mp hu with hu | ⟨-, rfl⟩
    · exact hi.held u a hu
    · exact hspare.1
  · rcases hholds.mp hu with hu' | ⟨rfl, hu'⟩ <;> rcases hholds.mp hv with hv' | ⟨rfl, hv'⟩
    · exact hi.heldOnce u v a hu' hv'
    · exact absurd hu' (hv' ▸ hspare.2 u)
    · exact absurd hv' (hu' ▸ hspare.2 v)
    · rfl

/-- **`kmalloc`, for pages.** -/
theorem kmallocLarge_ok {h₁ h₂ : Heap} (hk : KmallocOk kmalloc) (hi : h.Inv none)
    (ha : h.allocator = .initialized) (hsize : slabIdx size = none)
    (hpages : allocatePages kmalloc (requiredPages size) h = .ok (start, h₁))
    (hinsert : insertLarge kmalloc start.toNat (requiredPages size) h₁ = .ok h₂) :
    KmallocSpec size h start.toNat (h₂.give start.toNat size) := by
  have ha' : h.allocator ≠ .uninitialized := fun hcase => (by rw [ha] at hcase; cases hcase)
  have ht := allocatePages_ok hk hi ha' hpages
  rw [insertLarge] at hinsert
  split at hinsert
  next hany =>
    obtain ⟨g, hg, haddr⟩ := List.any_eq_true.mp hany
    exact absurd (beq_iff_eq.mp haddr) (ht.notLarge g hg)
  next =>
    obtain ⟨⟨node, h₃⟩, hnode, hinsert⟩ := bind_ok.mp hinsert
    cases hinsert
    have hks := hk 48 h₁ node h₃ ht.inv (ht.ext.allocator ▸ ha') hnode
    have hrange := hks.ext.kept ht.range rfl
    have hspare := hks.isSpare (by decide)
    have hlarge := (hks.chunk (by decide)).large
    have hal : start.toNat % 2097152 = 0 :=
      Nat.mod_eq_zero_of_dvd (hks.inv.ranges.wf _ hrange).aligned
    have hnz : actualNumPages (requiredPages size) ≠ 0 := by
      intro hzero
      have hpos := (hks.inv.ranges.wf _ hrange).dyadic.pos
      rw [VmmRangeData.pages, hzero] at hpos
      exact Nat.lt_irrefl 0 hpos
    have hpos : 0 < (requiredPages size).toNat := by
      refine Nat.pos_of_ne_zero fun hzero => hnz ?_
      rw [UInt32.toNat_inj.mp (hzero.trans UInt32.toNat_zero.symm)]
      decide
    have hapart : ∀ s ∈ h₃.owned, s.1 ≠ start.toNat := by
      intro s hs
      rcases hks.ext.ownedNew s hs with hs | hnew
      · exact ht.notSlab s hs
      · exact fun heq => hnew _ ht.range rfl heq.symm
    have honce : ∀ g ∈ h₃.largeAllocations, g.addr ≠ start.toNat := hlarge ▸ ht.notLarge
    have hnew : ∀ b ∈ h₃.live, b.addr ≠ start.toNat := hks.inv.not_live hal honce
    obtain ⟨hi₄, hheld⟩ := hks.inv.insert (g := ⟨start.toNat, requiredPages size, node⟩)
      ⟨_, hrange, rfl, rfl, le_actualNumPages hnz, hpos⟩ hapart honce hspare
    have hi₅ := hi₄.give hnew (.inr ⟨hsize, _, List.mem_cons_self .., rfl, rfl⟩)
    refine ⟨ha, hi₅, ?_, List.mem_cons_self .., fun b hb => ?_, fun u hu => ?_,
      fun hcase => absurd hsize hcase, fun g hg => ?_⟩
    · have he := ht.ext.trans hks.ext
      refine ⟨he.ranges, fun b hb => List.mem_cons_of_mem _ (he.live b hb), he.owned, he.ownedNew,
        fun g hg => List.mem_cons_of_mem _ (he.large g hg), fun g hg => ?_,
        fun u a hu => (give_holds _ _ _).mpr (hheld.mpr (.inl (he.held u a hu))), fun u a hu => ?_,
        he.allocator⟩
      · rcases List.mem_cons.mp hg with rfl | hg
        · exact .inr fun r hr halloc heq => ht.fresh r hr halloc (UInt64.toNat_inj.mp heq)
        · exact he.largeNew g hg
      · rcases hheld.mp ((give_holds _ _ _).mp hu) with hu | ⟨-, heq⟩
        · exact he.heldNew u a hu
        · exact .inr fun b hb haddr => hks.new b (ht.ext.live b hb) (haddr.trans heq)
    · exact hnew b (hks.ext.live b (ht.ext.live b hb))
    · rcases hheld.mp ((give_holds _ _ _).mp hu) with hu | ⟨-, heq⟩
      · obtain ⟨b, hb, haddr, -⟩ := hks.inv.held u _ hu
        exact hnew b hb haddr
      · exact hnew _ hks.block heq.symm
    · rcases List.mem_cons.mp hg with rfl | hg
      · exact .inr rfl
      · rw [hlarge, ht.large] at hg
        exact .inl hg

/-! ### kmalloc -/

theorem kmallocWith_ok (hk : KmallocOk kmalloc) : KmallocOk (kmallocWith kmalloc) := by
  intro size h a h' hi ha hok
  obtain ⟨h₁, hready, hok⟩ := bind_ok.mp hok
  rw [ready] at hready
  split at hready
  next hcase => exact absurd hcase ha
  next => cases hready
  next hinit =>
    cases hready
    split at hok
    next i hsize => exact kmallocChunk_ok hk hi hinit hsize hok
    next hsize =>
      obtain ⟨⟨start, h₂⟩, hpages, hok⟩ := bind_ok.mp hok
      obtain ⟨h₃, hinsert, hok⟩ := bind_ok.mp hok
      cases hok
      exact kmallocLarge_ok hk hi hinit hsize hpages hinsert

end

/-- **A `kmalloc` that gives a block keeps the invariant**, whatever the fuel. -/
theorem kmalloc_ok (fuel : Nat) : KmallocOk (kmalloc fuel) := by
  induction fuel with
  | zero => intro size h a h' _ _ hok; cases hok
  | succ fuel ih => exact kmallocWith_ok ih

/-! ### The first kmalloc -/

/-- The allocator has not been used. -/
structure Heap.Fresh (h : Heap) : Prop where
  ranges : RangesOk h.mem.ranges
  items : ∀ start, h.rangeItems start = (none, none)
  lists : ∀ l, h.lists l = []
  large : h.largeAllocations = []
  allocator : h.allocator = .uninitialized
  owned : h.owned = []
  live : h.live = []

section
variable {kmalloc : UInt64 → Heap → Res (Nat × Heap)} {h h' : Heap}

theorem Heap.Fresh.inv (hf : h.Fresh) : h.Inv none := by
  have hholds : ∀ u a, ¬ h.Holds u a := by
    intro u a hu
    cases u with
    | node addr =>
        obtain ⟨g, hg, -⟩ := hu
        rw [hf.large] at hg
        cases hg
    | listItem s =>
        have heq := hu.2
        rw [hf.items] at heq
        cases heq
    | rangeItem s =>
        have heq := hu.2
        rw [hf.items] at heq
        cases heq
  have hlists : ∀ {l a}, a ∉ h.lists l := by
    intro l a ha
    rw [hf.lists] at ha
    cases ha
  have howned : ∀ {s}, s ∉ h.owned := by
    intro s hs
    rw [hf.owned] at hs
    cases hs
  have hlarge : ∀ {g}, g ∉ h.largeAllocations := by
    intro g hg
    rw [hf.large] at hg
    cases hg
  refine ⟨hf.ranges, ⟨fun l a ha => absurd ha hlists, fun s hs => absurd hs howned, fun l => ?_, ?_,
    fun l a ha => absurd ha hlists, fun s hs => (by cases hs), fun i => ?_⟩, fun s hs => absurd hs howned,
    fun g hg => absurd hg hlarge, fun g hg => absurd hg hlarge, ?_, ?_, fun b hb => ?_,
    fun u a hu => absurd hu (hholds u a), fun u v a hu => absurd hu (hholds u a)⟩
  · rw [hf.lists]
    exact List.nodup_nil
  · rw [hf.owned]
    exact List.nodup_nil
  · rw [hf.lists]
    exact Nat.zero_le _
  · rw [hf.large]
    exact List.nodup_nil
  · rw [hf.live]
    exact List.nodup_nil
  · rw [hf.live] at hb
    cases hb

/-- One empty slab of each size that there is none of. -/
theorem initLists_ok (hk : KmallocOk kmalloc) : ∀ {is : List SlabIdx} {h h' : Heap}, is.Nodup →
    h.Inv none → h.allocator = .initializing → h.largeAllocations = [] →
    (∀ s ∈ h.owned, s.2 ∉ is) → initLists kmalloc is h = .ok h' →
    h'.Inv none ∧ h'.largeAllocations = [] := by
  intro is
  induction is with
  | nil =>
      intro h h' _ hi _ hlarge _ hok
      cases hok
      exact ⟨hi, hlarge⟩
  | cons i is ih =>
      intro h h' hnodup hi ha hlarge howned hok
      obtain ⟨hnotin, hnodup⟩ := List.nodup_cons.mp hnodup
      -- there is nothing to clear
      have hclear : (fun l : SlabList × SlabIdx => if l.2 = i then [] else h.lists l) = h.lists := by
        funext l
        split
        next hl =>
          refine (List.eq_nil_iff_forall_not_mem.mpr fun a ha => ?_).symm
          exact howned _ (hi.filed.listed l a ha) (List.mem_cons.mpr (.inl hl))
        next => rfl
      rw [initLists, hclear] at hok
      obtain ⟨⟨slab, h₁⟩, hnew, hok⟩ := bind_ok.mp hok
      have hn := allocateNewSlab_ok hk hi (fun hcase => (by rw [ha] at hcase; cases hcase)) hnew
      have hempty : (h.lists (.free, i)) = [] := by
        rw [← hclear]
        exact if_pos rfl
      have hlen : (h₁.lists (.free, i)).length ≤ 0 := (hn.spare i).trans (hempty ▸ Nat.le_refl _)
      have hentries : (h₁.lists (.free, i) ++ [slab]).Perm (slab :: h₁.lists (.free, i)) :=
        List.perm_append_singleton ..
      obtain ⟨hi', he⟩ := hn.file hentries (hlen.trans_lt (by decide))
      refine ih hnodup hi' (he.allocator.trans ha) (hn.large.trans hlarge) (fun s hs => ?_) hok
      change s ∈ h₁.owned at hs
      rw [hn.quiet ha] at hs
      rcases List.mem_cons.mp hs with rfl | hs
      · exact hnotin
      · exact fun hmem => howned s hs (List.mem_cons_of_mem _ hmem)

end

theorem Heap.Inv.setAllocator {h : Heap} (hi : h.Inv none) (allocator : AllocatorState) :
    Heap.Inv { h with allocator := allocator } none := by
  have hholds : ∀ {u a}, Heap.Holds { h with allocator := allocator } u a ↔ h.Holds u a := by
    intro u a
    cases u <;> exact Iff.rfl
  exact ⟨hi.ranges, hi.filed.congr rfl rfl rfl, hi.slabRange, hi.largeRange, hi.largeApart,
    hi.largeOnce, hi.liveOnce, hi.live, fun u a hu => hi.held u a (hholds.mp hu),
    fun u v a hu hv => hi.heldOnce u v a (hholds.mp hu) (hholds.mp hv)⟩

theorem initAllocatorSystem_ok {fuel : Nat} {h h' : Heap} (hf : h.Fresh)
    (hok : initAllocatorSystem (kmalloc fuel) h = .ok h') :
    h'.Inv none ∧ h'.allocator = .initialized ∧ h'.largeAllocations = [] := by
  obtain ⟨h₁, hlists, hok⟩ := bind_ok.mp hok
  obtain ⟨⟨a, h₂⟩, hmap, hok⟩ := bind_ok.mp hok
  cases hok
  have howned : ∀ s ∈ h.owned, s.2 ∉ List.finRange 5 := by
    intro s hs
    rw [hf.owned] at hs
    cases hs
  obtain ⟨hi₁, hlarge⟩ := initLists_ok (kmalloc_ok fuel) (List.nodup_finRange 5)
    (hf.inv.setAllocator .initializing) rfl hf.large howned hlists
  have hks := kmalloc_ok fuel _ _ _ _ (hi₁.setAllocator .initialized) (fun hcase => (by cases hcase)) hmap
  have hsame : { h₂ with largeAllocations := [] } = h₂ := by
    rw [← hlarge, ← (hks.chunk (by decide)).large]
  refine ⟨?_, hks.ext.allocator, rfl⟩
  rw [hsame]
  exact hks.inv

/-- **The first `kmalloc`** sets the allocator up. -/
theorem kmalloc_boot {fuel a : Nat} {size : UInt64} {h h' : Heap} (hf : h.Fresh)
    (hok : kmalloc fuel size h = .ok (a, h')) :
    h'.Inv none ∧ h'.allocator = .initialized ∧ ⟨a, size⟩ ∈ h'.live ∧ (∀ u, ¬ h'.Holds u a) ∧
      ∀ g ∈ h'.largeAllocations, g.addr = a := by
  cases fuel with
  | zero => cases hok
  | succ fuel =>
      obtain ⟨h₁, hready, hok⟩ := bind_ok.mp hok
      rw [ready, hf.allocator] at hready
      obtain ⟨hi₁, ha₁, hlarge₁⟩ := initAllocatorSystem_ok hf hready
      have hok' : kmallocWith (kmalloc fuel) size h₁ = .ok (a, h') := by
        rw [kmallocWith, ready, ha₁]
        exact hok
      have hks := kmallocWith_ok (kmalloc_ok fuel) size h₁ a h' hi₁
        (fun hcase => (by rw [ha₁] at hcase; cases hcase)) hok'
      refine ⟨hks.inv, hks.ext.allocator.trans ha₁, hks.block, hks.unheld, fun g hg => ?_⟩
      rcases hks.large g hg with hg | haddr
      · rw [hlarge₁] at hg
        cases hg
      · exact haddr

end Azalea.Klib
