import Azalea.Klib.HeapAlloc

/-!
# Klib — every bit that is set is that of a block in use

The invariant says that the chunks in use have their bits set.  Here is the other direction: a bit of a slab
that is set is that of a block in use, also of those that the kernel keeps its own items in.

- `kmalloc_bits`: a `kmalloc` that gives a block keeps this, whatever happens inside of it.
- `kmalloc_boot_bits`: it holds after the first one.
-/

namespace Azalea.Klib
open Azalea.Bitmaps Azalea.Halts Azalea.Mem Azalea.Tiling Function VmmRangeData

/-- Every bit that is set is that of a block in use. -/
def Heap.BitsLive (h : Heap) : Prop :=
  ∀ s ∈ h.owned, ∀ k < numChunksPerSlab s.2, bit (h.slabs s.1).bitmap k = true →
    ∃ b ∈ h.live, b.addr = s.1 + chunkOffset s.2 k

/-- A `kmalloc` that may be called inside. -/
def KmallocBits (kmalloc : UInt64 → Heap → Res (Nat × Heap)) : Prop :=
  ∀ size h a h', h.Inv none → h.allocator ≠ .uninitialized → h.BitsLive → kmalloc size h = .ok (a, h') →
    h'.BitsLive

section
variable {kmalloc : UInt64 → Heap → Res (Nat × Heap)} {h h' h'' : Heap} {out : Option (Nat × SlabIdx)}
  {a slab : Nat} {start : UInt64} {n : UInt32} {i : SlabIdx} {size : UInt64} {item : Option Nat}
  {l : SlabList × SlabIdx} {entries : List Nat}

/-- Less slabs, less bits and more blocks. -/
theorem Heap.BitsLive.mono (hb : h.BitsLive) (howned : ∀ s ∈ h'.owned, s ∈ h.owned)
    (hbits : ∀ s k, bit (h'.slabs s).bitmap k = true → bit (h.slabs s).bitmap k = true)
    (hlive : ∀ b ∈ h.live, b ∈ h'.live) : h'.BitsLive := by
  intro s hs k hk hbit
  obtain ⟨b, hmem, haddr⟩ := hb s (howned s hs) k hk (hbits s.1 k hbit)
  exact ⟨b, hlive b hmem, haddr⟩

theorem SameSlabs.bitsLive (hs : SameSlabs h h') (hb : h.BitsLive) : h'.BitsLive :=
  hb.mono (fun _ hs' => hs.owned ▸ hs') (fun _ _ hbit => hs.slabs ▸ hbit) fun _ hb' => hs.live ▸ hb'

/-! ### Ranges -/

theorem memVmmAllocateListItem_bits (hkb : KmallocBits kmalloc) (hi : h.Inv none)
    (ha : h.allocator ≠ .uninitialized) (hb : h.BitsLive)
    (hok : memVmmAllocateListItem kmalloc h = .ok (item, h')) : h'.BitsLive := by
  rw [memVmmAllocateListItem] at hok
  split at hok
  next =>
    obtain ⟨⟨a, h₁⟩, hkm, heq⟩ := bind_ok.mp hok
    cases heq
    exact hkb 32 h a h' hi ha hb hkm
  next =>
    cases hok
    exact SameSlabs.bitsLive (h := h) ⟨rfl, rfl, rfl, rfl, rfl, rfl⟩ hb

theorem memVmmAllocateRangeItem_bits (hkb : KmallocBits kmalloc) (hi : h.Inv none)
    (ha : h.allocator ≠ .uninitialized) (hb : h.BitsLive)
    (hok : memVmmAllocateRangeItem kmalloc h = .ok (item, h')) : h'.BitsLive := by
  rw [memVmmAllocateRangeItem] at hok
  split at hok
  next =>
    obtain ⟨⟨a, h₁⟩, hkm, heq⟩ := bind_ok.mp hok
    cases heq
    exact hkb 24 h a h' hi ha hb hkm
  next =>
    cases hok
    exact SameSlabs.bitsLive (h := h) ⟨rfl, rfl, rfl, rfl, rfl, rfl⟩ hb

/-- A split goes on only while its range is still there. -/
theorem splitRange_bits (hk : KmallocOk kmalloc) (hkb : KmallocBits kmalloc)
    (hpow : ∃ j, n.toNat = 2 ^ j) : ∀ {levels : Nat} {h h' : Heap} {r : VmmRangeData}, h.Inv none →
      h.allocator ≠ .uninitialized → h.BitsLive → r ∈ h.mem.ranges → r.Free → n.toNat < r.pages →
      splitRange kmalloc r.start n levels h = .ok h' → h'.BitsLive := by
  intro levels
  induction levels with
  | zero => intro h h' r _ _ _ _ _ _ hok; cases hok
  | succ levels ih =>
      intro h h' r hi ha hb hr hfree hlt hok
      obtain ⟨⟨item₁, h₁⟩, hitem₁, hok⟩ := bind_ok.mp hok
      obtain ⟨⟨item₂, h₂⟩, hitem₂, hok⟩ := bind_ok.mp hok
      obtain ⟨it, hfind, hok⟩ := bind_ok.mp hok
      have ht₁ := memVmmAllocateListItem_spec hk hi ha hitem₁
      have ht₂ := memVmmAllocateRangeItem_spec hk ht₁.inv (ht₁.ext.allocator ▸ ha) hitem₂
      have hb₁ := memVmmAllocateListItem_bits hkb hi ha hb hitem₁
      have hb₂ := memVmmAllocateRangeItem_bits hkb ht₁.inv (ht₁.ext.allocator ▸ ha) hb₁ hitem₂
      obtain ⟨hi₂, he₂, hc₂, hitems, -⟩ := ht₁.both ht₂
      have hb₃ : (h₂.halve it (item₁, item₂)).BitsLive := halve_sameSlabs.bitsLive hb₂
      split at hok
      next hgt =>
        rcases hc₂.kept r hr with hr₂ | ⟨-, hr₂⟩
        · have hw := hi₂.ranges.wf r hr₂
          have hx : r.pages ≠ 1 := by
            obtain ⟨j, hj⟩ := hpow
            have hpos := Nat.two_pow_pos j
            omega
          obtain ⟨it', hfind', rfl, hlist⟩ := Heap.findRange_mem hi₂ hr₂
          rw [hfind', Except.ok.injEq] at hfind
          subst hfind
          obtain ⟨hi₃, he₃, -⟩ := hi₂.halve_range he₂ hc₂ hitems hlist hfree hx
          have hmem₃ : it'.item.firstHalf ∈ (h₂.halve it' (item₁, item₂)).mem.ranges :=
            mem_halve.mpr (.inr (.inl rfl))
          have hgt' : n.toNat < it'.item.firstHalf.pages := by
            rw [(firstHalf_wellFormed hw hx).2.2, ← toNat_half]
            simpa [UInt64.lt_iff_toNat_lt] using hgt
          exact ih hi₃ (he₃.allocator ▸ ha) hb₃ hmem₃ hfree hgt' hok
        · obtain ⟨it', hfind', hitem, -⟩ := Heap.findRange_mem hi₂ hr₂
          rw [hfind', Except.ok.injEq] at hfind
          subst hfind
          rw [hitem] at hgt
          simp [UInt64.lt_iff_toNat_lt] at hgt
      next =>
        cases hok
        exact hb₃

/-- **`mem_allocate_virtual_range`.** -/
theorem allocateVirtualRange_bits (hk : KmallocOk kmalloc) (hkb : KmallocBits kmalloc) (hi : h.Inv none)
    (ha : h.allocator ≠ .uninitialized) (hb : h.BitsLive)
    (hok : allocateVirtualRange kmalloc n h = .ok (start, h')) : h'.BitsLive := by
  obtain ⟨it, hsuit, hok⟩ := bind_ok.mp hok
  obtain ⟨h₁, hsplit, hok⟩ := bind_ok.mp hok
  obtain ⟨h₂, hmark, hok⟩ := bind_ok.mp hok
  cases hok
  rw [orPanic_ok] at hsuit
  obtain ⟨hne, hlist, hit⟩ := getSuitableRange_iff.mp hsuit
  have hr : it.item ∈ h.mem.ranges := by
    rw [← hlist, mem_toList]
    exact .inr (.inl rfl)
  have hb₁ : h₁.BitsLive := by
    split at hsplit
    next hsize =>
      have hlt : (actualNumPages n).toNat < it.item.pages := by
        refine lt_of_le_of_ne hit.enough fun heq => hsize (UInt64.toNat_inj.mp ?_)
        rw [UInt32.toNat_toUInt64, heq]
        rfl
      exact splitRange_bits hk hkb (actualNumPages_pow hne) hi ha hb hr hit.free hlt hsplit
    next =>
      cases hsplit
      exact hb
  obtain ⟨it', -, hmark⟩ := bind_ok.mp hmark
  split at hmark
  next => cases hmark
  next =>
    cases hmark
    exact SameSlabs.bitsLive (h := h₁) ⟨rfl, rfl, rfl, rfl, rfl, rfl⟩ hb₁

theorem allocatePages_bits (hk : KmallocOk kmalloc) (hkb : KmallocBits kmalloc) (hi : h.Inv none)
    (ha : h.allocator ≠ .uninitialized) (hb : h.BitsLive)
    (hok : allocatePages kmalloc n h = .ok (start, h')) : h'.BitsLive := by
  rw [allocatePages] at hok
  split at hok
  next => cases hok
  next =>
    obtain ⟨⟨start', h₁⟩, hrange, hok⟩ := bind_ok.mp hok
    obtain ⟨h₂, hback, hok⟩ := bind_ok.mp hok
    cases hok
    obtain ⟨mapping, -, hback⟩ := bind_ok.mp hback
    cases hback
    exact SameSlabs.bitsLive (h := h₁) ⟨rfl, rfl, rfl, rfl, rfl, rfl⟩
      (allocateVirtualRange_bits hk hkb hi ha hb hrange)

/-! ### Slabs -/

/-- A new slab has no bits, and is in pages that were no slab. -/
theorem Heap.BitsLive.newSlab (hb : h.BitsLive) (hnew : ∀ s ∈ h.owned, s.1 ≠ slab) :
    (h.newSlab slab i).BitsLive := by
  intro s hs k hk hbit
  rcases List.mem_cons.mp hs with rfl | hs
  · have hslab : (h.newSlab slab i).slabs slab = (h.slabs slab).cleared i := update_self ..
    dsimp only at hbit
    rw [hslab] at hbit
    exact absurd ((SlabHeader.cleared_ok (h.slabs slab)).count_pos hk hbit) (Nat.lt_irrefl 0)
  · have hslab : (h.newSlab slab i).slabs s.1 = h.slabs s.1 := update_of_ne (hnew s hs) ..
    rw [hslab] at hbit
    exact hb s hs k hk hbit

theorem allocateNewSlab_bits (hk : KmallocOk kmalloc) (hkb : KmallocBits kmalloc) (hi : h.Inv none)
    (ha : h.allocator ≠ .uninitialized) (hb : h.BitsLive)
    (hok : allocateNewSlab kmalloc i h = .ok (slab, h')) : h'.BitsLive := by
  obtain ⟨⟨page, h₁⟩, hpages, hok⟩ := bind_ok.mp hok
  cases hok
  have ht := allocatePages_ok hk hi ha hpages
  exact (allocatePages_bits hk hkb hi ha hb hpages).newSlab ht.notSlab

/-- In which list a slab is does not matter. -/
theorem Heap.BitsLive.fileSlab (hb : h.BitsLive) : (h.fileSlab l slab entries).BitsLive :=
  hb.mono (fun _ hs => hs) (fun s _ hbit => (fileSlab_bits s).2 ▸ hbit) fun _ hb' => hb'

theorem Heap.BitsLive.removeSlab (hb : h.BitsLive) (hok : h.removeSlab slab = some h') :
    h'.BitsLive := by
  obtain ⟨l, -, rfl⟩ := Option.map_eq_some_iff.mp hok
  exact hb.mono (fun _ hs => hs) (fun s _ hbit => (@unfile_bits _ l slab s).2 ▸ hbit)
    fun _ hb' => hb'

theorem chooseSlab_bits (hk : KmallocOk kmalloc) (hkb : KmallocBits kmalloc) (hi : h.Inv none)
    (ha : h.allocator ≠ .uninitialized) (hb : h.BitsLive)
    (hok : chooseSlab kmalloc i h = .ok (slab, h')) : h'.BitsLive := by
  rw [chooseSlab] at hok
  split at hok
  next =>
    obtain ⟨h₁, hremove, hok⟩ := bind_ok.mp hok
    cases hok
    exact hb.removeSlab (orPanic_ok.mp hremove)
  next =>
    split at hok
    next =>
      obtain ⟨h₁, hremove, hok⟩ := bind_ok.mp hok
      cases hok
      exact hb.removeSlab (orPanic_ok.mp hremove)
    next => exact allocateNewSlab_bits hk hkb hi ha hb hok

/-- The bit of the chunk that is taken is that of the block that is given out. -/
theorem Heap.Inv.takeChunk_bits (hi : h.Inv (some (slab, i)))
    (hfree : (h.slabs slab).allocationCount < numChunksPerSlab i) (hb : h.BitsLive)
    (hok : h.takeChunk slab i size = .ok (a, h')) : h'.BitsLive := by
  obtain ⟨howned, -, hslabOk⟩ := hi.filed.out _ rfl
  obtain ⟨k, hk, hbit, halloc⟩ := allocateChunk_spec hslabOk hfree
  obtain ⟨⟨k', header⟩, hchunk, hok⟩ := bind_ok.mp hok
  rw [halloc, orPanic_some, Except.ok.injEq] at hchunk
  obtain ⟨rfl, hheader⟩ := Prod.mk.inj hchunk
  obtain ⟨full, -, hok⟩ := bind_ok.mp hok
  cases hok
  intro s hs j hj hset
  have hset' : bit ((h.setHeader slab header).slabs s.1).bitmap j = true := by
    rw [← (@fileSlab_bits _ (if full then .full else .partly, i) slab
      (slab :: h.lists (if full then .full else .partly, i)) s.1).2]
    exact hset
  rw [Heap.setHeader] at hset'
  dsimp only at hset'
  by_cases heq : s.1 = slab
  · obtain rfl : s = (slab, i) := owned_inj hi.filed.once hs howned heq
    rw [update_self, ← hheader, bit_setBit, Bool.or_eq_true, decide_eq_true_eq] at hset'
    rcases hset' with rfl | hold
    · exact ⟨_, List.mem_cons_self .., rfl⟩
    · obtain ⟨b, hmem, haddr⟩ := hb _ hs j hj hold
      exact ⟨b, List.mem_cons_of_mem _ hmem, haddr⟩
  · rw [update_of_ne heq] at hset'
    obtain ⟨b, hmem, haddr⟩ := hb s hs j hj hset'
    exact ⟨b, List.mem_cons_of_mem _ hmem, haddr⟩

theorem preallocate_bits (hk : KmallocOk kmalloc) (hkb : KmallocBits kmalloc) (hi : h.Inv none)
    (ha : h.allocator ≠ .uninitialized) (hb : h.BitsLive)
    (hok : preallocate kmalloc slab i h = .ok h') : h'.BitsLive := by
  rw [preallocate] at hok
  split at hok
  next =>
    obtain ⟨⟨new, h₁⟩, hnew, hok⟩ := bind_ok.mp hok
    cases hok
    exact (allocateNewSlab_bits hk hkb hi ha hb hnew).fileSlab
  next =>
    cases hok
    exact hb

/-! ### kmalloc -/

theorem kmallocChunk_bits (hk : KmallocOk kmalloc) (hkb : KmallocBits kmalloc) (hi : h.Inv none)
    (ha : h.allocator ≠ .uninitialized) (hb : h.BitsLive) (hsize : slabIdx size = some i)
    (hok : kmallocChunk kmalloc i size h = .ok (a, h')) : h'.BitsLive := by
  obtain ⟨⟨slab, h₁⟩, hchoose, hok⟩ := bind_ok.mp hok
  obtain ⟨⟨addr, h₂⟩, htake, hok⟩ := bind_ok.mp hok
  obtain ⟨h₃, hspare, hok⟩ := bind_ok.mp hok
  cases hok
  have hc₁ := chooseSlab_ok hk hi ha hchoose
  have hb₂ := hc₁.inv.takeChunk_bits hc₁.room (chooseSlab_bits hk hkb hi ha hb hchoose) htake
  obtain ⟨a', h', htake', hi₂, hrest, -⟩ := hc₁.inv.takeChunk hc₁.room hsize
  rw [htake', Except.ok.injEq] at htake
  cases htake
  exact preallocate_bits hk hkb hi₂ ((hrest.allocator.trans hc₁.ext.allocator) ▸ ha) hb₂ hspare

theorem insertLarge_bits {pages : UInt32} (hkb : KmallocBits kmalloc) (hi : h.Inv none)
    (ha : h.allocator ≠ .uninitialized) (hb : h.BitsLive)
    (hok : insertLarge kmalloc a pages h = .ok h') : h'.BitsLive := by
  rw [insertLarge] at hok
  split at hok
  next =>
    cases hok
    exact hb
  next =>
    obtain ⟨⟨node, h₁⟩, hnode, hok⟩ := bind_ok.mp hok
    cases hok
    exact hkb 48 h node h₁ hi ha hb hnode

theorem kmallocWith_bits (hk : KmallocOk kmalloc) (hkb : KmallocBits kmalloc) :
    KmallocBits (kmallocWith kmalloc) := by
  intro size h a h' hi ha hb hok
  obtain ⟨h₁, hready, hok⟩ := bind_ok.mp hok
  rw [ready] at hready
  split at hready
  next hcase => exact absurd hcase ha
  next => cases hready
  next hinit =>
    cases hready
    split at hok
    next i hsize => exact kmallocChunk_bits hk hkb hi ha hb hsize hok
    next =>
      obtain ⟨⟨start, h₂⟩, hpages, hok⟩ := bind_ok.mp hok
      obtain ⟨h₃, hinsert, hok⟩ := bind_ok.mp hok
      cases hok
      have ht := allocatePages_ok hk hi ha hpages
      have hb₂ := allocatePages_bits hk hkb hi ha hb hpages
      have hb₃ := insertLarge_bits hkb ht.inv (ht.ext.allocator ▸ ha) hb₂ hinsert
      exact hb₃.mono (fun _ hs => hs) (fun _ _ hbit => hbit) fun _ hb' => List.mem_cons_of_mem _ hb'

end

/-- **Every bit is that of a block in use** when a `kmalloc` has given a block, whatever the fuel. -/
theorem kmalloc_bits (fuel : Nat) : KmallocBits (kmalloc fuel) := by
  induction fuel with
  | zero => intro size h a h' _ _ _ hok; cases hok
  | succ fuel ih => exact kmallocWith_bits (kmalloc_ok fuel) ih

/-! ### The first kmalloc -/

section
variable {kmalloc : UInt64 → Heap → Res (Nat × Heap)} {h h' : Heap}

theorem Heap.Fresh.bitsLive (hf : h.Fresh) : h.BitsLive := by
  intro s hs
  rw [hf.owned] at hs
  cases hs

/-- One empty slab of each size that there is none of. -/
theorem initLists_bits (hk : KmallocOk kmalloc) (hkb : KmallocBits kmalloc) :
    ∀ {is : List SlabIdx} {h h' : Heap}, is.Nodup → h.Inv none → h.allocator = .initializing →
      (∀ s ∈ h.owned, s.2 ∉ is) → h.BitsLive → initLists kmalloc is h = .ok h' → h'.BitsLive := by
  intro is
  induction is with
  | nil =>
      intro h h' _ _ _ _ hb hok
      cases hok
      exact hb
  | cons i is ih =>
      intro h h' hnodup hi ha howned hb hok
      obtain ⟨hnotin, hnodup⟩ := List.nodup_cons.mp hnodup
      have ha' : h.allocator ≠ .uninitialized := fun hcase => (by rw [ha] at hcase; cases hcase)
      -- there is nothing to clear
      have hclear : (fun l : SlabList × SlabIdx => if l.2 = i then [] else h.lists l) = h.lists := by
        funext l
        split
        next hl =>
          refine (List.eq_nil_iff_forall_not_mem.mpr fun a ha => ?_).symm
          exact howned _ (hi.filed.listed l a ha) (List.mem_cons.mpr (.inl hl))
        next => rfl
      rw [initLists, hclear] at hok
      obtain ⟨⟨slab, h₁⟩, hnew, hok⟩ := bind_ok.mp hok
      have hn := allocateNewSlab_ok hk hi ha' hnew
      have hb₁ := allocateNewSlab_bits hk hkb hi ha' hb hnew
      have hempty : h.lists (.free, i) = [] := by
        rw [← hclear]
        exact if_pos rfl
      have hlen : (h₁.lists (.free, i)).length ≤ 0 := (hn.spare i).trans (hempty ▸ Nat.le_refl _)
      obtain ⟨hi', he⟩ := hn.file (List.perm_append_singleton ..) (hlen.trans_lt (by decide))
      refine ih hnodup hi' (he.allocator.trans ha) (fun s hs => ?_) hb₁.fileSlab hok
      change s ∈ h₁.owned at hs
      rw [hn.quiet ha] at hs
      rcases List.mem_cons.mp hs with rfl | hs
      · exact hnotin
      · exact fun hmem => howned s hs (List.mem_cons_of_mem _ hmem)

end

/-- **The first `kmalloc`.** -/
theorem kmalloc_boot_bits {fuel a : Nat} {size : UInt64} {h h' : Heap} (hf : h.Fresh)
    (hok : kmalloc fuel size h = .ok (a, h')) : h'.BitsLive := by
  cases fuel with
  | zero => cases hok
  | succ fuel =>
      obtain ⟨h₁, hready, hok⟩ := bind_ok.mp hok
      rw [ready, hf.allocator] at hready
      obtain ⟨hi₁, ha₁, -⟩ := initAllocatorSystem_ok hf hready
      obtain ⟨h₂, hlists, hready⟩ := bind_ok.mp hready
      obtain ⟨⟨map, h₃⟩, hmap, hready⟩ := bind_ok.mp hready
      have howned : ∀ s ∈ h.owned, s.2 ∉ List.finRange 5 := by
        intro s hs
        rw [hf.owned] at hs
        cases hs
      have hb₂ := initLists_bits (kmalloc_ok fuel) (kmalloc_bits fuel) (List.nodup_finRange 5)
        (hf.inv.setAllocator .initializing) rfl howned hf.bitsLive hlists
      obtain ⟨hi₂, -⟩ := initLists_ok (kmalloc_ok fuel) (List.nodup_finRange 5)
        (hf.inv.setAllocator .initializing) rfl hf.large howned hlists
      have hb₃ := kmalloc_bits fuel _ _ _ _ (hi₂.setAllocator .initialized)
        (fun hcase => (by cases hcase)) hb₂ hmap
      have hb₁ : h₁.BitsLive := Except.ok.inj hready ▸ hb₃
      have hok' : kmallocWith (kmalloc fuel) size h₁ = .ok (a, h') := by
        rw [kmallocWith, ready, ha₁]
        exact hok
      exact kmallocWith_bits (kmalloc_ok fuel) (kmalloc_bits fuel) size h₁ a h' hi₁
        (fun hcase => (by rw [ha₁] at hcase; cases hcase)) hb₁ hok'

end Azalea.Klib
