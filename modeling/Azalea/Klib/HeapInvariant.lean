import Azalea.Klib.HeapRanges

/-!
# Klib — the allocator's invariant

Every slab is in one list, the one that its count belongs to (`Heap.Filed`), every block in use is a
chunk whose bit is set or a large allocation (`Heap.Inv`), and the pages of all of them are allocated
ranges.  What a `kmalloc` does to a heap is `Extends` and, for a chunk, `ChunkTaken`.

- `kmalloc_spec`: every `kmalloc` that gives a block keeps the invariant, whatever happens inside.
-/

namespace Azalea.Klib
open Azalea.Bitmaps Azalea.Halts Azalea.Mem Function

/-! ### Slabs in lists -/

/-- The count of a slab in a list. -/
def Matches (l : SlabList × SlabIdx) (n : Nat) : Prop :=
  match l.1 with
  | .free => n = 0
  | .partly => 0 < n ∧ n < numChunksPerSlab l.2
  | .full => n = numChunksPerSlab l.2

/-- Every slab is in the list that its count belongs to, except for the one that is `out`, which is
in none. -/
structure Heap.Filed (h : Heap) (out : Option (Nat × SlabIdx)) : Prop where
  listed : ∀ l, ∀ a ∈ h.lists l, (a, l.2) ∈ h.owned
  filed : ∀ s ∈ h.owned, out = some s ∨ ∃ w, s.1 ∈ h.lists (w, s.2)
  nodup : ∀ l, (h.lists l).Nodup
  once : (h.owned.map Prod.fst).Nodup
  header : ∀ l, ∀ a ∈ h.lists l, (h.slabs a).listObj = some l ∧ (h.slabs a).Ok l.2 ∧
    Matches l (h.slabs a).allocationCount
  out : ∀ s, out = some s → s ∈ h.owned ∧ (h.slabs s.1).listObj = none ∧ (h.slabs s.1).Ok s.2
  spare : ∀ i, (h.lists (.free, i)).length ≤ maxFreeSlabs

/-- A slab is taken out of its list. -/
def Heap.unfile (l : SlabList × SlabIdx) (slab : Nat) (h : Heap) : Heap :=
  { h with
    lists := update h.lists l ((h.lists l).erase slab)
    slabs := update h.slabs slab { h.slabs slab with listObj := none } }

/-- A slab has another header. -/
def Heap.setHeader (slab : Nat) (header : SlabHeader) (h : Heap) : Heap :=
  { h with slabs := update h.slabs slab header }

section
variable {h : Heap} {out : Option (Nat × SlabIdx)} {l : SlabList × SlabIdx} {w : SlabList}
  {i : SlabIdx} {slab a : Nat} {s t : Nat × SlabIdx} {header : SlabHeader} {entries : List Nat}

theorem owned_inj (honce : (h.owned.map Prod.fst).Nodup) (hs : s ∈ h.owned) (ht : t ∈ h.owned)
    (heq : s.1 = t.1) : s = t :=
  List.inj_on_of_nodup_map honce hs ht heq

/-- A slab in a list is in no other. -/
theorem Heap.Filed.list_eq {l' : SlabList × SlabIdx} (hf : h.Filed out) (ha : a ∈ h.lists l)
    (ha' : a ∈ h.lists l') : l = l' := by
  have heq := (hf.header l a ha).1
  rw [(hf.header l' a ha').1, Option.some.injEq] at heq
  exact heq.symm

theorem Heap.Filed.congr {h' : Heap} (hf : h.Filed out) (hlists : h'.lists = h.lists)
    (hslabs : h'.slabs = h.slabs) (howned : h'.owned = h.owned) : h'.Filed out := by
  obtain ⟨hlisted, hfiled, hnodup, honce, hheader, hout, hspare⟩ := hf
  rw [← hlists, ← howned] at hlisted
  rw [← hlists, ← howned] at hfiled
  rw [← hlists] at hnodup hspare
  rw [← howned] at honce
  rw [← hlists, ← hslabs] at hheader
  rw [← howned, ← hslabs] at hout
  exact ⟨hlisted, hfiled, hnodup, honce, hheader, hout, hspare⟩

theorem Heap.Filed.not_out (hf : h.Filed (some s)) : s.1 ∉ h.lists l := by
  intro ha
  have heq := (hf.header l s.1 ha).1
  rw [(hf.out s rfl).2.1] at heq
  cases heq

/-- A slab is found in its list and taken out of it. -/
theorem Heap.Filed.removeSlab (hf : h.Filed none) (ha : slab ∈ h.lists l) :
    h.removeSlab slab = some (h.unfile l slab) ∧ (h.unfile l slab).Filed (some (slab, l.2)) := by
  obtain ⟨hlist, hok, -⟩ := hf.header l slab ha
  refine ⟨by rw [Heap.removeSlab, hlist]; rfl, ?_⟩
  have hmem : ∀ {l' b}, b ∈ (h.unfile l slab).lists l' ↔ b ∈ h.lists l' ∧ b ≠ slab := by
    intro l' b
    rw [Heap.unfile]
    dsimp only
    by_cases hl : l' = l
    · subst hl
      rw [update_self, (hf.nodup l').mem_erase_iff, and_comm]
    · rw [update_of_ne hl]
      refine ⟨fun hb => ⟨hb, ?_⟩, fun hb => hb.1⟩
      rintro rfl
      exact hl (hf.list_eq hb ha)
  refine ⟨fun l' b hb => hf.listed l' b (hmem.mp hb).1, fun t ht => ?_, fun l' => ?_, hf.once,
    fun l' b hb => ?_, fun t ht => ?_, fun j => ?_⟩
  · by_cases heq : t.1 = slab
    · exact .inl (congrArg some (owned_inj hf.once (hf.listed l slab ha) ht heq.symm))
    · obtain hcase | ⟨w, hw⟩ := hf.filed t ht
      · cases hcase
      · exact .inr ⟨w, hmem.mpr ⟨hw, heq⟩⟩
  · rw [Heap.unfile]
    dsimp only
    by_cases hl : l' = l
    · subst hl
      rw [update_self]
      exact (hf.nodup l').erase slab
    · rw [update_of_ne hl]
      exact hf.nodup l'
  · obtain ⟨hb, hne⟩ := hmem.mp hb
    rw [Heap.unfile]
    dsimp only
    rw [update_of_ne hne]
    exact hf.header l' b hb
  · obtain rfl := Option.some.inj ht
    refine ⟨hf.listed l slab ha, ?_, ?_⟩
    · rw [Heap.unfile]
      simp only [update_self]
    · rw [Heap.unfile]
      simp only [update_self]
      exact ⟨hok.counted, hok.beyond⟩
  · rw [Heap.unfile]
    dsimp only
    by_cases hl : (SlabList.free, j) = l
    · rw [hl, update_self]
      exact (List.length_erase_le).trans (hl ▸ hf.spare j)
    · rw [update_of_ne hl]
      exact hf.spare j

/-- The slab that is out has another header. -/
theorem Heap.Filed.setHeader (hf : h.Filed (some s)) (hlist : header.listObj = none)
    (hok : header.Ok s.2) : (h.setHeader s.1 header).Filed (some s) := by
  refine ⟨hf.listed, hf.filed, hf.nodup, hf.once, fun l b hb => ?_, fun t ht => ?_, hf.spare⟩
  · have hne : b ≠ s.1 := fun heq => hf.not_out (heq ▸ hb)
    rw [Heap.setHeader]
    dsimp only
    rw [update_of_ne hne]
    exact hf.header l b hb
  · obtain rfl := Option.some.inj ht
    rw [Heap.setHeader]
    simp only [update_self]
    exact ⟨(hf.out s rfl).1, hlist, hok⟩

/-- The slab that is out is put in the list that its count belongs to. -/
theorem Heap.Filed.fileSlab (hf : h.Filed (some s)) (hl : l.2 = s.2)
    (hentries : entries.Perm (s.1 :: h.lists l)) (hcount : Matches l (h.slabs s.1).allocationCount)
    (hspare : l.1 = .free → (h.lists l).length < maxFreeSlabs) :
    (h.fileSlab l s.1 entries).Filed none := by
  obtain ⟨howned, hlist, hok⟩ := hf.out s rfl
  have hmem : ∀ {l' b}, b ∈ (h.fileSlab l s.1 entries).lists l' ↔
      b ∈ h.lists l' ∨ l' = l ∧ b = s.1 := by
    intro l' b
    rw [Heap.fileSlab]
    dsimp only
    by_cases heq : l' = l
    · subst heq
      rw [update_self, hentries.mem_iff, List.mem_cons]
      tauto
    · rw [update_of_ne heq]
      tauto
  refine ⟨fun l' b hb => ?_, fun t ht => .inr ?_, fun l' => ?_, hf.once, fun l' b hb => ?_,
    fun t ht => (by cases ht), fun j => ?_⟩
  · rcases hmem.mp hb with hb | ⟨rfl, rfl⟩
    · exact hf.listed l' b hb
    · rw [hl]
      exact howned
  · obtain hcase | ⟨w, hw⟩ := hf.filed t ht
    · obtain rfl := Option.some.inj hcase
      refine ⟨l.1, hmem.mpr (.inr ⟨?_, rfl⟩)⟩
      rw [← hl]
    · exact ⟨w, hmem.mpr (.inl hw)⟩
  · rw [Heap.fileSlab]
    dsimp only
    by_cases heq : l' = l
    · subst heq
      rw [update_self, hentries.nodup_iff]
      exact List.nodup_cons.mpr ⟨hf.not_out, hf.nodup l'⟩
    · rw [update_of_ne heq]
      exact hf.nodup l'
  · rw [Heap.fileSlab]
    dsimp only
    rcases hmem.mp hb with hb | ⟨rfl, rfl⟩
    · have hne : b ≠ s.1 := fun heq => hf.not_out (heq ▸ hb)
      rw [update_of_ne hne]
      exact hf.header l' b hb
    · rw [update_self, hl]
      exact ⟨rfl, ⟨hok.counted, hok.beyond⟩, hcount⟩
  · rw [Heap.fileSlab]
    dsimp only
    by_cases heq : (SlabList.free, j) = l
    · rw [heq, update_self, hentries.length_eq]
      exact hspare (congrArg Prod.fst heq.symm)
    · rw [update_of_ne heq]
      exact hf.spare j

/-- A page that is no slab becomes one. -/
theorem Heap.Filed.newSlab (hf : h.Filed none) (hnew : ∀ t ∈ h.owned, t.1 ≠ slab) :
    (h.newSlab slab i).Filed (some (slab, i)) := by
  have hnot : ∀ {l b}, b ∈ h.lists l → b ≠ slab := fun hb => hnew _ (hf.listed _ _ hb)
  refine ⟨fun l b hb => List.mem_cons_of_mem _ (hf.listed l b hb), fun t ht => ?_, hf.nodup, ?_,
    fun l b hb => ?_, fun t ht => ?_, hf.spare⟩
  · rcases List.mem_cons.mp ht with rfl | ht
    · exact .inl rfl
    · exact (hf.filed t ht).imp (fun hcase => (by cases hcase)) id
  · refine List.nodup_cons.mpr ⟨fun hmem => ?_, hf.once⟩
    obtain ⟨t, ht, heq⟩ := List.mem_map.mp hmem
    exact hnew t ht heq
  · rw [Heap.newSlab]
    dsimp only
    rw [update_of_ne (hnot hb)]
    exact hf.header l b hb
  · obtain rfl := Option.some.inj ht
    rw [Heap.newSlab]
    simp only [update_self]
    exact ⟨List.mem_cons_self .., rfl, SlabHeader.cleared_ok _⟩

/-- Where a slab is in a list is not what is in it. -/
theorem fileSlab_bits (s : Nat) :
    ((h.fileSlab l slab entries).slabs s).allocationCount = (h.slabs s).allocationCount ∧
      ((h.fileSlab l slab entries).slabs s).bitmap = (h.slabs s).bitmap := by
  rw [Heap.fileSlab]
  by_cases heq : s = slab
  · subst heq
    simp only [update_self, and_self]
  · simp only [update_of_ne heq, and_self]

theorem unfile_bits (s : Nat) :
    ((h.unfile l slab).slabs s).allocationCount = (h.slabs s).allocationCount ∧
      ((h.unfile l slab).slabs s).bitmap = (h.slabs s).bitmap := by
  rw [Heap.unfile]
  by_cases heq : s = slab
  · subst heq
    simp only [update_self, and_self]
  · simp only [update_of_ne heq, and_self]

/-- A slab stays in its list with another count. -/
theorem Heap.Filed.recount (hf : h.Filed none) (ha : slab ∈ h.lists l)
    (hlist : header.listObj = some l) (hok : header.Ok l.2)
    (hcount : Matches l header.allocationCount) : (h.setHeader slab header).Filed none := by
  refine ⟨hf.listed, hf.filed, hf.nodup, hf.once, fun l' b hb => ?_, fun t ht => (by cases ht),
    hf.spare⟩
  rw [Heap.setHeader]
  dsimp only
  by_cases hne : b = slab
  · subst hne
    obtain rfl := hf.list_eq hb ha
    rw [update_self]
    exact ⟨hlist, hok, hcount⟩
  · rw [update_of_ne hne]
    exact hf.header l' b hb

end

/-! ### Blocks -/

/-- A block is a chunk of a slab, whose bit is set. -/
def Heap.IsChunk (h : Heap) (b : Block) : Prop :=
  ∃ s ∈ h.owned, ∃ k < numChunksPerSlab s.2, b.addr = s.1 + chunkOffset s.2 k ∧
    bit (h.slabs s.1).bitmap k = true ∧ slabIdx b.size = some s.2

/-- A block is a large allocation. -/
def Heap.IsLarge (h : Heap) (b : Block) : Prop :=
  slabIdx b.size = none ∧ ∃ g ∈ h.largeAllocations, g.addr = b.addr ∧ g.pages = requiredPages b.size

/-- What the kernel itself keeps in blocks: the nodes of `large_allocations`, and the items of the
ranges. -/
inductive Holder where
  | node (addr : Nat)
  | listItem (start : UInt64)
  | rangeItem (start : UInt64)

/-- A range starts at an address. -/
def Heap.HasRange (h : Heap) (start : UInt64) : Prop := ∃ r ∈ h.mem.ranges, r.start = start

/-- The block in which something is kept. -/
def Heap.Holds (h : Heap) (u : Holder) (a : Nat) : Prop :=
  match u with
  | .node addr => ∃ g ∈ h.largeAllocations, g.addr = addr ∧ g.node = a
  | .listItem start => h.HasRange start ∧ (h.rangeItems start).1 = some a
  | .rangeItem start => h.HasRange start ∧ (h.rangeItems start).2 = some a

/-- The invariant, with a slab that may be out of its list. -/
structure Heap.Inv (h : Heap) (out : Option (Nat × SlabIdx)) : Prop where
  ranges : RangesOk h.mem.ranges
  filed : h.Filed out
  slabRange : ∀ s ∈ h.owned, ∃ r ∈ h.mem.ranges, r.allocated = true ∧ r.start.toNat = s.1
  largeRange : ∀ g ∈ h.largeAllocations, ∃ r ∈ h.mem.ranges, r.allocated = true ∧
    r.start.toNat = g.addr ∧ g.pages.toNat ≤ r.pages ∧ 0 < g.pages.toNat
  largeApart : ∀ g ∈ h.largeAllocations, ∀ s ∈ h.owned, s.1 ≠ g.addr
  largeOnce : (h.largeAllocations.map LargeAllocation.addr).Nodup
  liveOnce : (h.live.map Block.addr).Nodup
  live : ∀ b ∈ h.live, h.IsChunk b ∨ h.IsLarge b
  held : ∀ u a, h.Holds u a → ∃ b ∈ h.live, b.addr = a ∧ slabIdx b.size ≠ none
  heldOnce : ∀ u v a, h.Holds u a → h.Holds v a → u = v

/-- What is there stays there: allocated ranges, slabs, blocks and what is kept in them.  A new slab
or large allocation is in pages that were not allocated, and something new is kept in a new block. -/
structure Extends (h h' : Heap) : Prop where
  ranges : ∀ r ∈ h.mem.ranges, r ∈ h'.mem.ranges ∨ r.Free ∧ h'.HasRange r.start
  live : ∀ b ∈ h.live, b ∈ h'.live
  owned : ∀ s ∈ h.owned, s ∈ h'.owned
  ownedNew : ∀ s ∈ h'.owned, s ∈ h.owned ∨
    ∀ r ∈ h.mem.ranges, r.allocated = true → r.start.toNat ≠ s.1
  large : ∀ g ∈ h.largeAllocations, g ∈ h'.largeAllocations
  largeNew : ∀ g ∈ h'.largeAllocations, g ∈ h.largeAllocations ∨
    ∀ r ∈ h.mem.ranges, r.allocated = true → r.start.toNat ≠ g.addr
  held : ∀ u a, h.Holds u a → h'.Holds u a
  heldNew : ∀ u a, h'.Holds u a → h.Holds u a ∨ ∀ b ∈ h.live, b.addr ≠ a
  allocator : h'.allocator = h.allocator

section
variable {h h' h'' : Heap} {out : Option (Nat × SlabIdx)} {i : SlabIdx} {b b' : Block}
  {s t : Nat × SlabIdx} {k l : Nat} {r r' : VmmRangeData}

theorem Extends.refl (h : Heap) : Extends h h :=
  ⟨fun _ hr => .inl hr, fun _ hb => hb, fun _ hs => hs, fun _ hs => .inl hs, fun _ hg => hg,
    fun _ hg => .inl hg, fun _ _ hu => hu, fun _ _ hu => .inl hu, rfl⟩

theorem Extends.kept (he : Extends h h') (hr : r ∈ h.mem.ranges) (ha : r.allocated = true) :
    r ∈ h'.mem.ranges := by
  rcases he.ranges r hr with hr' | ⟨hfree, -⟩
  · exact hr'
  · rw [hfree] at ha
    cases ha

theorem Extends.hasRange (he : Extends h h') (hr : r ∈ h.mem.ranges) : h'.HasRange r.start := by
  rcases he.ranges r hr with hr' | ⟨-, hr'⟩
  · exact ⟨r, hr', rfl⟩
  · exact hr'

theorem Extends.trans (he : Extends h h') (he' : Extends h' h'') : Extends h h'' where
  ranges r hr := by
    rcases he.ranges r hr with hr' | ⟨hfree, r', hr', hstart⟩
    · exact he'.ranges r hr'
    · exact .inr ⟨hfree, hstart ▸ he'.hasRange hr'⟩
  live b hb := he'.live b (he.live b hb)
  owned s hs := he'.owned s (he.owned s hs)
  ownedNew s hs := by
    rcases he'.ownedNew s hs with hs' | hnew
    · exact he.ownedNew s hs'
    · exact .inr fun r hr ha => hnew r (he.kept hr ha) ha
  large g hg := he'.large g (he.large g hg)
  largeNew g hg := by
    rcases he'.largeNew g hg with hg' | hnew
    · exact he.largeNew g hg'
    · exact .inr fun r hr ha => hnew r (he.kept hr ha) ha
  held u a hu := he'.held u a (he.held u a hu)
  heldNew u a hu := by
    rcases he'.heldNew u a hu with hu' | hnew
    · exact he.heldNew u a hu'
    · exact .inr fun b hb => hnew b (he.live b hb)
  allocator := he'.allocator.trans he.allocator

/-- Slabs start on a page. -/
theorem Heap.Inv.slab_aligned (hi : h.Inv out) (hs : s ∈ h.owned) : s.1 % 2097152 = 0 := by
  obtain ⟨r, hr, -, hstart⟩ := hi.slabRange s hs
  rw [← hstart]
  exact Nat.mod_eq_zero_of_dvd (hi.ranges.wf r hr).aligned

theorem chunk_mod (hs : s.1 % 2097152 = 0) (hk : k < numChunksPerSlab s.2) :
    (s.1 + chunkOffset s.2 k) % 2097152 = chunkOffset s.2 k ∧ 0 < chunkOffset s.2 k := by
  have hfit := chunk_fits hk
  have hpos := chunkSizes_pos s.2
  rw [firstBitmapEntryOffset] at hfit
  omega

/-- The slab and the index of a chunk are found back from its address. -/
theorem Heap.Inv.chunk_inj (hi : h.Inv out) (hs : s ∈ h.owned) (ht : t ∈ h.owned)
    (hk : k < numChunksPerSlab s.2) (hl : l < numChunksPerSlab t.2)
    (heq : s.1 + chunkOffset s.2 k = t.1 + chunkOffset t.2 l) : s = t ∧ k = l := by
  have hs' := hi.slab_aligned hs
  have ht' := hi.slab_aligned ht
  have hmod := (chunk_mod hs' hk).1
  have hmod' := (chunk_mod ht' hl).1
  obtain rfl : s = t := owned_inj hi.filed.once hs ht (by rw [heq] at hmod; omega)
  refine ⟨rfl, ?_⟩
  rcases Nat.lt_trichotomy k l with hlt | hlt | hlt
  · have hap := chunk_apart (i := s.2) hlt
    have hpos := chunkSizes_pos s.2
    omega
  · exact hlt
  · have hap := chunk_apart (i := s.2) hlt
    have hpos := chunkSizes_pos s.2
    omega

theorem Heap.IsChunk.mono (hc : h.IsChunk b) (howned : ∀ s ∈ h.owned, s ∈ h'.owned)
    (hbits : ∀ s ∈ h.owned, ∀ k, bit (h.slabs s.1).bitmap k = true →
      bit (h'.slabs s.1).bitmap k = true) : h'.IsChunk b := by
  obtain ⟨s, hs, k, hk, haddr, hbit, hsize⟩ := hc
  exact ⟨s, howned s hs, k, hk, haddr, hbits s hs k hbit, hsize⟩

theorem Heap.IsLarge.mono (hl : h.IsLarge b)
    (hlarge : ∀ g ∈ h.largeAllocations, g ∈ h'.largeAllocations) : h'.IsLarge b := by
  obtain ⟨hsize, g, hg, haddr⟩ := hl
  exact ⟨hsize, g, hlarge g hg, haddr⟩

/-- Only the lists of slabs, their headers and the blocks in use differ. -/
structure SameRest (h h' : Heap) : Prop where
  ranges : h'.mem.ranges = h.mem.ranges
  owned : h'.owned = h.owned
  large : h'.largeAllocations = h.largeAllocations
  items : h'.rangeItems = h.rangeItems
  allocator : h'.allocator = h.allocator

theorem SameRest.holds {u : Holder} {a : Nat} (hs : SameRest h h') : h'.Holds u a ↔ h.Holds u a := by
  cases u with
  | node addr => rw [Heap.Holds, Heap.Holds, hs.large]
  | listItem start =>
      rw [Heap.Holds, Heap.Holds, Heap.HasRange, Heap.HasRange, hs.ranges, hs.items]
  | rangeItem start =>
      rw [Heap.Holds, Heap.Holds, Heap.HasRange, Heap.HasRange, hs.ranges, hs.items]

theorem SameRest.extends (hs : SameRest h h') (hlive : ∀ b ∈ h.live, b ∈ h'.live) : Extends h h' where
  ranges r hr := .inl (hs.ranges ▸ hr)
  live := hlive
  owned s hs' := hs.owned ▸ hs'
  ownedNew s hs' := .inl (hs.owned ▸ hs')
  large g hg := hs.large ▸ hg
  largeNew g hg := .inl (hs.large ▸ hg)
  held u a hu := hs.holds.mpr hu
  heldNew u a hu := .inl (hs.holds.mp hu)
  allocator := hs.allocator

/-- A change of the lists, and of bits that are set. -/
theorem Heap.Inv.refile (hi : h.Inv out) {out' : Option (Nat × SlabIdx)} (hfiled : h'.Filed out')
    (hs : SameRest h h') (hlive : h'.live = h.live)
    (hbits : ∀ s ∈ h.owned, ∀ k, bit (h.slabs s.1).bitmap k = true →
      bit (h'.slabs s.1).bitmap k = true) : h'.Inv out' := by
  have hholds : ∀ {u a}, h'.Holds u a ↔ h.Holds u a := hs.holds
  obtain ⟨hmem, howned, hlarge, hitems, -⟩ := hs
  refine ⟨hmem ▸ hi.ranges, hfiled, ?_, ?_, ?_, hlarge ▸ hi.largeOnce, hlive ▸ hi.liveOnce, ?_, ?_, ?_⟩
  · rw [howned, hmem]
    exact hi.slabRange
  · rw [hlarge, hmem]
    exact hi.largeRange
  · rw [hlarge, howned]
    exact hi.largeApart
  · intro b hb
    rw [hlive] at hb
    exact (hi.live b hb).imp (fun hc => hc.mono (fun s hs => howned ▸ hs) hbits)
      fun hl => hl.mono fun g hg => hlarge ▸ hg
  · intro u a hu
    rw [hlive]
    exact hi.held u a (hholds.mp hu)
  · exact fun u v a hu hv => hi.heldOnce u v a (hholds.mp hu) (hholds.mp hv)

theorem give_holds (h : Heap) (a : Nat) (size : UInt64) {u : Holder} {a' : Nat} :
    (h.give a size).Holds u a' ↔ h.Holds u a' :=
  SameRest.holds ⟨rfl, rfl, rfl, rfl, rfl⟩

/-- A block that is not in use is given out. -/
theorem Heap.Inv.give {a : Nat} {size : UInt64} (hi : h.Inv out) (hnew : ∀ b ∈ h.live, b.addr ≠ a)
    (hblock : h.IsChunk ⟨a, size⟩ ∨ h.IsLarge ⟨a, size⟩) : (h.give a size).Inv out := by
  refine ⟨hi.ranges, hi.filed.congr rfl rfl rfl, hi.slabRange, hi.largeRange, hi.largeApart,
    hi.largeOnce, ?_, ?_, fun u a' hu => ?_, fun u v a' hu hv => hi.heldOnce u v a' ?_ ?_⟩
  · refine List.nodup_cons.mpr ⟨fun hmem => ?_, hi.liveOnce⟩
    obtain ⟨b, hb, heq⟩ := List.mem_map.mp hmem
    exact hnew b hb heq
  · intro b hb
    rcases List.mem_cons.mp hb with rfl | hb
    · exact hblock
    · exact hi.live b hb
  · obtain ⟨b, hb, haddr⟩ := hi.held u a' ((give_holds h a size).mp hu)
    exact ⟨b, List.mem_cons_of_mem _ hb, haddr⟩
  · exact (give_holds h a size).mp hu
  · exact (give_holds h a size).mp hv

/-- A chunk that is free is no block in use. -/
theorem Heap.Inv.chunk_new (hi : h.Inv out) (hs : s ∈ h.owned) (hk : k < numChunksPerSlab s.2)
    (hbit : bit (h.slabs s.1).bitmap k = false) :
    ∀ b ∈ h.live, b.addr ≠ s.1 + chunkOffset s.2 k := by
  intro b hb haddr
  rcases hi.live b hb with ⟨t, ht, l, hl, haddr', hbit', -⟩ | ⟨-, g, hg, haddr', -⟩
  · obtain ⟨rfl, rfl⟩ := hi.chunk_inj hs ht hk hl (haddr.symm.trans haddr')
    rw [hbit] at hbit'
    cases hbit'
  · obtain ⟨r, hr, -, hstart, -⟩ := hi.largeRange g hg
    have hal := Nat.mod_eq_zero_of_dvd (hi.ranges.wf r hr).aligned
    obtain ⟨hmod, hpos⟩ := chunk_mod (hi.slab_aligned hs) hk
    rw [hstart, haddr', haddr] at hal
    omega

/-- **A chunk is taken from a slab that is not full.** -/
theorem Heap.Inv.takeChunk {slab : Nat} {size : UInt64} (hi : h.Inv (some (slab, i)))
    (hfree : (h.slabs slab).allocationCount < numChunksPerSlab i) (hsize : slabIdx size = some i) :
    ∃ a h', h.takeChunk slab i size = .ok (a, h') ∧ h'.Inv none ∧ SameRest h h' ∧ h'.mem = h.mem ∧
      h'.live = ⟨a, size⟩ :: h.live ∧ (∀ j, h'.lists (.free, j) = h.lists (.free, j)) ∧
      (h'.slabs slab).allocationCount = (h.slabs slab).allocationCount + 1 ∧
      ∀ b ∈ h.live, b.addr ≠ a := by
  obtain ⟨howned, hlist, hok⟩ := hi.filed.out _ rfl
  obtain ⟨k, hk, hbit, halloc⟩ := allocateChunk_spec hok hfree
  -- the header with one more bit
  obtain ⟨header, hheader⟩ : ∃ header : SlabHeader, header = { h.slabs slab with
      bitmap := setBit (h.slabs slab).bitmap k
      allocationCount := (h.slabs slab).allocationCount + 1 } := ⟨_, rfl⟩
  have hok' : header.Ok i := hheader ▸ hok.allocate hk hbit
  have hlist' : header.listObj = none := by rw [hheader]; exact hlist
  have hcount : header.allocationCount = (h.slabs slab).allocationCount + 1 := by rw [hheader]
  have hset : ∀ j, bit header.bitmap j = (decide (j = k) || bit (h.slabs slab).bitmap j) := by
    intro j
    rw [hheader]
    exact bit_setBit
  have hslab : (h.setHeader slab header).slabs slab = header := update_self ..
  have hi₁ : (h.setHeader slab header).Inv (some (slab, i)) := by
    refine hi.refile (hi.filed.setHeader hlist' hok') ⟨rfl, rfl, rfl, rfl, rfl⟩ rfl ?_
    intro s hs j hj
    by_cases heq : s.1 = slab
    · rw [heq] at hj ⊢
      rw [hslab, hset, hj, Bool.or_true]
    · rw [Heap.setHeader]
      dsimp only
      rw [update_of_ne heq]
      exact hj
  -- the slab in the list it belongs to
  obtain ⟨full, hfull⟩ : ∃ full, full = (header.allocationCount == numChunksPerSlab i) := ⟨_, rfl⟩
  have hisFull : slabIsFull i header = some full := by
    rw [slabIsFull, if_pos hok'.count_le, hfull]
  obtain ⟨l, hl⟩ : ∃ l : SlabList × SlabIdx, l = (if full then .full else .partly, i) := ⟨_, rfl⟩
  have hnotFree : l.1 ≠ .free := by
    rw [hl]
    cases full with
    | true => exact fun hcase => (by cases hcase)
    | false => exact fun hcase => (by cases hcase)
  have hmatches : Matches l ((h.setHeader slab header).slabs slab).allocationCount := by
    have hle := hok'.count_le
    rw [hslab, hl]
    cases full with
    | true => exact beq_iff_eq.mp hfull.symm
    | false =>
        have hne : header.allocationCount ≠ numChunksPerSlab i := beq_eq_false_iff_ne.mp hfull.symm
        change 0 < _ ∧ _ < numChunksPerSlab i
        omega
  have hfiled₂ : ((h.setHeader slab header).addHead l slab).Filed none :=
    hi₁.filed.fileSlab (by rw [hl]) (.refl _) hmatches fun hfree' => absurd hfree' hnotFree
  have hbits₂ : ∀ s j, bit (((h.setHeader slab header).addHead l slab).slabs s).bitmap j =
      bit ((h.setHeader slab header).slabs s).bitmap j := by
    intro s j
    rw [Heap.addHead, (fileSlab_bits s).2]
  have hi₂ : ((h.setHeader slab header).addHead l slab).Inv none :=
    hi₁.refile hfiled₂ ⟨rfl, rfl, rfl, rfl, rfl⟩ rfl fun s _ j hj => (hbits₂ s.1 j).trans hj
  have hnew := hi.chunk_new howned hk hbit
  refine ⟨slab + chunkOffset i k, _, ?_, hi₂.give hnew (.inl ⟨(slab, i), howned, k, hk, rfl, ?_, hsize⟩),
    ⟨rfl, rfl, rfl, rfl, rfl⟩, rfl, rfl, fun j => ?_, ?_, hnew⟩
  · simp only [Heap.takeChunk, halloc, ← hheader, orPanic_some, ok_bind, hisFull, hl]
    rfl
  · rw [hbits₂, hslab, hset]
    simp
  · change update h.lists l _ (.free, j) = _
    rw [update_of_ne fun heq => hnotFree (congrArg Prod.fst heq.symm)]
  · change (update (h.setHeader slab header).slabs slab _ slab).allocationCount = _
    rw [update_self, hslab, hcount]

end

end Azalea.Klib
