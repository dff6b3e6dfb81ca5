import Azalea.Klib.HeapBits
import Azalea.Klib.HeapRuns

/-!
# Klib — what kfree releases

`kfree` of a chunk looks up the slab, its list and the bit, and then changes them: `findChunk` is the first
part, with its assertions, and `clearChunk` the second one.

- `kfreeChunk_cases`: for a chunk whose bit is set, what the second part changes, and where it may stop.
- `findChunk_free`: for a chunk whose bit is not set, the first part stops.
- `kfree_releases_block`: both, for every state between calls.
-/

namespace Azalea.Klib
open Azalea.Bitmaps Azalea.Halts Azalea.Mem Azalea.Runs Azalea.Tiling Function VmmRangeData

/-! ### The two parts -/

/-- What `kfree` finds out about a chunk: its slab, the size, whether the slab is in the list of the full
ones, and the index. -/
structure FoundChunk where
  slab : Nat
  i : SlabIdx
  slabWasFull : Bool
  k : Nat

/-- The assertions about a chunk of a slab that was found in a list. -/
def Heap.checkChunk (slab : Nat) (i : SlabIdx) (slabWasFull : Bool) (memBlock : Nat) (h : Heap) :
    Res FoundChunk :=
  let k := chunkIdx i (memBlock - slab)
  if k < numChunksPerSlab i then
    if (h.slabs slab).bitmap (k / 64) &&& 1#64 <<< (63 - k % 64) ≠ 0 then .ok ⟨slab, i, slabWasFull, k⟩
    else .error .panic
  else .error .panic

/-- `kfree`, for a chunk, as far as nothing is changed. -/
def Heap.findChunk (memBlock : Nat) (h : Heap) : Res FoundChunk :=
  let slab := memBlock - memBlock % sizeOfPage
  match (h.slabs slab).listObj with
  | some (.partly, i) => h.checkChunk slab i false memBlock
  | some (.full, i) => h.checkChunk slab i true memBlock
  | _ => .error .panic

/-- `kfree`, for a chunk, from the first change on. -/
def Heap.clearChunk (c : FoundChunk) (h : Heap) : Res Heap :=
  let header := { h.slabs c.slab with
    bitmap := update (h.slabs c.slab).bitmap (c.k / 64)
      ((h.slabs c.slab).bitmap (c.k / 64) ^^^ 1#64 <<< (63 - c.k % 64))
    allocationCount := (h.slabs c.slab).allocationCount - 1 }
  let h := { h with slabs := update h.slabs c.slab header }
  if header.allocationCount = 0 then do
    let h ← orPanic (h.removeSlab c.slab)
    h.retireSlab c.slab c.i
  else if c.slabWasFull then do
    let h ← orPanic (h.removeSlab c.slab)
    .ok (h.addTail (.partly, c.i) c.slab)
  else .ok h

section
variable {h h' : Heap} {s t : Nat × SlabIdx} {k a slab : Nat} {i : SlabIdx} {b : Block} {wasFull : Bool}

theorem freeFrom_eq : h.freeFrom slab i wasFull a = h.checkChunk slab i wasFull a >>= fun c => h.clearChunk c := by
  rw [Heap.freeFrom, Heap.checkChunk, freeChunk]
  by_cases hk : chunkIdx i (a - slab) < numChunksPerSlab i
  · rw [if_pos hk, if_pos hk]
    by_cases hbit : (h.slabs slab).bitmap (chunkIdx i (a - slab) / 64) &&&
        1#64 <<< (63 - chunkIdx i (a - slab) % 64) ≠ 0
    · rw [if_pos hbit, if_pos hbit]
      rfl
    · rw [if_neg hbit, if_neg hbit]
      rfl
  · rw [if_neg hk, if_neg hk]
    rfl

theorem kfreeChunk_eq : kfreeChunk a h = h.findChunk a >>= fun c => h.clearChunk c := by
  rw [kfreeChunk, Heap.findChunk]
  cases (h.slabs (a - a % sizeOfPage)).listObj with
  | none => rfl
  | some l =>
      obtain ⟨w, i⟩ := l
      cases w with
      | free => rfl
      | partly => exact freeFrom_eq
      | full => exact freeFrom_eq

/-- `kfree`, for an address that is not on a page: nothing is changed before all is found out. -/
theorem kfree_eq (ha : h.allocator = .initialized) (hmod : a % sizeOfPage ≠ 0) :
    kfree a h = h.findChunk a >>= fun c => (h.drop a).clearChunk c := by
  rw [kfree, if_neg (not_not.mpr ha), if_neg hmod, kfreeChunk_eq]
  rfl

/-! ### A chunk in use -/

/-- A slab whose last chunk is given back is given back too, where there are free ones enough, and the pages
cannot be deallocated. -/
structure Heap.CannotRetire (h : Heap) (s : Nat × SlabIdx) (mem : KernelMem) : Prop where
  last : (h.slabs s.1).allocationCount = 1
  enough : maxFreeSlabs ≤ (h.lists (.free, s.2)).length
  stops : memDeallocatePages (UInt64.ofNat s.1) 1 h.context mem = none

/-- The bit of a chunk and the count of its slab change by one, and nothing else in any slab but for the list
that this slab is in; a slab is given back only if it has no chunk in use any more. -/
structure Heap.ChunkReleased (h : Heap) (s : Nat × SlabIdx) (k : Nat) (h' : Heap) : Prop where
  slab : s ∈ h.owned
  chunk : k < numChunksPerSlab s.2
  wasSet : bit (h.slabs s.1).bitmap k = true
  bitmap : (h'.slabs s.1).bitmap = clearBit (h.slabs s.1).bitmap k
  count : (h'.slabs s.1).allocationCount + 1 = (h.slabs s.1).allocationCount
  others : ∀ t, t ≠ s.1 → h'.slabs t = h.slabs t
  owned : ∀ t ∈ h.owned, t ∈ h'.owned ∨ t = s ∧ (h'.slabs s.1).allocationCount = 0

/-- The slab is put in a list. -/
theorem Heap.ChunkReleased.addTail {l : SlabList × SlabIdx} (hc : h.ChunkReleased s k h') :
    h.ChunkReleased s k (h'.addTail l s.1) := by
  obtain ⟨hslab, hk, hbit, hbitmap, hcount, hothers, howned⟩ := hc
  obtain ⟨hcount', hbitmap'⟩ := @fileSlab_bits h' l s.1 (h'.lists l ++ [s.1]) s.1
  refine ⟨hslab, hk, hbit, hbitmap'.trans hbitmap, (congrArg (· + 1) hcount').trans hcount,
    fun t ht => ?_, fun t ht => (howned t ht).imp_right fun h => ⟨h.1, hcount'.trans h.2⟩⟩
  exact (update_of_ne ht ..).trans (hothers t ht)

/-- The slab is out of its list, with one bit less. -/
theorem Heap.Inv.unfile_released {l : SlabList × SlabIdx} (hi : h.Inv none) (hmem : slab ∈ h.lists l)
    (hk : k < numChunksPerSlab l.2) (hbit : bit (h.slabs slab).bitmap k = true) :
    ∃ h₁, (h.setHeader slab ((h.slabs slab).freed k)).removeSlab slab = some h₁ ∧
      h.ChunkReleased (slab, l.2) k h₁ ∧ h₁.mem = h.mem ∧ h₁.context = h.context ∧ h₁.live = h.live ∧
      h₁.largeAllocations = h.largeAllocations ∧
      ∀ l', l' ≠ l → h₁.lists l' = h.lists l' := by
  obtain ⟨hlist, hslab, -⟩ := hi.filed.header l slab hmem
  have hpos := hslab.count_pos hk hbit
  refine ⟨_, Heap.removeSlab_setHeader hlist, ?_, rfl, rfl, rfl, rfl, fun l' hl => update_of_ne hl ..⟩
  have hself : ((h.unfile l slab).setHeader slab { (h.slabs slab).freed k with listObj := none }).slabs slab
      = { (h.slabs slab).freed k with listObj := none } := update_self ..
  refine ⟨hi.filed.listed l slab hmem, hk, hbit, ?_, ?_, fun t ht => ?_, fun t ht => .inl ht⟩
  · dsimp only
    rw [hself]
    rfl
  · dsimp only
    rw [hself, SlabHeader.freed]
    exact Nat.sub_add_cancel hpos
  · exact (update_of_ne ht ..).trans (update_of_ne ht ..)

theorem freeFrom_freed (hk : k < numChunksPerSlab i) (hbit : bit (h.slabs slab).bitmap k = true) :
    h.freeFrom slab i wasFull (slab + chunkOffset i k) =
      if (h.slabs slab).allocationCount - 1 = 0 then
        orPanic ((h.setHeader slab ((h.slabs slab).freed k)).removeSlab slab) >>= fun h =>
          h.retireSlab slab i
      else if wasFull then
        orPanic ((h.setHeader slab ((h.slabs slab).freed k)).removeSlab slab) >>= fun h =>
          .ok (h.addTail (.partly, i) slab)
      else .ok (h.setHeader slab ((h.slabs slab).freed k)) := by
  rw [Heap.freeFrom, Nat.add_sub_cancel_left, chunkIdx_chunkOffset hk, freeChunk_spec hk hbit, orPanic_some,
    ok_bind]
  rfl

/-- **A chunk is given back** to the slab that it is found in, unless pages cannot be deallocated. -/
theorem Heap.Inv.freeFrom_cases {l : SlabList × SlabIdx} (hi : h.Inv none) (hmem : slab ∈ h.lists l)
    (hw : l.1 ≠ .free) (hk : k < numChunksPerSlab l.2) (hbit : bit (h.slabs slab).bitmap k = true) :
    (∃ h', h.freeFrom slab l.2 wasFull (slab + chunkOffset l.2 k) = .ok h' ∧
        h.ChunkReleased (slab, l.2) k h' ∧ h'.live = h.live ∧
        h'.largeAllocations = h.largeAllocations) ∨
      h.freeFrom slab l.2 wasFull (slab + chunkOffset l.2 k) = .error .panic ∧
        h.CannotRetire (slab, l.2) h.mem := by
  obtain ⟨-, hslab, -⟩ := hi.filed.header l slab hmem
  have hpos := hslab.count_pos hk hbit
  obtain ⟨h₁, hremove, hrel, hmem₁, hcontext₁, hlive₁, hlarge₁, hlists₁⟩ := hi.unfile_released hmem hk hbit
  have hcount₁ : (h₁.slabs slab).allocationCount + 1 = (h.slabs slab).allocationCount := hrel.count
  have hfree : h₁.lists (.free, l.2) = h.lists (.free, l.2) :=
    hlists₁ _ fun heq => hw (congrArg Prod.fst heq).symm
  rw [freeFrom_freed hk hbit, hremove, orPanic_some, ok_bind, ok_bind]
  by_cases hzero : (h.slabs slab).allocationCount - 1 = 0
  · rw [if_pos hzero, Heap.retireSlab, hfree, hcontext₁, hmem₁]
    by_cases henough : (h.lists (.free, l.2)).length ≥ maxFreeSlabs
    · rw [if_pos henough]
      cases hdealloc : memDeallocatePages (UInt64.ofNat slab) 1 h.context h.mem with
      | none => exact .inr ⟨rfl, by dsimp only; omega, henough, hdealloc⟩
      | some mem =>
          refine .inl ⟨_, rfl, ⟨hrel.slab, hk, hbit, hrel.bitmap, hrel.count, hrel.others, fun t ht => ?_⟩,
            hlive₁, hlarge₁⟩
          by_cases heq : t.1 = slab
          · refine .inr ⟨owned_inj hi.filed.once ht hrel.slab heq, ?_⟩
            dsimp only
            omega
          · refine .inl (List.mem_filter.mpr ⟨(hrel.owned t ht).resolve_right fun hcase => heq ?_, ?_⟩)
            · exact congrArg Prod.fst hcase.1
            · exact decide_eq_true heq
    · rw [if_neg henough]
      exact .inl ⟨_, rfl, hrel.addTail, hlive₁, hlarge₁⟩
  · rw [if_neg hzero]
    cases wasFull with
    | true => exact .inl ⟨_, rfl, hrel.addTail, hlive₁, hlarge₁⟩
    | false =>
        have hself : (h.setHeader slab ((h.slabs slab).freed k)).slabs slab = (h.slabs slab).freed k :=
          update_self ..
        refine .inl ⟨_, rfl, ⟨hrel.slab, hk, hbit, ?_, ?_, fun t ht => update_of_ne ht ..,
          fun t ht => .inl ht⟩, rfl, rfl⟩
        · dsimp only
          rw [hself]
          rfl
        · dsimp only
          rw [hself]
          exact Nat.sub_add_cancel hpos

/-- The slab of a chunk is found from its address. -/
theorem Heap.Inv.slab_of_chunk (hi : h.Inv none) (hs : s ∈ h.owned) (hk : k < numChunksPerSlab s.2) :
    s.1 + chunkOffset s.2 k - (s.1 + chunkOffset s.2 k) % sizeOfPage = s.1 := by
  have hmod := (chunk_mod (hi.slab_aligned hs) hk).1
  change _ - _ % 2097152 = _
  omega

/-- **`kfree`, for a chunk whose bit is set.** -/
theorem Heap.Inv.kfreeChunk_cases (hi : h.Inv none) (hs : s ∈ h.owned) (hk : k < numChunksPerSlab s.2)
    (hbit : bit (h.slabs s.1).bitmap k = true) :
    (∃ h', kfreeChunk (s.1 + chunkOffset s.2 k) h = .ok h' ∧ h.ChunkReleased s k h' ∧
        h'.live = h.live ∧ h'.largeAllocations = h.largeAllocations) ∨
      kfreeChunk (s.1 + chunkOffset s.2 k) h = .error .panic ∧ h.CannotRetire s h.mem := by
  obtain ⟨slab, i⟩ := s
  obtain hout | ⟨w, hw⟩ := hi.filed.filed _ hs
  · cases hout
  obtain ⟨hlist, hslab, hmatches⟩ := hi.filed.header _ _ hw
  have hfrom : ∀ wasFull, w ≠ .free →
      kfreeChunk (slab + chunkOffset i k) h = h.freeFrom slab i wasFull (slab + chunkOffset i k) → _ :=
    fun wasFull hne heq => heq ▸ @Heap.Inv.freeFrom_cases _ _ _ wasFull _ hi hw hne hk hbit
  have hslab' := hi.slab_of_chunk hs hk
  dsimp only at hslab' hlist
  cases w with
  | free => exact absurd hmatches (hslab.count_pos hk hbit).ne'
  | partly => exact hfrom false (by decide) (by rw [kfreeChunk, hslab', hlist])
  | full => exact hfrom true (by decide) (by rw [kfreeChunk, hslab', hlist])

/-- **`kfree`, for a chunk whose bit is not set**: it stops in the first part. -/
theorem Heap.Inv.findChunk_free (hi : h.Inv none) (hs : s ∈ h.owned) (hk : k < numChunksPerSlab s.2)
    (hbit : bit (h.slabs s.1).bitmap k = false) :
    h.findChunk (s.1 + chunkOffset s.2 k) = .error .panic := by
  have hcheck : ∀ wasFull, h.checkChunk s.1 s.2 wasFull (s.1 + chunkOffset s.2 k) = .error .panic := by
    intro wasFull
    have hlt : k % 64 < 64 := Nat.mod_lt _ (by decide)
    have hclear : ¬ (h.slabs s.1).bitmap (k / 64) &&& 1#64 <<< (63 - k % 64) ≠ 0 := by
      rw [not_not, ← mask_eq_shiftLeft hlt, and_mask_eq_zero hlt]
      exact hbit
    rw [Heap.checkChunk, Nat.add_sub_cancel_left, chunkIdx_chunkOffset hk, if_pos hk, if_neg hclear]
  obtain hout | ⟨w, hw⟩ := hi.filed.filed s hs
  · cases hout
  rw [Heap.findChunk, hi.slab_of_chunk hs hk, (hi.filed.header _ _ hw).1]
  cases w with
  | free => rfl
  | partly => exact hcheck false
  | full => exact hcheck true

end

/-! ### A block in use -/

/-- **What `kfree` releases**: the block, and nothing else but for the node that `large_allocations` has for
it, if it is a large one. -/
structure Heap.Releases (h : Heap) (b : Block) (h' : Heap) : Prop where
  gone : b ∉ h'.live
  kept : ∀ b' ∈ h.live, b' ≠ b → ¬ h.Holds (.node b.addr) b'.addr →
    b' ∈ h'.live ∧ (h'.IsChunk b' ∨ h'.IsLarge b')
  chunk : slabIdx b.size ≠ none → h'.largeAllocations = h.largeAllocations ∧
    ∃ s k, b.addr = s.1 + chunkOffset s.2 k ∧ h.ChunkReleased s k h'
  large : slabIdx b.size = none → ∃ g ∈ h.largeAllocations, g.addr = b.addr ∧
    h'.largeAllocations = h.largeAllocations.erase g ∧
      ∃ s k, g.node = s.1 + chunkOffset s.2 k ∧ h.ChunkReleased s k h'

/-- Where `kfree` of a block in use can stop: pages are given back, of the slab, of the large allocation or of
the slab of its node, and `mem_deallocate_pages` stops. -/
inductive Heap.DeallocStops (h : Heap) (b : Block) : Prop where
  | slab (s : Nat × SlabIdx) (k : Nat) (addr : b.addr = s.1 + chunkOffset s.2 k)
      (stops : h.CannotRetire s h.mem)
  | pages (g : LargeAllocation) (entry : g ∈ h.largeAllocations) (addr : g.addr = b.addr)
      (stops : memDeallocatePages (UInt64.ofNat b.addr) g.pages h.context h.mem = none)
  | node (g : LargeAllocation) (entry : g ∈ h.largeAllocations) (addr : g.addr = b.addr)
      (s : Nat × SlabIdx) (k : Nat) (node : g.node = s.1 + chunkOffset s.2 k) (mem : KernelMem)
      (pages : memDeallocatePages (UInt64.ofNat b.addr) g.pages h.context h.mem = some mem)
      (stops : h.CannotRetire s mem)

section
variable {h h' : Heap} {b : Block}

/-- The entry of a large allocation is found. -/
theorem Heap.Inv.find_large (hi : h.Inv none) {g : LargeAllocation} (hg : g ∈ h.largeAllocations)
    (haddr : g.addr = b.addr) : h.largeAllocations.find? (·.addr = b.addr) = some g := by
  cases hf : h.largeAllocations.find? (·.addr = b.addr) with
  | none => exact absurd haddr (by simpa using List.find?_eq_none.mp hf g hg)
  | some g' =>
      have haddr' : g'.addr = b.addr := by simpa using List.find?_some hf
      exact congrArg some (List.inj_on_of_nodup_map hi.largeOnce (List.mem_of_find?_eq_some hf) hg
        (haddr'.trans haddr.symm))

/-- A chunk is freed. -/
theorem Heap.Inv.kfree_chunk_cases (hi : h.Inv none) (ha : h.allocator = .initialized) (hb : b ∈ h.live)
    (hsize : slabIdx b.size ≠ none) (hunheld : ∀ u, ¬ h.Holds u b.addr) :
    (∃ h', kfree b.addr h = .ok h' ∧ h.Releases b h') ∨
      kfree b.addr h = .error .panic ∧ h.DeallocStops b := by
  have hmod : ¬ b.addr % sizeOfPage = 0 := fun hmod => hsize ((hi.addr_mod hb).mp hmod)
  have hkfree : kfree b.addr h = kfreeChunk b.addr (h.drop b.addr) := by
    rw [kfree, if_neg (not_not.mpr ha), if_neg hmod]
  obtain ⟨s, hs, k, hk, haddr, hbit, -⟩ := hi.isChunk hb hsize
  rcases (hi.drop hunheld).kfreeChunk_cases hs hk hbit with ⟨h', hok, hrel, hlive, hlarge⟩ | ⟨hpanic, hstops⟩
  · rw [← haddr] at hok
    have hspec := kfree_ok hi hb hunheld (hkfree.trans hok)
    refine .inl ⟨h', hkfree.trans hok, hspec.gone, fun b' hb' hne _ => ?_,
      fun _ => ⟨hlarge, s, k, haddr, ?_⟩, fun hnone => absurd hnone hsize⟩
    · have hmem : b' ∈ h'.live := by
        rw [hlive]
        exact mem_drop.mpr ⟨hb', fun heq => hne (hi.live_inj hb' hb heq)⟩
      exact ⟨hmem, hspec.inv.live b' hmem⟩
    · exact ⟨hrel.slab, hrel.chunk, hrel.wasSet, hrel.bitmap, hrel.count, hrel.others, hrel.owned⟩
  · rw [← haddr] at hpanic
    exact .inr ⟨hkfree.trans hpanic, .slab s k haddr ⟨hstops.last, hstops.enough, hstops.stops⟩⟩

/-- A large allocation is freed. -/
theorem Heap.Inv.kfree_large_cases (hi : h.Inv none) (ha : h.allocator = .initialized) (hb : b ∈ h.live)
    (hsize : slabIdx b.size = none) (hunheld : ∀ u, ¬ h.Holds u b.addr) :
    (∃ h', kfree b.addr h = .ok h' ∧ h.Releases b h') ∨
      kfree b.addr h = .error .panic ∧ h.DeallocStops b := by
  have hmod : b.addr % sizeOfPage = 0 := (hi.addr_mod hb).mpr hsize
  obtain ⟨-, g, hg, haddr, -⟩ := (hi.live b hb).resolve_left fun ⟨s, _, _, _, _, _, hsome⟩ =>
    (by rw [hsize] at hsome; cases hsome)
  have hkfree : kfree b.addr h = (do
      let mem ← orPanic (memDeallocatePages (UInt64.ofNat b.addr) g.pages h.context h.mem)
      let h := { h with mem := mem, largeAllocations := h.largeAllocations.erase g }
      kfreeChunk g.node ((h.drop b.addr).drop g.node)) := by
    rw [kfree, if_neg (not_not.mpr ha), if_pos hmod, hi.find_large hg haddr]
    rfl
  cases hdealloc : memDeallocatePages (UInt64.ofNat b.addr) g.pages h.context h.mem with
  | none => exact .inr ⟨by rw [hkfree, hdealloc]; rfl, .pages g hg haddr hdealloc⟩
  | some mem =>
      rw [hdealloc, orPanic_some, ok_bind] at hkfree
      have hranges := memDeallocatePages_ranges hdealloc
      have hnode : h.Holds (.node g.addr) g.node := ⟨g, hg, rfl, rfl⟩
      -- the entry goes, and then nothing is kept in its node
      obtain ⟨hi₁, hheld⟩ := (hi.drop hunheld).erase hg hranges
        fun b' hb' => haddr ▸ (mem_drop.mp hb').2
      have hunheld₁ : ∀ u, ¬ Heap.Holds { h.drop b.addr with
          mem := mem, largeAllocations := h.largeAllocations.erase g } u g.node := by
        intro u hu
        obtain ⟨hu', hne⟩ := hheld hu
        refine hne (hi.heldOnce u _ _ ?_ hnode)
        cases u <;> exact hu'
      obtain ⟨bn, hbn, hnaddr, hnsize⟩ := (hi.drop hunheld).held (.node g.addr) g.node hnode
      obtain ⟨s, hs, k, hk, hsaddr, hbit, -⟩ := hi₁.isChunk hbn hnsize
      rw [hnaddr] at hsaddr
      rcases (hi₁.drop hunheld₁).kfreeChunk_cases hs hk hbit with
        ⟨h', hok, hrel, hlive, hlarge⟩ | ⟨hpanic, hstops⟩
      · rw [← hsaddr] at hok
        have hspec := kfree_ok hi hb hunheld (hkfree.trans hok)
        refine .inl ⟨h', hkfree.trans hok, hspec.gone, fun b' hb' hne hnot => ?_,
          fun hsome => absurd hsize hsome, fun _ => ⟨g, hg, haddr, hlarge, s, k, hsaddr, ?_⟩⟩
        · have hmem : b' ∈ h'.live := by
            rw [hlive]
            refine mem_drop.mpr ⟨mem_drop.mpr ⟨hb', fun heq => hne (hi.live_inj hb' hb heq)⟩, fun heq => ?_⟩
            exact hnot ⟨g, hg, haddr, heq.symm⟩
          exact ⟨hmem, hspec.inv.live b' hmem⟩
        · exact ⟨hrel.slab, hrel.chunk, hrel.wasSet, hrel.bitmap, hrel.count, hrel.others, hrel.owned⟩
      · rw [← hsaddr] at hpanic
        exact .inr ⟨hkfree.trans hpanic,
          .node g hg haddr s k hsaddr mem hdealloc ⟨hstops.last, hstops.enough, hstops.stops⟩⟩

/-- **`kfree`, for a block in use.** -/
theorem Heap.Inv.kfree_cases (hi : h.Inv none) (ha : h.allocator = .initialized) (hb : b ∈ h.live)
    (hunheld : ∀ u, ¬ h.Holds u b.addr) :
    (∃ h', kfree b.addr h = .ok h' ∧ h.Releases b h') ∨
      kfree b.addr h = .error .panic ∧ h.DeallocStops b := by
  by_cases hsize : slabIdx b.size = none
  · exact hi.kfree_large_cases ha hb hsize hunheld
  · exact hi.kfree_chunk_cases ha hb hsize hunheld

/-- One chunk is given back, and the blocks of other chunks stay in use. -/
theorem Heap.Releases.released (hr : h.Releases b h') (hi : h.Inv none) (hb : b ∈ h.live) :
    ∃ s k, h.ChunkReleased s k h' ∧ ∀ b' ∈ h.live, b'.addr % sizeOfPage ≠ 0 →
      b'.addr ≠ s.1 + chunkOffset s.2 k → b' ∈ h'.live := by
  by_cases hsize : slabIdx b.size = none
  · obtain ⟨g, hg, haddr, -, s, k, hnode, hrel⟩ := hr.large hsize
    refine ⟨s, k, hrel, fun b' hb' hmod hne => (hr.kept b' hb' ?_ ?_).1⟩
    · rintro rfl
      exact hmod ((hi.addr_mod hb).mpr hsize)
    · rintro ⟨g', hg', haddr', hnode'⟩
      obtain rfl : g' = g := List.inj_on_of_nodup_map hi.largeOnce hg' hg (haddr'.trans haddr.symm)
      exact hne (hnode'.symm.trans hnode)
  · obtain ⟨-, s, k, haddr, hrel⟩ := hr.chunk hsize
    refine ⟨s, k, hrel, fun b' hb' hmod hne => (hr.kept b' hb' ?_ ?_).1⟩
    · rintro rfl
      exact hne haddr
    · rintro ⟨g, hg, haddr', -⟩
      obtain ⟨r, hrange, -, hstart, -⟩ := hi.largeRange g hg
      have hal := Nat.mod_eq_zero_of_dvd (hi.ranges.wf r hrange).aligned
      rw [hstart, haddr'] at hal
      exact hsize ((hi.addr_mod hb).mp hal)

/-- **Every bit that is set is still that of a block in use.** -/
theorem Heap.Releases.bitsLive (hr : h.Releases b h') (hi : h.Inv none) (hb : b ∈ h.live)
    (howned : ∀ t ∈ h'.owned, t ∈ h.owned) (hbits : h.BitsLive) : h'.BitsLive := by
  obtain ⟨s, k, hrel, hkept⟩ := hr.released hi hb
  intro t ht j hj hset
  have hset' : bit (h.slabs t.1).bitmap j = true ∧ (t.1 = s.1 → j ≠ k) := by
    by_cases heq : t.1 = s.1
    · rw [heq, hrel.bitmap, bit_clearBit, Bool.and_eq_true, decide_eq_true_eq] at hset
      exact ⟨heq ▸ hset.2, fun _ => hset.1⟩
    · rw [hrel.others t.1 heq] at hset
      exact ⟨hset, fun hcase => absurd hcase heq⟩
  obtain ⟨b', hb', haddr⟩ := hbits t (howned t ht) j hj hset'.1
  have hmod := chunk_mod (hi.slab_aligned (howned t ht)) hj
  refine ⟨b', hkept b' hb' ?_ fun heq => ?_, haddr⟩
  · rw [haddr]
    exact fun hzero => hmod.2.ne' (hmod.1.symm.trans hzero)
  · -- the same chunk of the same slab
    rw [haddr] at heq
    have hmods := chunk_mod (hi.slab_aligned hrel.slab) hrel.chunk
    have hoff : chunkOffset t.2 j = chunkOffset s.2 k := by rw [← hmod.1, ← hmods.1, heq]
    have hslab : t.1 = s.1 := by omega
    obtain rfl := owned_inj hi.filed.once (howned t ht) hrel.slab hslab
    refine hset'.2 rfl ?_
    rw [← chunkIdx_chunkOffset hj, ← chunkIdx_chunkOffset hrel.chunk, hoff]

end

/-! ### Runs -/

section
variable {s s' : HeapRun} {op : HeapOp} {ranges : List VmmRangeData} {mapping : Mapping}
  {slabs : Nat → SlabHeader} {context : Nat}

/-- The invariant, with all bits. -/
def HeapRun.Kept (s : HeapRun) : Prop := s.Inv ∧ s.heap.BitsLive

theorem HeapRun.Kept.step (hs : s.Kept) (howns : s.Owns op) (hstep : s.step op = some s') : s'.Kept := by
  refine ⟨hs.1.step howns hstep, ?_⟩
  cases op with
  | kmalloc fuel size =>
      rw [HeapRun.step] at hstep
      split at hstep
      next a h hok =>
        obtain rfl := Option.some.inj hstep
        rcases hs.1.heap with ⟨hfresh, -⟩ | ⟨hinv, hinit⟩
        · exact kmalloc_boot_bits hfresh hok
        · refine kmalloc_bits fuel size s.heap a h hinv (fun hcase => ?_) hs.2 hok
          rw [hinit] at hcase
          cases hcase
      next => cases hstep
  | kfree memBlock =>
      obtain ⟨b, hb, rfl⟩ := howns
      rw [HeapRun.step] at hstep
      split at hstep
      next h hok =>
        obtain rfl := Option.some.inj hstep
        obtain ⟨hlive, hunheld⟩ := hs.1.given b hb
        rcases hs.1.heap with ⟨-, hnil⟩ | ⟨hinv, hinit⟩
        · rw [hnil] at hb
          cases hb
        · rcases hinv.kfree_cases hinit hlive hunheld with ⟨h', hok', hr⟩ | ⟨hpanic, -⟩
          · obtain rfl := Except.ok.inj (hok.symm.trans hok')
            exact hr.bitsLive hinv hlive (kfree_ok hinv hlive hunheld hok).owned hs.2
          · rw [hpanic] at hok
            cases hok
      next => cases hstep

/-- **Every state that a run reaches** has no bit set but for a block in use. -/
theorem HeapRun.reach_kept (hinit : memVmmInitialize = some ranges)
    (hreach : Reach HeapRun.step HeapRun.Owns ⟨Heap.boot ranges mapping slabs context, []⟩ s) : s.Kept :=
  Reach.invariant (I := HeapRun.Kept)
    ⟨HeapRun.reach_inv hinit .refl, (Heap.boot_fresh hinit).bitsLive⟩
    (fun _ _ _ hs howns hstep => hs.step howns hstep) hreach

end

/-- **`kfree` releases the block that it is given** in every state between calls, or `mem_deallocate_pages`
stops; and for a chunk that is not in use it stops before anything is changed. -/
theorem kfree_releases_block {ranges : List VmmRangeData} {mapping : Mapping} {slabs : Nat → SlabHeader}
    {context : Nat} {s : HeapRun} (hinit : memVmmInitialize = some ranges)
    (hreach : Reach HeapRun.step HeapRun.Owns ⟨Heap.boot ranges mapping slabs context, []⟩ s) :
    (∀ b ∈ s.given,
      (∃ h', kfree b.addr s.heap = .ok h' ∧ s.heap.Releases b h' ∧
        ∀ b' ∈ s.given, b' ≠ b → b' ∈ h'.live) ∨
      kfree b.addr s.heap = .error .panic ∧ s.heap.DeallocStops b) ∧
    ∀ t ∈ s.heap.owned, ∀ k < numChunksPerSlab t.2,
      (∀ b ∈ s.heap.live, b.addr ≠ t.1 + chunkOffset t.2 k) →
        s.heap.findChunk (t.1 + chunkOffset t.2 k) = .error .panic ∧
        kfree (t.1 + chunkOffset t.2 k) s.heap = .error .panic := by
  obtain ⟨hs, hbits⟩ := HeapRun.reach_kept hinit hreach
  have hi := hs.heapInv
  refine ⟨fun b hb => ?_, fun t ht k hk hnot => ?_⟩
  · obtain ⟨hlive, hunheld⟩ := hs.given b hb
    obtain ⟨-, hnil⟩ | ⟨-, ha⟩ := hs.heap
    · rw [hnil] at hb
      cases hb
    refine (hi.kfree_cases ha hlive hunheld).imp_left fun ⟨h', hok, hr⟩ =>
      ⟨h', hok, hr, fun b' hb' hne => ?_⟩
    obtain ⟨hlive', hunheld'⟩ := hs.given b' hb'
    exact (hr.kept b' hlive' hne (hunheld' _)).1
  · obtain ⟨hfresh, -⟩ | ⟨-, ha⟩ := hs.heap
    · rw [hfresh.owned] at ht
      cases ht
    have hfind : s.heap.findChunk (t.1 + chunkOffset t.2 k) = .error .panic := by
      refine hi.findChunk_free ht hk (Bool.eq_false_iff.mpr fun hset => ?_)
      obtain ⟨b, hb, haddr⟩ := hbits t ht k hk hset
      exact hnot b hb haddr
    have hmod := chunk_mod (hi.slab_aligned ht) hk
    refine ⟨hfind, ?_⟩
    rw [kfree_eq ha fun hzero => hmod.2.ne' (hmod.1.symm.trans hzero), hfind]
    rfl

/-- The first block is released, and its chunk is then no block. -/
theorem kfree_releases_first_block :
    ∃ ranges s₁ s₂, memVmmInitialize = some ranges ∧
      (bootRun ranges).step (.kmalloc 3 8) = some s₁ ∧
      s₁.step (.kfree 18446744073705390136) = some s₂ ∧
      (∃ b ∈ s₁.given, b.addr = 18446744073705390136 ∧ s₁.heap.Releases b s₂.heap) := by
  have hsome : (memVmmInitialize.bind fun ranges =>
      ((bootRun ranges).step (.kmalloc 3 8)).bind fun s₁ =>
        if s₁.given.map (·.addr) = [18446744073705390136] then
          (s₁.step (.kfree 18446744073705390136)).map (·.given.length)
        else none).isSome = true := by
    decide +kernel
  obtain ⟨_, hbind⟩ := Option.isSome_iff_exists.mp hsome
  obtain ⟨ranges, hinit, hbind⟩ := Option.bind_eq_some_iff.mp hbind
  obtain ⟨s₁, hs₁, hbind⟩ := Option.bind_eq_some_iff.mp hbind
  split at hbind
  next hgiven =>
    obtain ⟨s₂, hs₂, -⟩ := Option.map_eq_some_iff.mp hbind
    obtain ⟨b, hb, haddr⟩ := List.mem_map.mp (hgiven ▸ List.mem_singleton_self _)
    refine ⟨ranges, s₁, s₂, hinit, hs₁, hs₂, b, hb, haddr, ?_⟩
    rw [HeapRun.step] at hs₂
    split at hs₂
    next h hok =>
      obtain rfl := Option.some.inj hs₂
      have hreach : Reach HeapRun.step HeapRun.Owns (bootRun ranges) s₁ :=
        .step (.kmalloc 3 8) .refl trivial hs₁
      rcases (kfree_releases_block hinit hreach).1 b hb with ⟨h', hok', hr, -⟩ | ⟨hpanic, -⟩
      · rw [haddr] at hok'
        exact Except.ok.inj (hok.symm.trans hok') ▸ hr
      · rw [haddr, hok] at hpanic
        cases hpanic
    next => cases hs₂
  next => cases hbind

end Azalea.Klib
