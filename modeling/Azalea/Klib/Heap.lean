import Azalea.Klib.Slabs
import Azalea.Mem.Pages
import Azalea.Support.Runs

/-!
# Klib — the kernel's allocator and its address space

`klib/memory/memory.cpp` together with the part of `mem/virtual.cpp` that keeps its own items:
`kmalloc` asks `mem_allocate_pages` for a slab, which may split a range of the address space, for
which `mem_vmm_split_range` needs a list item and a range item, which come from `kmalloc` once the
initial ones are used up.

The recursion has no bound in the source.  Here `kmalloc` is given fuel, one unit for each `kmalloc`
that is inside of another, and halts without a value when there is none left.
-/

namespace Azalea.Klib
open Azalea.Bitmaps Azalea.Halts Azalea.Mem Function

/-- An entry of `large_allocations`, and the block its node in the map is in. -/
structure LargeAllocation where
  addr : Nat
  pages : UInt32
  node : Nat
  deriving DecidableEq

/-- `allocator_initialized` and `allocator_initializing`. -/
inductive AllocatorState where
  | uninitialized
  | initializing
  | initialized
  deriving DecidableEq

/-- A block that was asked for. -/
structure Block where
  addr : Nat
  size : UInt64
  deriving DecidableEq

/-- The allocator and the kernel's memory.

`rangeItems` has, for the range that starts at an address, the blocks that its list item and its
range item are in; none is one of the initial items.  `owned` and `live` are kept for the proofs:
the slabs that there are and the blocks that are in use. -/
structure Heap where
  mem : KernelMem
  initialListItemsUsed : Nat
  initialRangesUsed : Nat
  rangeItems : UInt64 → Option Nat × Option Nat
  lists : SlabList × SlabIdx → List Nat
  slabs : Nat → SlabHeader
  largeAllocations : List LargeAllocation
  allocator : AllocatorState
  context : Nat
  owned : List (Nat × SlabIdx)
  live : List Block

/-- `NUM_INITIAL_RANGES`. -/
def numInitialRanges : Nat := 64

/-- Other ranges. -/
def Heap.setRanges (h : Heap) (ranges : List VmmRangeData) : Heap :=
  { h with mem := { h.mem with ranges := ranges } }

/-! ### Lists of slabs -/

/-- `klib_list_remove`, for the entry of a slab. -/
def Heap.removeSlab (slab : Nat) (h : Heap) : Option Heap :=
  (h.slabs slab).listObj.map fun l =>
    { h with
      lists := update h.lists l ((h.lists l).erase slab)
      slabs := update h.slabs slab { h.slabs slab with listObj := none } }

/-- The entry of a slab is now in a list. -/
def Heap.fileSlab (l : SlabList × SlabIdx) (slab : Nat) (entries : List Nat) (h : Heap) : Heap :=
  { h with
    lists := update h.lists l entries
    slabs := update h.slabs slab { h.slabs slab with listObj := some l } }

/-- `klib_list_add_head`. -/
def Heap.addHead (l : SlabList × SlabIdx) (slab : Nat) (h : Heap) : Heap :=
  h.fileSlab l slab (slab :: h.lists l)

/-- `klib_list_add_tail`. -/
def Heap.addTail (l : SlabList × SlabIdx) (slab : Nat) (h : Heap) : Heap :=
  h.fileSlab l slab (h.lists l ++ [slab])

/-! ### The address space -/

section
variable (kmalloc : UInt64 → Heap → Res (Nat × Heap))

/-- `mem_vmm_allocate_list_item`. -/
def memVmmAllocateListItem (h : Heap) : Res (Option Nat × Heap) :=
  if h.initialListItemsUsed ≥ numInitialRanges then do
    let (item, h) ← kmalloc 32 h
    .ok (some item, h)
  else .ok (none, { h with initialListItemsUsed := h.initialListItemsUsed + 1 })

/-- `mem_vmm_allocate_range_item`. -/
def memVmmAllocateRangeItem (h : Heap) : Res (Option Nat × Heap) :=
  if h.initialRangesUsed ≥ numInitialRanges then do
    let (item, h) ← kmalloc 24 h
    .ok (some item, h)
  else .ok (none, { h with initialRangesUsed := h.initialRangesUsed + 1 })

/-- The range item at an address, where it is in the list. -/
def Heap.findRange (start : UInt64) (h : Heap) : Res (ListItem VmmRangeData) :=
  orPanic (ListItem.find (fun r => r.start == start) [] h.mem.ranges)

/-- The second half of a range is put behind it. -/
def Heap.halve (it : ListItem VmmRangeData) (items : Option Nat × Option Nat) (h : Heap) : Heap :=
  { h.setRanges (it.prev.reverse ++ it.item.firstHalf :: it.item.secondHalf :: it.next) with
    rangeItems := update h.rangeItems it.item.secondHalf.start items }

/-- `mem_vmm_split_range`, for the item of the range that starts at an address.  The items are
allocated before the range is looked at; 64 halvings are more than a range has. -/
def splitRange (start : UInt64) (numberOfPagesReqd : UInt32) : Nat → Heap → Res Heap
  | 0, _ => .error .outOfFuel
  | n + 1, h => do
      let (listItem, h) ← memVmmAllocateListItem kmalloc h
      let (rangeItem, h) ← memVmmAllocateRangeItem kmalloc h
      let it ← h.findRange start
      let h := h.halve it (listItem, rangeItem)
      if it.item.numberOfPages / 2 > numberOfPagesReqd.toUInt64 then
        splitRange start numberOfPagesReqd n h
      else .ok h

/-- The range that starts at an address is allocated, if it has the right size by now. -/
def Heap.markRange (start : UInt64) (actualNumPages : UInt32) (h : Heap) : Res Heap := do
  let it ← h.findRange start
  if it.item.numberOfPages ≠ actualNumPages.toUInt64 then .error .panic
  else .ok (h.setRanges (it.prev.reverse ++ { it.item with allocated := true } :: it.next))

/-- `mem_allocate_virtual_range`, with the items of the ranges. -/
def allocateVirtualRange (numPages : UInt32) (h : Heap) : Res (UInt64 × Heap) := do
  let selected ← orPanic (memVmmGetSuitableRange (actualNumPages numPages) h.mem.ranges)
  let h ← (if selected.item.numberOfPages ≠ (actualNumPages numPages).toUInt64 then
      splitRange kmalloc selected.item.start (actualNumPages numPages) 64 h
    else .ok h)
  let h ← h.markRange selected.item.start (actualNumPages numPages)
  .ok (selected.item.start, h)

/-- The second part of `mem_allocate_pages`: physical pages for a range. -/
def Heap.backPages (start : UInt64) (numPages : UInt32) (h : Heap) : Res Heap := do
  let mapping ← orPanic (backPagesFrom h.context numPages.toNat start.toBitVec h.mem.mapping)
  .ok { h with mem := { h.mem with mapping := mapping } }

/-- `mem_allocate_pages`. -/
def allocatePages (numPages : UInt32) (h : Heap) : Res (UInt64 × Heap) :=
  if numPages = 0 then .error .panic
  else do
    let (start, h) ← allocateVirtualRange kmalloc numPages h
    let h ← h.backPages start numPages
    .ok (start, h)

/-! ### kmalloc -/

/-- A page is a slab now. -/
def Heap.newSlab (slab : Nat) (i : SlabIdx) (h : Heap) : Heap :=
  { h with
    slabs := update h.slabs slab ((h.slabs slab).cleared i)
    owned := (slab, i) :: h.owned }

/-- `allocate_new_slab`. -/
def allocateNewSlab (i : SlabIdx) (h : Heap) : Res (Nat × Heap) := do
  let (page, h) ← allocatePages kmalloc 1 h
  .ok (page.toNat, h.newSlab page.toNat i)

/-- The slab that `kmalloc` takes a chunk from. -/
def chooseSlab (i : SlabIdx) (h : Heap) : Res (Nat × Heap) :=
  match h.lists (.partly, i) with
  | slab :: _ => do
      let h ← orPanic (h.removeSlab slab)
      .ok (slab, h)
  | [] =>
    match h.lists (.free, i) with
    | slab :: _ => do
        let h ← orPanic (h.removeSlab slab)
        .ok (slab, h)
    | [] => allocateNewSlab kmalloc i h

/-- A block is in use now. -/
def Heap.give (addr : Nat) (memSize : UInt64) (h : Heap) : Heap :=
  { h with live := ⟨addr, memSize⟩ :: h.live }

/-- A chunk is taken from a slab, and the slab is put in the list it belongs to. -/
def Heap.takeChunk (slab : Nat) (i : SlabIdx) (memSize : UInt64) (h : Heap) : Res (Nat × Heap) := do
  let (k, header) ← orPanic (allocateChunk i (h.slabs slab))
  let full ← orPanic (slabIsFull i header)
  let h := { h with slabs := update h.slabs slab header }
  let h := h.addHead (if full then .full else .partly, i) slab
  .ok (slab + chunkOffset i k, h.give (slab + chunkOffset i k) memSize)

/-- Another slab is needed soon: this one is more than 90% full, and there is no free one. -/
def Heap.needsSpare (slab : Nat) (i : SlabIdx) (h : Heap) : Prop :=
  (h.slabs slab).allocationCount * 100 / numChunksPerSlab i > 90 ∧ h.lists (.free, i) = []

instance (slab : Nat) (i : SlabIdx) (h : Heap) : Decidable (h.needsSpare slab i) :=
  inferInstanceAs (Decidable (_ ∧ _))

/-- The slab that `kmalloc` allocates in advance. -/
def preallocate (slab : Nat) (i : SlabIdx) (h : Heap) : Res Heap :=
  if h.needsSpare slab i then do
    let (new, h) ← allocateNewSlab kmalloc i h
    .ok (h.addHead (.free, i) new)
  else .ok h

/-- `kmalloc`, for a chunk. -/
def kmallocChunk (i : SlabIdx) (memSize : UInt64) (h : Heap) : Res (Nat × Heap) := do
  let (slab, h) ← chooseSlab kmalloc i h
  let (addr, h) ← h.takeChunk slab i memSize
  let h ← preallocate kmalloc slab i h
  .ok (addr, h)

/-- `large_allocations->insert`: a map does not replace an entry, and a node of it has 48 bytes. -/
def insertLarge (addr : Nat) (pages : UInt32) (h : Heap) : Res Heap :=
  if h.largeAllocations.any (·.addr == addr) then .ok h
  else do
    let (node, h) ← kmalloc 48 h
    .ok { h with largeAllocations := ⟨addr, pages, node⟩ :: h.largeAllocations }

/-- One empty slab of each size. -/
def initLists : List SlabIdx → Heap → Res Heap
  | [], h => .ok h
  | i :: is, h => do
      let h := { h with lists := fun l => if l.2 = i then [] else h.lists l }
      let (slab, h) ← allocateNewSlab kmalloc i h
      initLists is (h.addTail (.free, i) slab)

/-- `init_allocator_system`; the map has 24 bytes. -/
def initAllocatorSystem (h : Heap) : Res Heap := do
  let h ← initLists kmalloc (List.finRange 5) { h with allocator := .initializing }
  let (_, h) ← kmalloc 24 { h with allocator := .initialized }
  .ok { h with largeAllocations := [] }

/-- The first size that is large enough. -/
def slabIdx (memSize : UInt64) : Option SlabIdx :=
  (List.finRange 5).find? fun i => memSize.toNat ≤ chunkSizes i

/-- The allocator, ready for use. -/
def ready (h : Heap) : Res Heap :=
  match h.allocator with
  | .uninitialized => initAllocatorSystem kmalloc h
  | .initializing => .error .panic
  | .initialized => .ok h

/-- `required_pages`, of 32 bits. -/
def requiredPages (memSize : UInt64) : UInt32 := ((memSize - 1) / memPageSize + 1).toUInt32

/-- `kmalloc`, on top of the `kmalloc` that is called inside of it. -/
def kmallocWith (memSize : UInt64) (h : Heap) : Res (Nat × Heap) := do
  let h ← ready kmalloc h
  match slabIdx memSize with
  | some i => kmallocChunk kmalloc i memSize h
  | none => do
      let (start, h) ← allocatePages kmalloc (requiredPages memSize) h
      let h ← insertLarge kmalloc start.toNat (requiredPages memSize) h
      .ok (start.toNat, h.give start.toNat memSize)

end

/-- `kmalloc`. -/
def kmalloc : Nat → UInt64 → Heap → Res (Nat × Heap)
  | 0, _, _ => .error .outOfFuel
  | n + 1, memSize, h => kmallocWith (kmalloc n) memSize h

/-! ### kfree -/

/-- `chunk_offset`, of 32 bits, divided by the size. -/
def chunkIdx (i : SlabIdx) (offset : Nat) : Nat :=
  (offset + 2 ^ 32 - firstOffsetInSlab i) % 2 ^ 32 / chunkSizes i

/-- A slab without a chunk in use is kept or given back. -/
def Heap.retireSlab (slab : Nat) (i : SlabIdx) (h : Heap) : Res Heap :=
  if (h.lists (.free, i)).length ≥ maxFreeSlabs then do
    let mem ← orPanic (memDeallocatePages (UInt64.ofNat slab) 1 h.context h.mem)
    .ok { h with mem := mem, owned := h.owned.filter (·.1 ≠ slab) }
  else .ok (h.addTail (.free, i) slab)

/-- `kfree`, for a chunk of a slab that was found in a list. -/
def Heap.freeFrom (slab : Nat) (i : SlabIdx) (slabWasFull : Bool) (memBlock : Nat) (h : Heap) :
    Res Heap := do
  let header ← orPanic (freeChunk i (chunkIdx i (memBlock - slab)) (h.slabs slab))
  let h := { h with slabs := update h.slabs slab header }
  if header.allocationCount = 0 then do
    let h ← orPanic (h.removeSlab slab)
    h.retireSlab slab i
  else if slabWasFull then do
    let h ← orPanic (h.removeSlab slab)
    .ok (h.addTail (.partly, i) slab)
  else .ok h

/-- `kfree`, for a chunk. -/
def kfreeChunk (memBlock : Nat) (h : Heap) : Res Heap :=
  let slab := memBlock - memBlock % sizeOfPage
  match (h.slabs slab).listObj with
  | some (.partly, i) => h.freeFrom slab i false memBlock
  | some (.full, i) => h.freeFrom slab i true memBlock
  | _ => .error .panic

/-- A block is not in use any more. -/
def Heap.drop (addr : Nat) (h : Heap) : Heap :=
  { h with live := h.live.filter (·.addr ≠ addr) }

/-- `kfree`.  The node that `large_allocations->erase` gives back is a chunk. -/
def kfree (memBlock : Nat) (h : Heap) : Res Heap :=
  if h.allocator ≠ .initialized then .error .panic
  else if memBlock % sizeOfPage = 0 then do
    let large ← orPanic (h.largeAllocations.find? (·.addr = memBlock))
    let mem ← orPanic (memDeallocatePages (UInt64.ofNat memBlock) large.pages h.context h.mem)
    let h := { h with mem := mem, largeAllocations := h.largeAllocations.erase large }
    kfreeChunk large.node ((h.drop memBlock).drop large.node)
  else kfreeChunk memBlock (h.drop memBlock)

/-! ### Giving back a range -/

end Azalea.Klib
