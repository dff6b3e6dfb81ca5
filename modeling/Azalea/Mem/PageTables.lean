import Azalea.Mem.Physical

/-!
# Mem — x64 page tables

`mem/x64/mem-x64.cpp` and `mem/x64/mem_pat-x64.cpp`: pages of 2MB are mapped through three levels of
tables, a process's PML4, a page directory pointer table and a page directory.  The last two are
found by their physical addresses and looked at through a window, a page of virtual memory that is
moved to where they are by writing its own entry of a page directory.

A process is a number, already resolved from the `context` argument.  Physical memory is a function
from the addresses of 64-bit words.  An `ASSERT` that fails or a `panic` is `none`; the processor's
own caches are left out.
-/

namespace Azalea.Mem
open Azalea.Bitmaps Function

/-- `page_table_entry`. -/
structure PageTableEntry where
  targetAddr : BitVec 64
  present : Bool
  writable : Bool
  userMode : Bool
  endOfTree : Bool
  cacheType : Nat
  deriving Repr, DecidableEq

/-- `MEM_X64_CACHE_TYPES::WRITE_BACK`. -/
def cacheWriteBack : Nat := 6

/-- `mem_x64_pat_get_val`. -/
def memX64PatGetVal (cacheType : Nat) (firstHalf : Bool) : Option (BitVec 8) :=
  match cacheType with
  | 0 => some 3
  | 1 => some 2
  | 4 => some 1
  | 5 => if firstHalf then none else some 6
  | 6 => some 0
  | _ => none

/-- `mem_x64_pat_decode`. -/
def memX64PatDecode (patIdx : BitVec 8) : Option Nat :=
  if patIdx.toNat < 7 then
    match patIdx.toNat with
    | 0 => some 6
    | 1 => some 4
    | 2 => some 1
    | 3 => some 0
    | 4 => some 6
    | 5 => some 4
    | _ => some 5
  else none

/-- `mem_encode_page_table_entry`. -/
def memEncodePageTableEntry (pte : PageTableEntry) : Option (BitVec 64) := do
  let maskedAddr := pte.targetAddr &&& 0x0007FFFFFFFFF000#64
  let result := maskedAddr |||
    (if pte.endOfTree then 0x80#64 else 0) |||
    (if pte.present then 0x01#64 else 0) |||
    (if pte.writable then 0x02#64 else 0) |||
    (if pte.userMode then 0x04#64 else 0)
  let patValue ← memX64PatGetVal pte.cacheType (!pte.endOfTree)
  if pte.endOfTree ∧ ¬ patValue < 4 then none
  else if pte.endOfTree ∧ pte.targetAddr &&& 0x00000000000FF000#64 ≠ 0 then none
  else
    let result := result ||| ((patValue &&& 0x03) <<< 3).setWidth 64
    some (if pte.endOfTree ∧ patValue &&& 0x04 ≠ 0 then result ||| 0x1000#64 else result)

/-- `mem_decode_page_table_entry`. -/
def memDecodePageTableEntry (encoded : BitVec 64) : Option PageTableEntry := do
  let endOfTree := encoded &&& 0x80#64 != 0
  let patVal := ((encoded &&& 0x18#64) >>> 3).setWidth 8
  let patVal := if endOfTree ∧ encoded &&& 0x1000#64 ≠ 0 then patVal ||| 0x04 else patVal
  let cacheType ← memX64PatDecode patVal
  some
    { targetAddr :=
        if endOfTree then encoded &&& 0x0007FFFFFFF00000#64 else encoded &&& 0x0007FFFFFFFFF000#64
      present := encoded &&& 0x01#64 != 0
      writable := encoded &&& 0x02#64 != 0
      userMode := encoded &&& 0x04#64 != 0
      endOfTree := endOfTree
      cacheType := cacheType }

/-- `mem_x64_phys_addr_from_pte`. -/
def memX64PhysAddrFromPte (encoded : BitVec 64) : Option (BitVec 64) :=
  (memDecodePageTableEntry encoded).map (·.targetAddr)

/-- `PT_MARKED_PRESENT`. -/
def ptMarkedPresent (x : BitVec 64) : Bool := x &&& 1#64 != 0

/-- Where new tables come from: physical pages, and what `mem_get_next_4kb_page` has left of the one
it is carving up (0 is `nullptr`). -/
structure TablePool where
  phys : PhysMem
  next4kbPage : Nat

/-- A page to carve up, if there is none. -/
def TablePool.refill (pool : TablePool) : Option TablePool :=
  if pool.next4kbPage = 0 then (memAllocatePhysicalPages 1 pool.phys).map fun r => ⟨r.2, r.1⟩
  else some pool

/-- `mem_get_next_4kb_page`. -/
def memGetNext4kbPage (pool : TablePool) : Option (BitVec 64 × TablePool) := do
  let pool ← pool.refill
  let next := pool.next4kbPage + 4096
  some (BitVec.ofNat 64 pool.next4kbPage,
    { pool with next4kbPage := if next % sizeOfPage = 0 then 0 else next })

/-- The tables of all processes, the memory they are in, and where new ones come from.
`workingTableVaEntryAddr` is where the entry of the window is, as a physical address. -/
structure Paging where
  pml4s : Nat → Nat → BitVec 64
  mem : Nat → BitVec 64
  pool : TablePool
  workingTableVaEntryAddr : Nat
  validPhysBitMask : BitVec 64

/-- `working_table_virtual_addr_base`: the window. -/
def workingTableVirtualAddrBase : BitVec 64 := 0xFFFFFFFFFFE00000#64

/-- The index into a page directory. -/
def pageDirEntryIdx (virtAddr : BitVec 64) : Nat := ((virtAddr >>> 21) &&& 0x1FF#64).toNat

/-- The index into a page directory pointer table. -/
def pageDirPtrEntryIdx (virtAddr : BitVec 64) : Nat := ((virtAddr >>> 21 >>> 9) &&& 0x1FF#64).toNat

/-- The index into a PML4. -/
def pml4EntryIdx (virtAddr : BitVec 64) : Nat := ((virtAddr >>> 21 >>> 9 >>> 9) &&& 0x1FF#64).toNat

/-- The address of an entry of a table. -/
def entryAddr (table : BitVec 64) (idx : Nat) : Nat := table.toNat + 8 * idx

/-- `mem_set_working_page_dir`: from now on the window shows the 2MB page that the table is in. -/
def memSetWorkingPageDir (physPageAddr : BitVec 64) (s : Paging) : Option Paging :=
  if physPageAddr &&& 0x0FFF#64 ≠ 0 then none
  else do
    let newEntry ← memEncodePageTableEntry
      { targetAddr := physPageAddr &&& ~~~0x1FFFFF#64
        present := true
        writable := true
        userMode := false
        endOfTree := true
        cacheType := cacheWriteBack }
    some { s with mem := update s.mem s.workingTableVaEntryAddr newEntry }

/-- The entry for a new table. -/
def tableEntry (tablePhysAddr : BitVec 64) (isKernelAllocation : Bool) : PageTableEntry where
  targetAddr := tablePhysAddr
  present := true
  writable := true
  userMode := !isKernelAllocation
  endOfTree := false
  cacheType := cacheWriteBack

/-- The first part of `mem_x64_map_virtual_page`: the page directory pointer table, made if there is
none.  An index is below 512, so that `ASSERT(pml4_entry_idx >= 2048)` lets no new table of the
kernel pass to `mem_x64_pml4_synchronize`, which would give the entry to all processes. -/
def findPageDirPtrTable (idx : Nat) (isKernelAllocation : Bool) (context : Nat) (s : Paging) :
    Option (BitVec 64 × Paging) :=
  let encodedEntry := s.pml4s context idx
  if ptMarkedPresent encodedEntry then do
    let table ← memX64PhysAddrFromPte encodedEntry
    some (table, s)
  else do
    let (table, pool) ← memGetNext4kbPage s.pool
    let newEntry ← memEncodePageTableEntry (tableEntry table isKernelAllocation)
    let pml4 := update (s.pml4s context) idx newEntry
    if isKernelAllocation then
      if idx ≥ 2048 then
        some (table,
          { s with pml4s := fun c i => if i < 256 then s.pml4s c i else pml4 i, pool := pool })
      else none
    else some (table, { s with pml4s := update s.pml4s context pml4, pool := pool })

/-- The second part: the page directory, made if there is none. -/
def findPageDir (table : BitVec 64) (idx : Nat) (isKernelAllocation : Bool) (s : Paging) :
    Option (BitVec 64 × Paging) := do
  let s ← memSetWorkingPageDir table s
  let encodedEntry := s.mem (entryAddr table idx)
  if ptMarkedPresent encodedEntry then do
    let table ← memX64PhysAddrFromPte encodedEntry
    some (table, s)
  else do
    let (newTable, pool) ← memGetNext4kbPage s.pool
    let newEntry ← memEncodePageTableEntry (tableEntry newTable isKernelAllocation)
    some (newTable, { s with mem := update s.mem (entryAddr table idx) newEntry, pool := pool })

/-- The last part: the entry of the page itself, which must not be in use. -/
def setPageDirEntry (table : BitVec 64) (idx : Nat) (physAddr : BitVec 64)
    (isKernelAllocation : Bool) (cacheMode : Nat) (s : Paging) : Option Paging := do
  let s ← memSetWorkingPageDir table s
  if ptMarkedPresent (s.mem (entryAddr table idx)) then none
  else
    let newEntry ← memEncodePageTableEntry
      { targetAddr := physAddr
        present := true
        writable := true
        userMode := !isKernelAllocation
        endOfTree := true
        cacheType := cacheMode }
    some { s with mem := update s.mem (entryAddr table idx) newEntry }

/-- `mem_x64_map_virtual_page`. -/
def memX64MapVirtualPage (virtAddr physAddr : BitVec 64) (context cacheMode : Nat) (s : Paging) :
    Option Paging :=
  if s.validPhysBitMask = 0 then none
  else do
    let physAddr := physAddr &&& s.validPhysBitMask
    let isKernelAllocation := virtAddr &&& 0x8000000000000000#64 != 0
    let (table, s) ← findPageDirPtrTable (pml4EntryIdx virtAddr) isKernelAllocation context s
    let (table, s) ← findPageDir table (pageDirPtrEntryIdx virtAddr) isKernelAllocation s
    setPageDirEntry table (pageDirEntryIdx virtAddr) physAddr isKernelAllocation cacheMode s

/-- `mem_x64_unmap_virtual_page`. -/
def memX64UnmapVirtualPage (virtAddr : BitVec 64) (context : Nat) (s : Paging) : Option Paging :=
  let encodedEntry := s.pml4s context (pml4EntryIdx virtAddr)
  if ptMarkedPresent encodedEntry then do
    let table ← memX64PhysAddrFromPte encodedEntry
    let s ← memSetWorkingPageDir table s
    let encodedEntry := s.mem (entryAddr table (pageDirPtrEntryIdx virtAddr))
    if ptMarkedPresent encodedEntry then do
      let table ← memX64PhysAddrFromPte encodedEntry
      let s ← memSetWorkingPageDir table s
      some { s with mem := update s.mem (entryAddr table (pageDirEntryIdx virtAddr)) 0 }
    else some s
  else some s

/-- `mem_get_phys_addr`; zero is `nullptr`.  The entry of the page itself is not tested for being
present. -/
def memGetPhysAddr (virtualAddr : BitVec 64) (context : Nat) (s : Paging) :
    Option (BitVec 64 × Paging) :=
  let offset := virtualAddr % 2097152#64
  let virtAddr := virtualAddr - offset
  let encodedEntry := s.pml4s context (pml4EntryIdx virtAddr)
  if ptMarkedPresent encodedEntry then do
    let table ← memX64PhysAddrFromPte encodedEntry
    let s ← memSetWorkingPageDir table s
    let encodedEntry := s.mem (entryAddr table (pageDirPtrEntryIdx virtAddr))
    if ptMarkedPresent encodedEntry then do
      let table ← memX64PhysAddrFromPte encodedEntry
      let s ← memSetWorkingPageDir table s
      let physAddr ← memX64PhysAddrFromPte (s.mem (entryAddr table (pageDirEntryIdx virtAddr)))
      some (physAddr + offset, s)
    else some (0, s)
  else some (0, s)

end Azalea.Mem
