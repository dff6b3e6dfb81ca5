import Azalea.Klib.LinkedLists
import Azalea.Klib.MathHacks

/-!
# Mem — the virtual memory manager

`mem/virtual.cpp`: one process's `vmm_range_data_list`, and the functions that split, mark and
merge its ranges.  An `ASSERT` that fails panics; here the function returns `none`.

A list item and its range are taken from `kmalloc` or from the pool of initial items, and given
back to it; the model keeps the list they are threaded on.  `mem_vmm_lock` lets one thread at a
time into these functions, so each is one step on the list.
-/

namespace Azalea.Mem
open Azalea.Klib

/-- `MEM_PAGE_SIZE`. -/
def memPageSize : UInt64 := 2097152

/-- `MEM_NUM_KERNEL_PAGES`. -/
def memNumKernelPages : UInt32 := 2

/-- `vmm_range_data`. -/
structure VmmRangeData where
  start : UInt64
  numberOfPages : UInt64
  allocated : Bool
  deriving Repr, DecidableEq

/-- `mem_vmm_split_range`: halve the range, put the free second half after it, and go on with the
first half while it is larger than asked for. -/
def memVmmSplitRange (itemToSplit : ListItem VmmRangeData) (numberOfPagesReqd : UInt32) :
    ListItem VmmRangeData :=
  let half := itemToSplit.item.numberOfPages / 2
  let newRangeData : VmmRangeData :=
    { start := itemToSplit.item.start + half * memPageSize
      numberOfPages := half
      allocated := false }
  let split : ListItem VmmRangeData :=
    { itemToSplit with
      item := { itemToSplit.item with numberOfPages := half }
      next := newRangeData :: itemToSplit.next }
  if h : half > numberOfPagesReqd.toUInt64 then memVmmSplitRange split numberOfPagesReqd
  else split
termination_by itemToSplit.item.numberOfPages.toNat
decreasing_by
  have hlt := UInt64.lt_iff_toNat_lt.mp h
  have hdiv : half.toNat = itemToSplit.item.numberOfPages.toNat / 2 := by simp [half]
  show half.toNat < _
  omega

/-- `(selected_range == nullptr) || (selected_range->number_of_pages > cur_range->number_of_pages)`. -/
def improvesOn (selected : Option (ListItem VmmRangeData)) (cur : VmmRangeData) : Bool :=
  match selected with
  | none => true
  | some s => s.item.numberOfPages > cur.numberOfPages

/-- The loop of `mem_vmm_get_suitable_range`: `selected` is the smallest free range of at least
`numPages` pages met so far, the first of its size. -/
def suitableLoop (numPages : UInt32) :
    List VmmRangeData → List VmmRangeData → Option (ListItem VmmRangeData) →
      Option (ListItem VmmRangeData)
  | _, [], selected => selected
  | prev, cur :: next, selected =>
      suitableLoop numPages (cur :: prev) next
        (if !cur.allocated && cur.numberOfPages ≥ numPages.toUInt64 && improvesOn selected cur
          then some ⟨prev, cur, next⟩ else selected)

/-- `mem_vmm_get_suitable_range`. -/
def memVmmGetSuitableRange (numPages : UInt32) (ranges : List VmmRangeData) :
    Option (ListItem VmmRangeData) :=
  if ranges = [] ∨ numPages = 0 then none else suitableLoop numPages [] ranges none

/-- `mem_allocate_virtual_range`: the start of the range allocated, and the new list.
`round_to_power_two` is cut to the 32 bits of `actual_num_pages`. -/
def memAllocateVirtualRange (numPages : UInt32) (ranges : List VmmRangeData) :
    Option (UInt64 × List VmmRangeData) := do
  let actualNumPages := (roundToPowerTwo numPages.toUInt64).toUInt32
  let selected ← memVmmGetSuitableRange actualNumPages ranges
  let selected :=
    if selected.item.numberOfPages ≠ actualNumPages.toUInt64
      then memVmmSplitRange selected actualNumPages else selected
  if selected.item.numberOfPages ≠ actualNumPages.toUInt64 then none
  else
    let marked := { selected with item := { selected.item with allocated := true } }
    some (marked.item.start, marked.toList)

/-- `(cur_data->start <= start_addr) && (end_addr > start_addr)`, where `end_addr` is the last
byte of the range. -/
def rangeHolds (startAddr : UInt64) (cur : VmmRangeData) : Bool :=
  let endAddr := cur.start + cur.numberOfPages * memPageSize - 1
  cur.start ≤ startAddr && endAddr > startAddr

/-- What is left to split in a list: a range of `n` pages can be halved at most `n - 1` times. -/
def splitWork (ranges : List VmmRangeData) : Nat :=
  (ranges.map fun r => r.numberOfPages.toNat - 1).sum

@[simp] theorem splitWork_cons (r : VmmRangeData) (ranges : List VmmRangeData) :
    splitWork (r :: ranges) = (r.numberOfPages.toNat - 1) + splitWork ranges := rfl

theorem splitWork_toList (it : ListItem VmmRangeData) :
    splitWork it.toList =
      splitWork it.prev.reverse + (it.item.numberOfPages.toNat - 1) + splitWork it.next := by
  simp [splitWork, ListItem.toList]
  omega

/-- Halving a range of two pages or more leaves less to split; halving any other, no more. -/
theorem splitWork_half (it : ListItem VmmRangeData) (start : UInt64) :
    splitWork (⟨it.prev, { it.item with numberOfPages := it.item.numberOfPages / 2 },
      ⟨start, it.item.numberOfPages / 2, false⟩ :: it.next⟩ : ListItem VmmRangeData).toList +
        (if 2 ≤ it.item.numberOfPages.toNat then 1 else 0) ≤ splitWork it.toList := by
  have hd : (it.item.numberOfPages / 2).toNat = it.item.numberOfPages.toNat / 2 := by simp
  simp only [splitWork_toList, splitWork_cons, hd]
  split <;> omega

theorem splitWork_split_le (it : ListItem VmmRangeData) (reqd : UInt32) :
    splitWork (memVmmSplitRange it reqd).toList ≤ splitWork it.toList := by
  fun_induction memVmmSplitRange it reqd with
  | case1 it half new split h ih =>
      exact ih.trans ((Nat.le_add_right _ _).trans (splitWork_half it _))
  | case2 it half new split h => exact (Nat.le_add_right _ _).trans (splitWork_half it _)

theorem splitWork_split_lt (it : ListItem VmmRangeData) (reqd : UInt32)
    (h2 : 2 ≤ it.item.numberOfPages.toNat) :
    splitWork (memVmmSplitRange it reqd).toList < splitWork it.toList := by
  have hh := splitWork_half it (it.item.start + it.item.numberOfPages / 2 * memPageSize)
  rw [if_pos h2] at hh
  rw [memVmmSplitRange]
  dsimp only
  split
  · exact (splitWork_split_le _ _).trans_lt hh
  · exact hh

/-- `mem_vmm_allocate_specific_range`.  `num_pages * MEM_PAGE_SIZE` is a 32-bit product: it is zero
for no pages and from 2048 pages on, and the remainder by it traps. -/
def memVmmAllocateSpecificRange (startAddr : UInt64) (numPages : UInt32)
    (ranges : List VmmRangeData) : Option (List VmmRangeData) :=
  let roundedNumPages := (roundToPowerTwo numPages.toUInt64).toUInt32
  let bytes : UInt32 := numPages * 2097152
  if roundedNumPages ≠ numPages then none
  else if h0 : bytes = 0 then none
  else if startAddr % bytes.toUInt64 ≠ 0 then none
  else
    match hf : ListItem.find (rangeHolds startAddr) [] ranges with
    | none => none
    | some cur =>
      if hlt : cur.item.numberOfPages < numPages.toUInt64 then none
      else if hne : cur.item.numberOfPages = numPages.toUInt64 then
        if cur.item.allocated then none
        else some { cur with item := { cur.item with allocated := true } }.toList
      else
        memVmmAllocateSpecificRange startAddr numPages
          (memVmmSplitRange cur (cur.item.numberOfPages / 2).toUInt32).toList
termination_by splitWork ranges
decreasing_by
  have hn : numPages.toNat ≠ 0 := fun e => by
    have : numPages = 0 := UInt32.toNat_inj.mp e
    exact h0 (by simp [bytes, this])
  have hlt' : ¬ cur.item.numberOfPages.toNat < numPages.toNat := by
    simpa [UInt64.lt_iff_toNat_lt] using hlt
  have hne' : cur.item.numberOfPages.toNat ≠ numPages.toNat := fun e =>
    hne (UInt64.toNat_inj.mp (by simpa using e))
  rw [← List.nil_append ranges, ← List.reverse_nil, ← (ListItem.find_spec hf).1]
  exact splitWork_split_lt _ _ (by omega)

/-- `mem_vmm_resolve_merges`: while the partner that makes an aligned block of twice the size is
free and of the same size, the lower of the two grows and the upper one goes. -/
def memVmmResolveMerges (startPoint : ListItem VmmRangeData) : Option (ListItem VmmRangeData) :=
  if startPoint.item.allocated then none
  else
    let nextBlockSize := startPoint.item.numberOfPages * 2
    if startPoint.item.start % (nextBlockSize * memPageSize) = 0 then
      match hn : startPoint.next with
      | [] => some startPoint
      | partner :: next =>
        if !partner.allocated && partner.numberOfPages == startPoint.item.numberOfPages then
          memVmmResolveMerges
            { startPoint with
              item := { startPoint.item with numberOfPages := startPoint.item.numberOfPages * 2 }
              next := next }
        else some startPoint
    else
      match hp : startPoint.prev with
      | [] => some startPoint
      | partner :: prev =>
        if !partner.allocated && partner.numberOfPages == startPoint.item.numberOfPages then
          memVmmResolveMerges
            { startPoint with
              prev := prev
              item := { partner with numberOfPages := partner.numberOfPages * 2 } }
        else some startPoint
termination_by startPoint.prev.length + startPoint.next.length
decreasing_by
  · simp [hn]
  · simp [hp]

/-- `mem_deallocate_virtual_range`. -/
def memDeallocateVirtualRange (start : UInt64) (numPages : UInt32)
    (ranges : List VmmRangeData) : Option (List VmmRangeData) := do
  let actualNumPages := (roundToPowerTwo numPages.toUInt64).toUInt32
  let cur ← ListItem.find (fun r => r.start == start) [] ranges
  if cur.item.allocated ≠ true then none
  else if cur.item.numberOfPages ≠ actualNumPages.toUInt64 then none
  else
    let merged ← memVmmResolveMerges { cur with item := { cur.item with allocated := false } }
    some merged.toList

/-! ### The ranges a process starts from -/

/-- The one range a `vmm_process_data` starts from: aligned to its own length, below `2^64`. -/
structure VmmRoot where
  start : UInt64
  numberOfPages : UInt64
  pow : ∃ k, numberOfPages.toNat = 2 ^ k
  aligned : numberOfPages.toNat * 2097152 ∣ start.toNat
  top : start.toNat + numberOfPages.toNat * 2097152 ≤ 2 ^ 64
  small : numberOfPages.toNat < 2 ^ 32

/-- The root range, free. -/
def VmmRoot.range (root : VmmRoot) : VmmRangeData := ⟨root.start, root.numberOfPages, false⟩

/-- The root of `mem_vmm_initialize`, which ends exactly at `2^64`. -/
def kernelRoot : VmmRoot where
  start := 0xFFFFFFFF00000000
  numberOfPages := 2048
  pow := ⟨11, rfl⟩
  aligned := by decide
  top := by decide
  small := by decide

/-- The root of `mem_vmm_init_proc_data`. -/
def userRoot : VmmRoot where
  start := 0
  numberOfPages := 0x2000000
  pow := ⟨25, rfl⟩
  aligned := by decide
  top := by decide
  small := by decide

/-- `mem_vmm_initialize`: the kernel's root range with the kernel's image and the page table
modification area taken from it.  The last two assertions count what is left. -/
def memVmmInitialize : Option (List VmmRangeData) := do
  let ranges ← memVmmAllocateSpecificRange 0xFFFFFFFF00000000 memNumKernelPages [kernelRoot.range]
  let ranges ← memVmmAllocateSpecificRange 0xFFFFFFFFFFE00000 1 ranges
  let freePages : UInt64 := (ranges.filter (!·.allocated)).foldl (fun n r => n + r.numberOfPages) 0
  let usedPages : UInt64 := (ranges.filter (·.allocated)).foldl (fun n r => n + r.numberOfPages) 0
  if freePages > 5 ∧ usedPages < 20 then some ranges else none

/-- `mem_vmm_init_proc_data`. -/
def memVmmInitProcData : List VmmRangeData := [userRoot.range]

end Azalea.Mem
