import Azalea.Mem.Mapping
import Azalea.Mem.VmmRuns

/-!
# Mem — allocating pages for the kernel

`mem/misc.cpp`: `mem_allocate_pages` takes a range of the kernel's address space and puts a physical
page behind each of its pages; `mem_deallocate_pages` unmaps the pages again.

- `allocated_ranges_stay`: the second does not undo the first, whatever the state: the range stays
  allocated, so that pairs of calls use up the address space.
-/

namespace Azalea.Mem
open Azalea.Tiling Azalea.Runs Function

/-- `mem_map_range`, its loop. -/
def mapPagesFrom (context cacheMode : Nat) : Nat → BitVec 64 → BitVec 64 → Mapping → Option Mapping
  | 0, _, _, s => some s
  | n + 1, curPhysAddr, curVirtAddr, s => do
      let s ← memMapVirtualPage curVirtAddr curPhysAddr context cacheMode s
      mapPagesFrom context cacheMode n (curPhysAddr + 2097152) (curVirtAddr + 2097152) s

/-- `mem_map_range`. -/
def memMapRange (physicalStart virtualStart : BitVec 64) (len : UInt32) (context cacheMode : Nat)
    (s : Mapping) : Option Mapping :=
  if physicalStart.toNat % sizeOfPage ≠ 0 ∨ virtualStart.toNat % sizeOfPage ≠ 0 ∨ len = 0 then none
  else mapPagesFrom context cacheMode len.toNat physicalStart virtualStart s

/-- `mem_unmap_range`, its loop. -/
def unmapPagesFrom (context : Nat) (allowPhysPageFree : Bool) :
    Nat → BitVec 64 → Mapping → Option Mapping
  | 0, _, s => some s
  | n + 1, curVirtAddr, s => do
      let s ← memUnmapVirtualPage curVirtAddr context allowPhysPageFree s
      unmapPagesFrom context allowPhysPageFree n (curVirtAddr + 2097152) s

/-- `mem_unmap_range`. -/
def memUnmapRange (virtualStart : BitVec 64) (numPages : UInt32) (context : Nat)
    (allowPhysPageFree : Bool) (s : Mapping) : Option Mapping :=
  if virtualStart.toNat % sizeOfPage ≠ 0 then none
  else unmapPagesFrom context allowPhysPageFree numPages.toNat virtualStart s

/-- The kernel's `vmm_range_data_list`, and what is mapped. -/
structure KernelMem where
  ranges : List VmmRangeData
  mapping : Mapping

/-- The physical pages. -/
def KernelMem.phys (s : KernelMem) : PhysMem := s.mapping.paging.pool.phys

/-- Other physical pages. -/
def Mapping.setPhys (s : Mapping) (phys : PhysMem) : Mapping :=
  { s with paging := { s.paging with pool := { s.paging.pool with phys := phys } } }

/-- The loop of `mem_allocate_pages`: a physical page behind each page. -/
def backPagesFrom (context : Nat) : Nat → BitVec 64 → Mapping → Option Mapping
  | 0, _, s => some s
  | n + 1, curVirtualAddr, s => do
      let (curPhysAddr, phys) ← memAllocatePhysicalPages 1 s.paging.pool.phys
      let s ← memMapRange (BitVec.ofNat 64 curPhysAddr) curVirtualAddr 1 context cacheWriteBack
        (s.setPhys phys)
      backPagesFrom context n (curVirtualAddr + 2097152) s

/-- `mem_allocate_pages`, called in a process. -/
def memAllocatePages (numPages : UInt32) (context : Nat) (s : KernelMem) :
    Option (UInt64 × KernelMem) :=
  if numPages = 0 then none
  else do
    let (returnAddr, ranges) ← memAllocateVirtualRange numPages s.ranges
    let mapping ← backPagesFrom context numPages.toNat returnAddr.toBitVec s.mapping
    some (returnAddr, ⟨ranges, mapping⟩)

/-- `mem_deallocate_pages`, called in a process. -/
def memDeallocatePages (virtualStart : UInt64) (numPages : UInt32) (context : Nat) (s : KernelMem) :
    Option KernelMem :=
  if numPages = 0 ∨ virtualStart.toNat % sizeOfPage ≠ 0 then none
  else (memUnmapRange virtualStart.toBitVec numPages context true s.mapping).map fun mapping =>
    { s with mapping := mapping }

/-! ### Runs -/

/-- What the kernel does with its memory. -/
inductive KernelMemOp where
  | allocatePages (numPages : UInt32) (context : Nat)
  | deallocatePages (virtualStart : UInt64) (numPages : UInt32) (context : Nat)
  | allocateVirtualRange (numPages : UInt32)
  | deallocateVirtualRange (start : UInt64) (numPages : UInt32)
  | allocatePhysicalPage
  | deallocatePhysicalPage (start : Nat)
  | mapPage (virtAddr physAddr : BitVec 64) (context cacheMode : Nat)
  | unmapPage (virtAddr : BitVec 64) (context : Nat) (allowPhysPageFree : Bool)

/-- One call. -/
def KernelMem.step (s : KernelMem) : KernelMemOp → Option KernelMem
  | .allocatePages n c => (memAllocatePages n c s).map (·.2)
  | .deallocatePages a n c => memDeallocatePages a n c s
  | .allocateVirtualRange n => (memAllocateVirtualRange n s.ranges).map fun r =>
      { s with ranges := r.2 }
  | .deallocateVirtualRange a n => (memDeallocateVirtualRange a n s.ranges).map fun ranges =>
      { s with ranges := ranges }
  | .allocatePhysicalPage => (memAllocatePhysicalPages 1 s.phys).map fun r =>
      { s with mapping := s.mapping.setPhys r.2 }
  | .deallocatePhysicalPage a => (memDeallocatePhysicalPages a 1 s.phys).map fun phys =>
      { s with mapping := s.mapping.setPhys phys }
  | .mapPage v p c mode => (memMapVirtualPage v p c mode s.mapping).map fun mapping =>
      { s with mapping := mapping }
  | .unmapPage v c allow => (memUnmapVirtualPage v c allow s.mapping).map fun mapping =>
      { s with mapping := mapping }

/-- The physical pages, the kernel's pages that are mapped and the free ranges are those of `s`. -/
structure KernelMem.Restores (s' s : KernelMem) : Prop where
  bitmap : s'.phys.alloc = s.phys.alloc
  freePages : s'.phys.freePages = s.phys.freePages
  mapped : ∀ v : BitVec 64, 2 ^ 63 ≤ v.toNat →
    ((s'.mapping.paging.translate 0 v).isSome ↔ (s.mapping.paging.translate 0 v).isSome)
  ranges : ∀ r : VmmRangeData, r.Free → (r ∈ s'.ranges ↔ r ∈ s.ranges)

/-- Allocating pages and deallocating them restores what was there. -/
def KernelMem.Undone (s : KernelMem) (numPages : UInt32) (context : Nat) : Prop :=
  ∃ a s₁ s₂, memAllocatePages numPages context s = some (a, s₁) ∧
    memDeallocatePages a numPages context s₁ = some s₂ ∧ s₂.Restores s

/-- Pairs of calls, one after the other. -/
def KernelMem.pairs (context : Nat) : List UInt32 → KernelMem → Option KernelMem
  | [], s => some s
  | n :: ns, s => do
      let (a, s₁) ← memAllocatePages n context s
      let s₂ ← memDeallocatePages a n context s₁
      KernelMem.pairs context ns s₂

/-- The pages of the free ranges. -/
def freeVirtualPages (ranges : List VmmRangeData) : Nat :=
  ((ranges.filter (!·.allocated)).map VmmRangeData.pages).sum

section
variable {root : VmmRoot} {s s' s₁ s₂ : KernelMem} {op : KernelMemOp} {n : UInt32} {a : UInt64}
  {c : Nat} {ranges ranges' : List VmmRangeData}

/-- The address space is changed by the calls that are about it. -/
theorem memAllocatePages_ranges (h : memAllocatePages n c s = some (a, s')) :
    memAllocateVirtualRange n s.ranges = some (a, s'.ranges) := by
  rw [memAllocatePages] at h
  split at h
  next => cases h
  next =>
    obtain ⟨⟨a', ranges⟩, hrange, h⟩ := Option.bind_eq_some_iff.mp h
    obtain ⟨mapping, -, h⟩ := Option.bind_eq_some_iff.mp h
    obtain ⟨rfl, rfl⟩ := Prod.mk.inj (Option.some.inj h)
    exact hrange

/-- `mem_deallocate_pages` leaves the address space as it is. -/
theorem memDeallocatePages_ranges (h : memDeallocatePages a n c s = some s') :
    s'.ranges = s.ranges := by
  rw [memDeallocatePages] at h
  split at h
  next => cases h
  next =>
    obtain ⟨mapping, -, rfl⟩ := Option.map_eq_some_iff.mp h
    rfl

theorem VmmInv.allocate (h : VmmInv root ranges)
    (ha : memAllocateVirtualRange n ranges = some (a, ranges')) : VmmInv root ranges' := by
  have hstep : VmmState.step ⟨ranges, []⟩ (.allocate n) = some ⟨ranges', [grantOf a n]⟩ := by
    rw [VmmState.step, ha]
    rfl
  exact (step_cases (s := ⟨ranges, []⟩) h hstep).1

theorem VmmInv.deallocate (h : VmmInv root ranges)
    (ha : memDeallocateVirtualRange a n ranges = some ranges') : VmmInv root ranges' := by
  have hstep : VmmState.step ⟨ranges, []⟩ (.deallocate a n) = some ⟨ranges', []⟩ := by
    rw [VmmState.step, ha]
    rfl
  exact (step_cases (s := ⟨ranges, []⟩) h hstep).1

theorem KernelMem.step_inv (h : VmmInv root s.ranges) (hstep : s.step op = some s') :
    VmmInv root s'.ranges := by
  cases op with
  | allocatePages n c =>
      obtain ⟨⟨a, s₁⟩, hs, rfl⟩ := Option.map_eq_some_iff.mp hstep
      exact h.allocate (memAllocatePages_ranges hs)
  | deallocatePages a n c => exact memDeallocatePages_ranges hstep ▸ h
  | allocateVirtualRange n =>
      obtain ⟨⟨a, ranges⟩, hs, rfl⟩ := Option.map_eq_some_iff.mp hstep
      exact h.allocate hs
  | deallocateVirtualRange a n =>
      obtain ⟨ranges, hs, rfl⟩ := Option.map_eq_some_iff.mp hstep
      exact h.deallocate hs
  | allocatePhysicalPage =>
      obtain ⟨r, -, rfl⟩ := Option.map_eq_some_iff.mp hstep
      exact h
  | deallocatePhysicalPage a =>
      obtain ⟨phys, -, rfl⟩ := Option.map_eq_some_iff.mp hstep
      exact h
  | mapPage v p c mode =>
      obtain ⟨mapping, -, rfl⟩ := Option.map_eq_some_iff.mp hstep
      exact h
  | unmapPage v c allow =>
      obtain ⟨mapping, -, rfl⟩ := Option.map_eq_some_iff.mp hstep
      exact h

/-- A free range that pages were allocated in is not free any more. -/
theorem allocated_not_free (h : VmmInv root ranges)
    (ha : memAllocateVirtualRange n ranges = some (a, ranges')) :
    ∃ r ∈ ranges, r.Free ∧ r ∉ ranges' := by
  have h' := h.allocate ha
  obtain ⟨pre, post, x, halves, hranges, hfree, hstart, -, hpieces, hranges'⟩ := allocate_spec h ha
  refine ⟨x, by simp [hranges], hfree, fun hmem => ?_⟩
  -- the range that was allocated covers the first page of the free one
  have hgrant : grantOf a n ∈ ranges' := by simp [hranges', grantOf]
  have hpage : (grantOf a n).page = x.page := by rw [VmmRangeData.page, VmmRangeData.page, hstart]; rfl
  have hpos := (h'.wf x hmem).dyadic.pos
  have hpos' := (h'.wf _ hgrant).dyadic.pos
  have heq := h'.tiles.covers_unique (p := x.page) hmem hgrant ⟨Nat.le_refl _, by omega⟩
    ⟨hpage.le, by omega⟩
  rw [heq] at hfree
  cases hfree

/-- So the free ranges are not what they were. -/
theorem not_undone (h : VmmInv root s.ranges) : ¬ s.Undone n c := by
  rintro ⟨a, s₁, s₂, hs₁, hs₂, hrestores⟩
  obtain ⟨r, hr, hfree, hnot⟩ := allocated_not_free h (memAllocatePages_ranges hs₁)
  rw [← memDeallocatePages_ranges hs₂] at hnot
  exact hnot ((hrestores.ranges r hfree).mpr hr)

theorem memVmmInitialize_inv (h : memVmmInitialize = some ranges) : VmmInv kernelRoot ranges := by
  obtain ⟨s, hs, hreach⟩ := memVmmInitialize_reaches
  rw [h] at hs
  exact Option.some.inj hs ▸ hreach.inv

theorem freeVirtualPages_append (xs ys : List VmmRangeData) :
    freeVirtualPages (xs ++ ys) = freeVirtualPages xs + freeVirtualPages ys := by
  simp [freeVirtualPages]

theorem freeVirtualPages_of_free {xs : List VmmRangeData} (h : ∀ x ∈ xs, x.Free) :
    freeVirtualPages xs = (xs.map VmmRangeData.pages).sum := by
  rw [freeVirtualPages, List.filter_eq_self.mpr]
  intro x hx
  rw [h x hx]
  rfl

theorem tiles_sum {α : Type*} {lo len : α → Nat} {xs : List α} : ∀ {b e : Nat},
    Tiles lo len b xs e → b + (xs.map len).sum = e := by
  induction xs with
  | nil => rintro b e rfl; rfl
  | cons x xs ih =>
      rintro b e ⟨-, h⟩
      rw [List.map_cons, List.sum_cons, ← Nat.add_assoc]
      exact ih h

/-- Allocating uses up at least the pages asked for. -/
theorem freeVirtualPages_allocate (h : VmmInv root ranges)
    (ha : memAllocateVirtualRange n ranges = some (a, ranges')) :
    freeVirtualPages ranges' + n.toNat ≤ freeVirtualPages ranges := by
  obtain ⟨pre, post, x, halves, rfl, hfree, -, hhalves, hpieces, rfl⟩ := allocate_spec h ha
  have hsum := tiles_sum hpieces.tiles
  have hle : n.toNat ≤ (grantOf a n).pages := by
    have hpos := (hpieces.wf _ (List.mem_cons_self ..)).dyadic.pos
    have hpages : (grantOf a n).pages = (actualNumPages n).toNat := by
      simp [VmmRangeData.pages, grantOf]
    have hactual := actualNumPages_toNat n
    split at hactual
    next =>
      rw [hactual] at hpages
      exact absurd hpages hpos.ne'
    next =>
      rw [hpages, hactual]
      exact Nat.le_pow_clog (by decide) _
  have hx : freeVirtualPages (x :: post) = x.pages + freeVirtualPages post := by
    rw [freeVirtualPages, List.filter_cons_of_pos (by rw [hfree]; rfl)]
    rfl
  have hg : freeVirtualPages (grantOf a n :: halves) = (halves.map VmmRangeData.pages).sum := by
    rw [← freeVirtualPages_of_free hhalves]
    rfl
  rw [List.map_cons, List.sum_cons] at hsum
  change x.page + ((grantOf a n).pages + _) = _ at hsum
  change freeVirtualPages (pre ++ grantOf a n :: halves ++ post) + _ ≤ _
  rw [freeVirtualPages_append, freeVirtualPages_append, freeVirtualPages_append, hx, hg]
  omega

/-- Pairs of calls use up at least the pages asked for. -/
theorem freeVirtualPages_pairs {ns : List UInt32} (h : VmmInv root s.ranges)
    (hp : KernelMem.pairs c ns s = some s') :
    freeVirtualPages s'.ranges + (ns.map UInt32.toNat).sum ≤ freeVirtualPages s.ranges := by
  induction ns generalizing s with
  | nil =>
      obtain rfl := Option.some.inj hp
      exact Nat.le_refl _
  | cons n ns ih =>
      rw [KernelMem.pairs] at hp
      obtain ⟨⟨a, s₁⟩, hs₁, hp⟩ := Option.bind_eq_some_iff.mp hp
      obtain ⟨s₂, hs₂, hp⟩ := Option.bind_eq_some_iff.mp hp
      have hranges := memAllocatePages_ranges hs₁
      rw [← memDeallocatePages_ranges hs₂] at hranges
      have hle := freeVirtualPages_allocate h hranges
      have hrest := ih (h.allocate hranges) hp
      rw [List.map_cons, List.sum_cons]
      omega

end

/-- **`mem_deallocate_pages` does not undo `mem_allocate_pages`**: in no state that can be reached,
and for no number of pages.  Pairs of calls succeed only as long as there are free pages of the
address space for all of them. -/
theorem allocated_ranges_stay {ranges : List VmmRangeData} {mapping : Mapping} {s : KernelMem}
    (hinit : memVmmInitialize = some ranges)
    (hreach : Reach KernelMem.step anyInput ⟨ranges, mapping⟩ s) (c : Nat) :
    (∀ n, ¬ s.Undone n c) ∧ ∀ ns s', KernelMem.pairs c ns s = some s' →
      (ns.map UInt32.toNat).sum ≤ freeVirtualPages s.ranges := by
  have hinv : VmmInv kernelRoot s.ranges :=
    Reach.invariant (I := fun s => VmmInv kernelRoot s.ranges) (memVmmInitialize_inv hinit)
      (fun _ _ _ h _ hstep => KernelMem.step_inv h hstep) hreach
  refine ⟨fun n => not_undone hinv, fun ns s' hp => ?_⟩
  have hle := freeVirtualPages_pairs hinv hp
  omega

/-- The kernel's memory when it has started, with eight physical pages. -/
def bootKernelMem (ranges : List VmmRangeData) : KernelMem :=
  ⟨ranges, ⟨{ bootPaging with
    pool := ⟨⟨fun i => if i = 0 then 0x0FF0000000000000#64 else 0,
      fun i => if i = 0 then 0x0FF0000000000000#64 else 0, 8⟩, 0⟩ }, memMapInitCounters⟩⟩

/-- The first page of all, allocated and deallocated. -/
theorem allocated_ranges_stay_first_page :
    ∃ ranges s, memVmmInitialize = some ranges ∧
      KernelMem.pairs 0 [1] (bootKernelMem ranges) = some s ∧ ¬ (bootKernelMem ranges).Undone 1 0 := by
  have hsome : (memVmmInitialize.bind fun ranges =>
      (KernelMem.pairs 0 [1] (bootKernelMem ranges)).map (·.ranges)).isSome = true := by
    decide +kernel
  obtain ⟨_, hbind⟩ := Option.isSome_iff_exists.mp hsome
  obtain ⟨ranges, hinit, hmap⟩ := Option.bind_eq_some_iff.mp hbind
  obtain ⟨s, hpairs, -⟩ := Option.map_eq_some_iff.mp hmap
  exact ⟨ranges, s, hinit, hpairs, (allocated_ranges_stay hinit .refl 0).1 1⟩

/-- The range of the first page stays allocated. -/
theorem allocated_ranges_restored_fails :
    ¬ ∀ (ranges : List VmmRangeData) (mapping : Mapping) (s : KernelMem) (n : UInt32) (c : Nat),
      memVmmInitialize = some ranges → Reach KernelMem.step anyInput ⟨ranges, mapping⟩ s → n ≠ 0 →
      (memAllocatePages n c s).isSome → s.Undone n c := by
  intro h
  have hsome : (memVmmInitialize.bind fun ranges =>
      (memAllocatePages 1 0 (bootKernelMem ranges)).map (·.2.ranges)).isSome = true := by
    decide +kernel
  obtain ⟨_, hbind⟩ := Option.isSome_iff_exists.mp hsome
  obtain ⟨ranges, hinit, hmap⟩ := Option.bind_eq_some_iff.mp hbind
  obtain ⟨⟨a, s₁⟩, halloc, -⟩ := Option.map_eq_some_iff.mp hmap
  exact not_undone (memVmmInitialize_inv hinit)
    (h ranges _ _ 1 0 hinit .refl (by decide) (Option.isSome_iff_exists.mpr ⟨_, halloc⟩))

end Azalea.Mem
