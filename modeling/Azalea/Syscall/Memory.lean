import Azalea.Mem.TableViews
import Azalea.Mem.VmmRuns
import Azalea.Syscall.Validation

/-!
# Syscall — memory

`syscall/syscall_mem.cpp`: backing memory is taken and released in the calling process, and memory of
one process is mapped in another.  A call is a program over the mapping code and the range lists of the
processes (`MemCall`); an `ASSERT` that fails in either is a failure.  It runs on the page tables
(`tableCalls`), and on the address spaces that they stand for (`spaceCalls`), with the same result as long as
the pages that become tables are empty (`run_agrees`).

The loops count pages in an `int`.  A call on `2 ^ 31` pages or more has met every slot of the tables
before the counter overflows, and ends as it would with a wider one.
-/

namespace Azalea.Syscall
open Azalea.Mem Azalea.Bitmaps Azalea.Programs Azalea.Tiling Function VmmRangeData

/-! ### The memory of the processes -/

/-- The mapping code, and the `vmm_range_data_list` of each process. -/
structure MemState (σ : Type) where
  spaces : σ
  ranges : Nat → List VmmRangeData

/-- What is asked of the range lists. -/
inductive RangeCall : Type → Type where
  | list (process : Nat) : RangeCall (List VmmRangeData)
  | allocate (process : Nat) (numPages : UInt32) : RangeCall UInt64
  | allocateSpecific (process : Nat) (start : UInt64) (numPages : UInt32) : RangeCall Unit
  | deallocate (process : Nat) (start : UInt64) (numPages : UInt32) : RangeCall Unit
  | freeList (process : Nat) : RangeCall Unit

/-- One call on the range lists. -/
def RangeCall.exec {β : Type} : RangeCall β → (Nat → List VmmRangeData) →
    Option (β × (Nat → List VmmRangeData))
  | .list c, ranges => some (ranges c, ranges)
  | .allocate c n, ranges => (memAllocateVirtualRange n (ranges c)).map fun r => (r.1, update ranges c r.2)
  | .allocateSpecific c a n, ranges =>
      (memVmmAllocateSpecificRange a n (ranges c)).map fun r => ((), update ranges c r)
  | .deallocate c a n, ranges =>
      (memDeallocateVirtualRange a n (ranges c)).map fun r => ((), update ranges c r)
  | .freeList c, ranges => some ((), update ranges c [])

/-- A call on the mapping code, or on the range lists. -/
inductive MemCall (β : Type) : Type where
  | spaces (o : SpaceCall β)
  | ranges (o : RangeCall β)

/-- One call. -/
def MemState.exec {σ β : Type} (h : Handler SpaceCall σ) : MemCall β → MemState σ → Option (β × MemState σ)
  | .spaces o, s => (h.exec o s.spaces).map fun r => (r.1, { s with spaces := r.2 })
  | .ranges o, s => (o.exec s.ranges).map fun r => (r.1, { s with ranges := r.2 })

/-- The calls, over the mapping code. -/
def MemState.calls {σ : Type} (h : Handler SpaceCall σ) : Handler MemCall (MemState σ) := ⟨MemState.exec h⟩

/-- On page tables. -/
abbrev tableCalls : Handler MemCall (MemState Mapping) := MemState.calls Mapping.calls

/-- On address spaces. -/
abbrev spaceCalls : Handler MemCall (MemState Spaces) := MemState.calls Spaces.calls

/-- A call on the mapping code. -/
def mapping {β : Type} (o : SpaceCall β) : Prog MemCall β := .op (.spaces o)

/-- A call on the range lists. -/
def vmm {β : Type} (o : RangeCall β) : Prog MemCall β := .op (.ranges o)

/-- The address spaces that the tables stand for. -/
def MemState.view (s : MemState Mapping) : MemState Spaces := ⟨s.spaces.view, s.ranges⟩

/-- The tables are in order, and stand for the address spaces. -/
def MemState.Views (s : MemState Mapping) (t : MemState Spaces) : Prop := s.spaces.Ok ∧ s.view = t

/-- A call takes empty pages for tables. -/
def MemState.TakesEmpty {β : Type} : MemCall β → MemState Mapping → Prop
  | .spaces o, s => s.spaces.TakesEmpty o
  | .ranges _, _ => True

instance (β : Type) (o : MemCall β) (s : MemState Mapping) : Decidable (s.TakesEmpty o) :=
  match o with
  | .spaces o => inferInstanceAs (Decidable (s.spaces.TakesEmpty o))
  | .ranges _ => isTrue trivial

/-- A call is one on which tables and address spaces agree. -/
def MemState.Safe {β : Type} : MemCall β → MemState Spaces → Prop
  | .spaces o, s => s.spaces.Safe o
  | .ranges _, _ => True

section
variable {σ α β : Type} {h : Handler SpaceCall σ} {s : MemState σ}

@[simp] theorem run_mapping (o : SpaceCall β) : (mapping o).run (MemState.calls h) s =
    (h.exec o s.spaces).map fun r => (r.1, { s with spaces := r.2 }) := by
  rw [mapping, Prog.run_op]
  rfl

@[simp] theorem run_vmm (o : RangeCall β) : (vmm o).run (MemState.calls h) s =
    (o.exec s.ranges).map fun r => (r.1, { s with ranges := r.2 }) := by
  rw [vmm, Prog.run_op]
  rfl

@[simp] theorem run_list (c : Nat) : (vmm (.list c)).run (MemState.calls h) s = some (s.ranges c, s) := by
  rw [run_vmm]
  rfl

@[simp] theorem along_mapping {t : MemState Spaces} (o : SpaceCall β) :
    (mapping o).Along spaceCalls MemState.Safe t ↔ t.spaces.Safe o := Prog.along_op

@[simp] theorem along_vmm {t : MemState Spaces} (o : RangeCall β) :
    (vmm o).Along spaceCalls MemState.Safe t := Prog.along_op.mpr trivial

/-- **The calls on memory** do on page tables what they do on address spaces. -/
theorem memCalls_simulate :
    Simulates tableCalls spaceCalls MemState.Views MemState.TakesEmpty MemState.Safe := by
  rintro β o s _ ⟨hok, rfl⟩ hempty hsafe
  cases o with
  | spaces o =>
      have hstep : Agree Mapping.Views (Mapping.calls.exec o s.spaces) (Spaces.calls.exec o s.spaces.view) :=
        calls_simulate o s.spaces s.spaces.view ⟨hok, rfl⟩ hempty hsafe
      change Agree _ ((Mapping.calls.exec o s.spaces).map _) ((Spaces.calls.exec o s.spaces.view).map _)
      generalize Mapping.calls.exec o s.spaces = x, Spaces.calls.exec o s.spaces.view = y at hstep
      cases hstep with
      | none => exact .none
      | some hr => exact .some ⟨hr.1, hr.2.1, congrArg (MemState.mk · s.ranges) hr.2.2⟩
  | ranges o =>
      change Agree _ ((o.exec s.ranges).map _) ((o.exec s.ranges).map _)
      cases o.exec s.ranges with
      | none => exact .none
      | some r => exact .some ⟨rfl, hok, rfl⟩

/-- A program ends on page tables as on the address spaces that they stand for. -/
theorem run_agrees {s : MemState Mapping} {p : Prog MemCall α} (hok : s.spaces.Ok)
    (hempty : p.Along tableCalls MemState.TakesEmpty s) (hsafe : p.Along spaceCalls MemState.Safe s.view) :
    Agree MemState.Views (p.run tableCalls s) (p.run spaceCalls s.view) :=
  memCalls_simulate.run p ⟨hok, rfl⟩ hempty hsafe

/-- What is done on page tables is done on the address spaces. -/
theorem view_run {s s' : MemState Mapping} {p : Prog MemCall α} {a : α} (hok : s.spaces.Ok)
    (hempty : p.Along tableCalls MemState.TakesEmpty s) (hsafe : p.Along spaceCalls MemState.Safe s.view)
    (hs : p.run tableCalls s = some (a, s')) :
    s'.spaces.Ok ∧ p.run spaceCalls s.view = some (a, s'.view) := by
  obtain ⟨t, ht, hok', rfl⟩ := (run_agrees hok hempty hsafe).eq_some hs
  exact ⟨hok', ht⟩

/-- What is done on address spaces is done on page tables. -/
theorem tables_run {s : MemState Mapping} {t : MemState Spaces} {p : Prog MemCall α} {a : α} (hok : s.spaces.Ok)
    (hempty : p.Along tableCalls MemState.TakesEmpty s) (hsafe : p.Along spaceCalls MemState.Safe s.view)
    (ht : p.run spaceCalls s.view = some (a, t)) :
    ∃ s', p.run tableCalls s = some (a, s') ∧ s'.spaces.Ok ∧ s'.view = t := by
  obtain ⟨s', hs', hviews⟩ := (run_agrees hok hempty hsafe).eq_some' ht
  exact ⟨s', hs', hviews⟩

/-- What is said of the address spaces after a program can be shown on the address spaces. -/
theorem run_agrees_iff {s : MemState Mapping} {p : Prog MemCall α} {P : α → MemState Spaces → Prop}
    (hok : s.spaces.Ok) (hempty : p.Along tableCalls MemState.TakesEmpty s)
    (hsafe : p.Along spaceCalls MemState.Safe s.view) :
    (∀ a s', p.run tableCalls s = some (a, s') → P a s'.view) ↔
      ∀ a t, p.run spaceCalls s.view = some (a, t) → P a t :=
  (run_agrees hok hempty hsafe).forall_iff fun _ _ _ hviews => by rw [hviews.2]

end

/-- The thread that makes a call: its process, and the processes its handles stand for. -/
structure Caller where
  process : Nat
  handled : UInt64 → Option Nat

/-- A page address of a range, in 64-bit arithmetic. -/
def pageAt (start : UInt64) (i : Nat) : UInt64 := start + UInt64.ofNat (i * 2097152)

/-! ### The calls of processes -/

/-- The loop of `syscall_allocate_backing_memory` that looks for a page that is mapped already.  It ends at the
first one. -/
def findMapped (context : Nat) : Nat → UInt64 → Prog MemCall Bool
  | 0, _ => pure false
  | n + 1, curMapAddr => do
      let physAddr ← mapping (.getPhysAddr curMapAddr context)
      if physAddr ≠ 0 then pure true else findMapped context n (curMapAddr + memPageSize)

/-- The loop of `syscall_map_memory` that does so.  It looks at all of them. -/
def lookForMapped (context : Nat) : Nat → UInt64 → Bool → Prog MemCall Bool
  | 0, _, found => pure found
  | n + 1, mapAddr, found => do
      let physAddr ← mapping (.getPhysAddr mapAddr context)
      lookForMapped context n (mapAddr + memPageSize) (physAddr != 0 || found)

/-- The loop of `syscall_allocate_backing_memory` that backs the pages.  It goes on after a failure. -/
def backPages (context : Nat) : Nat → UInt64 → ErrCode → Prog MemCall ErrCode
  | 0, _, result => pure result
  | n + 1, curMapAddr, result => do
      let physPage ← mapping .allocatePhysicalPage
      if physPage = 0 then backPages context n (curMapAddr + memPageSize) .outOfResource
      else do
        mapping (.mapPage physPage curMapAddr context)
        backPages context n (curMapAddr + memPageSize) result

/-- `syscall_allocate_backing_memory`, once it has a range. -/
def backRange (context pages : Nat) (start : UInt64) : Prog MemCall (ErrCode × UInt64) := do
  let mapped ← findMapped context pages start
  if mapped then pure (.invalidOp, start)
  else do
    let result ← backPages context pages start .noError
    pure (result, start)

/-- `syscall_allocate_backing_memory`, where `*map_addr` is `start`: the result, and the new `*map_addr`. -/
def allocateBackingMemory (context : Nat) (pages mapAddr start : UInt64) : Prog MemCall (ErrCode × UInt64) :=
  let mapAddrEnd := start + pages * memPageSize
  if pages = 0 ∨ pages > 0x8000000000000000 ∨ mapAddr = 0 ∨ isUmAddress mapAddr.toBitVec = false ∨
      isUmAddress mapAddrEnd.toBitVec = false ∨ isUmAddress start.toBitVec = false then
    pure (.invalidParam, start)
  else if start = 0 then do
    let start ← vmm (.allocate context pages.toUInt32)
    backRange context pages.toNat start
  else backRange context pages.toNat start

/-- `mem_get_virtual_allocation_size`. -/
def memGetVirtualAllocationSize (startAddr : UInt64) (ranges : List VmmRangeData) : UInt64 :=
  match ranges.find? fun r => r.start == startAddr with
  | some r => if r.allocated then r.numberOfPages else 0
  | none => 0

/-- The loop of `mem_unmap_range`. -/
def unmapPages (context : Nat) (allowPhysPageFree : Bool) : Nat → UInt64 → Prog MemCall Unit
  | 0, _ => pure ()
  | n + 1, curVirtAddr => do
      mapping (.unmapPage curVirtAddr context allowPhysPageFree)
      unmapPages context allowPhysPageFree n (curVirtAddr + memPageSize)

/-- `syscall_release_backing_memory`.  `mem_unmap_range` asserts that the address is that of a page. -/
def releaseBackingMemory (context : Nat) (deallocPtr : UInt64) : Prog MemCall ErrCode :=
  if isUmAddress deallocPtr.toBitVec = false then pure .invalidOp
  else do
    let ranges ← vmm (.list context)
    let numPages := memGetVirtualAllocationSize deallocPtr ranges
    if numPages = 0 then pure .notFound
    else if deallocPtr % memPageSize ≠ 0 then .fail
    else do
      unmapPages context true numPages.toUInt32.toNat deallocPtr
      pure .noError

/-- The loop of `syscall_map_memory` that maps the pages. -/
def sharePages (receiving originating : Nat) : Nat → UInt64 → UInt64 → Prog MemCall Unit
  | 0, _, _ => pure ()
  | n + 1, extantAddr, mapAddr => do
      let physAddr ← mapping (.getPhysAddr extantAddr originating)
      vmm (.allocateSpecific receiving mapAddr 1)
      mapping (.mapPage physAddr mapAddr receiving)
      sharePages receiving originating n (extantAddr + memPageSize) (mapAddr + memPageSize)

/-- The arguments of `syscall_map_memory`. -/
structure MapArgs where
  procMappingIn : UInt64
  mapAddr : UInt64
  length : UInt64
  procAlreadyIn : UInt64
  extantAddr : UInt64
  deriving Repr, DecidableEq

/-- The test of the arguments. -/
def MapArgs.invalid (args : MapArgs) : Prop :=
  args.length % memPageSize ≠ 0 ∨ args.mapAddr = 0 ∨ args.extantAddr = 0 ∨
    isUmAddress args.mapAddr.toBitVec = false ∨ isUmAddress args.extantAddr.toBitVec = false ∨
    args.mapAddr % memPageSize ≠ 0 ∨ args.extantAddr % memPageSize ≠ 0

instance (args : MapArgs) : Decidable args.invalid :=
  inferInstanceAs (Decidable (_ ∨ _ ∨ _ ∨ _ ∨ _ ∨ _ ∨ _))

/-- The number of pages to map. -/
def MapArgs.pages (args : MapArgs) : Nat := (args.length / memPageSize).toNat

/-- The process a handle stands for; zero is the calling process. -/
def Caller.find (caller : Caller) (handle : UInt64) : Option Nat :=
  if handle ≠ 0 then caller.handled handle else some caller.process

/-- `syscall_map_memory`. -/
def mapMemory (curThread : Option Caller) (args : MapArgs) : Prog MemCall ErrCode :=
  if args.invalid then pure .invalidParam
  else
    match curThread with
    | none => pure .invalidOp
    | some caller =>
        match caller.find args.procMappingIn, caller.find args.procAlreadyIn with
        | some receiving, some originating => do
            let found ← lookForMapped receiving args.pages args.mapAddr false
            if found then pure .invalidOp
            else do
              sharePages receiving originating args.pages args.extantAddr args.mapAddr
              pure .noError
        | _, _ => pure .invalidParam

/-! ### Pages of a range -/

@[simp] theorem pageAt_zero (a : UInt64) : pageAt a 0 = a := by simp [pageAt]

theorem pageAt_succ (a : UInt64) (i : Nat) : pageAt (a + memPageSize) i = pageAt a (i + 1) := by
  rw [← UInt64.toNat_inj]
  simp only [pageAt, memPageSize, UInt64.toNat_add, UInt64.reduceToNat, UInt64.toNat_ofNat']
  omega

/-- What holds of the first page and of those after it holds of all. -/
theorem forall_pages {P : UInt64 → Prop} {n : Nat} {a : UInt64} :
    (∀ i < n + 1, P (pageAt a i)) ↔ P a ∧ ∀ i < n, P (pageAt (a + memPageSize) i) := by
  simp only [pageAt_succ]
  constructor
  · intro h
    exact ⟨by simpa using h 0 (Nat.succ_pos n), fun i hi => h (i + 1) (Nat.succ_lt_succ hi)⟩
  · rintro ⟨h0, h⟩ (_ | i) hi
    · simpa using h0
    · exact h i (Nat.lt_of_succ_lt_succ hi)

/-- The slots of the pages. -/
def pageKeys (c : Nat) : Nat → UInt64 → Finset (Nat × Nat)
  | 0, _ => ∅
  | n + 1, a => insert (slotKey c a) (pageKeys c n (a + memPageSize))

/-- One of the pages is mapped already. -/
def anyMapped (spaces : Spaces) (context : Nat) : Nat → UInt64 → Bool
  | 0, _ => false
  | n + 1, curMapAddr =>
      spaces.getPhysAddr curMapAddr context != 0 || anyMapped spaces context n (curMapAddr + memPageSize)

theorem anyMapped_eq_false {spaces : Spaces} {c n : Nat} {a : UInt64} :
    anyMapped spaces c n a = false ↔ ∀ i < n, spaces.getPhysAddr (pageAt a i) c = 0 := by
  induction n generalizing a with
  | zero => simp [anyMapped]
  | succ n ih =>
      rw [anyMapped, Bool.or_eq_false_iff, ih, bne_eq_false_iff_eq,
        forall_pages (P := fun a => spaces.getPhysAddr a c = 0)]

/-! ### The calls on address spaces -/

section
variable {s s' : MemState Spaces} {c n p : Nat} {a : UInt64}

@[simp] theorem run_getPhysAddr (s : MemState Spaces) (a : UInt64) (c : Nat) :
    (mapping (.getPhysAddr a c)).run spaceCalls s = some (s.spaces.getPhysAddr a c, s) := by
  rw [run_mapping]
  rfl

theorem run_mapPage : (mapping (.mapPage p a c)).run spaceCalls s = some ((), s') ↔
    s.spaces.Mappable p a c ∧ ∃ s₁, s.spaces.takeTables (slotKey c a) = some s₁ ∧
      s' = ⟨s₁.withPage p a c, s.ranges⟩ := by
  rw [run_mapping]
  change ((s.spaces.mapPage p a c).map fun spaces => ((), spaces)).map _ = _ ↔ _
  rw [Option.map_map, Option.map_eq_some_iff]
  constructor
  · rintro ⟨spaces, hs, heq⟩
    obtain ⟨-, rfl⟩ := Prod.mk.inj heq
    obtain ⟨hmap, s₁, hs₁, rfl⟩ := Spaces.mapPage_eq_some.mp hs
    exact ⟨hmap, s₁, hs₁, rfl⟩
  · rintro ⟨hmap, s₁, hs₁, rfl⟩
    exact ⟨_, Spaces.mapPage_eq_some.mpr ⟨hmap, s₁, hs₁, rfl⟩, rfl⟩

theorem run_allocateSpecific : (vmm (.allocateSpecific c a 1)).run spaceCalls s = some ((), s') ↔
    ∃ ranges, memVmmAllocateSpecificRange a 1 (s.ranges c) = some ranges ∧
      s' = ⟨s.spaces, update s.ranges c ranges⟩ := by
  rw [run_vmm]
  change ((memVmmAllocateSpecificRange a 1 (s.ranges c)).map _).map _ = _ ↔ _
  rw [Option.map_map, Option.map_eq_some_iff]
  constructor
  · rintro ⟨ranges, hr, heq⟩
    exact ⟨ranges, hr, (Prod.mk.inj heq).2.symm⟩
  · rintro ⟨ranges, hr, rfl⟩
    exact ⟨ranges, hr, rfl⟩

/-- The address of a page is one that the tables can hold. -/
theorem known_getPhysAddr {spaces : Spaces} (ha : a.toNat % 2097152 = 0) :
    spaces.Known (spaces.getPhysAddr a c) := by
  rw [Spaces.getPhysAddr_page ha]
  cases hf : spaces.frames (slotKey c a) with
  | none => exact .inl ⟨0, by decide, rfl⟩
  | some p => exact .inr ⟨_, hf⟩

/-- The loops that look for a page that is mapped change nothing. -/
theorem findMapped_run (s : MemState Spaces) (c n : Nat) (a : UInt64) :
    (findMapped c n a).run spaceCalls s = some (anyMapped s.spaces c n a, s) := by
  induction n generalizing a with
  | zero => rfl
  | succ n ih =>
      rw [findMapped, Prog.run_bind, run_getPhysAddr, Option.bind_some, Prog.run_ite, Prog.run_pure, ih,
        anyMapped]
      by_cases hzero : s.spaces.getPhysAddr a c = 0
      · rw [if_neg (not_not.mpr hzero), hzero]
        rfl
      · rw [if_pos hzero, bne_iff_ne.mpr hzero]
        rfl

theorem lookForMapped_run (s : MemState Spaces) (c n : Nat) (a : UInt64) (found : Bool) :
    (lookForMapped c n a found).run spaceCalls s = some (anyMapped s.spaces c n a || found, s) := by
  induction n generalizing a found with
  | zero => rfl
  | succ n ih =>
      rw [lookForMapped, Prog.run_bind, run_getPhysAddr, Option.bind_some, ih, anyMapped,
        ← Bool.or_assoc, Bool.or_comm (anyMapped ..)]

theorem findMapped_safe (s : MemState Spaces) (c n : Nat) (a : UInt64) :
    (findMapped c n a).Along spaceCalls MemState.Safe s := by
  induction n generalizing a s with
  | zero => trivial
  | succ n ih =>
      rw [findMapped, Prog.along_bind, along_mapping]
      refine ⟨trivial, fun physAddr s' _ => ?_⟩
      split
      · exact Prog.along_pure _
      · exact ih s' _

theorem lookForMapped_safe (s : MemState Spaces) (c n : Nat) (a : UInt64) (found : Bool) :
    (lookForMapped c n a found).Along spaceCalls MemState.Safe s := by
  induction n generalizing a s found with
  | zero => trivial
  | succ n ih =>
      rw [lookForMapped, Prog.along_bind, along_mapping]
      exact ⟨trivial, fun physAddr s' _ => ih s' _ _⟩

end

/-! ### What is kept by every call -/

/-- The ranges of each process tile user memory, physical pages are whole, and those that are free have no
tables in them. -/
structure MemState.Ok (s : MemState Spaces) : Prop where
  ranges : ∀ c, VmmInv userRoot (s.ranges c)
  whole : ∀ key p, s.spaces.frames key = some p → p % sizeOfPage = 0
  order : s.spaces.InOrder

theorem getPhysAddr_whole {s : MemState Spaces} (h : s.Ok) {a : UInt64} {c : Nat}
    (ha : a.toNat % 2097152 = 0) : s.spaces.getPhysAddr a c % sizeOfPage = 0 := by
  rw [Spaces.getPhysAddr_page ha]
  cases hf : s.spaces.frames (slotKey c a) with
  | none => rfl
  | some p => exact h.whole _ p hf

/-- A page that can be reserved is a page of user memory. -/
theorem reserve_page {a : UInt64} {ranges ranges' : List VmmRangeData} (h : VmmInv userRoot ranges)
    (hr : memVmmAllocateSpecificRange a 1 ranges = some ranges') :
    VmmInv userRoot ranges' ∧ a.toNat % 2097152 = 0 ∧ a.toNat < 2 ^ 46 := by
  have hstep : VmmState.step ⟨ranges, []⟩ (.allocateSpecific a 1) = some ⟨ranges', [grantOf a 1]⟩ := by
    rw [VmmState.step, hr]
    rfl
  obtain ⟨ho, -⟩ := allocateSpecific_cases hr
  obtain ⟨pre, x, post, hl, hcovers⟩ := allocateSpecific_covers h.wf hr
  have hbounds := (h.tiles.bounds x (by rw [hl]; simp)).2
  have htop : userRoot.page + userRoot.pages = 2 ^ 25 := by decide
  have hdvd : 2097152 ∣ a.toNat := (Dvd.intro_left _ rfl).trans ho.aligned
  have hlt := hcovers.2
  refine ⟨(step_cases h hstep).1, Nat.mod_eq_zero_of_dvd hdvd, ?_⟩
  omega

/-- The pages are reserved one after the other. -/
def reserve : Nat → UInt64 → List VmmRangeData → Option (List VmmRangeData)
  | 0, _, ranges => some ranges
  | n + 1, a, ranges =>
      (memVmmAllocateSpecificRange a 1 ranges).bind (reserve n (a + memPageSize))

theorem reserve_pages {n : Nat} {a : UInt64} {ranges ranges' : List VmmRangeData}
    (h : VmmInv userRoot ranges) (hr : reserve n a ranges = some ranges') :
    VmmInv userRoot ranges' ∧
      ∀ i < n, (pageAt a i).toNat % 2097152 = 0 ∧ (pageAt a i).toNat < 2 ^ 46 := by
  induction n generalizing a ranges with
  | zero => exact ⟨Option.some.inj hr ▸ h, nofun⟩
  | succ n ih =>
      obtain ⟨ranges₁, hone, hrest⟩ := Option.bind_eq_some_iff.mp hr
      obtain ⟨hinv, hpage⟩ := reserve_page h hone
      obtain ⟨hinv', hpages⟩ := ih hinv hrest
      exact ⟨hinv', (forall_pages (P := fun a => a.toNat % 2097152 = 0 ∧ a.toNat < 2 ^ 46)).mpr
        ⟨hpage, hpages⟩⟩

theorem pageAt_toNat {n : Nat} {a : UInt64} (h : ∀ i < n, (pageAt a i).toNat < 2 ^ 46) :
    ∀ i < n, (pageAt a i).toNat = a.toNat + i * 2097152 := by
  intro i hi
  induction i with
  | zero => simp
  | succ i ih =>
      have hprev := ih (Nat.lt_of_succ_lt hi)
      have hlt := h i (Nat.lt_of_succ_lt hi)
      have hnext : pageAt a (i + 1) = pageAt a i + memPageSize := by
        rw [← UInt64.toNat_inj]
        simp only [pageAt, memPageSize, UInt64.toNat_add, UInt64.reduceToNat, UInt64.toNat_ofNat']
        omega
      rw [hnext, UInt64.toNat_add, hprev]
      simp only [memPageSize, UInt64.reduceToNat]
      omega

/-- The slots of pages of user memory are apart. -/
theorem slotKey_pageAt_ne {n c : Nat} {a : UInt64} (hfirst : a.toNat < 2 ^ 46)
    (h : ∀ i < n, (pageAt (a + memPageSize) i).toNat < 2 ^ 46) :
    ∀ i < n, slotKey c (pageAt (a + memPageSize) i) ≠ slotKey c a := by
  intro i hi heq
  have hall := (forall_pages (P := fun a => a.toNat < 2 ^ 46)).mpr ⟨hfirst, h⟩
  have htoNat := pageAt_toNat hall (i + 1) (Nat.succ_lt_succ hi)
  have hlow := h i hi
  rw [slotKey_low (by omega), slotKey_low (by omega), Prod.mk.injEq] at heq
  rw [pageAt_succ] at heq
  omega

/-! ### Mapping memory of another process -/

/-- A page more is mapped in a process, which has reserved it. -/
def MemState.withPage (s : MemState Spaces) (physAddr : Nat) (mapAddr : UInt64) (context : Nat)
    (ranges : List VmmRangeData) : MemState Spaces :=
  ⟨s.spaces.withPage physAddr mapAddr context, update s.ranges context ranges⟩

@[simp] theorem MemState.withPage_frames (s : MemState Spaces) (p : Nat) (a : UInt64) (c : Nat)
    (ranges : List VmmRangeData) :
    (s.withPage p a c ranges).spaces.frames = update s.spaces.frames (slotKey c a) (some p) := rfl

@[simp] theorem MemState.withPage_ranges (s : MemState Spaces) (p : Nat) (a : UInt64) (c : Nat)
    (ranges : List VmmRangeData) : (s.withPage p a c ranges).ranges = update s.ranges c ranges := rfl

section
variable {s s' : MemState Spaces} {s₁ : Spaces} {receiving originating n : Nat} {extantAddr mapAddr : UInt64}

/-- One page is shared, and then the others. -/
theorem sharePages_succ :
    (sharePages receiving originating (n + 1) extantAddr mapAddr).run spaceCalls s = some ((), s') ↔
      ∃ ranges s₁, memVmmAllocateSpecificRange mapAddr 1 (s.ranges receiving) = some ranges ∧
        s.spaces.Mappable (s.spaces.getPhysAddr extantAddr originating) mapAddr receiving ∧
        s.spaces.takeTables (slotKey receiving mapAddr) = some s₁ ∧
        (sharePages receiving originating n (extantAddr + memPageSize) (mapAddr + memPageSize)).run spaceCalls
          (MemState.withPage ⟨s₁, s.ranges⟩ (s.spaces.getPhysAddr extantAddr originating) mapAddr receiving
            ranges) = some ((), s') := by
  simp only [sharePages, Prog.run_bind, run_getPhysAddr, Option.bind_some, Option.bind_eq_some_iff]
  constructor
  · rintro ⟨⟨⟨⟩, t₁⟩, hreserve, ⟨⟨⟩, t₂⟩, hpage, hrest⟩
    obtain ⟨ranges, hr, rfl⟩ := run_allocateSpecific.mp hreserve
    obtain ⟨hm, s₁, hs₁, rfl⟩ := run_mapPage.mp hpage
    exact ⟨ranges, s₁, hr, hm, hs₁, hrest⟩
  · rintro ⟨ranges, s₁, hr, hm, hs₁, hrest⟩
    exact ⟨_, run_allocateSpecific.mpr ⟨ranges, hr, rfl⟩, _, run_mapPage.mpr ⟨hm, s₁, hs₁, rfl⟩, hrest⟩

theorem MemState.Ok.takes (h : s.Ok) (ht : s.spaces.Takes s₁) : MemState.Ok ⟨s₁, s.ranges⟩ := by
  refine ⟨h.ranges, fun key p hp => h.whole key p ?_, ht.order⟩
  rw [← ht.frames]
  exact hp

theorem MemState.Ok.withPage (h : s.Ok) {p c : Nat} {a : UInt64} {ranges : List VmmRangeData}
    (hp : p % sizeOfPage = 0) (hr : VmmInv userRoot ranges) : (s.withPage p a c ranges).Ok := by
  refine ⟨fun c' => ?_, fun key q hq => ?_, h.order.congr rfl rfl⟩
  · rw [withPage_ranges, update_apply]
    split
    · exact hr
    · exact h.ranges c'
  · rw [withPage_frames, update_apply] at hq
    split at hq
    · exact Option.some.inj hq ▸ hp
    · exact h.whole key q hq

theorem add_memPageSize_aligned {a : UInt64} (ha : a.toNat % 2097152 = 0) :
    (a + memPageSize).toNat % 2097152 = 0 := by
  rw [UInt64.toNat_add]
  simp only [memPageSize, UInt64.reduceToNat]
  omega

/-- The calls that share pages map what the tables can hold. -/
theorem sharePages_safe (s : MemState Spaces) (he : extantAddr.toNat % 2097152 = 0) :
    (sharePages receiving originating n extantAddr mapAddr).Along spaceCalls MemState.Safe s := by
  induction n generalizing extantAddr mapAddr s with
  | zero => trivial
  | succ n ih =>
      simp only [sharePages, Prog.along_bind, along_mapping, run_getPhysAddr, Option.some.injEq, Prod.mk.injEq]
      refine ⟨trivial, ?_⟩
      rintro _ _ ⟨rfl, rfl⟩
      refine ⟨along_vmm _, fun _ t₁ hr => ?_⟩
      obtain ⟨ranges, -, rfl⟩ := run_allocateSpecific.mp hr
      exact ⟨known_getPhysAddr he, fun _ t₂ _ => ih t₂ (add_memPageSize_aligned he)⟩

/-- Pages can be mapped exactly if they can be reserved, no page is there yet, and the tables for them can be
had. -/
theorem sharePages_isSome (h : s.Ok) (he : extantAddr.toNat % 2097152 = 0) :
    (∃ s', (sharePages receiving originating n extantAddr mapAddr).run spaceCalls s = some ((), s')) ↔
      (reserve n mapAddr (s.ranges receiving)).isSome ∧
        (∀ i < n, s.spaces.frames (slotKey receiving (pageAt mapAddr i)) = none) ∧
        s.spaces.tablesNeeded (pageKeys receiving n mapAddr) ≤ s.spaces.pool.room := by
  induction n generalizing extantAddr mapAddr s with
  | zero => exact ⟨fun _ => ⟨rfl, nofun, Nat.zero_le _⟩, fun _ => ⟨s, rfl⟩⟩
  | succ n ih =>
      have hwhole := getPhysAddr_whole h (c := originating) he
      rw [forall_pages (P := fun a => s.spaces.frames (slotKey receiving a) = none), reserve, pageKeys]
      constructor
      · rintro ⟨s', hs'⟩
        obtain ⟨ranges, s₁, hr, hmap, hs₁, hrest⟩ := sharePages_succ.mp hs'
        obtain ⟨hinv, hpage⟩ := reserve_page (h.ranges receiving) hr
        obtain ⟨htakes, hroom⟩ := Spaces.takeTables_takes h.order hs₁
        obtain ⟨hreserve, hnone, hneeded⟩ := (ih ((h.takes htakes).withPage hwhole hinv)
          (add_memPageSize_aligned he)).mp ⟨s', hrest⟩
        rw [MemState.withPage_ranges, update_self] at hreserve
        refine ⟨by rw [hr]; exact hreserve, ⟨hmap.free, fun i hi => ?_⟩, ?_⟩
        · have := hnone i hi
          rw [MemState.withPage_frames, update_apply] at this
          split at this
          · cases this
          · rwa [htakes.frames] at this
        · rw [Spaces.tablesNeeded_insert hs₁]
          change s₁.tablesNeeded _ ≤ s₁.pool.room at hneeded
          omega
      · rintro ⟨hreserve, ⟨hfree, hnone⟩, hneeded⟩
        obtain ⟨ranges₂, hranges₂⟩ := Option.isSome_iff_exists.mp hreserve
        obtain ⟨ranges, hr, hrest⟩ := Option.bind_eq_some_iff.mp hranges₂
        obtain ⟨hinv, hpage⟩ := reserve_page (h.ranges receiving) hr
        have hapart := slotKey_pageAt_ne (c := receiving) hpage.2
          fun i hi => ((reserve_pages hinv hrest).2 i hi).2
        have hmap : s.spaces.Mappable (s.spaces.getPhysAddr extantAddr originating) mapAddr receiving :=
          ⟨hwhole, hpage.1, fun hhigh => by omega, hfree⟩
        have htables : ∃ s₁, s.spaces.takeTables (slotKey receiving mapAddr) = some s₁ := by
          rw [Spaces.takeTables_iff h.order]
          exact (Spaces.missing_le s.spaces _ _).trans hneeded
        obtain ⟨s₁, hs₁⟩ := htables
        obtain ⟨htakes, hroom⟩ := Spaces.takeTables_takes h.order hs₁
        have hreserve' : (reserve n (mapAddr + memPageSize) (update s.ranges receiving ranges
            receiving)).isSome := by
          rw [update_self]
          exact Option.isSome_iff_exists.mpr ⟨ranges₂, hrest⟩
        obtain ⟨s', hs'⟩ := (ih ((h.takes htakes).withPage hwhole hinv)
          (add_memPageSize_aligned he)).mpr ⟨hreserve', fun i hi => by
            rw [MemState.withPage_frames, update_of_ne (hapart i hi), htakes.frames]
            exact hnone i hi, by
            rw [Spaces.tablesNeeded_insert hs₁] at hneeded
            change s₁.tablesNeeded _ ≤ s₁.pool.room
            omega⟩
        exact ⟨s', sharePages_succ.mpr ⟨ranges, s₁, hr, hmap, hs₁, hs'⟩⟩

/-- What is mapped afterwards: the pages asked for are what the pages of the originating process were,
and nothing else has changed. -/
theorem sharePages_frames (h : s.Ok) (he : extantAddr.toNat % 2097152 = 0)
    (hs : (sharePages receiving originating n extantAddr mapAddr).run spaceCalls s = some ((), s')) :
    s'.Ok ∧
      (∀ i < n, ∀ p, s.spaces.frames (slotKey originating (pageAt extantAddr i)) = some p →
        s'.spaces.frames (slotKey receiving (pageAt mapAddr i)) = some p) ∧
      ∀ key, (∀ i < n, key ≠ slotKey receiving (pageAt mapAddr i)) →
        s'.spaces.frames key = s.spaces.frames key := by
  induction n generalizing extantAddr mapAddr s with
  | zero =>
      obtain rfl := (Prod.mk.inj (Option.some.inj hs)).2
      exact ⟨h, nofun, fun key _ => rfl⟩
  | succ n ih =>
      obtain ⟨ranges, s₁, hr, hmap, hs₁, hrest⟩ := sharePages_succ.mp hs
      obtain ⟨hinv, hpage⟩ := reserve_page (h.ranges receiving) hr
      have htakes := (Spaces.takeTables_takes h.order hs₁).1
      have hok := (h.takes htakes).withPage (c := receiving) (a := mapAddr) hmap.whole hinv
      obtain ⟨hreserve, -⟩ := (sharePages_isSome hok (add_memPageSize_aligned he)).mp ⟨s', hrest⟩
      obtain ⟨ranges₂, hranges₂⟩ := Option.isSome_iff_exists.mp hreserve
      rw [MemState.withPage_ranges, update_self] at hranges₂
      have hapart := slotKey_pageAt_ne (c := receiving) hpage.2
        fun i hi => ((reserve_pages hinv hranges₂).2 i hi).2
      obtain ⟨hok', hshared, hother⟩ := ih hok (add_memPageSize_aligned he) hrest
      refine ⟨hok', fun i hi p hp => ?_, fun key hkey => ?_⟩
      · cases i with
        | zero =>
            rw [pageAt_zero] at hp ⊢
            rw [hother _ fun i hi => (hapart i hi).symm, MemState.withPage_frames, update_self,
              Spaces.getPhysAddr_page he, hp]
            rfl
        | succ i =>
            rw [← pageAt_succ] at hp ⊢
            refine hshared i (Nat.lt_of_succ_lt_succ hi) p ?_
            rw [MemState.withPage_frames, update_of_ne, htakes.frames, hp]
            -- a page that is mapped is not the one that was free
            rintro heq
            rw [heq, hmap.free] at hp
            cases hp
      · have hkeys := (forall_pages (P := fun a => key ≠ slotKey receiving a)).mp hkey
        rw [hother key hkeys.2, MemState.withPage_frames, update_of_ne hkeys.1, htakes.frames]

end

/-! ### Backing pages -/

/-- A physical page is handed out, and mapped. -/
def MemState.BacksPage (s : MemState Spaces) (c : Nat) (a : UInt64) (p : Nat) (t : MemState Spaces) : Prop :=
  ∃ phys s₁, memAllocatePhysicalPages 1 s.spaces.phys = some (p, phys) ∧
    (s.spaces.withPhys phys).Mappable p a c ∧
    (s.spaces.withPhys phys).takeTables (slotKey c a) = some s₁ ∧ t = ⟨s₁.withPage p a c, s.ranges⟩

/-- What is different when a page has been backed: it is mapped to a physical page that was free, and there is
so much less room. -/
structure PageBacked (s t : MemState Spaces) (c : Nat) (a : UInt64) (q : Nat) : Prop where
  ok : t.Ok
  ranges : t.ranges = s.ranges
  aligned : a.toNat % 2097152 = 0
  unmapped : s.spaces.frames (slotKey c a) = none
  free : bit s.spaces.phys.alloc q = true
  taken : ∀ m, bit t.spaces.phys.alloc m = true → bit s.spaces.phys.alloc m = true ∧ m ≠ q
  frames : t.spaces.frames = update s.spaces.frames (slotKey c a) (some (sizeOfPage * q))
  room : t.spaces.pool.room + 512 + s.spaces.missing (slotKey c a) = s.spaces.pool.room
  needed : ∀ keys, s.spaces.tablesNeeded (insert (slotKey c a) keys) =
    s.spaces.missing (slotKey c a) + t.spaces.tablesNeeded keys

section
variable {s s' t : MemState Spaces} {c n p : Nat} {a : UInt64} {result result' : ErrCode}

theorem run_allocatePhysicalPage : (mapping .allocatePhysicalPage).run spaceCalls s = some (p, s') ↔
    ∃ phys, memAllocatePhysicalPages 1 s.spaces.phys = some (p, phys) ∧
      s' = ⟨s.spaces.withPhys phys, s.ranges⟩ := by
  rw [run_mapping]
  change ((memAllocatePhysicalPages 1 s.spaces.phys).map _).map _ = _ ↔ _
  rw [Option.map_map, Option.map_eq_some_iff]
  constructor
  · rintro ⟨⟨q, phys⟩, hphys, heq⟩
    obtain ⟨rfl, rfl⟩ := Prod.mk.inj heq
    exact ⟨phys, hphys, rfl⟩
  · rintro ⟨phys, hphys, rfl⟩
    exact ⟨(p, phys), hphys, rfl⟩

/-- **A page is backed** by a page that was free. -/
theorem MemState.Ok.backed (h : s.Ok) (hb : s.BacksPage c a p t) :
    ∃ q, p = sizeOfPage * q ∧ p ≠ 0 ∧ PageBacked s t c a q := by
  obtain ⟨phys, s₁, hphys, hmap, hs₁, rfl⟩ := hb
  obtain ⟨horder, hroom⟩ := h.order.allocate hphys
  obtain ⟨-, -, q, -, rfl, hne, hbit, hclear, -⟩ := h.order.pool.allocate hphys
  obtain ⟨htakes, hroom'⟩ := Spaces.takeTables_takes horder hs₁
  refine ⟨q, rfl, hne, ⟨⟨h.ranges, fun key r hr => ?_, htakes.order.congr rfl rfl⟩, rfl, hmap.aligned, hmap.free,
    hbit, fun m hm => ?_, ?_, ?_, fun keys => Spaces.tablesNeeded_insert hs₁ keys⟩⟩
  · rw [Spaces.withPage_frames, update_apply] at hr
    split at hr
    · exact Option.some.inj hr ▸ hmap.whole
    · rw [htakes.frames] at hr
      exact h.whole key r hr
  · have hfree := htakes.alloc m hm
    change bit phys.alloc m = true at hfree
    rw [hclear, bit_clearBit, Bool.and_eq_true, decide_eq_true_eq] at hfree
    exact ⟨hfree.2, hfree.1⟩
  · rw [Spaces.withPage_frames, htakes.frames]
    rfl
  · change s₁.pool.room + 512 + s.spaces.missing (slotKey c a) = s.spaces.pool.room
    change s₁.pool.room + s.spaces.missing (slotKey c a) = _ at hroom'
    omega

/-- **A page can be backed** if nothing is mapped there, and there is room for it and for its tables; the
kernel's are there already at the highest level. -/
theorem MemState.Ok.backsPage_iff (h : s.Ok) : (∃ p t, s.BacksPage c a p t) ↔
    a.toNat % 2097152 = 0 ∧ s.spaces.frames (slotKey c a) = none ∧
      (2 ^ 63 ≤ a.toNat → s.spaces.tables (ptrPlace (slotKey c a)) ≠ none) ∧
      512 + s.spaces.missing (slotKey c a) ≤ s.spaces.pool.room := by
  constructor
  · rintro ⟨p, t, hb⟩
    obtain ⟨q, -, -, hbacked⟩ := h.backed hb
    obtain ⟨phys, s₁, -, hmap, -⟩ := hb
    have := hbacked.room
    exact ⟨hbacked.aligned, hbacked.unmapped, hmap.kernel, by omega⟩
  · rintro ⟨haligned, hnone, hkernel, hroom⟩
    obtain ⟨p, -, hp, hphys⟩ := memAllocatePhysicalPages_eq h.order.pool.ok.phys
      (h.order.pool.freePages_pos.mpr (by omega))
    obtain ⟨horder, hroom'⟩ := h.order.allocate hphys
    obtain ⟨s₁, hs₁⟩ := (@Spaces.takeTables_iff _ (slotKey c a) horder).mpr (by
      change s.spaces.missing (slotKey c a) ≤ _
      omega)
    exact ⟨_, _, _, s₁, hphys, ⟨Nat.mul_mod_right .., haligned, hkernel, hnone⟩, hs₁, rfl⟩

/-- In the lower half. -/
theorem MemState.Ok.backs_iff (h : s.Ok) (hlow : a.toNat < 2 ^ 63) : (∃ p t, s.BacksPage c a p t) ↔
    a.toNat % 2097152 = 0 ∧ s.spaces.frames (slotKey c a) = none ∧
      512 + s.spaces.missing (slotKey c a) ≤ s.spaces.pool.room := by
  rw [h.backsPage_iff, and_iff_right (a := 2 ^ 63 ≤ a.toNat → _) fun hhigh => absurd hlow (not_lt.mpr hhigh)]

/-- What a round of the loop does. -/
theorem backPages_succ (h : s.Ok) : (backPages c (n + 1) a result).run spaceCalls s = some (result', s') ↔
    ∃ p t, s.BacksPage c a p t ∧
      (backPages c n (a + memPageSize) result).run spaceCalls t = some (result', s') := by
  rw [backPages, Prog.run_bind, Option.bind_eq_some_iff]
  constructor
  · rintro ⟨⟨p, t₁⟩, hpage, hrest⟩
    obtain ⟨phys, hphys, rfl⟩ := run_allocatePhysicalPage.mp hpage
    have hne : p ≠ 0 := by
      obtain ⟨-, -, q, -, -, hne, -⟩ := h.order.pool.allocate hphys
      exact hne
    rw [Prog.run_ite, if_neg hne, Prog.run_bind] at hrest
    obtain ⟨⟨⟨⟩, t⟩, hmapped, hrest'⟩ := Option.bind_eq_some_iff.mp hrest
    obtain ⟨hmap, s₁, hs₁, rfl⟩ := run_mapPage.mp hmapped
    exact ⟨p, _, ⟨phys, s₁, hphys, hmap, hs₁, rfl⟩, hrest'⟩
  · rintro ⟨p, t, hb, hrest⟩
    obtain ⟨q, -, hne, -⟩ := h.backed hb
    obtain ⟨phys, s₁, hphys, hmap, hs₁, rfl⟩ := hb
    refine ⟨_, run_allocatePhysicalPage.mpr ⟨phys, hphys, rfl⟩, ?_⟩
    rw [Prog.run_ite, if_neg hne, Prog.run_bind]
    exact Option.bind_eq_some_iff.mpr ⟨_, run_mapPage.mpr ⟨hmap, s₁, hs₁, rfl⟩, hrest⟩

/-- A page that has been handed out can be mapped. -/
theorem known_allocated (h : s.Ok) {phys : PhysMem}
    (hphys : memAllocatePhysicalPages 1 s.spaces.phys = some (p, phys)) : (s.spaces.withPhys phys).Known p := by
  obtain ⟨-, -, q, hq, rfl, -⟩ := h.order.pool.allocate hphys
  exact .inl ⟨q, hq, rfl⟩

theorem backPages_safe (h : s.Ok) : (backPages c n a result).Along spaceCalls MemState.Safe s := by
  induction n generalizing a result s with
  | zero => trivial
  | succ n ih =>
      rw [backPages, Prog.along_bind, along_mapping]
      refine ⟨trivial, fun p t₁ htaken => ?_⟩
      obtain ⟨phys, hphys, rfl⟩ := run_allocatePhysicalPage.mp htaken
      obtain ⟨-, -, q, -, -, hne, -⟩ := h.order.pool.allocate hphys
      rw [if_neg hne, Prog.along_bind, along_mapping]
      refine ⟨known_allocated h hphys, fun _ t hpage => ?_⟩
      obtain ⟨hmap, s₁, hs₁, rfl⟩ := run_mapPage.mp hpage
      obtain ⟨q, -, -, hbacked⟩ := h.backed ⟨phys, s₁, hphys, hmap, hs₁, rfl⟩
      exact ih hbacked.ok

theorem MemState.Ok.backPages (h : s.Ok)
    (hs : (Syscall.backPages c n a result).run spaceCalls s = some (result', s')) : s'.Ok := by
  induction n generalizing a result s with
  | zero =>
      obtain ⟨-, rfl⟩ := Prod.mk.inj (Option.some.inj hs)
      exact h
  | succ n ih =>
      obtain ⟨p, t, hb, hrest⟩ := (backPages_succ h).mp hs
      obtain ⟨q, -, -, hbacked⟩ := h.backed hb
      exact ih hbacked.ok hrest

/-- Each page takes room for 512 tables. -/
theorem backPages_room (h : s.Ok) (hs : (Syscall.backPages c n a result).run spaceCalls s = some (result', s')) :
    512 * n ≤ s.spaces.pool.room := by
  induction n generalizing a result s with
  | zero => exact Nat.zero_le _
  | succ n ih =>
      obtain ⟨p, t, hb, hrest⟩ := (backPages_succ h).mp hs
      obtain ⟨q, -, -, hbacked⟩ := h.backed hb
      have := ih hbacked.ok hrest
      have := hbacked.room
      omega

end

/-! ### Taking memory -/

theorem le_actualNumPages {k : UInt32} (h : actualNumPages k ≠ 0) :
    k.toNat ≤ (actualNumPages k).toNat := by
  have htoNat := actualNumPages_toNat k
  split at htoNat
  next => exact absurd (UInt32.toNat_inj.mp htoNat) h
  next => exact htoNat ▸ Nat.le_pow_clog (by decide) _

/-- What has been granted is a range of its own, with as many pages as asked for. -/
theorem grant_spec {root : VmmRoot} {k : UInt32} {a : UInt64} {ranges ranges' : List VmmRangeData}
    (h : VmmInv root ranges) (ha : memAllocateVirtualRange k ranges = some (a, ranges')) :
    VmmInv root ranges' ∧ ∃ g ∈ ranges', g.allocated = true ∧ g.start = a ∧ k.toNat ≤ g.pages ∧
      ∀ r ∈ ranges, r.allocated = true → ∀ q, Covers page pages g q → ¬ Covers page pages r q := by
  obtain ⟨pre, post, x, halves, rfl, hx, -, -, hpieces, rfl⟩ := allocate_spec h ha
  let g : VmmRangeData := ⟨a, (actualNumPages k).toUInt64, true⟩
  have hinv : VmmInv root (pre ++ (g :: halves) ++ post) := VmmInv.replace h hpieces
  have hg : g ∈ pre ++ (g :: halves) ++ post := by simp
  have hpages : g.pages = (actualNumPages k).toNat := by simp [g, VmmRangeData.pages]
  have hne : actualNumPages k ≠ 0 := by
    have hpos := (hinv.wf g hg).dyadic.pos
    rw [hpages] at hpos
    rintro hzero
    rw [hzero] at hpos
    exact absurd hpos (by decide)
  refine ⟨hinv, g, hg, rfl, rfl, hpages ▸ le_actualNumPages hne, fun r hr hra q hq hq' => ?_⟩
  -- the range lies in one that was free
  have hbounds := hpieces.tiles.bounds g List.mem_cons_self
  have hcovers : Covers page pages x q := ⟨hbounds.1.trans hq.1, Nat.lt_of_lt_of_le hq.2 hbounds.2⟩
  have heq : r = x := h.tiles.covers_unique hr (by simp) hq' hcovers
  rw [heq, hx] at hra
  cases hra

/-- The state after a range has been granted. -/
def MemState.withRanges {σ : Type} (s : MemState σ) (context : Nat) (ranges : List VmmRangeData) : MemState σ :=
  ⟨s.spaces, update s.ranges context ranges⟩

@[simp] theorem MemState.withRanges_ranges {σ : Type} (s : MemState σ) (c : Nat) (ranges : List VmmRangeData) :
    (s.withRanges c ranges).ranges = update s.ranges c ranges := rfl

section
variable {s s' : MemState Spaces} {c n : Nat} {a start start' pages mapAddr : UInt64} {result : ErrCode}

theorem run_allocate {k : UInt32} : (vmm (.allocate c k)).run spaceCalls s = some (a, s') ↔
    ∃ ranges, memAllocateVirtualRange k (s.ranges c) = some (a, ranges) ∧ s' = s.withRanges c ranges := by
  rw [run_vmm]
  change ((memAllocateVirtualRange k (s.ranges c)).map _).map _ = _ ↔ _
  rw [Option.map_map, Option.map_eq_some_iff]
  constructor
  · rintro ⟨⟨b, ranges⟩, hr, heq⟩
    obtain ⟨rfl, rfl⟩ := Prod.mk.inj heq
    exact ⟨ranges, hr, rfl⟩
  · rintro ⟨ranges, hr, rfl⟩
    exact ⟨_, hr, rfl⟩

theorem MemState.Ok.withRanges (h : s.Ok) {ranges : List VmmRangeData}
    (hinv : VmmInv userRoot ranges) : (s.withRanges c ranges).Ok := by
  refine ⟨fun c' => ?_, h.whole, h.order⟩
  rw [MemState.withRanges_ranges, update_apply]
  split
  · exact hinv
  · exact h.ranges c'

/-- Nothing is done if a page is mapped already, and the pages are backed if not. -/
theorem backRange_run (s : MemState Spaces) (c n : Nat) (start : UInt64) :
    (backRange c n start).run spaceCalls s =
      if anyMapped s.spaces c n start then some ((.invalidOp, start), s)
      else ((backPages c n start .noError).run spaceCalls s).map fun r => ((r.1, start), r.2) := by
  rw [backRange, Prog.run_bind, findMapped_run, Option.bind_some, Prog.run_ite, Prog.run_pure, Prog.run_bind]
  refine if_congr Iff.rfl rfl ?_
  cases (backPages c n start .noError).run spaceCalls s <;> rfl

/-- How a call can end. -/
theorem backRange_cases (h : (backRange c n start).run spaceCalls s = some ((result, start'), s')) :
    start' = start ∧ (s' = s ∨ anyMapped s.spaces c n start = false ∧
      (backPages c n start .noError).run spaceCalls s = some (result, s')) := by
  rw [backRange_run] at h
  split at h
  next =>
    obtain ⟨heq, rfl⟩ := Prod.mk.inj (Option.some.inj h)
    exact ⟨(Prod.mk.inj heq).2.symm, .inl rfl⟩
  next hmapped =>
    obtain ⟨⟨result₁, s₁⟩, hback, heq⟩ := Option.map_eq_some_iff.mp h
    simp only [Prod.mk.injEq] at heq
    obtain ⟨⟨rfl, rfl⟩, rfl⟩ := heq
    exact ⟨rfl, .inr ⟨Bool.eq_false_iff.mpr hmapped, hback⟩⟩

theorem backRange_safe (h : s.Ok) : (backRange c n start).Along spaceCalls MemState.Safe s := by
  rw [backRange, Prog.along_bind]
  refine ⟨findMapped_safe s c n start, fun mapped t hrun => ?_⟩
  rw [findMapped_run] at hrun
  obtain ⟨-, rfl⟩ := Prod.mk.inj (Option.some.inj hrun)
  split
  · exact Prog.along_pure _
  · exact (Prog.along_bind ..).mpr ⟨backPages_safe h, fun _ _ _ => Prog.along_pure _⟩

theorem allocateBackingMemory_cases
    (h : (allocateBackingMemory c pages mapAddr start).run spaceCalls s = some ((result, start'), s')) :
    s' = s ∨
      (start = 0 ∧ ∃ ranges, memAllocateVirtualRange pages.toUInt32 (s.ranges c) = some (start', ranges) ∧
        (s' = s.withRanges c ranges ∨
          (backPages c pages.toNat start' .noError).run spaceCalls (s.withRanges c ranges) =
            some (result, s'))) ∨
      (start ≠ 0 ∧ anyMapped s.spaces c pages.toNat start = false ∧
        (backPages c pages.toNat start .noError).run spaceCalls s = some (result, s')) := by
  unfold allocateBackingMemory at h
  dsimp only at h
  split at h
  next => exact .inl (Prod.mk.inj (Option.some.inj h)).2.symm
  next =>
    split at h
    next hzero =>
      rw [Prog.run_bind] at h
      obtain ⟨⟨a, t⟩, hgrant, hback⟩ := Option.bind_eq_some_iff.mp h
      obtain ⟨ranges, ha, rfl⟩ := run_allocate.mp hgrant
      obtain ⟨rfl, hcases⟩ := backRange_cases hback
      exact .inr (.inl ⟨hzero, ranges, ha, hcases.imp_right And.right⟩)
    next hne =>
      obtain ⟨rfl, rfl | ⟨hmapped, hback⟩⟩ := backRange_cases h
      · exact .inl rfl
      · exact .inr (.inr ⟨hne, hmapped, hback⟩)

theorem allocateBackingMemory_safe (h : s.Ok) :
    (allocateBackingMemory c pages mapAddr start).Along spaceCalls MemState.Safe s := by
  unfold allocateBackingMemory
  dsimp only
  split
  · exact Prog.along_pure _
  · split
    · refine (Prog.along_bind ..).mpr ⟨along_vmm _, fun a t hgrant => ?_⟩
      obtain ⟨ranges, ha, rfl⟩ := run_allocate.mp hgrant
      exact backRange_safe (h.withRanges (grant_spec (h.ranges c) ha).1)
    · exact backRange_safe h

theorem MemState.Ok.allocate (h : s.Ok)
    (hs : (allocateBackingMemory c pages mapAddr start).run spaceCalls s = some ((result, start'), s')) :
    s'.Ok := by
  rcases allocateBackingMemory_cases hs with rfl | ⟨-, ranges, ha, rfl | hback⟩ | ⟨-, -, hback⟩
  · exact h
  · exact h.withRanges (grant_spec (h.ranges c) ha).1
  · exact (h.withRanges (grant_spec (h.ranges c) ha).1).backPages hback
  · exact h.backPages hback

end

/-! ### Releasing memory -/

section
variable {s s' : MemState Spaces} {c n : Nat} {a : UInt64} {allow : Bool} {result : ErrCode}

theorem MemState.Ok.unmapPages (h : s.Ok)
    (hsafe : (Syscall.unmapPages c allow n a).Along spaceCalls MemState.Safe s)
    (hs : (Syscall.unmapPages c allow n a).run spaceCalls s = some ((), s')) : s'.Ok := by
  induction n generalizing a s with
  | zero =>
      obtain rfl := (Prod.mk.inj (Option.some.inj hs)).2
      exact h
  | succ n ih =>
      rw [Syscall.unmapPages, Prog.along_bind, along_mapping] at hsafe
      rw [Syscall.unmapPages, Prog.run_bind] at hs
      obtain ⟨⟨⟨⟩, t⟩, hone, hrest⟩ := Option.bind_eq_some_iff.mp hs
      have hunmap := hone
      rw [run_mapping] at hunmap
      obtain ⟨⟨⟨⟩, spaces⟩, hspaces, heq⟩ := Option.map_eq_some_iff.mp hunmap
      obtain ⟨-, rfl⟩ := Prod.mk.inj heq
      obtain ⟨spaces', hspaces', heq'⟩ := Option.map_eq_some_iff.mp hspaces
      obtain ⟨-, rfl⟩ := Prod.mk.inj heq'
      obtain ⟨horder, hframes⟩ := h.order.unmapPage hsafe.1 hspaces'
      have hok : MemState.Ok ⟨spaces', s.ranges⟩ := by
        refine ⟨h.ranges, fun key p hp => ?_, horder⟩
        dsimp only at hp
        rw [hframes, update_apply] at hp
        split at hp
        · cases hp
        · exact h.whole key p hp
      exact ih hok (hsafe.2 () _ hone) hrest

theorem MemState.Ok.release {deallocPtr : UInt64} (h : s.Ok)
    (hsafe : (releaseBackingMemory c deallocPtr).Along spaceCalls MemState.Safe s)
    (hs : (releaseBackingMemory c deallocPtr).run spaceCalls s = some (result, s')) : s'.Ok := by
  unfold releaseBackingMemory at hs hsafe
  split at hs
  next => exact (Prod.mk.inj (Option.some.inj hs)).2 ▸ h
  next huser =>
    rw [if_neg huser, Prog.along_bind] at hsafe
    have hsafe' := hsafe.2 _ _ (run_list c)
    rw [Prog.run_bind, run_list, Option.bind_some] at hs
    dsimp only at hs hsafe'
    split at hs
    next => exact (Prod.mk.inj (Option.some.inj hs)).2 ▸ h
    next hsize =>
      rw [if_neg hsize] at hsafe'
      split at hs
      next => cases hs
      next haligned =>
        rw [if_neg haligned, Prog.along_bind] at hsafe'
        rw [Prog.run_bind] at hs
        obtain ⟨⟨⟨⟩, t⟩, ht, heq⟩ := Option.bind_eq_some_iff.mp hs
        obtain ⟨-, rfl⟩ := Prod.mk.inj (Option.some.inj heq)
        exact h.unmapPages hsafe'.1 ht

end

/-- A computer that has started, with processes that have reserved nothing. -/
def bootMemory : MemState Mapping := ⟨bootMapping, fun _ => memVmmInitProcData⟩

theorem bootMemory_ok : bootMemory.view.Ok where
  ranges _ := vmmInv_root userRoot
  whole key p hp := by
    by_cases hkey : key = windowKey
    · rw [hkey] at hp
      obtain rfl : 0 = p := Option.some.inj hp
      rfl
    · change bootMapping.view.frames key = some p at hp
      rw [bootMapping_frames hkey] at hp
      cases hp
  order := bootMapping_ok.inOrder

end Azalea.Syscall
