import Azalea.Mem.SpaceRuns
import Azalea.Syscall.Memory

/-!
# Syscall — freeing the memory of a process

`mem_vmm_free_proc_data`, which goes through the range list of a process when it ends: the pages that it gives
to `mem_unmap_virtual_page`, in their order, and the range list that it frees.

* `freeProcData_right_iff`: after every run of the calls that change range lists and map pages, it unmaps
  each mapped page of the allocated ranges once and comes to the free root — unless the list is one range
  that is allocated.  Then its loop is not entered, and an assertion fails.
-/

namespace Azalea.Syscall
open Azalea.Mem Azalea.Programs Azalea.Runs Azalea.Tiling Azalea.Bitmaps Function VmmRangeData

/-! ### The end of a process -/

/-- A page is unmapped if it is mapped. -/
def unmapIfMapped (process : Nat) (pageStart : UInt64) : Prog MemCall Unit := do
  let physAddr ← mapping (.getPhysAddr pageStart process)
  if physAddr ≠ 0 then mapping (.unmapPage pageStart process true) else pure ()

/-- The loop of `mem_vmm_free_proc_data` over the pages of a range. -/
def unmapRange (process : Nat) : Nat → UInt64 → Prog MemCall Unit
  | 0, _ => pure ()
  | n + 1, pageStart => do
      unmapIfMapped process pageStart
      unmapRange process n (pageStart + memPageSize)

/-- The loop over the ranges, until one is left. -/
def freeRanges (process : Nat) : Nat → Prog MemCall Unit
  | 0 => .fail
  | fuel + 1 => do
      let ranges ← vmm (.list process)
      match ranges with
      | [] => .fail
      | [r] =>
          if r.allocated = false ∧ r.start = 0 ∧ r.numberOfPages = 0x2000000 then vmm (.freeList process)
          else .fail
      | ranges =>
          match ranges.find? (·.allocated) with
          | none => .fail
          | some r => do
              unmapRange process r.numberOfPages.toNat r.start
              vmm (.deallocate process r.start r.numberOfPages.toUInt32)
              freeRanges process fuel

/-- `mem_vmm_free_proc_data`.  Every round gives an allocated range back, so that there are no more rounds
than ranges (`memVmmFreeProcData_spec`). -/
def memVmmFreeProcData (process : Nat) : Prog MemCall Unit := do
  let ranges ← vmm (.list process)
  freeRanges process (ranges.length + 1)

/-- What is noted of the calls that free memory. -/
inductive FreeNote where
  | unmapped (a : UInt64)
  | freed (ranges : List VmmRangeData)

/-- A page is given to `mem_unmap_virtual_page`, or the list is freed. -/
def freeNote {σ : Type} : ∀ {β : Type}, MemCall β → MemState σ → Option FreeNote
  | _, .spaces (.unmapPage a _ _), _ => some (.unmapped a)
  | _, .ranges (.freeList c), s => some (.freed (s.ranges c))
  | _, _, _ => none

/-- A mapped page of an allocated range. -/
def MemState.MappedPage (s : MemState Spaces) (process : Nat) (a : UInt64) : Prop :=
  ∃ r ∈ s.ranges process, r.allocated = true ∧ ∃ i < r.pages,
    a = pageAt r.start i ∧ (s.spaces.frames (slotKey process a)).isSome

/-- `mem_vmm_free_proc_data` ends, has unmapped each mapped page of the allocated ranges once, and has then
freed the list, which was the free root. -/
def MemState.FreeRight (s : MemState Mapping) (process : Nat) : Prop :=
  ∃ (pages : List UInt64) (s' : MemState Mapping), (memVmmFreeProcData process).run tableCalls s = some ((), s') ∧
    (memVmmFreeProcData process).log tableCalls freeNote s =
      pages.map .unmapped ++ [.freed [⟨0, 0x2000000, false⟩]] ∧
    pages.Nodup ∧ ∀ a, a ∈ pages ↔ s.view.MappedPage process a

/-- The list is one range that is allocated. -/
def MemState.WholeTaken {σ : Type} (s : MemState σ) (process : Nat) : Prop :=
  ∃ r, s.ranges process = [r] ∧ r.allocated = true

/-! ### Pages and ranges of user memory -/

/-- The pages of a range of user memory. -/
theorem pageAt_range {ranges : List VmmRangeData} {r : VmmRangeData} (h : VmmInv userRoot ranges)
    (hr : r ∈ ranges) {i : Nat} (hi : i < r.pages) :
    (pageAt r.start i).toNat = (r.page + i) * 2097152 ∧ r.page + i < 2 ^ 25 := by
  have hbounds := (h.tiles.bounds r hr).2
  have htop : userRoot.page + userRoot.pages = 2 ^ 25 := by decide
  have hstart := (h.wf r hr).start_eq
  refine ⟨?_, by omega⟩
  rw [pageAt, UInt64.toNat_add, hstart, UInt64.toNat_ofNat']
  omega

theorem slotKey_range {ranges : List VmmRangeData} {r : VmmRangeData} {c : Nat}
    (h : VmmInv userRoot ranges) (hr : r ∈ ranges) {i : Nat} (hi : i < r.pages) :
    slotKey c (pageAt r.start i) = (c, r.page + i) := by
  obtain ⟨htoNat, hlt⟩ := pageAt_range h hr hi
  rw [slotKey_low (by omega), htoNat, Nat.mul_div_cancel _ (by decide)]

/-- An allocated range of user memory is deallocated by its start and its length. -/
theorem deallocate_range {ranges : List VmmRangeData} {r : VmmRangeData} (h : VmmInv userRoot ranges)
    (hr : r ∈ ranges) (ha : r.allocated = true) :
    ∃ ranges' pre post, memDeallocateVirtualRange r.start r.numberOfPages.toUInt32 ranges = some ranges' ∧
      VmmInv userRoot ranges' ∧ ranges = pre ++ r :: post ∧
      allocatedRanges ranges' = allocatedRanges (pre ++ post) := by
  have hw := h.wf r hr
  have htoNat : r.numberOfPages.toUInt32.toNat = r.pages := by
    have := hw.small
    rw [UInt64.toNat_toUInt32]
    exact Nat.mod_eq_of_lt this
  have hspecific : SpecificOk r.start r.numberOfPages.toUInt32 := by
    refine ⟨by rw [htoNat]; exact hw.dyadic.1, ?_⟩
    rw [htoNat, hw.start_eq]
    exact Nat.mul_dvd_mul_right hw.dyadic.2 _
  have hn : (actualNumPages r.numberOfPages.toUInt32).toUInt64 = r.numberOfPages := by
    rw [hspecific.actualNumPages_eq, ← UInt64.toNat_inj, UInt32.toNat_toUInt64, htoNat]
    rfl
  have hre : r = ⟨r.start, (actualNumPages r.numberOfPages.toUInt32).toUInt64, true⟩ := by rw [hn, ← ha]
  obtain ⟨ranges', hd⟩ := deallocate_of_mem h (hre ▸ hr)
  obtain ⟨hinv, pre, x, post, hl, hx, hf⟩ := deallocate_spec h hd
  exact ⟨ranges', pre, post, hd, hinv, by rw [hl, hx, ← hre], hf⟩

/-- A range that is as long as user memory is the only one. -/
theorem alone_of_long {ranges : List VmmRangeData} {r : VmmRangeData} (h : VmmInv userRoot ranges)
    (hr : r ∈ ranges) (hlong : 2 ^ 25 ≤ r.pages) : ranges = [r] := by
  have htop : userRoot.page = 0 ∧ userRoot.pages = 2 ^ 25 := by decide
  have hall : ∀ r' ∈ ranges, r' = r := fun r' hr' => by
    have hbounds := h.tiles.bounds r hr
    have hbounds' := h.tiles.bounds r' hr'
    have hpos := (h.wf r' hr').dyadic.pos
    rw [htop.1, htop.2] at hbounds hbounds'
    exact h.tiles.covers_unique hr' hr (p := r'.page) ⟨le_rfl, by omega⟩ ⟨by omega, by omega⟩
  match ranges with
  | [x] => rw [hall x (List.mem_singleton_self x)]
  | x :: y :: rest =>
      have hx := hall x (by simp)
      have hy := hall y (by simp)
      have hpos := (h.wf r hr).dyadic.pos
      obtain ⟨hlo, hnext, -⟩ := h.tiles
      rw [hx] at hlo hnext
      rw [hy] at hnext
      omega

/-- A list of one range is a range that is all of user memory. -/
theorem VmmInv.singleton {r : VmmRangeData} (h : VmmInv userRoot [r]) : r.pages = 2 ^ 25 := by
  obtain ⟨hlo, hhi⟩ := h.tiles
  have htop : userRoot.page = 0 ∧ userRoot.pages = 2 ^ 25 := by decide
  simp only [Tiles, htop.1, htop.2] at hhi
  omega

theorem ranges_nodup {ranges : List VmmRangeData} (h : VmmInv userRoot ranges) : ranges.Nodup := by
  refine List.Pairwise.imp_of_mem ?_ h.tiles.pairwise
  rintro x y hx - hle rfl
  have := (h.wf x hx).dyadic.pos
  omega

/-- The first allocated range is given back, and the others are left. -/
theorem deallocate_first {ranges : List VmmRangeData} {r : VmmRangeData} (h : VmmInv userRoot ranges)
    (hfind : ranges.find? (·.allocated) = some r) :
    ∃ ranges', memDeallocateVirtualRange r.start r.numberOfPages.toUInt32 ranges = some ranges' ∧
      VmmInv userRoot ranges' ∧ allocatedRanges ranges = r :: allocatedRanges ranges' := by
  have hr := List.mem_of_find?_eq_some hfind
  obtain ⟨ranges', pre, post, hd, hinv, rfl, hf⟩ := deallocate_range h hr (List.find?_some hfind)
  refine ⟨ranges', hd, hinv, ?_⟩
  have hnot : r ∉ pre.filter (·.allocated) := fun hmem =>
    (List.nodup_append.mp (ranges_nodup h)).2.2 r (List.mem_filter.mp hmem).1 r (List.mem_cons_self ..) rfl
  have herase : (allocatedRanges (pre ++ r :: post)).erase r = allocatedRanges ranges' := by
    have ha : r.allocated = true := List.find?_some hfind
    rw [hf]
    simp only [allocatedRanges, List.filter_append, List.filter_cons, ha, if_true]
    rw [List.erase_append_right _ hnot, List.erase_cons_head]
  obtain ⟨rest, hrest⟩ := List.head?_eq_some_iff.mp (List.head?_filter.trans hfind)
  change allocatedRanges (pre ++ r :: post) = r :: rest at hrest
  rw [hrest, List.erase_cons_head] at herase
  rw [hrest, herase]

/-- The mapped pages of a range. -/
def mappedIn (c : Nat) (s : Spaces) (r : VmmRangeData) : List UInt64 :=
  ((List.range r.pages).map (pageAt r.start)).filter fun a => (s.frames (slotKey c a)).isSome

theorem mem_mappedIn {c : Nat} {s : Spaces} {r : VmmRangeData} {a : UInt64} : a ∈ mappedIn c s r ↔
    ∃ i < r.pages, a = pageAt r.start i ∧ (s.frames (slotKey c a)).isSome := by
  rw [mappedIn, List.mem_filter, List.mem_map]
  constructor
  · rintro ⟨⟨i, hi, rfl⟩, hsome⟩
    exact ⟨i, List.mem_range.mp hi, rfl, hsome⟩
  · rintro ⟨i, hi, rfl, hsome⟩
    exact ⟨⟨i, List.mem_range.mpr hi, rfl⟩, hsome⟩

/-- No page is in two ranges, or twice in one. -/
theorem pageAt_inj {ranges : List VmmRangeData} {r r' : VmmRangeData} {i j : Nat}
    (h : VmmInv userRoot ranges) (hr : r ∈ ranges) (hr' : r' ∈ ranges) (hi : i < r.pages)
    (hj : j < r'.pages) (heq : slotKey c (pageAt r.start i) = slotKey c (pageAt r'.start j)) : r = r' ∧ i = j := by
  rw [slotKey_range h hr hi, slotKey_range h hr' hj, Prod.mk.injEq] at heq
  have hpage := heq.2
  obtain rfl := h.tiles.covers_unique hr hr' (p := r.page + i) ⟨by omega, by omega⟩
    ⟨by omega, by omega⟩
  exact ⟨rfl, by omega⟩

theorem nodup_mapped {ranges : List VmmRangeData} (c : Nat) (s : Spaces) (h : VmmInv userRoot ranges) :
    ((allocatedRanges ranges).flatMap (mappedIn c s)).Nodup := by
  rw [List.nodup_flatMap]
  constructor
  · intro r hr
    have hr := (List.mem_filter.mp hr).1
    refine (List.Nodup.map_on ?_ List.nodup_range).filter _
    intro i hi j hj heq
    exact (pageAt_inj h hr hr (List.mem_range.mp hi) (List.mem_range.mp hj) (congrArg (slotKey c) heq)).2
  · refine ((ranges_nodup h).filter _).imp_of_mem ?_
    intro r r' hr hr' hne a ha ha'
    obtain ⟨i, hi, rfl, -⟩ := mem_mappedIn.mp ha
    obtain ⟨j, hj, heq, -⟩ := mem_mappedIn.mp ha'
    exact hne (pageAt_inj h (List.mem_filter.mp hr).1 (List.mem_filter.mp hr').1 hi hj
      (congrArg (slotKey c) heq)).1

/-! ### What is done -/

section
variable {s : MemState Spaces} {live : List ((Nat × Nat) × Nat)} {other : Nat → Nat} {c n : Nat} {a : UInt64}

theorem does_vmm {α : Type} {o : RangeCall α} {r : α} {ranges : Nat → List VmmRangeData}
    (h : o.exec s.ranges = some (r, ranges)) :
    (vmm o).Does spaceCalls MemState.Safe freeNote s r ⟨s.spaces, ranges⟩
      (freeNote (.ranges o) s).toList := by
  refine ⟨along_vmm o, ?_, Prog.log_op ..⟩
  rw [run_vmm, h]
  rfl

/-- A page of user memory that is mapped is unmapped. -/
theorem unmapIfMapped_spec (h : s.spaces.Owned live other) (ha : a.toNat % 2097152 = 0)
    (huser : UserSlot (slotKey c a)) :
    ∃ spaces live', (unmapIfMapped c a).Does spaceCalls MemState.Safe freeNote s () ⟨spaces, s.ranges⟩
        (if (s.spaces.frames (slotKey c a)).isSome then [.unmapped a] else []) ∧
      spaces.Owned live' other ∧ spaces.frames = update s.spaces.frames (slotKey c a) none := by
  have hlook : (mapping (.getPhysAddr a c)).Does spaceCalls MemState.Safe freeNote s
      (s.spaces.getPhysAddr a c) s [] :=
    ⟨(along_mapping _).mpr trivial, run_getPhysAddr s a c, Prog.log_op ..⟩
  cases hframe : s.spaces.frames (slotKey c a) with
  | none =>
      have hzero : s.spaces.getPhysAddr a c = 0 := by
        rw [Spaces.getPhysAddr_page ha, hframe]
        rfl
      refine ⟨s.spaces, live, ?_, h, ?_⟩
      · change Prog.Does _ _ _ _ _ _ _ ([] ++ [])
        refine hlook.bind ?_
        rw [if_neg (not_not.mpr hzero)]
        exact ⟨Prog.along_pure _, rfl, rfl⟩
      · rw [← hframe, update_eq_self]
  | some p =>
      obtain ⟨k, hp⟩ : ∃ k, s.spaces.Held p k := h.held _ ((h.mem_live _ _).mpr ⟨huser, hframe⟩)
      have hne : s.spaces.getPhysAddr a c ≠ 0 := by
        rw [Spaces.getPhysAddr_page ha, hframe]
        exact hp.held.ne_zero h.order.pool.ok.phys
      obtain ⟨spaces, live', hs, howned, hframes⟩ := h.unmapPage ha huser
      refine ⟨spaces, live', ?_, howned, hframes⟩
      change Prog.Does _ _ _ _ _ _ _ ([] ++ [_])
      refine hlook.bind ?_
      rw [if_pos hne]
      refine ⟨(along_mapping _).mpr (h.safe_unmap huser), ?_, Prog.log_op ..⟩
      rw [run_mapping]
      change ((s.spaces.unmapPage a c true).map fun spaces => ((), spaces)).map _ = _
      rw [hs]
      rfl

/-- The pages of a range that are unmapped are those that are mapped before: none of them is met twice. -/
theorem unmapRange_spec (h : s.spaces.Owned live other)
    (hpages : ∀ i < n, (pageAt a i).toNat % 2097152 = 0 ∧ UserSlot (slotKey c (pageAt a i)))
    (hapart : ∀ i < n, ∀ j < n, slotKey c (pageAt a i) = slotKey c (pageAt a j) → i = j) :
    ∃ spaces live', (unmapRange c n a).Does spaceCalls MemState.Safe freeNote s () ⟨spaces, s.ranges⟩
        ((((List.range n).map (pageAt a)).filter fun a =>
          (s.spaces.frames (slotKey c a)).isSome).map .unmapped) ∧
      spaces.Owned live' other ∧ (∀ i < n, spaces.frames (slotKey c (pageAt a i)) = none) ∧
      ∀ key, (∀ i < n, key ≠ slotKey c (pageAt a i)) → spaces.frames key = s.spaces.frames key := by
  induction n generalizing a s live with
  | zero => exact ⟨s.spaces, live, ⟨Prog.along_pure _, rfl, rfl⟩, h, nofun, fun _ _ => rfl⟩
  | succ n ih =>
      obtain ⟨hfirst, hrest⟩ := (forall_pages
        (P := fun a => a.toNat % 2097152 = 0 ∧ UserSlot (slotKey c a))).mp hpages
      obtain ⟨s₁, live₁, hdoes₁, howned₁, hframes₁⟩ := unmapIfMapped_spec h hfirst.1 hfirst.2
      obtain ⟨s', live', hdoes, howned, hnone, hother⟩ := @ih ⟨s₁, s.ranges⟩ _ _ howned₁ hrest
        fun i hi j hj heq => by
          rw [pageAt_succ, pageAt_succ] at heq
          exact Nat.succ_injective (hapart _ (Nat.succ_lt_succ hi) _ (Nat.succ_lt_succ hj) heq)
      -- the first page is none of those after it
      have hfar : ∀ i < n, slotKey c (pageAt (a + memPageSize) i) ≠ slotKey c a := by
        intro i hi heq
        rw [pageAt_succ] at heq
        refine Nat.succ_ne_zero i (hapart _ (Nat.succ_lt_succ hi) 0 (Nat.succ_pos n) ?_)
        rw [heq, pageAt_zero]
      have hsame : ((List.range n).map (pageAt (a + memPageSize))).filter
            (fun a => (s₁.frames (slotKey c a)).isSome) =
          ((List.range n).map (pageAt (a + memPageSize))).filter
            fun a => (s.spaces.frames (slotKey c a)).isSome := by
        refine List.filter_congr fun x hx => ?_
        obtain ⟨i, hi, rfl⟩ := List.mem_map.mp hx
        rw [hframes₁, update_of_ne (hfar i (List.mem_range.mp hi))]
      have hrange : (List.range (n + 1)).map (pageAt a) =
          a :: (List.range n).map (pageAt (a + memPageSize)) := by
        rw [List.range_succ_eq_map, List.map_cons, List.map_map, pageAt_zero]
        exact congrArg _ (List.map_congr_left fun i _ => (pageAt_succ a i).symm)
      refine ⟨s', live', ?_, howned, ?_, fun key hkey => ?_⟩
      · have hboth := hdoes₁.bind (f := fun _ => unmapRange c n (a + memPageSize)) hdoes
        rw [hsame] at hboth
        rw [hrange, List.filter_cons]
        split at hboth
        next hmapped => rw [if_pos hmapped]; exact hboth
        next hmapped => rw [if_neg hmapped]; exact hboth
      · refine (forall_pages (P := fun a => s'.frames (slotKey c a) = none)).mpr ⟨?_, hnone⟩
        rw [hother _ fun i hi => (hfar i hi).symm, hframes₁, update_self]
      · obtain ⟨hne, hkeys⟩ := (forall_pages (P := fun a => key ≠ slotKey c a)).mp hkey
        rw [hother key hkeys]
        dsimp only
        rw [hframes₁, update_of_ne hne]

/-- When a range has been given back, its own pages are unmapped, and those of the other ranges are what they
were. -/
theorem freeRange_spec {ranges : List VmmRangeData} {r : VmmRangeData} (hinv : VmmInv userRoot ranges)
    (h : s.spaces.Owned live other) (hr : r ∈ ranges) :
    ∃ spaces live', (unmapRange c r.numberOfPages.toNat r.start).Does spaceCalls MemState.Safe freeNote s ()
        ⟨spaces, s.ranges⟩ ((mappedIn c s.spaces r).map .unmapped) ∧
      spaces.Owned live' other ∧
      (∀ k, spaces.frames (c, k) = if Covers page pages r k then none else s.spaces.frames (c, k)) ∧
      ∀ r' ∈ ranges, r' ≠ r → mappedIn c spaces r' = mappedIn c s.spaces r' := by
  have hpages : ∀ i < r.pages, (pageAt r.start i).toNat % 2097152 = 0 ∧
      UserSlot (slotKey c (pageAt r.start i)) := by
    intro i hi
    obtain ⟨htoNat, hlt⟩ := pageAt_range hinv hr hi
    refine ⟨by omega, ?_⟩
    rw [slotKey_range hinv hr hi]
    exact Nat.lt_trans hlt (by decide)
  obtain ⟨s', live', hdoes, howned', hnone, hother⟩ := unmapRange_spec (c := c) h hpages
    fun i hi j hj heq => (pageAt_inj hinv hr hr hi hj heq).2
  refine ⟨s', live', hdoes, howned', fun k => ?_, fun r' hr' hne => List.filter_congr fun x hx => ?_⟩
  · split
    next hcovers =>
      obtain ⟨i, rfl⟩ := Nat.exists_eq_add_of_le hcovers.1
      have hi : i < r.pages := Nat.lt_of_add_lt_add_left hcovers.2
      rw [← slotKey_range hinv hr hi]
      exact hnone i hi
    next hout =>
      refine hother (c, k) fun i hi heq => hout ?_
      rw [slotKey_range hinv hr hi, Prod.mk.injEq] at heq
      exact ⟨by omega, by omega⟩
  · obtain ⟨i, hi, rfl⟩ := List.mem_map.mp hx
    rw [hother]
    -- a page in two ranges
    exact fun j hj heq => hne (pageAt_inj hinv hr' hr (List.mem_range.mp hi) hj heq).1

/-- **The loop.**  Nothing allocated is as long as user memory. -/
theorem freeRanges_spec {fuel : Nat} (hinv : VmmInv userRoot (s.ranges c)) (howned : s.spaces.Owned live other)
    (hpart : ∀ r ∈ s.ranges c, r.allocated = true → r.pages < 2 ^ 25)
    (hfuel : (allocatedRanges (s.ranges c)).length < fuel) :
    ∃ spaces live', (freeRanges c fuel).Does spaceCalls MemState.Safe freeNote s ()
        ⟨spaces, update s.ranges c []⟩
        (((allocatedRanges (s.ranges c)).flatMap (mappedIn c s.spaces)).map .unmapped ++
          [.freed [userRoot.range]]) ∧
      spaces.Owned live' other ∧
      ∀ k, (∃ r ∈ allocatedRanges (s.ranges c), Covers page pages r k) ∨ s.spaces.frames (c, k) = none →
        spaces.frames (c, k) = none := by
  induction fuel generalizing s live with
  | zero => omega
  | succ fuel ih =>
      have hlist : (vmm (.list c)).Does spaceCalls MemState.Safe freeNote s (s.ranges c) s [] := does_vmm rfl
      by_cases hnil : allocatedRanges (s.ranges c) = []
      · -- nothing is allocated: the root is left
        have hroot := hinv.eq_root hnil
        refine ⟨s.spaces, live, ?_, howned, ?_⟩
        · rw [hnil]
          change Prog.Does _ _ _ _ _ _ _ ([] ++ [_])
          refine hlist.bind ?_
          rw [hroot]
          dsimp only
          rw [if_pos ⟨rfl, rfl, rfl⟩, ← hroot]
          exact does_vmm rfl
        · rintro k (⟨r, hr, -⟩ | hnone)
          · rw [hnil] at hr
            cases hr
          · exact hnone
      · obtain ⟨x, hx⟩ := List.exists_mem_of_ne_nil _ hnil
        obtain ⟨hx, hxa⟩ := List.mem_filter.mp hx
        obtain ⟨r, hfind⟩ : ∃ r, (s.ranges c).find? (·.allocated) = some r :=
          Option.isSome_iff_exists.mp (List.find?_isSome.mpr ⟨x, hx, hxa⟩)
        have hr := List.mem_of_find?_eq_some hfind
        have hra := List.find?_some hfind
        obtain ⟨spaces, live₁, hunmap, howned₁, hframes, hsame⟩ := freeRange_spec (c := c) hinv howned hr
        obtain ⟨ranges, hd, hinv', hcons⟩ := deallocate_first hinv hfind
        have hdealloc : (vmm (.deallocate c r.start r.numberOfPages.toUInt32)).Does spaceCalls MemState.Safe
            freeNote ⟨spaces, s.ranges⟩ () ⟨spaces, update s.ranges c ranges⟩ [] := by
          refine does_vmm (o := .deallocate c r.start r.numberOfPages.toUInt32) ?_
          change (memDeallocateVirtualRange _ _ (s.ranges c)).map _ = _
          rw [hd]
          rfl
        have hleft : ∀ y ∈ allocatedRanges ranges, y ∈ s.ranges c ∧ y.allocated = true ∧ y ≠ r := by
          intro y hy
          have hmem : y ∈ allocatedRanges (s.ranges c) := by
            rw [hcons]
            exact List.mem_cons_of_mem _ hy
          have hnodup : (allocatedRanges (s.ranges c)).Nodup := (ranges_nodup hinv).filter _
          rw [hcons, List.nodup_cons] at hnodup
          refine ⟨(List.mem_filter.mp hmem).1, (List.mem_filter.mp hmem).2, ?_⟩
          rintro rfl
          exact hnodup.1 hy
        have hrest := @ih ⟨spaces, update s.ranges c ranges⟩ live₁
        simp only [update_self, update_idem] at hrest
        obtain ⟨s', live', hdoes, howned', hnone⟩ := hrest hinv' howned₁
          (fun y hy hya => hpart y (hleft y (List.mem_filter.mpr ⟨hy, hya⟩)).1 hya)
          (by rw [hcons, List.length_cons] at hfuel; omega)
        refine ⟨s', live', ?_, howned', ?_⟩
        · rw [hcons, List.flatMap_cons, List.map_append, List.append_assoc,
            ← List.flatMap_congr fun y hy => hsame y (hleft y hy).1 (hleft y hy).2.2]
          change Prog.Does _ _ _ _ _ _ _ ([] ++ _)
          refine hlist.bind ?_
          split
          next heq => rw [heq] at hr; cases hr
          next y heq =>
            -- a single range that is allocated would be all of user memory
            rw [heq] at hinv hr
            have := hpart r (by rw [heq]; exact hr) hra
            rw [List.mem_singleton.mp hr, VmmInv.singleton hinv] at this
            omega
          next =>
            rw [hfind]
            exact hunmap.bind (hdealloc.bind hdoes)
        · rw [hcons]
          rintro k (⟨y, hy, hcovers⟩ | hk)
          · refine hnone k ?_
            rcases List.mem_cons.mp hy with rfl | hy
            · exact .inr ((hframes k).trans (if_pos hcovers))
            · exact .inl ⟨y, hy, hcovers⟩
          · refine hnone k (.inr ((hframes k).trans ?_))
            split
            · rfl
            · exact hk

/-- **`mem_vmm_free_proc_data`**, when the list is not one range that is allocated. -/
theorem memVmmFreeProcData_spec (hinv : VmmInv userRoot (s.ranges c)) (howned : s.spaces.Owned live other)
    (hwhole : ¬ s.WholeTaken c) :
    ∃ spaces live', (memVmmFreeProcData c).Does spaceCalls MemState.Safe freeNote s ()
        ⟨spaces, update s.ranges c []⟩
        (((allocatedRanges (s.ranges c)).flatMap (mappedIn c s.spaces)).map .unmapped ++
          [.freed [userRoot.range]]) ∧
      spaces.Owned live' other ∧
      ∀ k, (∃ r ∈ allocatedRanges (s.ranges c), Covers page pages r k) ∨ s.spaces.frames (c, k) = none →
        spaces.frames (c, k) = none := by
  have hpart : ∀ r ∈ s.ranges c, r.allocated = true → r.pages < 2 ^ 25 := by
    intro r hr hra
    by_contra hlong
    exact hwhole ⟨r, alone_of_long hinv hr (Nat.le_of_not_lt hlong), hra⟩
  obtain ⟨spaces, live', hdoes, hrest⟩ := freeRanges_spec hinv howned hpart
    (Nat.lt_succ_of_le (List.length_filter_le ..))
  have hlist : (vmm (.list c)).Does spaceCalls MemState.Safe freeNote s (s.ranges c) s [] := does_vmm rfl
  exact ⟨spaces, live', (hlist.bind (f := fun ranges => freeRanges c (ranges.length + 1)) hdoes :), hrest⟩

end

section
variable {s : MemState Mapping} {live : List ((Nat × Nat) × Nat)} {other : Nat → Nat} {c : Nat}

/-- No table is taken. -/
theorem unmapRange_takesNone (s : MemState Mapping) (c n : Nat) (a : UInt64) :
    (unmapRange c n a).Along tableCalls MemState.TakesEmpty s := by
  induction n generalizing a s with
  | zero => trivial
  | succ n ih =>
      rw [unmapRange, Prog.along_bind, unmapIfMapped, Prog.along_bind]
      refine ⟨⟨Prog.along_op.mpr trivial, fun physAddr s' _ => ?_⟩, fun _ s' _ => ih s' _⟩
      split
      · exact Prog.along_op.mpr trivial
      · exact Prog.along_pure _

theorem memVmmFreeProcData_takesNone (s : MemState Mapping) (c : Nat) :
    (memVmmFreeProcData c).Along tableCalls MemState.TakesEmpty s := by
  have hloop : ∀ fuel (s : MemState Mapping), (freeRanges c fuel).Along tableCalls MemState.TakesEmpty s := by
    intro fuel
    induction fuel with
    | zero => exact fun _ => trivial
    | succ fuel ih =>
        intro s
        refine (Prog.along_bind ..).mpr ⟨Prog.along_op.mpr trivial, fun ranges s₁ _ => ?_⟩
        split
        · trivial
        · split
          · exact Prog.along_op.mpr trivial
          · trivial
        · split
          · trivial
          · exact (Prog.along_bind ..).mpr ⟨unmapRange_takesNone s₁ .., fun _ _ _ =>
              (Prog.along_bind ..).mpr ⟨Prog.along_op.mpr trivial, fun _ s₃ _ => ih s₃⟩⟩
  exact (Prog.along_bind ..).mpr ⟨Prog.along_op.mpr trivial, fun ranges s₁ _ => hloop _ s₁⟩

/-- What is noted can be seen in the range lists. -/
theorem freeNote_views {β : Type} (o : MemCall β) (s : MemState Mapping) (t : MemState Spaces) (h : s.Views t) :
    freeNote o s = freeNote o t := by
  obtain ⟨-, rfl⟩ := h
  cases o with
  | spaces o => cases o <;> rfl
  | ranges o => cases o <;> rfl

/-- **`mem_vmm_free_proc_data`**, on page tables. -/
theorem memVmmFreeProcData_does (hok : s.spaces.Ok) (hinv : VmmInv userRoot (s.ranges c))
    (howned : s.view.spaces.Owned live other) (hwhole : ¬ s.WholeTaken c) :
    ∃ s' live', (memVmmFreeProcData c).Does tableCalls MemState.TakesEmpty freeNote s () s'
        (((allocatedRanges (s.ranges c)).flatMap (mappedIn c s.spaces.view)).map .unmapped ++
          [.freed [userRoot.range]]) ∧
      s'.spaces.Ok ∧ s'.ranges = update s.ranges c [] ∧ s'.view.spaces.Owned live' other ∧
      ∀ k, (∃ r ∈ allocatedRanges (s.ranges c), Covers page pages r k) ∨ s.view.spaces.frames (c, k) = none →
        s'.view.spaces.frames (c, k) = none := by
  obtain ⟨spaces, live', hdoes, howned', hnone⟩ := memVmmFreeProcData_spec (s := s.view) hinv howned hwhole
  obtain ⟨s', ⟨hok', hview⟩, hdoes'⟩ := memCalls_simulate.does freeNote_views ⟨hok, rfl⟩
    (memVmmFreeProcData_takesNone s c) hdoes
  refine ⟨s', live', hdoes', hok', congrArg MemState.ranges hview, ?_, ?_⟩
  · rw [hview]
    exact howned'
  · rw [hview]
    exact hnone

/-- The assertion that the range which is left is free. -/
theorem memVmmFreeProcData_stops (hwhole : s.WholeTaken c) : (memVmmFreeProcData c).run tableCalls s = none := by
  obtain ⟨r, hr, hra⟩ := hwhole
  rw [memVmmFreeProcData, Prog.run_bind, run_list, Option.bind_some, hr, List.length_singleton, freeRanges,
    Prog.run_bind, run_list, Option.bind_some, hr]
  dsimp only
  rw [if_neg fun hfree => by rw [hra] at hfree; cases hfree.1]
  rfl

/-- **The end of a process**, in a state that is in order. -/
theorem freeRight_iff (hok : s.spaces.Ok) (hinv : VmmInv userRoot (s.ranges c))
    (howned : s.view.spaces.Owned live other) : s.FreeRight c ↔ ¬ s.WholeTaken c := by
  constructor
  · rintro ⟨pages, s', hs', -⟩ hwhole
    rw [memVmmFreeProcData_stops hwhole] at hs'
    cases hs'
  · intro hwhole
    obtain ⟨s', live', hdoes, -⟩ := memVmmFreeProcData_does hok hinv howned hwhole
    refine ⟨_, s', hdoes.run, hdoes.log, nodup_mapped c _ hinv, fun a => ?_⟩
    rw [List.mem_flatMap]
    constructor
    · rintro ⟨r, hr, ha⟩
      obtain ⟨hr, hra⟩ := List.mem_filter.mp hr
      exact ⟨r, hr, hra, mem_mappedIn.mp ha⟩
    · rintro ⟨r, hr, hra, ha⟩
      exact ⟨r, List.mem_filter.mpr ⟨hr, hra⟩, mem_mappedIn.mpr ha⟩

end

/-! ### Runs -/

/-- The calls: on the range list of a process, on what is mapped, and at the start and the end of a process;
and what processes store in their memory. -/
inductive ProcMemOp where
  | ranges (process : Nat) (op : VmmOp)
  | space (op : SpaceOp)
  | initProcData (process : Nat)
  | freeProcData (process : Nat)
  | store (process : Nat) (a : UInt64) (word : BitVec 64)

/-- One step. -/
def MemState.procStep (s : MemState Mapping) : ProcMemOp → Option (MemState Mapping)
  | .ranges process op => (VmmState.step ⟨s.ranges process, []⟩ op).map fun v => s.withRanges process v.ranges
  | .space op => (op.prog.run Mapping.calls s.spaces).map fun r => { s with spaces := r.2 }
  | .initProcData process => some (s.withRanges process memVmmInitProcData)
  | .freeProcData process => ((memVmmFreeProcData process).run tableCalls s).map (·.2)
  | .store process a word => (s.spaces.store process a word).map fun spaces => { s with spaces := spaces }

/-- The calls that map and unmap keep the count of the physical pages, and take empty pages for tables. -/
def MemState.MapsFit (s : MemState Mapping) : ProcMemOp → Prop
  | .space op => s.spaces.view.Fits op ∧ op.prog.Along Mapping.calls Mapping.TakesEmpty s.spaces
  | _ => True

/-- There are no processes, and nothing is mapped in user memory. -/
structure MemState.Started (s : MemState Mapping) : Prop where
  ranges : ∀ c, s.ranges c = []
  tables : s.spaces.Ok
  owned : ∃ other, s.spaces.view.Owned [] other

/-- The invariant: the lists of the processes that have not ended are in order. -/
structure MemState.InOrder (s : MemState Mapping) : Prop where
  ranges : ∀ c, s.ranges c ≠ [] → VmmInv userRoot (s.ranges c)
  tables : s.spaces.Ok
  owned : ∃ live other, s.spaces.view.Owned live other

section
variable {s s' : MemState Mapping} {c : Nat}

/-- A process that has ended has no ranges to change. -/
theorem step_ended (op : VmmOp) : VmmState.step ⟨[], []⟩ op = none := by
  cases op with
  | allocate n =>
      rw [VmmState.step, memAllocateVirtualRange, memVmmGetSuitableRange, if_pos (.inl rfl)]
      rfl
  | allocateSpecific a n =>
      have hnone : memVmmAllocateSpecificRange a n [] = none := by
        rw [memVmmAllocateSpecificRange]
        dsimp only
        split_ifs <;> rfl
      rw [VmmState.step, hnone]
      rfl
  | deallocate a n => rfl

theorem MemState.InOrder.withRanges {ranges : List VmmRangeData} (h : s.InOrder)
    (hranges : ranges ≠ [] → VmmInv userRoot ranges) : (s.withRanges c ranges).InOrder := by
  refine ⟨fun c' => ?_, h.tables, h.owned⟩
  rw [withRanges_ranges, update_apply]
  split
  · exact hranges
  · exact h.ranges c'

/-- A process that ends has its list freed. -/
theorem MemState.InOrder.freeProcData (h : s.InOrder)
    (hs : (memVmmFreeProcData c).run tableCalls s = some ((), s')) : s'.InOrder := by
  obtain ⟨live, other, howned⟩ := h.owned
  by_cases hended : s.ranges c = []
  · -- there is no list to go through
    rw [memVmmFreeProcData, Prog.run_bind, run_list, Option.bind_some, hended, List.length_nil, freeRanges,
      Prog.run_bind, run_list, Option.bind_some, hended] at hs
    cases hs
  · by_cases hwhole : s.WholeTaken c
    · rw [memVmmFreeProcData_stops hwhole] at hs
      cases hs
    · obtain ⟨s₁, live', hdoes, hok, hranges, howned', -⟩ :=
        memVmmFreeProcData_does h.tables (h.ranges c hended) howned hwhole
      obtain rfl := (Prod.mk.inj (Option.some.inj (hs.symm.trans hdoes.run))).2
      refine ⟨fun c' hne => ?_, hok, live', other, howned'⟩
      rw [hranges, update_apply] at hne ⊢
      split at hne
      next => exact absurd rfl hne
      next hc => rw [if_neg hc]; exact h.ranges c' hne

/-- **What a step keeps.** -/
theorem MemState.InOrder.step {op : ProcMemOp} (h : s.InOrder) (hfits : s.MapsFit op)
    (hs : s.procStep op = some s') : s'.InOrder := by
  obtain ⟨live, other, howned⟩ := h.owned
  cases op with
  | ranges process op =>
      obtain ⟨v, hv, rfl⟩ := Option.map_eq_some_iff.mp hs
      by_cases hended : s.ranges process = []
      · rw [hended, step_ended] at hv
        cases hv
      · exact h.withRanges fun _ => (step_cases (s := ⟨s.ranges process, []⟩) (h.ranges process hended) hv).1
  | space op =>
      obtain ⟨⟨⟨⟩, spaces⟩, hspaces, rfl⟩ := Option.map_eq_some_iff.mp hs
      obtain ⟨hok, howned'⟩ := h.tables.step howned hfits.1 hfits.2 hspaces
      exact ⟨h.ranges, hok, howned'⟩
  | initProcData process =>
      obtain rfl := Option.some.inj hs
      exact h.withRanges fun _ => vmmInv_root userRoot
  | freeProcData process =>
      obtain ⟨⟨⟨⟩, s₁⟩, hfree, rfl⟩ := Option.map_eq_some_iff.mp hs
      exact h.freeProcData hfree
  | store process a word =>
      obtain ⟨spaces, hstore, rfl⟩ := Option.map_eq_some_iff.mp hs
      obtain ⟨hok, hview⟩ := h.tables.storeOwned howned hstore
      exact ⟨h.ranges, hok, live, other, hview.symm ▸ howned⟩

end

/-- **The memory of a process is freed**, after every run in which pages are mapped as they should be, if not
all of user memory is one range that is allocated; then the assertion fails. -/
theorem freeProcData_right_iff {s₀ s : MemState Mapping} {c : Nat} (h₀ : s₀.Started)
    (h : Reach MemState.procStep MemState.MapsFit s₀ s) (hlive : s.ranges c ≠ []) :
    s.FreeRight c ↔ ¬ s.WholeTaken c := by
  have hinit : s₀.InOrder := by
    obtain ⟨other, howned⟩ := h₀.owned
    exact ⟨fun c hne => absurd (h₀.ranges c) hne, h₀.tables, [], other, howned⟩
  have hinv : s.InOrder := Reach.invariant (I := MemState.InOrder) hinit
    (fun _ _ _ hi hfits hs => hi.step hfits hs) h
  obtain ⟨live, other, howned⟩ := hinv.owned
  exact freeRight_iff hinv.tables (hinv.ranges c hlive) howned

/-- Before the first process. -/
def noProcesses : MemState Mapping := { bootMemory with ranges := fun _ => [] }

theorem bootMapping_owned : bootMapping.view.Owned [] fun _ => 0 := by
  refine ⟨bootMapping_ok.inOrder, fun key p => ?_, List.nodup_nil, nofun, fun _ _ => rfl, fun _ _ _ => rfl⟩
  simp only [List.not_mem_nil, false_iff, not_and]
  intro hkey hp
  rw [bootMapping_frames] at hp
  · cases hp
  · rintro rfl
    exact absurd hkey (by unfold UserSlot; decide)

theorem noProcesses_started : noProcesses.Started :=
  ⟨fun _ => rfl, bootMapping_ok, fun _ => 0, bootMapping_owned⟩

/-- A process with a page that is mapped. -/
theorem freeProcData_right_page : ∃ s : MemState Mapping, (s.view.spaces.frames (1, 0)).isSome = true ∧
    s.ranges 1 ≠ [] ∧ (s.FreeRight 1 ↔ ¬ s.WholeTaken 1) := by
  let map : SpaceOp := .mapPage 0x800000 0 1
  have hrun : (memAllocatePhysicalPages 1 bootMapping.paging.pool.phys).map (fun r => (r.1,
      decide (map.prog.Along Mapping.calls Mapping.TakesEmpty (bootMapping.setPhys r.2)),
      (map.prog.run Mapping.calls (bootMapping.setPhys r.2)).map fun t => (t.2.view.frames (1, 0)).isSome)) =
        some (0x800000, true, some true) := by decide +kernel
  obtain ⟨⟨p, phys⟩, hphys, heq⟩ := Option.map_eq_some_iff.mp hrun
  simp only [Prod.mk.injEq, decide_eq_true_eq] at heq
  obtain ⟨rfl, hempty, hmapped⟩ := heq
  obtain ⟨⟨⟨⟩, spaces⟩, hmap, hsome⟩ := Option.map_eq_some_iff.mp hmapped
  have hallocate : (VmmState.step ⟨memVmmInitProcData, []⟩ (.allocate 1)).map (·.ranges.length) =
      some 26 := by decide +kernel
  obtain ⟨v, hv, hlength⟩ := Option.map_eq_some_iff.mp hallocate
  let s₁ : MemState Mapping := noProcesses.withRanges 1 memVmmInitProcData
  let s₂ : MemState Mapping := { s₁ with spaces := bootMapping.setPhys phys }
  let s₃ : MemState Mapping := { s₁ with spaces := spaces }
  have htake : SpaceOp.takePage.prog.run Mapping.calls bootMapping = some ((), bootMapping.setPhys phys) := by
    rw [SpaceOp.prog, Prog.run_bind, Prog.run_op, Mapping.calls_exec, Mapping.exec, hphys]
    rfl
  have hs₂ : s₁.procStep (.space .takePage) = some s₂ := Option.map_eq_some_iff.mpr ⟨_, htake, rfl⟩
  have hs₃ : s₂.procStep (.space map) = some s₃ := Option.map_eq_some_iff.mpr ⟨_, hmap, rfl⟩
  have hs₄ : s₃.procStep (.ranges 1 (.allocate 1)) = some (s₃.withRanges 1 v.ranges) := by
    refine Option.map_eq_some_iff.mpr ⟨v, ?_, rfl⟩
    rw [show s₃.ranges 1 = memVmmInitProcData from rfl]
    exact hv
  -- the page that has been taken is one of the process
  have hfits : s₂.MapsFit (.space map) := by
    obtain ⟨-, n, hheld, hzero⟩ := bootMapping_owned.take hphys
    refine ⟨⟨fun _ => ⟨n, ?_, ?_⟩, fun hkernel => absurd (by unfold UserSlot; decide) hkernel⟩, hempty⟩
    · rw [(bootMapping_ok.allocate hphys).2]
      exact hheld
    · change (bootMapping.view.counters n).toNat < _
      rw [hzero]
      decide
  have hlive : (s₃.withRanges 1 v.ranges).ranges 1 ≠ [] := by
    rw [MemState.withRanges_ranges, update_self]
    rintro hnil
    rw [hnil] at hlength
    cases hlength
  have hfits₁ : s₁.MapsFit (.space .takePage) := ⟨trivial, (Prog.along_bind ..).mpr
    ⟨Prog.along_op.mpr trivial, fun _ _ _ => Prog.along_pure _⟩⟩
  have hreach : Reach MemState.procStep MemState.MapsFit noProcesses (s₃.withRanges 1 v.ranges) :=
    .step (.ranges 1 (.allocate 1)) (.step (.space map) (.step (.space .takePage)
      (.step (.initProcData 1) .refl trivial rfl) hfits₁ hs₂) hfits hs₃) trivial hs₄
  exact ⟨s₃.withRanges 1 v.ranges, hsome, hlive, freeProcData_right_iff noProcesses_started hreach hlive⟩

/-- A process that has taken all of user memory as one range cannot be ended. -/
theorem freeProcData_whole_range : ¬ ∀ (s₀ s : MemState Mapping) (c : Nat), s₀.Started →
    Reach MemState.procStep anyInput s₀ s → s.ranges c ≠ [] → s.FreeRight c := by
  intro hall
  have hrun : (run MemState.procStep anyInput noProcesses [.initProcData 1,
      .ranges 1 (.allocate 0x2000000)]).map (fun s => s.ranges 1) = some [⟨0, 0x2000000, true⟩] := by
    decide +kernel
  obtain ⟨s, hs, hranges⟩ := Option.map_eq_some_iff.mp hrun
  obtain ⟨pages, s', hfree, -⟩ := hall noProcesses s 1 noProcesses_started (Reach.refl.run hs)
    (by rw [hranges]; exact List.cons_ne_nil _ _)
  rw [memVmmFreeProcData_stops ⟨_, hranges, rfl⟩] at hfree
  cases hfree

end Azalea.Syscall
