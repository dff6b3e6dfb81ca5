import Azalea.Mem.PageRuns

/-!
# Mem — mapping pages and counting their uses

`mem/mapping.cpp`: `mem_map_virtual_page` and `mem_unmap_virtual_page`, which count for each page of
physical memory how many virtual pages refer to it, and give a page back when there are none left.

- `counters_count_mappings`: over every run of calls that the code can take (`MapRun.Fits`), the
  counters are the numbers of mappings, only counters that exist are used, and a page is given back
  when nothing is mapped to it any more.
-/

namespace Azalea.Mem
open Azalea.Bitmaps Azalea.Runs Function

/-- The page tables and `page_use_counters`, which stands in front of other memory. -/
structure Mapping where
  paging : Paging
  counters : Nat → BitVec 32

/-- `mem_map_init_counters`. -/
def memMapInitCounters : Nat → BitVec 32 := fun _ => 0

/-- `phys_page_num`, of 32 bits. -/
def physPageNum (physAddr : BitVec 64) : Nat := physAddr.toNat / sizeOfPage % 2 ^ 32

/-- A use is counted, if there is a counter and it is not full. -/
def countUse (pageNum : Nat) (counters : Nat → BitVec 32) : Nat → BitVec 32 :=
  if pageNum < memMaxSupportedPages ∧ counters pageNum < 0xFFFFFFFF#32 then
    update counters pageNum (counters pageNum + 1)
  else counters

/-- `mem_map_virtual_page`. -/
def memMapVirtualPage (virtAddr physAddr : BitVec 64) (context cacheMode : Nat) (s : Mapping) :
    Option Mapping := do
  let paging ← memX64MapVirtualPage virtAddr physAddr context cacheMode s.paging
  if physAddr.toNat % sizeOfPage ≠ 0 then none
  else some ⟨paging, countUse (physPageNum physAddr) s.counters⟩

/-- A use less; whether there is a counter is not asked. -/
def dropUse (pageNum : Nat) (counters : Nat → BitVec 32) : Nat → BitVec 32 :=
  if counters pageNum > 0 then update counters pageNum (counters pageNum - 1) else counters

/-- The second part of `mem_unmap_virtual_page`: the page is given back if it has no use left. -/
def releaseUse (physAddr : BitVec 64) (allowPhysPageFree : Bool) (s : Mapping) : Option Mapping :=
  if physAddr.toNat % sizeOfPage ≠ 0 then none
  else
    let counters := dropUse (physPageNum physAddr) s.counters
    if counters (physPageNum physAddr) = 0 ∧ allowPhysPageFree then
      (memDeallocatePhysicalPages physAddr.toNat 1 s.paging.pool.phys).map fun phys =>
        ⟨{ s.paging with pool := { s.paging.pool with phys := phys } }, counters⟩
    else some { s with counters := counters }

/-- `mem_unmap_virtual_page`. -/
def memUnmapVirtualPage (virtAddr : BitVec 64) (context : Nat) (allowPhysPageFree : Bool)
    (s : Mapping) : Option Mapping := do
  let (physAddr, paging) ← memGetPhysAddr virtAddr context s.paging
  let paging ← memX64UnmapVirtualPage virtAddr context paging
  if physAddr ≠ 0 then releaseUse physAddr allowPhysPageFree { s with paging := paging }
  else some { s with paging := paging }

/-! ### Runs -/

/-- A mapping: the page of a process, and the address of the physical page. -/
abbrev Use := (Nat × BitVec 64) × BitVec 64

/-- The mappings of a physical page. -/
def usesOf (live : List Use) (pageNum : Nat) : Nat :=
  live.countP fun use => use.2.toNat / sizeOfPage = pageNum

/-- The memory manager, the map its tables stand for, and the mappings made by
`mem_map_virtual_page`.  Those of the kernel's own pages are older. -/
structure MapRun where
  sys : Mapping
  map : Nat × BitVec 64 → Option (BitVec 64)
  live : List Use

/-- The tables and their map alone. -/
def MapRun.pages (r : MapRun) : PageRun := ⟨r.sys.paging, r.map⟩

/-- When the kernel starts. -/
def MapRun.start (paging : Paging) : MapRun :=
  ⟨⟨paging, memMapInitCounters⟩, (PageRun.start paging).map, []⟩

/-- The calls. -/
inductive MapOp where
  | map (context : Nat) (virtAddr physAddr : BitVec 64) (cacheMode : Nat)
  | unmap (context : Nat) (virtAddr : BitVec 64) (allowPhysPageFree : Bool)

/-- The mappings without that of a page. -/
def MapRun.without (r : MapRun) (key : Nat × BitVec 64) : List Use :=
  match r.map key with
  | some p => r.live.erase (key, p)
  | none => r.live

/-- One call. -/
def MapRun.step (r : MapRun) : MapOp → Option MapRun
  | .map c v p mode => (memMapVirtualPage v p c mode r.sys).map fun sys =>
      ⟨sys, update r.map (pageKey c v) (some p), (pageKey c v, p) :: r.live⟩
  | .unmap c v allow => (memUnmapVirtualPage v c allow r.sys).map fun sys =>
      ⟨sys, update r.map (pageKey c v) none, r.without (pageKey c v)⟩

/-- What callers may ask for: the kernel's own pages are never unmapped. -/
def MapRun.Asked (r : MapRun) : MapOp → Prop
  | .map c v p _ => Page v ∧ p.toNat % 2097152 = 0 ∧ r.map (pageKey c v) = none
  | .unmap c v _ => Page v ∧ ∀ p, r.map (pageKey c v) = some p → (pageKey c v, p) ∈ r.live

/-- No table is in a physical page. -/
structure Paging.HoldsNoTable (s : Paging) (pageNum : Nat) : Prop where
  tables : ∀ place : Place, place.Ok → ∀ t, s.tableAt place = some t →
    t.toNat / sizeOfPage ≠ pageNum
  next : s.pool.next4kbPage ≠ 0 → s.pool.next4kbPage / sizeOfPage ≠ pageNum

/-- A page can be unmapped: it is not the window, `mem_get_phys_addr` finds nothing if it is not
mapped, and if it is, then to a page other than page zero that has a counter, with fewer uses than
the counter is full at, and without tables in it if it is given back. -/
structure MapRun.CanUnmap (r : MapRun) (c : Nat) (v : BitVec 64) (allow : Bool) : Prop where
  window : v ≠ workingTableVirtualAddrBase
  nothing : r.map (pageKey c v) = none → r.sys.paging.Finds c v 0
  page : ∀ p, r.map (pageKey c v) = some p → p ≠ 0 ∧ p.toNat / sizeOfPage < memMaxSupportedPages
  uses : ∀ p, r.map (pageKey c v) = some p → usesOf r.live (p.toNat / sizeOfPage) < 2 ^ 32
  tables : ∀ p, r.map (pageKey c v) = some p → usesOf r.live (p.toNat / sizeOfPage) = 1 →
    allow = true → r.sys.paging.HoldsNoTable (p.toNat / sizeOfPage)

/-- The calls that the code can take. -/
def MapRun.Fits (r : MapRun) (op : MapOp) : Prop :=
  r.Asked op ∧ match op with
    | .map c v p mode => r.sys.paging.CanMap c v p mode
    | .unmap c v allow => r.CanUnmap c v allow

/-- Nothing is mapped to a physical page, except by the window. -/
def MapRun.Unmapped (r : MapRun) (pageNum : Nat) : Prop :=
  ∀ c v p, Page v → v ≠ workingTableVirtualAddrBase → r.map (pageKey c v) = some p →
    p.toNat / sizeOfPage ≠ pageNum

/-- Uses are counted, calls that are `ok` use counters that exist, and the pages they give back are
not mapped any more. -/
structure MapRun.Counted (ok : MapRun → MapOp → Prop) (r : MapRun) : Prop where
  counters : ∀ n < memMaxSupportedPages,
    (r.sys.counters n).toNat = min (usesOf r.live n) (2 ^ 32 - 1)
  inside : ∀ c v allow, ok r (.unmap c v allow) → ∀ p paging,
    memGetPhysAddr v c r.sys.paging = some (p, paging) → p ≠ 0 → physPageNum p < memMaxSupportedPages
  released : ∀ c v allow r', ok r (.unmap c v allow) → r.step (.unmap c v allow) = some r' →
    ∀ n, bit r.sys.paging.pool.phys.alloc n = false →
      bit r'.sys.paging.pool.phys.alloc n = true → r'.Unmapped n

/-! ### Counting -/

section
variable {counters : Nat → BitVec 32} {live : List Use} {use : Use} {n m : Nat} {p : BitVec 64}

/-- The counters are those of the mappings. -/
def Counts (counters : Nat → BitVec 32) (live : List Use) : Prop :=
  ∀ n < memMaxSupportedPages, (counters n).toNat = min (usesOf live n) (2 ^ 32 - 1)

theorem usesOf_cons :
    usesOf (use :: live) n = usesOf live n + if use.2.toNat / sizeOfPage = n then 1 else 0 := by
  rw [usesOf, List.countP_cons, usesOf]
  simp only [decide_eq_true_eq]

theorem usesOf_erase (h : use ∈ live) : usesOf (live.erase use) n =
    usesOf live n - if use.2.toNat / sizeOfPage = n then 1 else 0 := by
  rw [usesOf, List.countP_erase, usesOf]
  simp only [h, true_and, decide_eq_true_eq]

theorem usesOf_pos (h : use ∈ live) : 0 < usesOf live (use.2.toNat / sizeOfPage) :=
  List.countP_pos_iff.mpr ⟨use, h, decide_eq_true rfl⟩

theorem Counts.countUse (h : Counts counters live) (hn : physPageNum use.2 = use.2.toNat / sizeOfPage) :
    Counts (countUse (physPageNum use.2) counters) (use :: live) := by
  intro m hm
  have hc := h m hm
  rw [usesOf_cons, Mem.countUse, hn]
  by_cases hmn : use.2.toNat / sizeOfPage = m
  · subst hmn
    rw [if_pos rfl]
    split
    next hlt =>
      have hlt := BitVec.lt_def.mp hlt.2
      rw [update_self, BitVec.toNat_add, show (1 : BitVec 32).toNat = 1 from rfl]
      rw [show (0xFFFFFFFF#32).toNat = 2 ^ 32 - 1 from rfl] at hlt
      omega
    next hfull =>
      have hfull : ¬ (counters _).toNat < 2 ^ 32 - 1 := fun hlt => hfull ⟨hm, BitVec.lt_def.mpr hlt⟩
      omega
  · rw [if_neg hmn]
    split
    next => rw [update_of_ne (Ne.symm hmn), hc, Nat.add_zero]
    next => rw [hc, Nat.add_zero]

theorem Counts.dropUse (h : Counts counters live) (huse : use ∈ live)
    (hn : use.2.toNat / sizeOfPage < memMaxSupportedPages)
    (hfew : usesOf live (use.2.toNat / sizeOfPage) < 2 ^ 32) :
    Counts (dropUse (use.2.toNat / sizeOfPage) counters) (live.erase use) := by
  have hpos := usesOf_pos huse
  have hcount := h _ hn
  have hne : counters (use.2.toNat / sizeOfPage) > 0 := by
    refine BitVec.lt_def.mpr ?_
    change 0 < (counters _).toNat
    omega
  intro m hm
  have hc := h m hm
  rw [usesOf_erase huse, Mem.dropUse, if_pos hne]
  by_cases hmn : use.2.toNat / sizeOfPage = m
  · subst hmn
    rw [if_pos rfl, update_self, BitVec.toNat_sub, show (1 : BitVec 32).toNat = 1 from rfl]
    omega
  · rw [if_neg hmn, update_of_ne (Ne.symm hmn), hc, Nat.sub_zero]

theorem physPageNum_eq (h : p.toNat < 2 ^ 51) : physPageNum p = p.toNat / sizeOfPage := by
  rw [physPageNum, sizeOfPage]
  omega

end

/-! ### One call -/

/-- The invariant. -/
structure MapRun.Ok (r : MapRun) : Prop where
  pages : r.pages.Ok
  nodup : r.live.Nodup
  mapped : ∀ use ∈ r.live, r.map use.1 = some use.2
  kernel : ∀ c v p, Page v → v ≠ workingTableVirtualAddrBase → r.map (pageKey c v) = some p →
    (pageKey c v, p) ∈ r.live ∨ p.toNat / sizeOfPage < memNumKernelPages.toNat
  counts : Counts r.sys.counters r.live

section
variable {r r' : MapRun} {s s' : Mapping} {paging : Paging} {phys : PhysMem} {c mode n : Nat}
  {v p : BitVec 64} {allow : Bool}

/-- **`mem_map_virtual_page`.** -/
theorem MapRun.Ok.map (h : r.Ok) (hop : r.Fits (.map c v p mode))
    (hstep : r.step (.map c v p mode) = some r') : r'.Ok := by
  have hpages : r.pages.Fits (.map c v p mode) := hop
  obtain ⟨⟨hv, hp, hnone⟩, hcan⟩ := hop
  obtain ⟨paging, hs, hok⟩ := h.pages.map hpages
  have hs' : memX64MapVirtualPage v p c mode r.sys.paging = some paging := hs
  rw [MapRun.step, memMapVirtualPage, hs', Option.bind_eq_bind, Option.bind_some, sizeOfPage,
    if_neg (not_not.mpr hp)] at hstep
  obtain rfl := Option.some.inj hstep
  have hnew : ∀ use ∈ r.live, use.1 ≠ pageKey c v := by
    intro use huse heq
    rw [← heq, h.mapped use huse] at hnone
    cases hnone
  have hnum : physPageNum p = p.toNat / sizeOfPage := physPageNum_eq hcan.fits
  refine ⟨hok, ?_, ?_, ?_, @Counts.countUse _ _ (pageKey c v, p) h.counts hnum⟩
  · exact List.nodup_cons.mpr ⟨fun hmem => hnew _ hmem rfl, h.nodup⟩
  · intro use huse
    rcases List.mem_cons.mp huse with rfl | huse
    · exact update_self ..
    · exact (update_of_ne (hnew use huse) ..).trans (h.mapped use huse)
  · intro c' v' p' hv' hwindow' hmap
    dsimp only at hmap ⊢
    by_cases hkey : pageKey c' v' = pageKey c v
    · rw [hkey, update_self, Option.some.injEq] at hmap
      rw [hkey, hmap]
      exact .inl (List.mem_cons_self ..)
    · rw [update_of_ne hkey] at hmap
      exact (h.kernel c' v' p' hv' hwindow' hmap).imp_left (List.mem_cons_of_mem _)

/-- The first part of `mem_unmap_virtual_page`: the page is looked up and unmapped. -/
theorem memUnmapVirtualPage_eq (allow : Bool) (h : r.pages.Ok) (hv : Page v)
    (hwindow : v ≠ workingTableVirtualAddrBase)
    (hnothing : r.map (pageKey c v) = none → r.sys.paging.Finds c v 0) :
    ∃ paging, PageRun.Ok ⟨paging, update r.map (pageKey c v) none⟩ ∧
      paging.pool = r.sys.paging.pool ∧
      (∀ q : Place, q.Ok → paging.entryOf q = r.sys.paging.entryOf q) ∧
      r.sys.paging.Finds c v ((r.map (pageKey c v)).getD 0) ∧
      memUnmapVirtualPage v c allow r.sys =
        if (r.map (pageKey c v)).getD 0 ≠ 0 then
          releaseUse ((r.map (pageKey c v)).getD 0) allow ⟨paging, r.sys.counters⟩
        else some ⟨paging, r.sys.counters⟩ := by
  have hfinds : r.sys.paging.Finds c v ((r.map (pageKey c v)).getD 0) := by
    cases hmap : r.map (pageKey c v) with
    | none => exact hnothing hmap
    | some p =>
        have hzero := h.finds (k := 0) hv hwindow hmap (by decide)
        rw [show BitVec.ofNat 64 0 = 0#64 from rfl, BitVec.add_zero, BitVec.add_zero] at hzero
        exact hzero
  obtain ⟨s₁, hs₁⟩ := hfinds
  have hok₁ : PageRun.Ok ⟨s₁, r.map⟩ := by
    have hstep : r.pages.step (.lookup c v) = some ⟨s₁, r.map⟩ := by
      rw [PageRun.step, MapRun.pages, hs₁]
      rfl
    have hfits : r.pages.Fits (.lookup c v) := ⟨trivial, trivial⟩
    exact h.step hfits hstep
  obtain ⟨s₂, hs₂, hpool, hentry, hok₂⟩ := hok₁.unmap (c := c) hv
  have hmoved := memGetPhysAddr_moved h.tables hs₁
  refine ⟨s₂, hok₂, hpool.trans ?_, fun q hq => (hentry q hq).trans ((hmoved.spec h.tables).2.1 q hq),
    ⟨s₁, hs₁⟩, ?_⟩
  · obtain ⟨e, -, rfl⟩ := hmoved
    rfl
  · have hs₂' : memX64UnmapVirtualPage v c s₁ = some s₂ := hs₂
    simp only [memUnmapVirtualPage, hs₁, hs₂', Option.bind_eq_bind, Option.bind_some]

/-- The second part: the page may be given back. -/
theorem releaseUse_cases (h : releaseUse p allow s = some s') :
    s'.counters = dropUse (physPageNum p) s.counters ∧
      (s'.paging = s.paging ∨
        s'.counters (physPageNum p) = 0 ∧ allow = true ∧ ∃ phys,
          memDeallocatePhysicalPages p.toNat 1 s.paging.pool.phys = some phys ∧
          s'.paging = { s.paging with pool := { s.paging.pool with phys := phys } }) := by
  rw [releaseUse] at h
  split at h
  next => cases h
  next =>
    dsimp only at h
    split at h
    next hfree =>
      obtain ⟨phys, hphys, rfl⟩ := Option.map_eq_some_iff.mp h
      exact ⟨rfl, .inr ⟨hfree.1, hfree.2, phys, hphys, rfl⟩⟩
    next =>
      obtain rfl := Option.some.inj h
      exact ⟨rfl, .inl rfl⟩

/-- A page without tables is given back. -/
theorem Paging.Tables.release (h : paging.Tables) (hno : paging.HoldsNoTable n)
    (hn : n < memMaxSupportedPages) (hbit : bit paging.pool.phys.alloc n = false)
    (hexist : bit paging.pool.phys.exist n = true)
    (hphys : phys = { paging.pool.phys with
      alloc := setBit paging.pool.phys.alloc n
      freePages := paging.pool.phys.freePages + 1 }) :
    Paging.Tables { paging with pool := { paging.pool with phys := phys } } := by
  subst hphys
  refine ⟨⟨h.pool.phys.giveBack hn hbit hexist, h.pool.aligned, fun hnext => ?_⟩, h.shared, h.decodes,
    h.leaves, h.inj, fun place hok t ht havail => ?_, h.window⟩
  · obtain ⟨hlt, hheld⟩ := h.pool.held hnext
    refine ⟨hlt, ?_⟩
    dsimp only
    rw [bit_setBit, hheld, Bool.or_false, decide_eq_false_iff_not]
    exact hno.next hnext
  · refine h.held place hok t ht ?_
    rcases havail with ⟨hlt, hfree⟩ | hnext
    · dsimp only at hfree
      rw [bit_setBit, Bool.or_eq_true, decide_eq_true_eq] at hfree
      exact .inl ⟨hlt, hfree.resolve_left (hno.tables place hok t ht)⟩
    · exact .inr hnext

theorem Paging.HoldsNoTable.congr {paging' : Paging} (h : paging.HoldsNoTable n)
    (hpool : paging'.pool = paging.pool)
    (hentry : ∀ q : Place, q.Ok → paging'.entryOf q = paging.entryOf q) : paging'.HoldsNoTable n where
  tables place hok t ht := h.tables place hok t (by rwa [← tableAt_congr (hentry place hok)])
  next hnext := by
    rw [hpool] at hnext ⊢
    exact h.next hnext

/-- What is left of the mappings when a page is not mapped any more. -/
theorem MapRun.Ok.without (h : r.Ok) :
    (r.without (pageKey c v)).Nodup ∧
      (∀ use ∈ r.without (pageKey c v), update r.map (pageKey c v) none use.1 = some use.2) ∧
      ∀ c' v' p', Page v' → v' ≠ workingTableVirtualAddrBase →
        update r.map (pageKey c v) none (pageKey c' v') = some p' →
        (pageKey c' v', p') ∈ r.without (pageKey c v) ∨
          p'.toNat / sizeOfPage < memNumKernelPages.toNat := by
  have hother : ∀ use ∈ r.without (pageKey c v), use ∈ r.live ∧ use.1 ≠ pageKey c v := by
    intro use huse
    rw [MapRun.without] at huse
    cases hmap : r.map (pageKey c v) with
    | none =>
        rw [hmap] at huse
        refine ⟨huse, fun heq => ?_⟩
        rw [← heq, h.mapped use huse] at hmap
        cases hmap
    | some p =>
        rw [hmap] at huse
        have hlive := List.mem_of_mem_erase huse
        refine ⟨hlive, fun heq => ?_⟩
        rw [← heq, h.mapped use hlive, Option.some.injEq] at hmap
        obtain rfl : use = (pageKey c v, p) := Prod.ext heq hmap
        exact h.nodup.not_mem_erase huse
  refine ⟨?_, fun use huse => ?_, fun c' v' p' hv' hwindow' hmap => ?_⟩
  · rw [MapRun.without]
    split
    · exact h.nodup.erase _
    · exact h.nodup
  · obtain ⟨hlive, hne⟩ := hother use huse
    rw [update_of_ne hne, h.mapped use hlive]
  · by_cases hkey : pageKey c' v' = pageKey c v
    · rw [hkey, update_self] at hmap
      cases hmap
    · rw [update_of_ne hkey] at hmap
      refine (h.kernel c' v' p' hv' hwindow' hmap).imp_left fun hlive => ?_
      rw [MapRun.without]
      split
      · exact (List.mem_erase_of_ne fun heq => hkey (congrArg Prod.fst heq)).mpr hlive
      · exact hlive

/-- **`mem_unmap_virtual_page`.** -/
theorem MapRun.Ok.unmap (h : r.Ok) (hop : r.Fits (.unmap c v allow))
    (hstep : r.step (.unmap c v allow) = some r') :
    r'.Ok ∧ ∀ n, bit r.sys.paging.pool.phys.alloc n = false →
      bit r'.sys.paging.pool.phys.alloc n = true → r'.Unmapped n := by
  obtain ⟨⟨hv, hlive⟩, hcan⟩ := hop
  obtain ⟨paging, hok, hpool, hentry, -, heq⟩ :=
    memUnmapVirtualPage_eq allow h.pages hv hcan.window hcan.nothing
  obtain ⟨hnodup, hmapped, hkernel⟩ := h.without (c := c) (v := v)
  rw [MapRun.step, heq] at hstep
  obtain ⟨sys, hsys, rfl⟩ := Option.map_eq_some_iff.mp hstep
  cases hmap : r.map (pageKey c v) with
  | none =>
      rw [hmap, Option.getD_none, if_neg (not_not.mpr rfl)] at hsys
      obtain rfl := Option.some.inj hsys
      refine ⟨⟨hok, hnodup, hmapped, hkernel, ?_⟩, fun n hfalse htrue => ?_⟩
      · rw [MapRun.without, hmap]
        exact h.counts
      · dsimp only at htrue
        rw [hpool, hfalse] at htrue
        cases htrue
  | some p =>
      obtain ⟨hp, hlt⟩ := hcan.page p hmap
      have hnum : physPageNum p = p.toNat / sizeOfPage := by
        refine physPageNum_eq ?_
        rw [memMaxSupportedPages, sizeOfPage] at hlt
        omega
      have hwithout : r.without (pageKey c v) = r.live.erase (pageKey c v, p) := by
        rw [MapRun.without, hmap]
      rw [hmap, Option.getD_some, if_pos hp] at hsys
      obtain ⟨hcounters, hcases⟩ := releaseUse_cases hsys
      rw [hnum] at hcounters hcases
      have hcounts : Counts sys.counters (r.without (pageKey c v)) := by
        rw [hcounters, hwithout]
        exact h.counts.dropUse (hlive p hmap) hlt (hcan.uses p hmap)
      rcases hcases with hsame | ⟨hzero, hallow, phys, hphys, hpaging⟩
      · dsimp only at hsame
        rw [← hsame] at hok hpool
        refine ⟨⟨hok, hnodup, hmapped, hkernel, hcounts⟩, fun n hfalse htrue => ?_⟩
        dsimp only at htrue
        rw [hpool, hfalse] at htrue
        cases htrue
      · -- the last mapping of the page is gone
        obtain ⟨n, hn, hpn, hbit, hexist, hphys⟩ := memDeallocatePhysicalPages_eq_some.mp hphys
        have hpn : p.toNat / sizeOfPage = n := by
          rw [hpn]
          exact Nat.mul_div_cancel_left _ (by decide)
        rw [hpn] at hzero
        have huses : usesOf (r.without (pageKey c v)) n = 0 := by
          have hcount := hcounts n hn
          rw [hzero] at hcount
          change 0 = _ at hcount
          omega
        have hone : usesOf r.live (p.toNat / sizeOfPage) = 1 := by
          have hpos := usesOf_pos (hlive p hmap)
          rw [hwithout, usesOf_erase (hlive p hmap), if_pos hpn] at huses
          dsimp only at hpos
          rw [hpn] at hpos ⊢
          omega
        have hno := (hcan.tables p hmap hone hallow).congr hpool hentry
        rw [hpn] at hno
        refine ⟨⟨⟨?_, ?_, ?_⟩, hnodup, hmapped, hkernel, hcounts⟩, fun m hfalse htrue => ?_⟩
        · change sys.paging.Tables
          rw [hpaging]
          exact hok.tables.release hno hn hbit hexist hphys
        · change sys.paging.validPhysBitMask ≠ 0
          rw [hpaging]
          exact hok.mask
        · change ∀ c' v', Page v' → v' ≠ workingTableVirtualAddrBase → sys.paging.translate c' v' = _
          rw [hpaging]
          exact hok.translate
        · have hm : m = n := by
            dsimp only at htrue
            rw [hpaging, hphys] at htrue
            dsimp only at htrue
            rw [bit_setBit, hpool, hfalse, Bool.or_false, decide_eq_true_eq] at htrue
            exact htrue
          subst hm
          intro c' v' p' hv' hwindow' hmap' hpage
          rcases hkernel c' v' p' hv' hwindow' hmap' with hmem | hkernelPage
          · have hpos := usesOf_pos hmem
            dsimp only at hpos
            rw [hpage] at hpos
            omega
          · rw [hpage] at hkernelPage
            have hnot := hok.tables.pool.phys.kernel m hkernelPage
            dsimp only at hnot
            rw [hexist] at hnot
            cases hnot

theorem MapRun.Ok.step {op : MapOp} (h : r.Ok) (hop : r.Fits op) (hstep : r.step op = some r') :
    r'.Ok := by
  cases op with
  | map c v p mode => exact h.map hop hstep
  | unmap c v allow => exact (h.unmap hop hstep).1

theorem MapRun.Ok.counted (h : r.Ok) : r.Counted MapRun.Fits where
  counters := h.counts
  inside c v allow hop p paging hfound hp := by
    obtain ⟨⟨hv, -⟩, hcan⟩ := hop
    obtain ⟨-, -, -, -, ⟨s, hs⟩, -⟩ :=
      memUnmapVirtualPage_eq allow h.pages hv hcan.window hcan.nothing
    rw [hs, Option.some.injEq] at hfound
    obtain ⟨hfound, -⟩ := Prod.mk.inj hfound
    cases hmap : r.map (pageKey c v) with
    | none =>
        rw [hmap, Option.getD_none] at hfound
        exact absurd hfound.symm hp
    | some q =>
        rw [hmap, Option.getD_some] at hfound
        subst hfound
        exact Nat.lt_of_le_of_lt (Nat.mod_le ..) (hcan.page q hmap).2
  released c v allow r' hop hstep := (h.unmap hop hstep).2

end

/-- **Uses are counted**: from the start of the kernel, where only its own pages are mapped, and over
every run of calls that the code can take. -/
theorem counters_count_mappings {paging : Paging} {r : MapRun} (htables : paging.Tables)
    (hmask : paging.validPhysBitMask ≠ 0)
    (hkernel : ∀ c v p, Page v → v ≠ workingTableVirtualAddrBase → paging.translate c v = some p →
      p.toNat / sizeOfPage < memNumKernelPages.toNat)
    (hrun : Reach MapRun.step MapRun.Fits (.start paging) r) : r.Counted MapRun.Fits := by
  have hok : r.Ok := by
    refine hrun.invariant ?_ fun _ _ _ h hop hstep => h.step hop hstep
    have hstart := PageRun.Ok.start htables hmask
    refine ⟨hstart, List.nodup_nil, fun use huse => (by cases huse), ?_, fun n _ => ?_⟩
    · intro c v p hv hwindow hmap
      exact .inr (hkernel c v p hv hwindow ((hstart.translate c v hv hwindow).trans hmap))
    · exact (Nat.zero_min _).symm
  exact hok.counted

theorem bootPaging_translate (c : Nat) (v : BitVec 64) : bootPaging.translate c v = none := by
  rw [Paging.translate, Paging.leaf]
  cases hu : bootPaging.tableAt (pagePlace c v) with
  | none => rfl
  | some u =>
      rcases bootPaging_tableAt pagePlace_ok hu with ⟨hplace, -⟩ | ⟨-, rfl⟩
      · cases hplace
      · have hmem : bootPaging.mem (entryAddr 0x2000#64 (pageDirEntryIdx v)) = 0 := by
          refine if_neg ?_
          rw [entryAddr, entryAddr]
          simp only [BitVec.reduceToNat]
          omega
        rw [Option.map_some, Option.bind_some, hmem]
        rfl

/-- One page of a process. -/
theorem counters_count_mappings_4MB :
    ∃ r, Reach MapRun.step MapRun.Fits (.start bootPaging) r ∧
      r.live = [(pageKey 1 0x400000#64, 0xA00000#64)] ∧ r.Counted MapRun.Fits := by
  have hsome : ((MapRun.start bootPaging).step (.map 1 0x400000#64 0xA00000#64 6)).isSome = true := by
    decide +kernel
  obtain ⟨r, hr⟩ := Option.isSome_iff_exists.mp hsome
  have hrun : Reach MapRun.step MapRun.Fits (.start bootPaging) r :=
    Reach.step (.map 1 0x400000#64 0xA00000#64 6) .refl bootPaging_fits hr
  refine ⟨r, hrun, ?_, counters_count_mappings bootPaging_tables (by decide) ?_ hrun⟩
  · rw [MapRun.step] at hr
    obtain ⟨s, -, rfl⟩ := Option.map_eq_some_iff.mp hr
    rfl
  · intro c v p _ _ hp
    rw [bootPaging_translate] at hp
    cases hp

/-- A device is mapped at 4GB, where the counters end. -/
theorem counters_count_mappings_fails :
    ¬ ∀ (paging : Paging) (r : MapRun), paging.Tables → paging.validPhysBitMask ≠ 0 →
      (∀ c v p, Page v → v ≠ workingTableVirtualAddrBase → paging.translate c v = some p →
        p.toNat / sizeOfPage < memNumKernelPages.toNat) →
      Reach MapRun.step MapRun.Asked (.start paging) r → r.Counted MapRun.Asked := by
  intro h
  have hsome : ((MapRun.start bootPaging).step (.map 1 0x400000#64 0x100000000#64 6)).bind
      (fun r => (memGetPhysAddr 0x400000#64 1 r.sys.paging).map (·.1)) =
        some 0x100000000#64 := by decide +kernel
  obtain ⟨r, hr, hres⟩ := Option.bind_eq_some_iff.mp hsome
  obtain ⟨⟨q, s'⟩, hs', rfl⟩ := Option.map_eq_some_iff.mp hres
  have hrun : Reach MapRun.step MapRun.Asked (.start bootPaging) r :=
    Reach.step (.map 1 0x400000#64 0x100000000#64 6) .refl ⟨by decide, by decide, by decide⟩ hr
  have hcounted := h bootPaging r bootPaging_tables (by decide)
    (fun c v p _ _ hp => by rw [bootPaging_translate] at hp; cases hp) hrun
  have hasked : r.Asked (.unmap 1 0x400000#64 true) := by
    refine ⟨by decide, fun p hp => ?_⟩
    rw [MapRun.step] at hr
    obtain ⟨s, -, rfl⟩ := Option.map_eq_some_iff.mp hr
    simp only [update_self, Option.some.injEq] at hp
    exact hp ▸ List.mem_cons_self ..
  exact absurd (hcounted.inside 1 0x400000#64 true hasked _ s' hs' (by decide)) (by decide)

end Azalea.Mem
