import Azalea.Mem.PageMap

/-!
# Mem — page tables as a finite map

Runs of `mem_x64_map_virtual_page`, `mem_x64_unmap_virtual_page` and `mem_get_phys_addr`, next to the
map from pages to physical addresses that the tables stand for.

- `page_tables_finite_map`: as long as the calls keep away from the places where the code goes
  wrong (`PageRun.Fits`), every mapped page is found where it was mapped to, and
  `mem_get_phys_addr` knows a page that is not mapped from its missing page directory only.
-/

namespace Azalea.Mem
open Azalea.Bitmaps Azalea.Runs Function

/-! ### Pages by number -/

/-- A page of 2MB in one of the two halves of the address space. -/
structure Page (v : BitVec 64) : Prop where
  aligned : v.toNat % 2097152 = 0
  canonical : v.toNat < 2 ^ 47 ∨ 2 ^ 64 - 2 ^ 47 ≤ v.toNat

instance (v : BitVec 64) : Decidable (Page v) :=
  decidable_of_iff (v.toNat % 2097152 = 0 ∧ (v.toNat < 2 ^ 47 ∨ 2 ^ 64 - 2 ^ 47 ≤ v.toNat))
    ⟨fun h => ⟨h.1, h.2⟩, fun h => ⟨h.1, h.2⟩⟩

/-- A page of a process; the pages of the kernel's half are the same for all. -/
def pageKey (context : Nat) (v : BitVec 64) : Nat × BitVec 64 := (owner context (pml4EntryIdx v), v)

section
variable {v v' : BitVec 64} {c c' : Nat}

/-- The test for the kernel's half. -/
theorem top_bit (v : BitVec 64) : (v &&& 0x8000000000000000#64 != 0) = decide (2 ^ 63 ≤ v.toNat) := by
  have hmask : 0x8000000000000000#64 = BitVec.twoPow 64 63 := by decide
  have hbit : v.getLsbD 63 = decide (2 ^ 63 ≤ v.toNat) :=
    (BitVec.msb_eq_getLsbD_last v).symm.trans (BitVec.msb_eq_decide v)
  rw [hmask, BitVec.and_twoPow, hbit]
  cases decide (2 ^ 63 ≤ v.toNat) <;> decide

theorem Page.halfOk (h : Page v) : HalfOk v := by
  have hlt := v.isLt
  rw [HalfOk, top_bit, pml4EntryIdx_eq, decide_eq_decide]
  have hcan := h.canonical
  omega

/-- A page is found from its place. -/
theorem Page.ext_place (h : Page v) (h' : Page v') (hplace : pagePlace c' v' = pagePlace c v)
    (hidx : pageDirEntryIdx v' = pageDirEntryIdx v) : pageKey c' v' = pageKey c v := by
  obtain ⟨howner, h4, h3⟩ := Place.pageDir.inj hplace
  have hv : v' = v := by
    rw [pml4EntryIdx_eq, pml4EntryIdx_eq] at h4
    rw [pageDirPtrEntryIdx_eq, pageDirPtrEntryIdx_eq] at h3
    rw [pageDirEntryIdx_eq, pageDirEntryIdx_eq] at hidx
    have ha := h.aligned
    have ha' := h'.aligned
    have hc := h.canonical
    have hc' := h'.canonical
    have hlt := v.isLt
    have hlt' := v'.isLt
    exact BitVec.eq_of_toNat_eq (by omega)
  rw [pageKey, pageKey, howner, hv]

theorem pageKey_eq_iff (h : Page v) (h' : Page v') :
    pageKey c' v' = pageKey c v ↔
      pagePlace c' v' = pagePlace c v ∧ pageDirEntryIdx v' = pageDirEntryIdx v := by
  refine ⟨fun hk => ?_, fun hp => h.ext_place h' hp.1 hp.2⟩
  obtain ⟨howner, rfl⟩ := Prod.mk.inj hk
  exact ⟨by rw [pagePlace, pagePlace, howner], rfl⟩

/-- The window is the last page of all. -/
theorem Page.not_window (h : Page v) (hv : v ≠ workingTableVirtualAddrBase) : ¬ IsWindow c v := by
  rintro ⟨hplace, hidx⟩
  have hbase : pageKey c v = pageKey 0 workingTableVirtualAddrBase :=
    Page.ext_place (by decide) h (hplace.trans (by decide)) (hidx.trans (by decide))
  exact hv (congrArg Prod.snd hbase)

/-- An address in a page. -/
theorem Page.offset (h : Page v) {k : Nat} (hk : k < 2097152) :
    (v + BitVec.ofNat 64 k) % 2097152#64 = BitVec.ofNat 64 k ∧
      v + BitVec.ofNat 64 k - (v + BitVec.ofNat 64 k) % 2097152#64 = v := by
  have ha := h.aligned
  have hlt := v.isLt
  have hmod : (v + BitVec.ofNat 64 k) % 2097152#64 = BitVec.ofNat 64 k := by
    refine BitVec.eq_of_toNat_eq ?_
    rw [BitVec.toNat_umod, BitVec.toNat_add, BitVec.toNat_ofNat]
    change (v.toNat + k % 2 ^ 64) % 2 ^ 64 % 2097152 = _
    omega
  exact ⟨hmod, by rw [hmod, BitVec.add_sub_cancel]⟩

end

/-! ### Runs -/

/-- The tables, and the map they stand for. -/
structure PageRun where
  paging : Paging
  map : Nat × BitVec 64 → Option (BitVec 64)

/-- Before the first call. -/
def PageRun.start (s : Paging) : PageRun := ⟨s, fun key => s.translate key.1 key.2⟩

/-- The calls. -/
inductive PageOp where
  | map (context : Nat) (virtAddr physAddr : BitVec 64) (cacheMode : Nat)
  | unmap (context : Nat) (virtAddr : BitVec 64)
  | lookup (context : Nat) (virtualAddr : BitVec 64)

/-- One call. -/
def PageRun.step (r : PageRun) : PageOp → Option PageRun
  | .map c v p mode => (memX64MapVirtualPage v p c mode r.paging).map fun s =>
      ⟨s, update r.map (pageKey c v) (some p)⟩
  | .unmap c v => (memX64UnmapVirtualPage v c r.paging).map fun s =>
      ⟨s, update r.map (pageKey c v) none⟩
  | .lookup c a => (memGetPhysAddr a c r.paging).map fun res => ⟨res.2, r.map⟩

/-- What callers may ask for: a page that is not mapped is mapped to a page of memory. -/
def PageRun.Asked (r : PageRun) : PageOp → Prop
  | .map c v p _ => Page v ∧ p.toNat % 2097152 = 0 ∧ r.map (pageKey c v) = none
  | .unmap _ v => Page v
  | .lookup _ _ => True

/-- A page can be mapped: it is not the window, its address fits in an entry and in
`valid_phys_bit_mask`, the cache mode has an index below 4, a page of the kernel's half has a page
directory pointer table, and the tables that are missing can be had and look empty. -/
structure Paging.CanMap (s : Paging) (c : Nat) (v p : BitVec 64) (mode : Nat) : Prop where
  window : v ≠ workingTableVirtualAddrBase
  fits : p.toNat < 2 ^ 51
  phys : p &&& s.validPhysBitMask = p
  mode : CacheModeOk mode
  kernel : pml4EntryIdx v < 256 ∨ s.tableAt (pagePtrPlace c v) ≠ none
  new : NewTablesBlank s.mem (s.missing c v) s.pool

/-- The calls that the code can take. -/
def PageRun.Fits (r : PageRun) (op : PageOp) : Prop :=
  r.Asked op ∧ match op with
    | .map c v p mode => r.paging.CanMap c v p mode
    | _ => True

/-- An address of a page is found at `p`. -/
def Paging.Finds (s : Paging) (c : Nat) (a p : BitVec 64) : Prop :=
  ∃ s', memGetPhysAddr a c s = some (p, s')

/-- The tables behave as the map: mapped pages are found, a page that is not mapped is not found if
it has no page directory, and only then, and a page that can be mapped is. -/
structure PageRun.IsMap (r : PageRun) : Prop where
  mapped : ∀ c v p, Page v → v ≠ workingTableVirtualAddrBase → r.map (pageKey c v) = some p →
    ∀ k < 2097152, r.paging.Finds c (v + BitVec.ofNat 64 k) (p + BitVec.ofNat 64 k)
  unmapped : ∀ c v, Page v → v ≠ workingTableVirtualAddrBase → r.map (pageKey c v) = none →
    ((∀ k < 2097152, r.paging.Finds c (v + BitVec.ofNat 64 k) 0) ↔
      r.paging.tableAt (pagePlace c v) = none)
  maps : ∀ c v p mode, r.Fits (.map c v p mode) →
    ∃ s, memX64MapVirtualPage v p c mode r.paging = some s

/-- What a map is: mapped pages are found, other pages are not, and every page can be mapped. -/
structure PageRun.FiniteMap (r : PageRun) : Prop where
  mapped : ∀ c v p, Page v → v ≠ workingTableVirtualAddrBase → r.map (pageKey c v) = some p →
    ∀ k < 2097152, r.paging.Finds c (v + BitVec.ofNat 64 k) (p + BitVec.ofNat 64 k)
  unmapped : ∀ c v, Page v → v ≠ workingTableVirtualAddrBase → r.map (pageKey c v) = none →
    ∀ k < 2097152, r.paging.Finds c (v + BitVec.ofNat 64 k) 0
  maps : ∀ c v p mode, r.Asked (.map c v p mode) →
    ∃ s, memX64MapVirtualPage v p c mode r.paging = some s

/-- The tables are a tree that translates every page as the map says. -/
structure PageRun.Ok (r : PageRun) : Prop where
  tables : r.paging.Tables
  mask : r.paging.validPhysBitMask ≠ 0
  translate : ∀ c v, Page v → v ≠ workingTableVirtualAddrBase →
    r.paging.translate c v = r.map (pageKey c v)

section
variable {r r' : PageRun} {op : PageOp} {c mode : Nat} {v p : BitVec 64}

theorem PageRun.Ok.start {s : Paging} (htables : s.Tables) (hmask : s.validPhysBitMask ≠ 0) :
    (PageRun.start s).Ok := by
  refine ⟨htables, hmask, fun c v _ _ => ?_⟩
  change s.translate c v = s.translate (owner c (pml4EntryIdx v)) v
  rw [Paging.translate, Paging.translate, pagePlace, pagePlace, owner_owner]

theorem PageRun.Ok.map (h : r.Ok) (hop : r.Fits (.map c v p mode)) :
    ∃ s, memX64MapVirtualPage v p c mode r.paging = some s ∧
      PageRun.Ok ⟨s, update r.map (pageKey c v) (some p)⟩ := by
  obtain ⟨⟨hv, hp, hnone⟩, hcan⟩ := hop
  obtain ⟨s, hs, htables, hmask, htranslate⟩ := memX64MapVirtualPage_spec h.tables h.mask hv.halfOk
    (hv.not_window hcan.window) ((h.translate c v hv hcan.window).trans hnone) hcan.kernel hcan.new hp
    hcan.fits hcan.phys hcan.mode
  refine ⟨s, hs, htables, hmask ▸ h.mask, fun c' v' hv' hwindow' => ?_⟩
  rw [htranslate c' v' (hv'.not_window hwindow'), h.translate c' v' hv' hwindow']
  simp only [update_apply, pageKey_eq_iff hv hv']

theorem PageRun.Ok.unmap (h : r.Ok) (hv : Page v) :
    ∃ s, memX64UnmapVirtualPage v c r.paging = some s ∧ s.pool = r.paging.pool ∧
      (∀ q : Place, q.Ok → s.entryOf q = r.paging.entryOf q) ∧
      PageRun.Ok ⟨s, update r.map (pageKey c v) none⟩ := by
  obtain ⟨s, hs, htables, hpool, hmask, hentry, htranslate⟩ :=
    memX64UnmapVirtualPage_spec (c := c) (v := v) h.tables
  refine ⟨s, hs, hpool, hentry, htables, hmask ▸ h.mask, fun c' v' hv' hwindow' => ?_⟩
  rw [htranslate c' v' (hv'.not_window hwindow'), h.translate c' v' hv' hwindow']
  simp only [update_apply, pageKey_eq_iff hv hv']

theorem PageRun.Ok.step (h : r.Ok) (hop : r.Fits op) (hstep : r.step op = some r') : r'.Ok := by
  cases op with
  | map c v p mode =>
      obtain ⟨s, hs, hok⟩ := h.map hop
      rw [PageRun.step, hs] at hstep
      exact Option.some.inj hstep ▸ hok
  | unmap c v =>
      obtain ⟨s, hs, -, -, hok⟩ := h.unmap (c := c) hop.1
      rw [PageRun.step, hs] at hstep
      exact Option.some.inj hstep ▸ hok
  | lookup c a =>
      rw [PageRun.step] at hstep
      obtain ⟨⟨q, s'⟩, hs, rfl⟩ := Option.map_eq_some_iff.mp hstep
      have hmoved := memGetPhysAddr_moved h.tables hs
      refine ⟨(hmoved.spec h.tables).1, ?_, fun c' v' hv' hwindow' => ?_⟩
      · obtain ⟨e, -, rfl⟩ := hmoved
        exact h.mask
      · rw [hmoved.translate h.tables (hv'.not_window hwindow')]
        exact h.translate c' v' hv' hwindow'

/-- A mapped page is found. -/
theorem PageRun.Ok.finds (h : r.Ok) (hv : Page v) (hwindow : v ≠ workingTableVirtualAddrBase)
    (hmap : r.map (pageKey c v) = some p) {k : Nat} (hk : k < 2097152) :
    r.paging.Finds c (v + BitVec.ofNat 64 k) (p + BitVec.ofNat 64 k) := by
  obtain ⟨hmod, hva⟩ := hv.offset hk
  rw [← h.translate c v hv hwindow] at hmap
  obtain ⟨e, hleaf, htarget⟩ := Option.bind_eq_some_iff.mp hmap
  obtain ⟨s', hs'⟩ := memGetPhysAddr_entry h.tables hva (hv.not_window hwindow) hleaf
  rw [(target_eq_some.mp htarget).2, hmod] at hs'
  exact ⟨s', hs'⟩

/-- A page that is not mapped is found behind its page directory, if it has one: the entry is not
looked at whether it is present. -/
theorem PageRun.Ok.finds_none (h : r.Ok) (hv : Page v) (hwindow : v ≠ workingTableVirtualAddrBase) :
    (∀ k < 2097152, r.paging.Finds c (v + BitVec.ofNat 64 k) 0) ↔
      r.paging.tableAt (pagePlace c v) = none := by
  constructor
  · intro hfinds
    by_contra hsome
    obtain ⟨u, hu⟩ := Option.ne_none_iff_exists'.mp hsome
    have hleaf : r.paging.leaf (pagePlace c v) (pageDirEntryIdx v) =
        some (r.paging.mem (entryAddr u (pageDirEntryIdx v))) := by
      rw [Paging.leaf, hu]
      rfl
    -- the offset is added to whatever the entry holds, so that the first two bytes differ
    have hoffset : ∀ k < 2097152, ∃ q,
        memX64PhysAddrFromPte (r.paging.mem (entryAddr u (pageDirEntryIdx v))) = some q ∧
          q + BitVec.ofNat 64 k = 0 := by
      intro k hk
      obtain ⟨hmod, hva⟩ := hv.offset hk
      obtain ⟨s', hs'⟩ := memGetPhysAddr_entry h.tables hva (hv.not_window hwindow) hleaf
      obtain ⟨s₁, hs₁⟩ := hfinds k hk
      rw [hs₁, hmod] at hs'
      obtain ⟨q, hq, heq⟩ := Option.map_eq_some_iff.mp hs'.symm
      exact ⟨q, hq, (Prod.mk.inj heq).1⟩
    obtain ⟨q, hq, h0⟩ := hoffset 0 (by decide)
    obtain ⟨q', hq', h1⟩ := hoffset 1 (by decide)
    obtain rfl : q = q' := Option.some.inj (hq.symm.trans hq')
    have hone := h0.trans h1.symm
    rw [BitVec.add_right_inj] at hone
    exact absurd hone (by decide)
  · intro hnone k hk
    obtain ⟨-, hva⟩ := hv.offset hk
    obtain ⟨s', hs', -⟩ := memGetPhysAddr_missing h.tables hva hnone
    exact ⟨s', hs'⟩

theorem PageRun.Ok.isMap (h : r.Ok) : r.IsMap where
  mapped c v p hv hwindow hmap k hk := h.finds hv hwindow hmap hk
  unmapped c v hv hwindow _ := h.finds_none hv hwindow
  maps c v p mode hop := by
    obtain ⟨s, hs, -⟩ := h.map hop
    exact ⟨s, hs⟩

end

/-- **Page tables are a finite map** from pages to where they were mapped, as long as the calls are
those that the code can take. -/
theorem page_tables_finite_map {s : Paging} {r : PageRun} (htables : s.Tables)
    (hmask : s.validPhysBitMask ≠ 0) (hrun : Reach PageRun.step PageRun.Fits (.start s) r) :
    r.IsMap := by
  have hok : r.Ok := hrun.invariant (.start htables hmask) fun _ _ _ h hop hstep => h.step hop hstep
  exact hok.isMap

/-- A computer that has started: the kernel's tables are at 4kB and 8kB, and the page at 8MB is
free. -/
def bootPaging : Paging where
  pml4s := fun _ i => if i = 511 then 0x1003#64 else 0
  mem := fun a => if a = entryAddr 0x1000#64 511 then 0x2003#64 else 0
  pool := ⟨⟨fun i => if i = 0 then 0x0800000000000000#64 else 0,
    fun i => if i = 0 then 0x0800000000000000#64 else 0, 1⟩, 0⟩
  workingTableVaEntryAddr := entryAddr 0x2000#64 511
  validPhysBitMask := 0x000FFFFFFFFFFFFF#64

section
variable {place q : Place} {t : BitVec 64} {c i j k : Nat}

theorem bootPaging_ptr (hi : i ≠ 511) : bootPaging.tableAt (.pageDirPtrTable c i) = none := by
  change target (if i = 511 then _ else _) = none
  rw [if_neg hi]
  rfl

theorem bootPaging_mem (hj : j < 512) (hne : j ≠ 511) :
    bootPaging.mem (entryAddr 0x1000#64 j) = 0 := by
  refine if_neg fun h => hne ?_
  rw [entryAddr, entryAddr] at h
  omega

theorem bootPaging_tableAt (hok : place.Ok) (ht : bootPaging.tableAt place = some t) :
    place = .pageDirPtrTable 0 511 ∧ t = 0x1000#64 ∨ place = windowPlace ∧ t = 0x2000#64 := by
  cases place with
  | pageDirPtrTable c i =>
      by_cases hi : i = 511
      · subst hi
        obtain rfl : 0 = c := hok.2
        exact .inl ⟨rfl, (Option.some.inj ht).symm⟩
      · rw [bootPaging_ptr hi] at ht
        cases ht
  | pageDir c i j =>
      obtain ⟨u, hu, ht⟩ := tableAt_pageDir ht
      by_cases hi : i = 511
      · subst hi
        obtain rfl : 0 = c := hok.1.2
        obtain rfl : 0x1000#64 = u := Option.some.inj hu
        by_cases hj : j = 511
        · subst hj
          exact .inr ⟨rfl, (Option.some.inj ht).symm⟩
        · rw [bootPaging_mem hok.2 hj] at ht
          cases ht
      · rw [bootPaging_ptr hi] at hu
        cases hu

theorem bootPaging_pool : bootPaging.pool.Ok where
  phys := ⟨fun _ _ h => h, by decide, by decide +kernel⟩
  aligned := rfl
  held h := absurd rfl h

theorem bootPaging_not_available (h : t = 0x1000#64 ∨ t = 0x2000#64) :
    ¬ bootPaging.pool.Available t.toNat := by
  rintro (⟨-, hbit⟩ | ⟨hnext, -⟩)
  · rcases h with rfl | rfl
    · exact absurd hbit (by decide +kernel)
    · exact absurd hbit (by decide +kernel)
  · exact hnext rfl

theorem bootPaging_decodes {e : BitVec 64} (h : e = 0 ∨ e = 0x1003#64 ∨ e = 0x2003#64) :
    Decodes e := by
  rcases h with rfl | rfl | rfl
  · exact fun hp => absurd hp (by decide)
  · exact fun _ => ⟨_, rfl⟩
  · exact fun _ => ⟨_, rfl⟩

theorem bootPaging_mem_cases (a : Nat) : bootPaging.mem a = 0 ∨ bootPaging.mem a = 0x2003#64 := by
  rw [bootPaging]
  dsimp only
  split
  · exact .inr rfl
  · exact .inl rfl

theorem bootPaging_tables : bootPaging.Tables where
  pool := bootPaging_pool
  shared _ _ _ := rfl
  decodes place _ e he := by
    refine bootPaging_decodes ?_
    cases place with
    | pageDirPtrTable c i =>
        obtain rfl := Option.some.inj he
        rw [bootPaging]
        dsimp only
        split
        · exact .inr (.inl rfl)
        · exact .inl rfl
    | pageDir c i j =>
        obtain ⟨t, -, rfl⟩ := Option.map_eq_some_iff.mp he
        exact (bootPaging_mem_cases _).imp id .inr
  leaves place _ _ k _ e he := by
    obtain ⟨t, -, rfl⟩ := Option.map_eq_some_iff.mp he
    exact bootPaging_decodes ((bootPaging_mem_cases _).imp id .inr)
  inj p q hp hq t ht ht' := by
    rcases bootPaging_tableAt hp ht with ⟨rfl, rfl⟩ | ⟨rfl, rfl⟩
    all_goals
      rcases bootPaging_tableAt hq ht' with ⟨rfl, h⟩ | ⟨rfl, h⟩
    · rfl
    · exact absurd h (by decide)
    · exact absurd h (by decide)
    · rfl
  held place hok t ht := bootPaging_not_available
    ((bootPaging_tableAt hok ht).imp (·.2) (·.2))
  window := ⟨0x2000#64, rfl, rfl⟩

theorem bootPaging_blank {f : BitVec 64} (hf : 0x3000 ≤ f.toNat) : Blank bootPaging.mem f := by
  intro k _
  rw [bootPaging]
  dsimp only
  rw [if_neg (by rw [entryAddr, entryAddr, show (0x1000#64).toNat = 0x1000 from rfl]; omega)]
  rfl

end

/-- A process maps the page at 4MB. -/
theorem bootPaging_fits : (PageRun.start bootPaging).Fits (.map 1 0x400000#64 0xA00000#64 6) := by
  refine ⟨⟨by decide, by decide, by decide⟩, by decide, by decide, by decide, by decide,
    .inl (by decide), ?_⟩
  have htwo : ((memGetNext4kbPage bootPaging.pool).bind fun r =>
      (memGetNext4kbPage r.2).map fun r' => (r.1, r'.1)) = some (0x800000#64, 0x801000#64) := by
    decide +kernel
  obtain ⟨⟨f, pool⟩, hf, hmap⟩ := Option.bind_eq_some_iff.mp htwo
  obtain ⟨⟨f', pool'⟩, hf', heq⟩ := Option.map_eq_some_iff.mp hmap
  obtain ⟨rfl, rfl⟩ := Prod.mk.inj heq
  exact ⟨_, pool, hf, bootPaging_blank (by decide), _, pool', hf', bootPaging_blank (by decide),
    trivial⟩

/-- The page at 4MB is found where the process mapped it. -/
theorem page_tables_finite_map_4MB :
    ∃ r, Reach PageRun.step PageRun.Fits (.start bootPaging) r ∧
      r.map (pageKey 1 0x400000#64) = some 0xA00000#64 ∧ r.IsMap := by
  have hsome : ((PageRun.start bootPaging).step (.map 1 0x400000#64 0xA00000#64 6)).isSome = true := by
    decide +kernel
  obtain ⟨r, hr⟩ := Option.isSome_iff_exists.mp hsome
  have hrun := Reach.step _ .refl bootPaging_fits hr
  refine ⟨r, hrun, ?_, page_tables_finite_map bootPaging_tables (by decide) hrun⟩
  rw [PageRun.step] at hr
  obtain ⟨s, -, rfl⟩ := Option.map_eq_some_iff.mp hr
  simp only [update_self]

/-- The next page is not mapped, but its second byte is found at 1. -/
theorem page_tables_finite_map_fails :
    ¬ ∀ (s : Paging) (r : PageRun), s.Tables → s.validPhysBitMask ≠ 0 →
      Reach PageRun.step PageRun.Asked (.start s) r → r.FiniteMap := by
  intro h
  have hsome : ((PageRun.start bootPaging).step (.map 1 0x400000#64 0xA00000#64 6)).bind
      (fun r => (memGetPhysAddr (0x600000#64 + BitVec.ofNat 64 1) 1 r.paging).map fun res =>
        (r.map (pageKey 1 0x600000#64), res.1)) = some (none, 1#64) := by decide +kernel
  obtain ⟨r, hr, hres⟩ := Option.bind_eq_some_iff.mp hsome
  obtain ⟨⟨q, s'⟩, hs', heq⟩ := Option.map_eq_some_iff.mp hres
  obtain ⟨hnone, rfl⟩ := Prod.mk.inj heq
  have hmap := h _ r bootPaging_tables (by decide) (Reach.step _ .refl bootPaging_fits.1 hr)
  obtain ⟨s₁, hs₁⟩ := hmap.unmapped 1 0x600000#64 (by decide) (by decide) hnone 1 (by decide)
  rw [hs'] at hs₁
  exact absurd (Prod.mk.inj (Option.some.inj hs₁)).1 (by decide)

end Azalea.Mem
