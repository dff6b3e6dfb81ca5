import Azalea.Mem.Spaces

/-!
# Mem — page tables as address spaces

`Mapping.view` reads page tables as address spaces: what is mapped, and where the tables are.  A call on the
tables does what it does on the address spaces (`calls_simulate`), as long as

* a page that becomes a table is empty, with nothing in it that looks like an entry or an address
  (`Mapping.TakesEmpty`);
* what is mapped is a page that memory has, no page with tables in it is given back, and the window stays
  where it is (`Spaces.Safe`).
-/

namespace Azalea.Mem
open Azalea.Bitmaps Azalea.Programs Function

instance : DecidablePred Place.Ok := fun place => match place with
  | .pageDirPtrTable context i => inferInstanceAs (Decidable (i < 512 ∧ owner context i = context))
  | .pageDir context i j => inferInstanceAs (Decidable ((i < 512 ∧ owner context i = context) ∧ j < 512))

/-- The page behind a slot.  The window shows, when `mem_get_phys_addr` looks at it, the page of its own page
directory. -/
def Paging.frame (s : Paging) (key : Nat × Nat) : Option (BitVec 64) :=
  if (dirPlace key).Ok then
    if key = windowKey then (s.tableAt windowPlace).map fun t => t &&& ~~~0x1FFFFF#64
    else (s.leaf (dirPlace key) (key.2 % 512)).bind target
  else none

/-- The address spaces that the tables stand for. -/
def Mapping.view (s : Mapping) : Spaces where
  frames key := (s.paging.frame key).map BitVec.toNat
  tables place := if place.Ok then s.paging.tableAt place else none
  counters := s.counters
  pool := s.paging.pool

/-- An entry of a page directory leads to a page of memory, or has no address. -/
structure EntryOk (mask e : BitVec 64) : Prop where
  present : ∀ p, target e = some p → p &&& mask = p
  absent : ptMarkedPresent e = false → memX64PhysAddrFromPte e = some 0

/-- The tables are in order.  Memory is what `valid_phys_bit_mask` leaves of an address. -/
structure Mapping.Ok (s : Mapping) : Prop where
  tables : s.paging.Tables
  begun : s.paging.pool.next4kbPage ≠ 0 → s.paging.pool.next4kbPage % sizeOfPage ≠ 0
  mask : ∀ n < memMaxSupportedPages,
    BitVec.ofNat 64 (sizeOfPage * n) &&& s.paging.validPhysBitMask = BitVec.ofNat 64 (sizeOfPage * n)
  entries : ∀ place : Place, place.Ok → place.IsPageDir → ∀ k < 512, ¬ (place = windowPlace ∧ k = 511) →
    ∀ e, s.paging.leaf place k = some e → EntryOk s.paging.validPhysBitMask e
  window : ∀ t, s.paging.tableAt windowPlace = some t → t &&& s.paging.validPhysBitMask = t

/-- The tables, and the address spaces that they stand for. -/
def Mapping.Views (s : Mapping) (t : Spaces) : Prop := s.Ok ∧ s.view = t

/-! ### The calls -/

/-- One call. -/
def Mapping.exec {β : Type} : SpaceCall β → Mapping → Option (β × Mapping)
  | .getPhysAddr a c, s => (memGetPhysAddr a.toBitVec c s.paging).map fun r =>
      (r.1.toNat, { s with paging := r.2 })
  | .allocatePhysicalPage, s => (memAllocatePhysicalPages 1 s.paging.pool.phys).map fun r =>
      (r.1, s.setPhys r.2)
  | .deallocatePhysicalPage p, s => (memDeallocatePhysicalPages p 1 s.paging.pool.phys).map fun phys =>
      ((), s.setPhys phys)
  | .mapPage p a c, s => (memMapRange (BitVec.ofNat 64 p) a.toBitVec 1 c cacheWriteBack s).map fun s => ((), s)
  | .unmapPage a c allow, s => (memUnmapVirtualPage a.toBitVec c allow s).map fun s => ((), s)

/-- The calls, on page tables. -/
def Mapping.calls : Handler SpaceCall Mapping := ⟨Mapping.exec⟩

@[simp] theorem Mapping.calls_exec {β : Type} (o : SpaceCall β) (s : Mapping) :
    Mapping.calls.exec o s = Mapping.exec o s := rfl

/-- Nothing in a page is present, or looks like an address. -/
def Empty (mem : Nat → BitVec 64) (f : BitVec 64) : Prop :=
  ∀ k < 512, ptMarkedPresent (mem (entryAddr f k)) = false ∧
    memX64PhysAddrFromPte (mem (entryAddr f k)) = some 0

/-- The pages that become tables when a page is mapped are empty.  (An address outside of both halves has its
tables already: the kernel would share them with no other process.) -/
structure Paging.TakesEmpty (s : Paging) (c : Nat) (v : BitVec 64) : Prop where
  half : s.tableAt (pagePtrPlace c v) = none → v.toNat < 2 ^ 63 → pml4EntryIdx v < 256
  pageDirPtrTable : s.tableAt (pagePtrPlace c v) = none → ∀ t pool,
    memGetNext4kbPage s.pool = some (t, pool) → Empty s.mem t
  pageDir : s.tableAt (pagePlace c v) = none → ∀ t pool u pool',
    s.pool.tableFor (s.tableAt (pagePtrPlace c v)) = some (t, pool) →
      memGetNext4kbPage pool = some (u, pool') → Empty s.mem u

/-- A call takes empty pages for tables. -/
def Mapping.TakesEmpty {β : Type} : SpaceCall β → Mapping → Prop
  | .mapPage _ a c, s => s.paging.TakesEmpty c a.toBitVec
  | _, _ => True

instance (mem : Nat → BitVec 64) (f : BitVec 64) : Decidable (Empty mem f) :=
  Nat.decidableBallLT 512 fun k _ =>
    ptMarkedPresent (mem (entryAddr f k)) = false ∧ memX64PhysAddrFromPte (mem (entryAddr f k)) = some 0

instance (s : Paging) (c : Nat) (v : BitVec 64) : Decidable (s.TakesEmpty c v) :=
  decidable_of_iff
    ((s.tableAt (pagePtrPlace c v) = none → v.toNat < 2 ^ 63 → pml4EntryIdx v < 256) ∧
      (s.tableAt (pagePtrPlace c v) = none → ∀ r ∈ memGetNext4kbPage s.pool, Empty s.mem r.1) ∧
      (s.tableAt (pagePlace c v) = none → ∀ r ∈ s.pool.tableFor (s.tableAt (pagePtrPlace c v)),
        ∀ r' ∈ memGetNext4kbPage r.2, Empty s.mem r'.1))
    ⟨fun h => ⟨h.1, fun hptr t pool ht => h.2.1 hptr (t, pool) ht,
      fun hdir t pool u pool' ht hu => h.2.2 hdir (t, pool) ht (u, pool') hu⟩,
    fun h => ⟨h.half, fun hptr r hr => h.pageDirPtrTable hptr r.1 r.2 hr,
      fun hdir r hr r' hr' => h.pageDir hdir r.1 r.2 r'.1 r'.2 hr hr'⟩⟩

instance : ∀ (β : Type) (o : SpaceCall β) (s : Mapping), Decidable (s.TakesEmpty o)
  | _, .mapPage _ a c, s => inferInstanceAs (Decidable (s.paging.TakesEmpty c a.toBitVec))
  | _, .getPhysAddr .., _ => isTrue trivial
  | _, .allocatePhysicalPage, _ => isTrue trivial
  | _, .deallocatePhysicalPage _, _ => isTrue trivial
  | _, .unmapPage .., _ => isTrue trivial

/-! ### Slots and places -/

section
variable {key key' : Nat × Nat} {c : Nat} {a : UInt64}

theorem slot_eq (a : UInt64) : slot a = a.toBitVec.toNat / 2 ^ 21 % 2 ^ 27 := rfl

theorem dirPlace_slotKey : dirPlace (slotKey c a) = pagePlace c a.toBitVec := by
  have hptr : slot a / 2 ^ 18 = pml4EntryIdx a.toBitVec := by
    rw [pml4EntryIdx_eq, slot_eq]
    omega
  have hdir : slot a / 512 % 512 = pageDirPtrEntryIdx a.toBitVec := by
    rw [pageDirPtrEntryIdx_eq, slot_eq]
    omega
  have howner : (slotKey c a).1 = owner c (slot a / 2 ^ 18) := by
    rw [slotKey, owner]
    exact if_congr (by omega) rfl rfl
  rw [dirPlace, pagePlace, howner, ← hptr, ← hdir]
  rfl

theorem ptrPlace_slotKey : ptrPlace (slotKey c a) = pagePtrPlace c a.toBitVec := by
  have h := dirPlace_slotKey (c := c) (a := a)
  rw [dirPlace, pagePlace, Place.pageDir.injEq] at h
  rw [ptrPlace, pagePtrPlace, h.1, h.2.1]

theorem slotKey_idx : (slotKey c a).2 % 512 = pageDirEntryIdx a.toBitVec := by
  rw [pageDirEntryIdx_eq, show (slotKey c a).2 = slot a from rfl, slot_eq]
  omega

/-- A slot is found from its place. -/
theorem slot_ext (hplace : dirPlace key = dirPlace key') (hidx : key.2 % 512 = key'.2 % 512) :
    key = key' := by
  rw [dirPlace, dirPlace, Place.pageDir.injEq] at hplace
  exact Prod.ext hplace.1 (by omega)

theorem dirPlace_windowKey : dirPlace windowKey = windowPlace := by decide

theorem window_iff : key = windowKey ↔ dirPlace key = windowPlace ∧ key.2 % 512 = 511 := by
  constructor
  · rintro rfl
    exact ⟨dirPlace_windowKey, rfl⟩
  · rintro ⟨hplace, hidx⟩
    exact slot_ext (hplace.trans dirPlace_windowKey.symm) hidx

theorem slotKey_window : slotKey c a = windowKey ↔ IsWindow c a.toBitVec := by
  rw [window_iff, dirPlace_slotKey, slotKey_idx, IsWindow]

theorem dirPlace_ok : (dirPlace (slotKey c a)).Ok := by
  rw [dirPlace_slotKey]
  exact pagePlace_ok

theorem ptrPlace_ok : (ptrPlace (slotKey c a)).Ok := by
  rw [ptrPlace_slotKey]
  exact pagePtrPlace_ok

end

/-! ### What is seen of the tables -/

section
variable {s : Mapping} {key : Nat × Nat} {c n p : Nat} {a : UInt64} {paging : Paging}

theorem Paging.frame_eq (s : Paging) (hok : (dirPlace key).Ok) (hne : key ≠ windowKey) :
    s.frame key = (s.leaf (dirPlace key) (key.2 % 512)).bind target := by
  rw [Paging.frame, if_pos hok, if_neg hne]

theorem Paging.frame_window (s : Paging) :
    s.frame windowKey = (s.tableAt windowPlace).map fun t => t &&& ~~~0x1FFFFF#64 := by
  rw [Paging.frame, if_pos (by decide), if_pos rfl]

theorem view_ptr : s.view.tables (ptrPlace (slotKey c a)) = s.paging.tableAt (pagePtrPlace c a.toBitVec) := by
  rw [← ptrPlace_slotKey]
  exact if_pos ptrPlace_ok

theorem view_dir : s.view.tables (dirPlace (slotKey c a)) = s.paging.tableAt (pagePlace c a.toBitVec) := by
  rw [← dirPlace_slotKey]
  exact if_pos dirPlace_ok

theorem view_holdsNoTable : s.view.HoldsNoTable n ↔ s.paging.HoldsNoTable n := by
  constructor
  · intro h
    exact ⟨fun place hok t ht => h.tables place t (by rwa [← if_pos hok (t := s.paging.tableAt place)] at ht),
      h.next⟩
  · intro h
    refine ⟨fun place t ht => ?_, h.next⟩
    change (if place.Ok then s.paging.tableAt place else none) = some t at ht
    split at ht
    next hok => exact h.tables place hok t ht
    next => cases ht

theorem Mapping.Ok.inOrder (h : s.Ok) : s.view.InOrder := by
  refine ⟨⟨h.tables.pool, h.begun⟩, fun place t ht hlt => ?_⟩
  change (if place.Ok then s.paging.tableAt place else none) = some t at ht
  split at ht
  next hok =>
    by_contra hfree
    rw [Bool.not_eq_false] at hfree
    exact h.tables.held place hok t ht (.inl ⟨hlt, hfree⟩)
  next => cases ht

/-- The physical addresses that the tables can hold. -/
theorem Mapping.Ok.known (h : s.Ok) (hp : s.view.Known p) :
    p < 2 ^ 51 ∧ BitVec.ofNat 64 p &&& s.paging.validPhysBitMask = BitVec.ofNat 64 p := by
  rcases hp with ⟨n, hn, rfl⟩ | ⟨key, hkey⟩
  · refine ⟨?_, h.mask n hn⟩
    rw [memMaxSupportedPages] at hn
    rw [sizeOfPage]
    omega
  · obtain ⟨q, hq, rfl⟩ := Option.map_eq_some_iff.mp hkey
    rw [BitVec.ofNat_toNat, BitVec.setWidth_eq]
    rw [Paging.frame] at hq
    split at hq
    next hok =>
      split at hq
      next =>
        -- the page of a table
        obtain ⟨t, ht, rfl⟩ := Option.map_eq_some_iff.mp hq
        refine ⟨?_, ?_⟩
        · rw [BitVec.toNat_and]
          exact Nat.lt_of_le_of_lt Nat.and_le_left (tableAt_lt ht)
        · rw [BitVec.and_assoc, BitVec.and_comm (~~~0x1FFFFF#64), ← BitVec.and_assoc, h.window t ht]
      next hne =>
        obtain ⟨e, he, htarget⟩ := Option.bind_eq_some_iff.mp hq
        have hwindow : ¬ (dirPlace key = windowPlace ∧ key.2 % 512 = 511) := fun hw => hne (window_iff.mpr hw)
        exact ⟨target_lt htarget,
          (h.entries _ hok trivial _ (Nat.mod_lt _ (by decide)) hwindow e he).present q htarget⟩
    next => cases hq

theorem Mapping.Ok.mask_ne (h : s.Ok) : s.paging.validPhysBitMask ≠ 0 := by
  intro hzero
  have h1 := h.mask 1 (by decide)
  rw [hzero] at h1
  exact absurd h1 (by decide)

/-! ### Looking up a page -/

/-- Other tables that are in order, with the same entries. -/
theorem Mapping.Ok.congr (h : s.Ok) (htables : paging.Tables) (hpool : paging.pool = s.paging.pool)
    (hmask : paging.validPhysBitMask = s.paging.validPhysBitMask)
    (hentry : ∀ q : Place, q.Ok → paging.entryOf q = s.paging.entryOf q)
    (hleaf : ∀ q : Place, q.Ok → q.IsPageDir → ∀ l < 512, ¬ (q = windowPlace ∧ l = 511) →
      paging.leaf q l = s.paging.leaf q l) (counters : Nat → BitVec 32) :
    Mapping.Views ⟨paging, counters⟩ (s.view.withCounters counters) := by
  have htable : ∀ q : Place, q.Ok → paging.tableAt q = s.paging.tableAt q :=
    fun q hq => tableAt_congr (hentry q hq)
  refine ⟨⟨htables, ?_, ?_, fun q hq hd l hl hwin e he => ?_, fun t ht => ?_⟩, Spaces.ext ?_ ?_ rfl hpool⟩
  · show paging.pool.next4kbPage ≠ 0 → _
    rw [hpool]
    exact h.begun
  · show ∀ n < _, _ &&& paging.validPhysBitMask = _
    rw [hmask]
    exact h.mask
  · show EntryOk paging.validPhysBitMask e
    rw [hmask]
    exact h.entries q hq hd l hl hwin e ((hleaf q hq hd l hl hwin).symm.trans he)
  · show t &&& paging.validPhysBitMask = t
    rw [hmask]
    exact h.window t ((htable _ windowPlace_ok).symm.trans ht)
  · funext key
    refine congrArg (Option.map BitVec.toNat) ?_
    show paging.frame key = s.paging.frame key
    rw [Paging.frame, Paging.frame, htable _ windowPlace_ok]
    refine if_ctx_congr Iff.rfl (fun hok => if_ctx_congr Iff.rfl (fun _ => rfl) fun hne => ?_) fun _ => rfl
    rw [hleaf _ hok trivial _ (Nat.mod_lt _ (by decide)) fun hw => hne (window_iff.mpr hw)]
  · funext q
    exact if_ctx_congr Iff.rfl (fun hok => htable q hok) fun _ => rfl

/-- Moving the window is not seen. -/
theorem Mapping.Ok.moved (h : s.Ok) (hmoved : s.paging.Moved paging) :
    Mapping.Views { s with paging := paging } s.view := by
  obtain ⟨htables, hentry, hleaf⟩ := hmoved.spec h.tables
  obtain ⟨e, -, rfl⟩ := hmoved
  exact h.congr htables rfl rfl hentry hleaf s.counters

theorem sub_mod_page (a : UInt64) : pagePlace c (a.toBitVec - a.toBitVec % 2097152#64) =
      pagePlace c a.toBitVec ∧
    pageDirEntryIdx (a.toBitVec - a.toBitVec % 2097152#64) = pageDirEntryIdx a.toBitVec := by
  have hsub : (a.toBitVec - a.toBitVec % 2097152#64).toNat = a.toBitVec.toNat / 2097152 * 2097152 := by
    have hlt := a.toBitVec.isLt
    rw [BitVec.toNat_sub, BitVec.toNat_umod, show (2097152#64).toNat = 2097152 from rfl]
    omega
  rw [pagePlace, pagePlace, pml4EntryIdx_eq, pml4EntryIdx_eq, pageDirPtrEntryIdx_eq, pageDirPtrEntryIdx_eq,
    pageDirEntryIdx_eq, pageDirEntryIdx_eq, hsub]
  refine ⟨?_, by omega⟩
  rw [show a.toBitVec.toNat / 2097152 * 2097152 / 2 ^ 39 = a.toBitVec.toNat / 2 ^ 39 by omega,
    show a.toBitVec.toNat / 2097152 * 2097152 / 2 ^ 30 = a.toBitVec.toNat / 2 ^ 30 by omega]

/-- **`mem_get_phys_addr`** finds what the address spaces have. -/
theorem Mapping.Ok.getPhysAddr (h : s.Ok) (a : UInt64) (c : Nat) :
    ∃ r paging, memGetPhysAddr a.toBitVec c s.paging = some (r, paging) ∧ s.paging.Moved paging ∧
      r.toNat = s.view.getPhysAddr a c := by
  obtain ⟨hplace, hidx⟩ := sub_mod_page (c := c) a
  have hoff : a.toBitVec % 2097152#64 = BitVec.ofNat 64 (a.toNat % 2097152) := by
    refine BitVec.eq_of_toNat_eq ?_
    rw [BitVec.toNat_umod, BitVec.toNat_ofNat]
    change a.toNat % 2097152 = a.toNat % 2097152 % 2 ^ 64
    omega
  -- the offset is added to the address of a page
  have hadd : ∀ q : BitVec 64, q.toNat < 2 ^ 51 →
      (q + a.toBitVec % 2097152#64).toNat = q.toNat + a.toNat % 2097152 := by
    intro q hq
    rw [hoff, BitVec.toNat_add, BitVec.toNat_ofNat]
    omega
  have hframe : s.view.frames (slotKey c a) = (s.paging.frame (slotKey c a)).map BitVec.toNat := rfl
  rw [Spaces.getPhysAddr, view_dir, hframe]
  cases hu : s.paging.tableAt (pagePlace c a.toBitVec) with
  | none =>
      obtain ⟨paging, hs, hmoved⟩ := memGetPhysAddr_missing (c := c) (a := a.toBitVec) h.tables rfl
        (hplace ▸ hu)
      refine ⟨0, paging, hs, hmoved, ?_⟩
      have hnone : s.paging.frame (slotKey c a) = none := by
        have hne : slotKey c a ≠ windowKey := fun hw => by
          obtain ⟨t, ht, -⟩ := h.tables.window
          rw [← (slotKey_window.mp hw).1, hu] at ht
          cases ht
        rw [Paging.frame_eq _ dirPlace_ok hne, Paging.leaf, dirPlace_slotKey, hu]
        rfl
      rw [hnone]
      rfl
  | some u =>
      obtain ⟨paging, hmoved, hshows, hs⟩ := memGetPhysAddr_pageDir (c := c) (a := a.toBitVec) h.tables rfl
        (hplace ▸ hu)
      rw [hidx] at hs
      by_cases hw : slotKey c a = windowKey
      · -- the window shows its own page directory
        obtain ⟨t, ht, haddr⟩ := h.tables.window
        obtain rfl : t = u := Option.some.inj (ht.symm.trans ((slotKey_window.mp hw).1 ▸ hu))
        have hentry := (target_eq_some.mp hshows).2
        rw [haddr] at hentry
        rw [(slotKey_window.mp hw).2, hentry] at hs
        refine ⟨_, paging, hs, hmoved, ?_⟩
        rw [hw, Paging.frame_window, ht]
        refine hadd _ ?_
        rw [BitVec.toNat_and]
        exact Nat.lt_of_le_of_lt Nat.and_le_left (tableAt_lt ht)
      · have hwin : ¬ IsWindow c a.toBitVec := fun hw' => hw (slotKey_window.mpr hw')
        have hleaf : s.paging.leaf (pagePlace c a.toBitVec) (pageDirEntryIdx a.toBitVec) =
            some (paging.mem (entryAddr u (pageDirEntryIdx a.toBitVec))) := by
          rw [← (hmoved.spec h.tables).2.2 _ pagePlace_ok trivial _ pageDirEntryIdx_lt hwin, Paging.leaf,
            tableAt_congr ((hmoved.spec h.tables).2.1 _ pagePlace_ok), hu]
          rfl
        have hok := h.entries _ pagePlace_ok trivial _ pageDirEntryIdx_lt hwin _ hleaf
        rw [Paging.frame_eq _ dirPlace_ok hw, dirPlace_slotKey, slotKey_idx, hleaf, Option.bind_some]
        cases htarget : target (paging.mem (entryAddr u (pageDirEntryIdx a.toBitVec))) with
        | some q =>
            rw [(target_eq_some.mp htarget).2] at hs
            exact ⟨_, paging, hs, hmoved, hadd q (target_lt htarget)⟩
        | none =>
            have habsent : ptMarkedPresent (paging.mem (entryAddr u (pageDirEntryIdx a.toBitVec))) = false :=
              (h.tables.leaves _ pagePlace_ok trivial _ pageDirEntryIdx_lt _ hleaf).not_present htarget
            rw [hok.absent habsent] at hs
            refine ⟨_, paging, hs, hmoved, (hadd 0 (by decide)).trans ?_⟩
            rw [Option.map_none]
            dsimp only
            rw [if_neg (Option.some_ne_none u)]
            exact Nat.zero_add _

/-! ### What is written to memory -/

/-- Other contents of memory. -/
def Mapping.withMem (s : Mapping) (mem : Nat → BitVec 64) : Mapping :=
  { s with paging := { s.paging with mem := mem } }

/-- A process stores a word in its memory. -/
def Mapping.store (context : Nat) (a : UInt64) (word : BitVec 64) (s : Mapping) : Option Mapping :=
  if a.toNat < 2 ^ 47 ∧ a.toNat % 8 = 0 then
    (s.paging.translate context a.toBitVec).map fun p =>
      s.withMem (update s.paging.mem (p.toNat + a.toNat % 2097152) word)
  else none

/-- An entry of a table is in its page. -/
theorem entryAddr_page {t : BitVec 64} {k : Nat} (ht : t.toNat % 4096 = 0) (hk : k < 512) :
    entryAddr t k / sizeOfPage = t.toNat / sizeOfPage := by
  rw [entryAddr, sizeOfPage]
  omega

/-- What is written to pages without tables is not seen. -/
theorem Mapping.Ok.withMem {mem : Nat → BitVec 64} (h : s.Ok)
    (hmem : ∀ x, mem x ≠ s.paging.mem x → s.view.HoldsNoTable (x / sizeOfPage)) :
    (s.withMem mem).Views s.view := by
  have hword : ∀ place : Place, place.Ok → ∀ t, s.paging.tableAt place = some t → ∀ k < 512,
      mem (entryAddr t k) = s.paging.mem (entryAddr t k) := by
    intro place hok t ht k hk
    by_contra hne
    exact (view_holdsNoTable.mp (hmem _ hne)).tables place hok t ht (entryAddr_page (tableAt_aligned ht) hk).symm
  have hentry : ∀ q : Place, q.Ok → (s.withMem mem).paging.entryOf q = s.paging.entryOf q := by
    intro q hq
    cases q with
    | pageDirPtrTable c i => rfl
    | pageDir c i j =>
        change (target (s.paging.pml4s c i)).map _ = (target (s.paging.pml4s c i)).map _
        cases ht : target (s.paging.pml4s c i) with
        | none => rfl
        | some t => exact congrArg some (hword (.pageDirPtrTable c i) hq.1 t ht j hq.2)
  have hleaf : ∀ q : Place, q.Ok → ∀ l < 512, (s.withMem mem).paging.leaf q l = s.paging.leaf q l := by
    intro q hq l hl
    rw [Paging.leaf, tableAt_congr (hentry q hq), Paging.leaf]
    cases ht : s.paging.tableAt q with
    | none => rfl
    | some t => exact congrArg some (hword q hq t ht l hl)
  have htables : (s.withMem mem).paging.Tables :=
    h.tables.congr rfl h.tables.pool (fun _ ha => ha) rfl hentry fun q hq _ k hk e he =>
      .inl ((hleaf q hq k hk).symm.trans he)
  exact h.congr htables rfl rfl hentry (fun q hq _ l hl _ => hleaf q hq l hl) s.counters

/-- The page that a process stores to holds no table. -/
def Mapping.StoreOk (s : Mapping) (context : Nat) (a : UInt64) : Prop :=
  ∀ p, s.paging.translate context a.toBitVec = some p →
    s.view.HoldsNoTable ((p.toNat + a.toNat % 2097152) / sizeOfPage)

/-- Then what is stored is not seen in the tables. -/
theorem Mapping.Ok.store {s' : Mapping} {word : BitVec 64} (h : s.Ok) (hok : s.StoreOk c a)
    (hs : s.store c a word = some s') : s'.Views s.view := by
  rw [Mapping.store] at hs
  split at hs
  next =>
    obtain ⟨p, hp, rfl⟩ := Option.map_eq_some_iff.mp hs
    refine h.withMem fun x hx => ?_
    obtain rfl : x = p.toNat + a.toNat % 2097152 := by
      by_contra hother
      exact hx (update_of_ne hother ..)
    exact hok p hp
  next => cases hs

/-! ### Physical pages -/

/-- A physical page is handed out. -/
theorem Mapping.Ok.allocate {phys : PhysMem} (h : s.Ok)
    (ha : memAllocatePhysicalPages 1 s.paging.pool.phys = some (p, phys)) :
    (s.setPhys phys).Views (s.view.withPhys phys) := by
  obtain ⟨horder, -, n, hn, -, -, hbit, hclear, -, hcarved⟩ := h.inOrder.pool.allocate ha
  refine ⟨⟨h.tables.congr rfl horder.ok (fun a havail => ?_) rfl (fun _ _ => rfl)
    fun q _ _ k _ e he => .inl he, h.begun, h.mask, h.entries, h.window⟩, rfl⟩
  rcases havail with ⟨hlt, hfree⟩ | hnext
  · change bit phys.alloc _ = true at hfree
    rw [hclear, bit_clearBit, Bool.and_eq_true] at hfree
    exact .inl ⟨hlt, hfree.2⟩
  · exact .inr hnext

/-- A page without tables is given back. -/
theorem Mapping.Ok.deallocate {phys : PhysMem} (h : s.Ok) (hno : s.view.HoldsNoTable (p / sizeOfPage))
    (hd : memDeallocatePhysicalPages p 1 s.paging.pool.phys = some phys) :
    (s.setPhys phys).Views (s.view.withPhys phys) := by
  obtain ⟨n, hn, rfl, hbit, hexist, hphys⟩ := memDeallocatePhysicalPages_eq_some.mp hd
  rw [Nat.mul_div_cancel_left n (by decide)] at hno
  exact ⟨⟨h.tables.release (view_holdsNoTable.mp hno) hn hbit hexist hphys, h.begun, h.mask, h.entries,
    h.window⟩, rfl⟩

/-! ### Unmapping a page -/

theorem target_zero : target (0 : BitVec 64) = none :=
  target_of_not (show ptMarkedPresent (0 : BitVec 64) = false by decide)

theorem entryOk_zero (mask : BitVec 64) : EntryOk mask 0 where
  present p hp := by
    rw [target_zero] at hp
    cases hp
  absent _ := rfl

/-- The entry of a page becomes zero. -/
theorem Mapping.Ok.clearEntry (h : s.Ok) (hne : slotKey c a ≠ windowKey) :
    ∃ paging, memX64UnmapVirtualPage a.toBitVec c s.paging = some paging ∧
      Mapping.Views { s with paging := paging } (s.view.withoutPage a c) := by
  obtain ⟨paging, hs, htables, hpool, hmask, hentry, hleaf⟩ :=
    memX64UnmapVirtualPage_leaves (c := c) (v := a.toBitVec) h.tables
  have htable : ∀ q : Place, q.Ok → paging.tableAt q = s.paging.tableAt q :=
    fun q hq => tableAt_congr (hentry q hq)
  refine ⟨paging, hs, ⟨htables, ?_, ?_, fun q hq hd l hl hwin e he => ?_, fun t ht => ?_⟩,
    Spaces.ext ?_ ?_ rfl hpool⟩
  · show paging.pool.next4kbPage ≠ 0 → _
    rw [hpool]
    exact h.begun
  · show ∀ n < _, _ &&& paging.validPhysBitMask = _
    rw [hmask]
    exact h.mask
  · show EntryOk paging.validPhysBitMask e
    rw [hmask]
    change paging.leaf q l = some e at he
    rw [hleaf q hq hd l hl hwin] at he
    split at he
    next =>
      obtain ⟨-, -, rfl⟩ := Option.map_eq_some_iff.mp he
      exact entryOk_zero _
    next => exact h.entries q hq hd l hl hwin e he
  · show t &&& paging.validPhysBitMask = t
    rw [hmask]
    exact h.window t ((htable _ windowPlace_ok).symm.trans ht)
  · funext key
    show (paging.frame key).map BitVec.toNat = update s.view.frames (slotKey c a) none key
    rw [update_apply]
    by_cases hok : (dirPlace key).Ok
    · by_cases hw : key = windowKey
      · rw [if_neg (show ¬ key = slotKey c a from fun heq => hne (heq ▸ hw)), hw, Paging.frame_window,
          htable _ windowPlace_ok]
        exact congrArg (Option.map BitVec.toNat) s.paging.frame_window.symm
      · rw [Paging.frame_eq _ hok hw, hleaf _ hok trivial _ (Nat.mod_lt _ (by decide))
          fun hw' => hw (window_iff.mpr hw'), ← dirPlace_slotKey, ← slotKey_idx]
        by_cases hkey : key = slotKey c a
        · rw [if_pos hkey, if_pos ⟨by rw [hkey], by rw [hkey]⟩]
          cases s.paging.leaf (dirPlace key) (key.2 % 512) with
          | none => rfl
          | some e =>
              rw [Option.map_some, Option.bind_some, target_zero]
              rfl
        · rw [if_neg hkey, if_neg fun heq => hkey (slot_ext heq.1 heq.2)]
          exact congrArg (Option.map BitVec.toNat) (Paging.frame_eq _ hok hw).symm
    · rw [if_neg (show ¬ key = slotKey c a from fun heq => hok (heq ▸ dirPlace_ok)), Paging.frame, if_neg hok]
      exact congrArg (Option.map BitVec.toNat) (if_neg hok).symm
  · funext q
    exact if_ctx_congr Iff.rfl (fun hok => htable q hok) fun _ => rfl

/-- The second part of `mem_unmap_virtual_page`. -/
theorem Mapping.Ok.releaseUse {r : BitVec 64} {allow : Bool} (h : s.Ok)
    (hno : allow = true → r.toNat % sizeOfPage = 0 → s.view.HoldsNoTable (r.toNat / sizeOfPage)) :
    Option.Rel Mapping.Views (Mem.releaseUse r allow s) (s.view.releaseUse r.toNat allow) := by
  rw [Mem.releaseUse, Spaces.releaseUse]
  by_cases halign : r.toNat % sizeOfPage ≠ 0
  · rw [if_pos halign, if_pos halign]
    exact .none
  · rw [if_neg halign, if_neg halign]
    dsimp only
    have hviews : Mapping.Views ⟨s.paging, dropUse (physPageNum r) s.counters⟩
        (s.view.withCounters (dropUse (r.toNat / sizeOfPage % 2 ^ 32) s.view.counters)) :=
      h.congr h.tables rfl rfl (fun _ _ => rfl) (fun _ _ _ _ _ _ => rfl) _
    by_cases hfree : dropUse (physPageNum r) s.counters (physPageNum r) = 0 ∧ allow = true
    · rw [if_pos hfree, if_pos (show dropUse (r.toNat / sizeOfPage % 2 ^ 32) s.view.counters
        (r.toNat / sizeOfPage % 2 ^ 32) = 0 ∧ allow = true from hfree)]
      change Option.Rel _ (Option.map _ (memDeallocatePhysicalPages r.toNat 1 s.paging.pool.phys))
        (Option.map _ (memDeallocatePhysicalPages r.toNat 1 s.paging.pool.phys))
      cases hd : memDeallocatePhysicalPages r.toNat 1 s.paging.pool.phys with
      | none => exact .none
      | some phys =>
          obtain ⟨hok, hview⟩ := hviews
          have hno' := hno hfree.2 (not_not.mp halign)
          have hrel := hok.deallocate (p := r.toNat) ⟨hno'.tables, hno'.next⟩ hd
          rw [hview] at hrel
          exact .some hrel
    · rw [if_neg hfree, if_neg (show ¬ (dropUse (r.toNat / sizeOfPage % 2 ^ 32) s.view.counters
        (r.toNat / sizeOfPage % 2 ^ 32) = 0 ∧ allow = true) from hfree)]
      exact .some hviews

/-- **`mem_unmap_virtual_page`** unmaps the page in the address spaces. -/
theorem Mapping.Ok.unmapPage {allow : Bool} (h : s.Ok)
    (hsafe : s.view.Safe (.unmapPage a c allow)) :
    Option.Rel Mapping.Views (memUnmapVirtualPage a.toBitVec c allow s) (s.view.unmapPage a c allow) := by
  obtain ⟨r, paging, hs, hmoved, hr⟩ := h.getPhysAddr a c
  obtain ⟨hok, hview⟩ := h.moved hmoved
  obtain ⟨paging', hs', hok', hview'⟩ := hok.clearEntry hsafe.1
  rw [hview] at hview'
  have hzero : r ≠ 0 ↔ s.view.getPhysAddr a c ≠ 0 := by
    rw [← hr, ne_eq, ne_eq, ← BitVec.toNat_inj]
    rfl
  have hs' : memX64UnmapVirtualPage a.toBitVec c paging = some paging' := hs'
  simp only [memUnmapVirtualPage, hs, hs', Option.bind_eq_bind, Option.bind_some, Spaces.unmapPage]
  by_cases hne : r ≠ 0
  · rw [if_pos hne, if_pos (hzero.mp hne), ← hview', ← hr]
    refine hok'.releaseUse fun hallow halign => ?_
    have hno := hsafe.2 hallow (hzero.mp hne) (hr ▸ halign)
    rw [hview', hr]
    exact ⟨hno.tables, hno.next⟩
  · rw [if_neg hne, if_neg fun h => hne (hzero.mpr h)]
    exact .some ⟨hok', hview'⟩

/-! ### Mapping a page -/

theorem Empty.blank {mem : Nat → BitVec 64} {f : BitVec 64} (h : Empty mem f) : Blank mem f :=
  fun k hk => (h k hk).1

theorem takeTable_eq_none {t : Spaces} {place : Place} (h : t.takeTable place = none) :
    t.tables place = none ∧ memGetNext4kbPage t.pool = none := by
  rw [Spaces.takeTable, Option.map_eq_none_iff] at h
  cases ht : t.tables place with
  | none =>
      rw [ht] at h
      exact ⟨rfl, h⟩
  | some u =>
      rw [ht] at h
      cases h

/-- The tables that a page needs cannot be had, and it is not mapped, or they are found where the address
spaces have them. -/
theorem Mapping.Ok.takeTables (h : s.Ok) (hempty : s.paging.TakesEmpty c a.toBitVec)
    (hkernel : 2 ^ 63 ≤ a.toNat → s.view.tables (ptrPlace (slotKey c a)) ≠ none) :
    (s.view.takeTables (slotKey c a) = none ∧
      ∀ p mode, memX64MapVirtualPage a.toBitVec p c mode s.paging = none) ∨
    ∃ t u pool', s.paging.HasTables c a.toBitVec t u pool' ∧ s.view.takeTables (slotKey c a) =
      some { s.view with
        tables := update (update s.view.tables (ptrPlace (slotKey c a)) (some t))
          (dirPlace (slotKey c a)) (some u)
        pool := pool' } := by
  have hhalf : s.paging.tableAt (pagePtrPlace c a.toBitVec) = none →
      (a.toBitVec &&& 0x8000000000000000#64 != 0) = false ∧ pml4EntryIdx a.toBitVec < 256 := fun hptr => by
    have hlow : ¬ 2 ^ 63 ≤ a.toNat := fun hhigh => hkernel hhigh (view_ptr.trans hptr)
    exact ⟨by rw [top_bit]; exact decide_eq_false hlow, hempty.half hptr (Nat.lt_of_not_le hlow)⟩
  rw [Spaces.takeTables]
  cases hfirst : s.view.takeTable (ptrPlace (slotKey c a)) with
  | none =>
      obtain ⟨hptr, hnext⟩ := takeTable_eq_none hfirst
      rw [view_ptr] at hptr
      exact .inl ⟨rfl, fun p mode => memX64MapVirtualPage_none h.tables (.inl ⟨hptr, .inl hnext⟩)⟩
  | some mid =>
      obtain ⟨t, pool, hpool, rfl⟩ := Spaces.takeTable_eq_some.mp hfirst
      rw [view_ptr] at hpool
      have hblank : s.paging.tableAt (pagePtrPlace c a.toBitVec) = none → Empty s.paging.mem t := fun hptr => by
        rw [hptr] at hpool
        exact hempty.pageDirPtrTable hptr t pool hpool
      have hdir : update s.view.tables (ptrPlace (slotKey c a)) (some t) (dirPlace (slotKey c a)) =
          s.paging.tableAt (pagePlace c a.toBitVec) := by
        rw [update_of_ne (dirPlace_ne_ptrPlace _ _), view_dir]
      rw [Option.bind_some]
      cases hsecond : Spaces.takeTable (dirPlace (slotKey c a)) { s.view with
          tables := update s.view.tables (ptrPlace (slotKey c a)) (some t), pool := pool } with
      | none =>
          obtain ⟨hpage, hnext⟩ := takeTable_eq_none hsecond
          dsimp only at hpage
          rw [hdir] at hpage
          exact .inl ⟨rfl, fun p mode => memX64MapVirtualPage_none h.tables (.inr ⟨hpage, t, pool, hpool, hnext,
            fun hptr => ⟨(hblank hptr).blank, (hhalf hptr).2⟩⟩)⟩
      | some last =>
          obtain ⟨u, pool', hpool', rfl⟩ := Spaces.takeTable_eq_some.mp hsecond
          dsimp only at hpool'
          rw [hdir] at hpool'
          refine .inr ⟨t, u, pool', ⟨hhalf, ⟨pool, hpool, hpool'⟩, fun hptr => (hblank hptr).blank,
            fun hpage => ?_⟩, rfl⟩
          rw [hpage] at hpool'
          exact (hempty.pageDir hpage t pool u pool' hpool hpool').blank

theorem memMapRange_one {v q : BitVec 64} {mode : Nat} (hq : q.toNat % sizeOfPage = 0)
    (hv : v.toNat % sizeOfPage = 0) : memMapRange q v 1 c mode s =
      (memX64MapVirtualPage v q c mode s.paging).map fun paging =>
        ⟨paging, countUse (physPageNum q) s.counters⟩ := by
  rw [memMapRange, if_neg (by simp [hq, hv])]
  change (memMapVirtualPage v q c mode s).bind some = _
  rw [Option.bind_fun_some, memMapVirtualPage]
  cases memX64MapVirtualPage v q c mode s.paging with
  | none => rfl
  | some paging =>
      rw [Option.bind_eq_bind, Option.bind_some, if_neg (not_not.mpr hq)]
      rfl

/-- The window is never free. -/
theorem Mapping.Ok.free_not_window (h : s.Ok) (hfree : s.view.frames (slotKey c a) = none) :
    slotKey c a ≠ windowKey := fun hw => by
  obtain ⟨tw, htw, -⟩ := h.tables.window
  rw [hw] at hfree
  change (s.paging.frame windowKey).map BitVec.toNat = none at hfree
  rw [Paging.frame_window, htw] at hfree
  cases hfree

/-- What the tables stand for when a page has been mapped. -/
theorem Mapping.Ok.mapped {q e t u : BitVec 64} {pool' : TablePool} {paging : Paging} (h : s.Ok)
    (hempty : s.paging.TakesEmpty c a.toBitVec) (hfree : s.view.frames (slotKey c a) = none)
    (hhas : s.paging.HasTables c a.toBitVec t u pool') (htarget : target e = some q)
    (hq : q &&& s.paging.validPhysBitMask = q) (hpool : paging.pool = pool')
    (horder : pool'.InOrder) (hmaps : s.paging.MapsPage paging c a.toBitVec e t u) :
    Mapping.Views ⟨paging, countUse (physPageNum q) s.counters⟩
      (Spaces.withPage { s.view with
        tables := update (update s.view.tables (ptrPlace (slotKey c a)) (some t))
          (dirPlace (slotKey c a)) (some u)
        pool := pool' } q.toNat a c) := by
  have hne := h.free_not_window hfree
  obtain ⟨pool, hpool₁, hpool₂⟩ := hhas.pool
  have hwindow : paging.tableAt windowPlace = s.paging.tableAt windowPlace := by
    by_cases hplace : windowPlace = pagePlace c a.toBitVec
    · obtain ⟨tw, htw, -⟩ := h.tables.window
      rw [hplace] at htw ⊢
      rw [htw] at hpool₂
      rw [hmaps.pageDir, htw, (Prod.mk.inj (Option.some.inj hpool₂)).1]
    · exact hmaps.others _ windowPlace_ok (fun heq => by cases heq) hplace
  -- an entry of a page directory is the new one, an old one, or one of an empty page
  have hleaf : ∀ place : Place, place.Ok → place.IsPageDir → ∀ k < 512, ¬ (place = windowPlace ∧ k = 511) →
      ¬ (place = pagePlace c a.toBitVec ∧ k = pageDirEntryIdx a.toBitVec) →
        paging.leaf place k = s.paging.leaf place k ∨ s.paging.leaf place k = none ∧
          ∃ e', paging.leaf place k = some e' ∧ ptMarkedPresent e' = false ∧
            memX64PhysAddrFromPte e' = some 0 := by
    intro place hok hd k hk hwin hother
    by_cases hold : place ≠ pagePlace c a.toBitVec ∨ s.paging.tableAt place ≠ none
    · exact .inl (hmaps.kept place hok hd hold k hk hwin hother)
    · push Not at hold
      obtain ⟨rfl, hmissing⟩ := hold
      have hidx : k ≠ pageDirEntryIdx a.toBitVec := fun hidx => hother ⟨rfl, hidx⟩
      rw [hmissing] at hpool₂
      have hwords := hempty.pageDir hmissing t pool u pool' hpool₁ hpool₂ k hk
      refine .inr ⟨by rw [Paging.leaf, hmissing]; rfl, _, hmaps.new hmissing k hk hidx, hwords⟩
  refine ⟨⟨hmaps.tables, ?_, ?_, fun place hok hd k hk hwin e' he' => ?_, fun t' ht' => ?_⟩,
    Spaces.ext ?_ ?_ rfl hpool⟩
  · show paging.pool.next4kbPage ≠ 0 → _
    rw [hpool]
    exact horder.begun
  · show ∀ n < _, _ &&& paging.validPhysBitMask = _
    rw [hmaps.mask]
    exact h.mask
  · show EntryOk paging.validPhysBitMask e'
    rw [hmaps.mask]
    by_cases hpage : place = pagePlace c a.toBitVec ∧ k = pageDirEntryIdx a.toBitVec
    · change paging.leaf place k = some e' at he'
      rw [hpage.1, hpage.2, hmaps.entry] at he'
      obtain rfl := Option.some.inj he'
      refine ⟨fun p hp => ?_, fun habsent => ?_⟩
      · obtain rfl := Option.some.inj (htarget.symm.trans hp)
        exact hq
      · rw [(target_eq_some.mp htarget).1] at habsent
        cases habsent
    · rcases hleaf place hok hd k hk hwin hpage with hsame | ⟨-, e₁, he₁, habsent, hzero⟩
      · exact h.entries place hok hd k hk hwin e' (hsame.symm.trans he')
      · obtain rfl := Option.some.inj (he₁.symm.trans he')
        refine ⟨fun p hp => ?_, fun _ => hzero⟩
        rw [target_of_not habsent] at hp
        cases hp
  · show t' &&& paging.validPhysBitMask = t'
    rw [hmaps.mask]
    exact h.window t' (hwindow.symm.trans ht')
  · funext key
    show (paging.frame key).map BitVec.toNat = update s.view.frames (slotKey c a) (some q.toNat) key
    rw [update_apply]
    by_cases hok : (dirPlace key).Ok
    · by_cases hw : key = windowKey
      · rw [if_neg (show ¬ key = slotKey c a from fun heq => hne (heq ▸ hw)), hw, Paging.frame_window, hwindow]
        exact congrArg (Option.map BitVec.toNat) s.paging.frame_window.symm
      · rw [Paging.frame_eq _ hok hw]
        by_cases hkey : key = slotKey c a
        · rw [if_pos hkey, hkey, dirPlace_slotKey, slotKey_idx, hmaps.entry, Option.bind_some, htarget]
          rfl
        · rw [if_neg hkey]
          have hsame : (paging.leaf (dirPlace key) (key.2 % 512)).bind target =
              (s.paging.leaf (dirPlace key) (key.2 % 512)).bind target := by
            rcases hleaf _ hok trivial _ (Nat.mod_lt _ (by decide)) (fun hw' => hw (window_iff.mpr hw'))
              (fun heq => hkey (slot_ext (heq.1.trans dirPlace_slotKey.symm) (heq.2.trans slotKey_idx.symm)))
              with hsame | ⟨hnone, e₁, he₁, habsent, -⟩
            · rw [hsame]
            · rw [hnone, he₁, Option.bind_some, target_of_not habsent]
              rfl
          rw [hsame]
          exact congrArg (Option.map BitVec.toNat) (Paging.frame_eq _ hok hw).symm
    · rw [if_neg (show ¬ key = slotKey c a from fun heq => hok (heq ▸ dirPlace_ok)), Paging.frame, if_neg hok]
      exact congrArg (Option.map BitVec.toNat) (if_neg hok).symm
  · funext place
    show (if place.Ok then paging.tableAt place else none) =
      update (update s.view.tables (ptrPlace (slotKey c a)) (some t)) (dirPlace (slotKey c a)) (some u) place
    rw [update_apply, update_apply, dirPlace_slotKey, ptrPlace_slotKey]
    by_cases hdir : place = pagePlace c a.toBitVec
    · rw [if_pos hdir, hdir, if_pos pagePlace_ok, hmaps.pageDir]
    · rw [if_neg hdir]
      by_cases hptr : place = pagePtrPlace c a.toBitVec
      · rw [if_pos hptr, hptr, if_pos pagePtrPlace_ok, hmaps.pageDirPtrTable]
      · rw [if_neg hptr]
        exact if_ctx_congr Iff.rfl (fun hok => hmaps.others place hok hptr hdir) fun _ => rfl

/-- A page is mapped where there are tables for it. -/
theorem Mapping.Ok.mapsPage {t u : BitVec 64} {pool' : TablePool} (h : s.Ok)
    (hempty : s.paging.TakesEmpty c a.toBitVec) (hp : s.view.Known p) (hwhole : p % sizeOfPage = 0)
    (ha : a.toNat % sizeOfPage = 0) (hfree : s.view.frames (slotKey c a) = none)
    (hhas : s.paging.HasTables c a.toBitVec t u pool')
    (hsome : s.view.takeTables (slotKey c a) = some { s.view with
      tables := update (update s.view.tables (ptrPlace (slotKey c a)) (some t)) (dirPlace (slotKey c a)) (some u)
      pool := pool' }) :
    ∃ e s', memMapRange (BitVec.ofNat 64 p) a.toBitVec 1 c cacheWriteBack s = some s' ∧
      s.paging.MapsPage s'.paging c a.toBitVec e t u ∧ s'.Views (Spaces.withPage { s.view with
        tables := update (update s.view.tables (ptrPlace (slotKey c a)) (some t))
          (dirPlace (slotKey c a)) (some u)
        pool := pool' } p a c) := by
  obtain ⟨hlt, hmask⟩ := h.known hp
  have hnat : (BitVec.ofNat 64 p).toNat = p := by
    rw [BitVec.toNat_ofNat]
    omega
  have hq : (BitVec.ofNat 64 p).toNat % sizeOfPage = 0 := by
    rw [hnat]
    exact hwhole
  have hne := h.free_not_window hfree
  have htranslate : s.paging.translate c a.toBitVec = none := by
    have hframe := Option.map_eq_none_iff.mp hfree
    rwa [Paging.frame_eq _ dirPlace_ok hne, dirPlace_slotKey, slotKey_idx] at hframe
  obtain ⟨paging, e, hs, htarget, hpool, hmaps⟩ := memX64MapVirtualPage_maps h.tables h.mask_ne
    (fun hw => hne (slotKey_window.mpr hw)) htranslate hhas hq (by rw [hnat]; exact hlt) hmask
    (show CacheModeOk cacheWriteBack by decide)
  have horder : pool'.InOrder := (Spaces.takeTables_takes h.inOrder hsome).1.order.pool
  have hviews := h.mapped hempty hfree hhas htarget hmask hpool horder hmaps
  rw [hnat] at hviews
  refine ⟨e, _, ?_, hmaps, hviews⟩
  rw [memMapRange_one hq ha, hs]
  rfl

/-- **`mem_map_range`** of one page maps it in the address spaces. -/
theorem Mapping.Ok.mapPage (h : s.Ok) (hempty : s.paging.TakesEmpty c a.toBitVec) (hp : s.view.Known p) :
    Option.Rel Mapping.Views (memMapRange (BitVec.ofNat 64 p) a.toBitVec 1 c cacheWriteBack s)
      (s.view.mapPage p a c) := by
  obtain ⟨hlt, hmask⟩ := h.known hp
  have hnat : (BitVec.ofNat 64 p).toNat = p := by
    rw [BitVec.toNat_ofNat]
    omega
  by_cases hwhole : p % sizeOfPage = 0 ∧ a.toNat % sizeOfPage = 0
  · have hq : (BitVec.ofNat 64 p).toNat % sizeOfPage = 0 := by
      rw [hnat]
      exact hwhole.1
    have hone := @memMapRange_one s c a.toBitVec _ cacheWriteBack hq hwhole.2
    by_cases hkernel : 2 ^ 63 ≤ a.toNat → s.view.tables (ptrPlace (slotKey c a)) ≠ none
    · rcases h.takeTables hempty hkernel with ⟨hnone, hmap⟩ | ⟨t, u, pool', hhas, hsome⟩
      · rw [hone, hmap, Spaces.mapPage, hnone]
        split <;> exact .none
      · by_cases hfree : s.view.frames (slotKey c a) = none
        · obtain ⟨-, s', hs, -, hviews⟩ := h.mapsPage hempty hp hwhole.1 hwhole.2 hfree hhas hsome
          rw [hs, Spaces.mapPage, if_pos ⟨hwhole.1, hwhole.2, hkernel, hfree⟩, hsome]
          exact .some hviews
        · have hpres : IsWindow c a.toBitVec ∨ s.paging.translate c a.toBitVec ≠ none := by
            by_cases hw : slotKey c a = windowKey
            · exact .inl (slotKey_window.mp hw)
            · refine .inr fun htranslate => hfree ?_
              refine Option.map_eq_none_iff.mpr ?_
              rw [Paging.frame_eq _ dirPlace_ok hw, dirPlace_slotKey, slotKey_idx]
              exact htranslate
          rw [hone, memX64MapVirtualPage_present h.tables hhas hpres, Spaces.mapPage,
            if_neg fun hmap => hfree hmap.free]
          exact .none
    · obtain ⟨hhigh, hptr⟩ := Classical.not_imp.mp hkernel
      rw [not_not, view_ptr] at hptr
      rw [hone, memX64MapVirtualPage_none h.tables (.inl ⟨hptr, .inr (by rw [top_bit]; exact decide_eq_true hhigh)⟩),
        Spaces.mapPage, if_neg fun hmap => hmap.kernel hhigh (view_ptr.trans hptr)]
      exact .none
  · rw [memMapRange, if_pos, Spaces.mapPage, if_neg fun hmap => hwhole ⟨hmap.whole, hmap.aligned⟩]
    · exact .none
    · rw [hnat]
      by_cases hp0 : p % sizeOfPage = 0
      · exact .inr (.inl fun ha => hwhole ⟨hp0, ha⟩)
      · exact .inl hp0

theorem agree_unit {σ τ : Type} {R : σ → τ → Prop} {x : Option σ} {y : Option τ} (h : Option.Rel R x y) :
    Agree R (x.map fun s => ((), s)) (y.map fun t => ((), t)) := by
  cases h with
  | some hxy => exact .some ⟨rfl, hxy⟩
  | none => exact .none

end

/-- **The calls do on page tables what they do on the address spaces that these stand for.** -/
theorem calls_simulate : Simulates Mapping.calls Spaces.calls Mapping.Views Mapping.TakesEmpty Spaces.Safe := by
  rintro β o s _ ⟨h, rfl⟩ hempty hsafe
  rw [Mapping.calls_exec, Spaces.calls_exec]
  cases o with
  | getPhysAddr a c =>
      obtain ⟨r, paging, hs, hmoved, hr⟩ := h.getPhysAddr a c
      simp only [Mapping.exec, Spaces.exec, hs, Option.map_some]
      exact .some ⟨hr, h.moved hmoved⟩
  | allocatePhysicalPage =>
      change Agree _ ((memAllocatePhysicalPages 1 s.paging.pool.phys).map _)
        ((memAllocatePhysicalPages 1 s.paging.pool.phys).map _)
      cases ha : memAllocatePhysicalPages 1 s.paging.pool.phys with
      | none => exact .none
      | some r => exact .some ⟨rfl, h.allocate ha⟩
  | deallocatePhysicalPage p =>
      change Agree _ ((memDeallocatePhysicalPages p 1 s.paging.pool.phys).map _)
        ((memDeallocatePhysicalPages p 1 s.paging.pool.phys).map _)
      cases hd : memDeallocatePhysicalPages p 1 s.paging.pool.phys with
      | none => exact .none
      | some phys => exact .some ⟨rfl, h.deallocate hsafe hd⟩
  | mapPage p a c => exact agree_unit (h.mapPage hempty hsafe)
  | unmapPage a c allow => exact agree_unit (h.unmapPage hsafe)

/-! ### A computer that has started -/

/-- The kernel's tables are in the first physical page, and eight pages from 8MB on are free. -/
def bootMapping : Mapping where
  paging :=
    { bootPaging with
      pool := ⟨⟨fun i => if i = 0 then 0x0FF0000000000000#64 else 0,
        fun i => if i = 0 then 0x0FF0000000000000#64 else 0, 8⟩, 0⟩ }
  counters := fun _ => 0

theorem bootMapping_pool : bootMapping.paging.pool.Ok := by
  have hcount : bootMapping.paging.pool.phys.freePages =
      count bootMapping.paging.pool.phys.alloc memMaxSupportedPages :=
    (by decide +kernel : 8 = countWords bootMapping.paging.pool.phys.alloc 32).trans countWords_eq
  exact ⟨⟨fun _ _ h => h, by decide, hcount⟩, rfl, fun h => absurd rfl h⟩

theorem bootMapping_held {place : Place} {t : BitVec 64} (hok : place.Ok)
    (ht : bootMapping.paging.tableAt place = some t) : ¬ bootMapping.paging.pool.Available t.toNat := by
  have ht : bootPaging.tableAt place = some t := ht
  rintro (⟨-, hbit⟩ | ⟨hnext, -⟩)
  · rcases bootPaging_tableAt hok ht with ⟨-, rfl⟩ | ⟨-, rfl⟩
    · exact absurd hbit (by decide +kernel)
    · exact absurd hbit (by decide +kernel)
  · exact hnext rfl

theorem bootMapping_tables : bootMapping.paging.Tables where
  pool := bootMapping_pool
  shared := bootPaging_tables.shared
  decodes := bootPaging_tables.decodes
  leaves := bootPaging_tables.leaves
  inj := bootPaging_tables.inj
  held _ hok _ ht := bootMapping_held hok ht
  window := ⟨0x2000#64, rfl, rfl⟩

theorem bootMapping_leaf {place : Place} {k : Nat} {e : BitVec 64} (hok : place.Ok) (hd : place.IsPageDir)
    (he : bootMapping.paging.leaf place k = some e) : place = windowPlace ∧ e = 0 := by
  obtain ⟨u, hu, rfl⟩ := Option.map_eq_some_iff.mp he
  rcases bootPaging_tableAt hok hu with ⟨rfl, -⟩ | ⟨rfl, rfl⟩
  · exact hd.elim
  · refine ⟨rfl, if_neg ?_⟩
    rw [entryAddr, entryAddr]
    simp only [BitVec.reduceToNat]
    omega

theorem bootMapping_ok : bootMapping.Ok where
  tables := bootMapping_tables
  begun h := absurd rfl h
  mask n hn := by
    refine BitVec.eq_of_toNat_eq ?_
    rw [BitVec.toNat_and, BitVec.toNat_ofNat]
    rw [memMaxSupportedPages] at hn
    have hlt : sizeOfPage * n < 2 ^ 52 := by
      rw [sizeOfPage]
      omega
    rw [Nat.mod_eq_of_lt (hlt.trans (by decide))]
    exact (Nat.and_two_pow_sub_one_eq_mod _ 52).trans (Nat.mod_eq_of_lt hlt)
  entries place hok hd k _ _ e he := (bootMapping_leaf hok hd he).2 ▸ entryOk_zero _
  window t ht := by
    obtain rfl : 0x2000#64 = t := Option.some.inj ht
    decide

/-- Only the window is mapped. -/
theorem bootMapping_frames {key : Nat × Nat} (hne : key ≠ windowKey) : bootMapping.view.frames key = none := by
  change (bootMapping.paging.frame key).map BitVec.toNat = none
  rw [Paging.frame, if_neg hne]
  split
  next hok =>
    cases he : bootMapping.paging.leaf (dirPlace key) (key.2 % 512) with
    | none => rfl
    | some e =>
        rw [(bootMapping_leaf hok trivial he).2, Option.bind_some, target_zero]
        rfl
  next => rfl

end Azalea.Mem
