import Azalea.Syscall.ProcessEnd

/-!
# Syscall — what backing memory is given

The result of one call of `syscall_allocate_backing_memory`, whatever it is asked for: which pages it has
mapped when it returns `NO_ERROR`, and what it has left behind when it does not.

* `allocateBackingMemory_iff`: the call does as it says exactly if it does not end above the addresses of user
  mode, and does not meet a page that is mapped in a range that it has just been granted.
-/

namespace Azalea.Syscall
open Azalea.Mem Azalea.Programs Azalea.Runs Azalea.Tiling Azalea.Bitmaps Function VmmRangeData

/-! ### What should hold -/

/-- The `n` pages from `start` on are pages of user memory.  Nothing was mapped there; now each has a physical
page of its own, which was free.  Nothing else has been mapped or unmapped. -/
structure Backed (s s' : MemState Spaces) (c n : Nat) (start : UInt64) : Prop where
  page : ∀ i < n, (pageAt start i).toNat = start.toNat + i * 2097152 ∧
    (pageAt start i).toNat % 2097152 = 0 ∧ (pageAt start i).toNat < 2 ^ 47
  mapped : ∃ physPage : Nat → Nat,
    (∀ i < n, s.spaces.frames (slotKey c (pageAt start i)) = none ∧
      bit s.spaces.phys.alloc (physPage i) = true ∧
      s'.spaces.frames (slotKey c (pageAt start i)) = some (sizeOfPage * physPage i)) ∧
    ∀ i < n, ∀ j < n, physPage i = physPage j → i = j
  other : ∀ key, (∀ i < n, key ≠ slotKey c (pageAt start i)) →
    s'.spaces.frames key = s.spaces.frames key

/-- The pages lie in one range, which has been allocated to the process by the call. -/
def Granted (s s' : MemState Spaces) (c n : Nat) (start : UInt64) : Prop :=
  ∃ g ∈ s'.ranges c, g.allocated = true ∧
    (∀ i < n, Covers page VmmRangeData.pages g ((pageAt start i).toNat / 2097152)) ∧
    ∀ r ∈ s.ranges c, r.allocated = true → ∀ k, Covers page VmmRangeData.pages g k →
      ¬ Covers page VmmRangeData.pages r k

/-- `NO_ERROR` is returned for exactly the pages asked for, from the new `*map_addr` on; any other result for
nothing, with the process's ranges and the physical pages as they were. -/
def AllocatesPages (c : Nat) (pages start : UInt64) (s : MemState Spaces) (result : ErrCode × UInt64)
    (s' : MemState Spaces) : Prop :=
  (result.1 = .noError → Backed s s' c pages.toNat result.2 ∧
    (start = 0 → Granted s s' c pages.toNat result.2)) ∧
  (result.1 ≠ .noError → s' = s)

/-- What the tables stand for, after a call. -/
def Allocates (c : Nat) (pages mapAddr start : UInt64) (s : MemState Mapping) : Prop :=
  ∀ result s', (allocateBackingMemory c pages mapAddr start).run tableCalls s = some (result, s') →
    AllocatesPages c pages start s.view result s'.view

/-- The arguments pass the checks. -/
def Accepted (pages mapAddr start : UInt64) : Prop :=
  ¬ (pages = 0 ∨ pages > 0x8000000000000000 ∨ mapAddr = 0 ∨ isUmAddress mapAddr.toBitVec = false ∨
    isUmAddress (start + pages * memPageSize).toBitVec = false ∨ isUmAddress start.toBitVec = false)

/-- The condition.  If the manager grants a range, nothing is mapped in it.  If the process has chosen an
address at which all its pages can be mapped, and there is memory for them and for their tables, they end below
the top of user memory. -/
structure Allocatable (c : Nat) (pages start : UInt64) (s : MemState Spaces) : Prop where
  granted : start = 0 → ∀ a ranges,
    memAllocateVirtualRange pages.toUInt32 (s.ranges c) = some (a, ranges) →
      anyMapped s.spaces c pages.toNat a = false
  chosen : start ≠ 0 → start.toNat % 2097152 = 0 →
    (∀ i < pages.toNat, s.spaces.frames (slotKey c (pageAt start i)) = none) →
    512 * pages.toNat + s.spaces.tablesNeeded (pageKeys c pages.toNat start) ≤ s.spaces.pool.room →
    start.toNat + pages.toNat * 2097152 ≤ 2 ^ 47

/-! ### Backing pages -/

section
variable {s s' t : MemState Spaces} {c n : Nat} {a : UInt64} {result result' : ErrCode}

/-- What the loop that backs the pages has done when it ends. -/
structure BackedBy (s s' : MemState Spaces) (c n : Nat) (a : UInt64) (physPage : Nat → Nat) : Prop where
  ranges : s'.ranges = s.ranges
  aligned : ∀ i < n, (pageAt a i).toNat % 2097152 = 0
  unmapped : ∀ i < n, s.spaces.frames (slotKey c (pageAt a i)) = none
  free : ∀ i < n, bit s.spaces.phys.alloc (physPage i) = true
  mapped : ∀ i < n, s'.spaces.frames (slotKey c (pageAt a i)) = some (sizeOfPage * physPage i)
  apart : ∀ i < n, ∀ j < n, physPage i = physPage j → i = j
  other : ∀ key, (∀ i < n, key ≠ slotKey c (pageAt a i)) → s'.spaces.frames key = s.spaces.frames key

/-- One page, and then those after it. -/
theorem BackedBy.cons {q : Nat} {physPage : Nat → Nat} (hp : PageBacked s t c a q)
    (h : BackedBy t s' c n (a + memPageSize) physPage) :
    BackedBy s s' c (n + 1) a fun | 0 => q | i + 1 => physPage i := by
  have hfree : ∀ i < n, slotKey c (pageAt a (i + 1)) ≠ slotKey c a ∧
      s.spaces.frames (slotKey c (pageAt a (i + 1))) = none := by
    intro i hi
    have hi := h.unmapped i hi
    rw [pageAt_succ, hp.frames, update_apply] at hi
    split at hi
    · cases hi
    next hne => exact ⟨hne, hi⟩
  have hphys : ∀ i < n, physPage i ≠ q ∧ bit s.spaces.phys.alloc (physPage i) = true :=
    fun i hi => (hp.taken _ (h.free i hi)).symm
  refine ⟨h.ranges.trans hp.ranges, ?_, ?_, ?_, ?_, ?_, fun key hkey => ?_⟩
  · rintro (_ | i) hi
    · rw [pageAt_zero]
      exact hp.aligned
    · exact pageAt_succ a i ▸ h.aligned i (Nat.lt_of_succ_lt_succ hi)
  · rintro (_ | i) hi
    · rw [pageAt_zero]
      exact hp.unmapped
    · exact (hfree i (Nat.lt_of_succ_lt_succ hi)).2
  · rintro (_ | i) hi
    · exact hp.free
    · exact (hphys i (Nat.lt_of_succ_lt_succ hi)).2
  · rintro (_ | i) hi
    · rw [pageAt_zero, h.other _ fun i hi => ?_, hp.frames, update_self]
      rw [pageAt_succ]
      exact (hfree i hi).1.symm
    · exact pageAt_succ a i ▸ h.mapped i (Nat.lt_of_succ_lt_succ hi)
  · rintro (_ | i) hi (_ | j) hj heq
    · rfl
    · exact absurd heq.symm (hphys j (Nat.lt_of_succ_lt_succ hj)).1
    · exact absurd heq (hphys i (Nat.lt_of_succ_lt_succ hi)).1
    · exact congrArg _ (h.apart i (Nat.lt_of_succ_lt_succ hi) j (Nat.lt_of_succ_lt_succ hj) heq)
  · obtain ⟨hne, hkeys⟩ := (forall_pages (P := fun a => key ≠ slotKey c a)).mp hkey
    rw [h.other key hkeys, hp.frames, update_of_ne hne]

theorem backPages_backed (h : s.Ok) (hs : (backPages c n a result).run spaceCalls s = some (result', s')) :
    result' = result ∧ ∃ physPage, BackedBy s s' c n a physPage := by
  induction n generalizing a s with
  | zero =>
      obtain ⟨rfl, rfl⟩ := Prod.mk.inj (Option.some.inj hs)
      exact ⟨rfl, fun _ => 0, rfl, nofun, nofun, nofun, nofun, nofun, fun _ _ => rfl⟩
  | succ n ih =>
      obtain ⟨p, t, hb, hrest⟩ := (backPages_succ h).mp hs
      obtain ⟨q, -, -, hpage⟩ := h.backed hb
      obtain ⟨hresult, physPage, hbacked⟩ := ih hpage.ok hrest
      exact ⟨hresult, _, hbacked.cons hpage⟩

/-- The slots of fewer pages than there are slots are apart. -/
theorem slotKey_pageAt_apart (ha : a.toNat % 2097152 = 0) (hn : n < 2 ^ 27) :
    ∀ i < n, slotKey c (pageAt (a + memPageSize) i) ≠ slotKey c a := by
  intro i hi heq
  have hslot : slot (pageAt a (i + 1)) = slot a := by
    rw [← pageAt_succ]
    exact congrArg Prod.snd heq
  simp only [slot, pageAt, UInt64.toNat_add, UInt64.toNat_ofNat'] at hslot
  omega

/-- Pages can be backed exactly if they are page-aligned and not mapped, and there is memory for them and for
their tables. -/
theorem backPages_isSome (h : s.Ok) (hlow : ∀ i < n, (pageAt a i).toNat < 2 ^ 63) (hn : n < 2 ^ 27) :
    (∃ s', (backPages c n a result).run spaceCalls s = some (result, s')) ↔
      (∀ i < n, (pageAt a i).toNat % 2097152 = 0 ∧ s.spaces.frames (slotKey c (pageAt a i)) = none) ∧
        512 * n + s.spaces.tablesNeeded (pageKeys c n a) ≤ s.spaces.pool.room := by
  induction n generalizing a s with
  | zero => exact ⟨fun _ => ⟨nofun, Nat.zero_le _⟩, fun _ => ⟨s, rfl⟩⟩
  | succ n ih =>
      obtain ⟨hlow₀, hlow⟩ := (forall_pages (P := fun a => a.toNat < 2 ^ 63)).mp hlow
      have hn : n < 2 ^ 27 := Nat.lt_of_succ_lt hn
      rw [forall_pages (P := fun a => a.toNat % 2097152 = 0 ∧ s.spaces.frames (slotKey c a) = none), pageKeys]
      constructor
      · rintro ⟨s', hs'⟩
        obtain ⟨p, t, hb, hrest⟩ := (backPages_succ h).mp hs'
        obtain ⟨q, -, -, hpage⟩ := h.backed hb
        obtain ⟨hpages, hroom⟩ := (ih hpage.ok hlow hn).mp ⟨s', hrest⟩
        refine ⟨⟨⟨hpage.aligned, hpage.unmapped⟩, fun i hi => ⟨(hpages i hi).1, ?_⟩⟩, ?_⟩
        · have hnone := (hpages i hi).2
          rw [hpage.frames, update_apply] at hnone
          split at hnone
          · cases hnone
          · exact hnone
        · have := hpage.room
          rw [hpage.needed]
          omega
      · rintro ⟨⟨⟨haligned, hnone⟩, hpages⟩, hroom⟩
        have hmissing := s.spaces.missing_le (slotKey c a) (pageKeys c n (a + memPageSize))
        obtain ⟨p, t, hb⟩ := (h.backs_iff hlow₀).mpr ⟨haligned, hnone, by omega⟩
        obtain ⟨q, -, -, hpage⟩ := h.backed hb
        have hroom' := hpage.room
        rw [hpage.needed] at hroom
        obtain ⟨s', hs'⟩ := (ih hpage.ok hlow hn).mpr ⟨fun i hi => ⟨(hpages i hi).1, by
          rw [hpage.frames, update_of_ne (slotKey_pageAt_apart haligned hn i hi)]
          exact (hpages i hi).2⟩, by omega⟩
        exact ⟨s', (backPages_succ h).mpr ⟨p, t, hb, hs'⟩⟩

end

/-! ### One call -/

section
variable {s s' : MemState Spaces} {c n : Nat} {pages mapAddr start start' a : UInt64}
  {result : ErrCode × UInt64} {ranges : List VmmRangeData}

theorem allocateBackingMemory_accepted (h : Accepted pages mapAddr start) :
    allocateBackingMemory c pages mapAddr start =
      if start = 0 then do
        let a ← vmm (.allocate c pages.toUInt32)
        backRange c pages.toNat a
      else backRange c pages.toNat start :=
  if_neg h

theorem Accepted.pages_pos (h : Accepted pages mapAddr start) : 0 < pages.toNat := by
  rw [Nat.pos_iff_ne_zero]
  exact fun hzero => h (.inl (UInt64.toNat_inj.mp hzero))

/-- Few pages do not get to the kernel's half. -/
theorem Accepted.pages_low (h : Accepted pages mapAddr start) (hn : pages.toNat ≤ 2048) :
    ∀ i < pages.toNat, (pageAt start i).toNat < 2 ^ 63 := by
  intro i hi
  simp only [Accepted, not_or, Bool.not_eq_false] at h
  obtain ⟨-, -, -, -, hend, hstart⟩ := h
  have hstart : start.toNat < 2 ^ 63 := isUmAddress_iff.mp hstart
  have hend : (start + pages * memPageSize).toNat < 2 ^ 63 := isUmAddress_iff.mp hend
  have hsize : memPageSize.toNat = 2097152 := rfl
  rw [UInt64.toNat_add, UInt64.toNat_mul, hsize, Nat.mod_eq_of_lt (a := pages.toNat * _) (by omega),
    Nat.mod_eq_of_lt (by omega)] at hend
  rw [pageAt, UInt64.toNat_add, UInt64.toNat_ofNat', Nat.mod_eq_of_lt (a := i * _) (by omega)]
  omega

/-- No more pages are backed than memory has. -/
theorem le_of_room (h : s.Ok) (hroom : 512 * n ≤ s.spaces.pool.room) : n ≤ 2048 := by
  have hleft := h.order.pool.left_lt
  have hfree : s.spaces.phys.freePages ≤ memMaxSupportedPages := by
    rw [h.order.pool.ok.phys.count]
    exact count_le
  change 512 * n ≤ s.spaces.pool.left + 512 * s.spaces.phys.freePages at hroom
  rw [memMaxSupportedPages] at hfree
  omega

theorem BackedBy.backed_pages {physPage : Nat → Nat} (hb : BackedBy s s' c n a physPage) :
    ∃ physPage : Nat → Nat,
      (∀ i < n, s.spaces.frames (slotKey c (pageAt a i)) = none ∧
        bit s.spaces.phys.alloc (physPage i) = true ∧
        s'.spaces.frames (slotKey c (pageAt a i)) = some (sizeOfPage * physPage i)) ∧
      ∀ i < n, ∀ j < n, physPage i = physPage j → i = j :=
  ⟨physPage, fun i hi => ⟨hb.unmapped i hi, hb.free i hi, hb.mapped i hi⟩, hb.apart⟩

/-- The pages of a range that has been granted. -/
theorem BackedBy.granted {physPage : Nat → Nat} (h : s.Ok)
    (ha : memAllocateVirtualRange pages.toUInt32 (s.ranges c) = some (a, ranges)) (hn : pages.toNat ≤ 2048)
    (hb : BackedBy (s.withRanges c ranges) s' c pages.toNat a physPage) :
    Backed s s' c pages.toNat a ∧ Granted s s' c pages.toNat a := by
  obtain ⟨hinv, g, hg, hga, rfl, hle, hnew⟩ := grant_spec (h.ranges c) ha
  have hcount : pages.toUInt32.toNat = pages.toNat := by
    rw [UInt64.toNat_toUInt32]
    exact Nat.mod_eq_of_lt (by omega)
  have hpage : ∀ i < pages.toNat,
      (pageAt g.start i).toNat = (g.page + i) * 2097152 ∧ g.page + i < 2 ^ 25 :=
    fun i hi => pageAt_range hinv hg (by omega)
  have hstart := (hinv.wf g hg).start_eq
  refine ⟨⟨fun i hi => ?_, hb.backed_pages, hb.other⟩, g, ?_, hga, fun i hi => ?_, hnew⟩
  · obtain ⟨htoNat, hlt⟩ := hpage i hi
    rw [htoNat, hstart]
    omega
  · rw [hb.ranges, MemState.withRanges_ranges, update_self]
    exact hg
  · rw [(hpage i hi).1, Nat.mul_div_cancel _ (by decide)]
    exact ⟨by omega, by omega⟩

/-- The pages at an address that the process has chosen. -/
theorem BackedBy.chosen {physPage : Nat → Nat} (htop : a.toNat + n * 2097152 ≤ 2 ^ 47)
    (hb : BackedBy s s' c n a physPage) : Backed s s' c n a := by
  refine ⟨fun i hi => ?_, hb.backed_pages, hb.other⟩
  have htoNat : (pageAt a i).toNat = a.toNat + i * 2097152 := by
    rw [pageAt, UInt64.toNat_add, UInt64.toNat_ofNat']
    omega
  exact ⟨htoNat, hb.aligned i hi, by omega⟩

/-- A granted range is not given back. -/
theorem withRanges_ne (h : s.Ok)
    (ha : memAllocateVirtualRange pages.toUInt32 (s.ranges c) = some (a, ranges)) :
    s.withRanges c ranges ≠ s := by
  obtain ⟨hinv, g, hg, hga, -, -, hnew⟩ := grant_spec (h.ranges c) ha
  intro heq
  have hranges := congrFun (congrArg MemState.ranges heq) c
  rw [MemState.withRanges_ranges, update_self] at hranges
  have hcovers : Covers page VmmRangeData.pages g g.page := ⟨le_rfl, by
    have := (hinv.wf g hg).dyadic.pos
    omega⟩
  exact hnew g (hranges ▸ hg) hga _ hcovers hcovers

theorem backRange_mapped (hmapped : anyMapped s.spaces c n a = true) :
    (backRange c n a).run spaceCalls s = some ((.invalidOp, a), s) := by
  rw [backRange_run, if_pos hmapped]

theorem backRange_unmapped (hmapped : anyMapped s.spaces c n a = false) : (backRange c n a).run spaceCalls s =
    ((backPages c n a .noError).run spaceCalls s).map fun r => ((r.1, a), r.2) := by
  rw [backRange_run, if_neg (by rw [hmapped]; decide)]

/-- A call at a chosen address that gets to the pages. -/
theorem allocatable_chosen (h : s.Ok) (haccepted : Accepted pages mapAddr start) (hne : start ≠ 0)
    (haligned : start.toNat % 2097152 = 0)
    (hnone : ∀ i < pages.toNat, s.spaces.frames (slotKey c (pageAt start i)) = none)
    (hroom : 512 * pages.toNat + s.spaces.tablesNeeded (pageKeys c pages.toNat start) ≤ s.spaces.pool.room) :
    ∃ s', (allocateBackingMemory c pages mapAddr start).run spaceCalls s = some ((.noError, start), s') := by
  have hn := le_of_room h (n := pages.toNat) (by omega)
  have halignedAll : ∀ i < pages.toNat, (pageAt start i).toNat % 2097152 = 0 := by
    intro i hi
    rw [pageAt, UInt64.toNat_add, UInt64.toNat_ofNat']
    omega
  obtain ⟨s', hs'⟩ : ∃ s', (backPages c pages.toNat start .noError).run spaceCalls s = some (.noError, s') :=
    (backPages_isSome h (haccepted.pages_low hn) (by omega)).mpr
      ⟨fun i hi => ⟨halignedAll i hi, hnone i hi⟩, hroom⟩
  have hmapped : anyMapped s.spaces c pages.toNat start = false := anyMapped_eq_false.mpr fun i hi => by
    rw [Spaces.getPhysAddr_page (halignedAll i hi), hnone i hi]
    rfl
  refine ⟨s', ?_⟩
  rw [allocateBackingMemory_accepted haccepted, if_neg hne, backRange_unmapped hmapped, hs']
  rfl

/-- **A call does as it says**, on address spaces, exactly if what it needs is so. -/
theorem allocatesPages_iff (h : s.Ok) :
    (∀ result s', (allocateBackingMemory c pages mapAddr start).run spaceCalls s = some (result, s') →
      AllocatesPages c pages start s result s') ↔
    (Accepted pages mapAddr start → Allocatable c pages start s) := by
  constructor
  · intro hall haccepted
    refine ⟨?_, fun hne haligned hnone hroom => ?_⟩
    · rintro rfl a ranges ha
      by_contra hmapped
      -- the range that has been granted is kept when the call fails
      have hcall : (allocateBackingMemory c pages mapAddr 0).run spaceCalls s =
          some ((.invalidOp, a), s.withRanges c ranges) := by
        rw [allocateBackingMemory_accepted haccepted, if_pos rfl, Prog.run_bind,
          run_allocate.mpr ⟨ranges, ha, rfl⟩]
        exact backRange_mapped (Bool.not_eq_false _ ▸ hmapped)
      exact withRanges_ne h ha ((hall _ _ hcall).2 fun heq => by cases heq)
    · obtain ⟨s', hcall⟩ := allocatable_chosen h haccepted hne haligned hnone hroom
      have hpos := haccepted.pages_pos
      obtain ⟨htoNat, -, hlow⟩ := ((hall _ _ hcall).1 rfl).1.page (pages.toNat - 1) (by omega)
      dsimp only at htoNat hlow
      omega
  · intro hcond result s' hcall
    by_cases haccepted : Accepted pages mapAddr start
    · have hcond := hcond haccepted
      rw [allocateBackingMemory_accepted haccepted] at hcall
      split at hcall
      next hzero =>
        rw [Prog.run_bind] at hcall
        obtain ⟨⟨a, t⟩, hgrant, hcall⟩ := Option.bind_eq_some_iff.mp hcall
        obtain ⟨ranges, ha, rfl⟩ := run_allocate.mp hgrant
        have hmapped : anyMapped (s.withRanges c ranges).spaces c pages.toNat a = false :=
          hcond.granted hzero a ranges ha
        rw [backRange_unmapped hmapped] at hcall
        obtain ⟨⟨result₁, s₁⟩, hback, heq⟩ := Option.map_eq_some_iff.mp hcall
        obtain ⟨rfl, rfl⟩ := Prod.mk.inj heq
        have hok := h.withRanges (c := c) (grant_spec (h.ranges c) ha).1
        obtain ⟨rfl, physPage, hb⟩ := backPages_backed hok hback
        obtain ⟨hbacked, hgranted⟩ := hb.granted h ha (le_of_room hok (backPages_room hok hback))
        exact ⟨fun _ => ⟨hbacked, fun _ => hgranted⟩, fun hne => absurd rfl hne⟩
      next hne =>
        cases hmapped : anyMapped s.spaces c pages.toNat start with
        | true =>
            rw [backRange_mapped hmapped] at hcall
            obtain ⟨rfl, rfl⟩ := Prod.mk.inj (Option.some.inj hcall)
            exact ⟨nofun, fun _ => rfl⟩
        | false =>
            rw [backRange_unmapped hmapped] at hcall
            obtain ⟨⟨result₁, s₁⟩, hback, heq⟩ := Option.map_eq_some_iff.mp hcall
            obtain ⟨rfl, rfl⟩ := Prod.mk.inj heq
            obtain ⟨rfl, physPage, hb⟩ := backPages_backed h hback
            have hn := le_of_room h (backPages_room h hback)
            have hroom := ((backPages_isSome h (haccepted.pages_low hn) (by omega)).mp ⟨_, hback⟩).2
            have haligned := hb.aligned 0 haccepted.pages_pos
            rw [pageAt_zero] at haligned
            have hbacked := hb.chosen (hcond.chosen hne haligned hb.unmapped hroom)
            exact ⟨fun _ => ⟨hbacked, fun hzero => absurd hzero hne⟩, fun hne => absurd rfl hne⟩
    · have hinvalid : (allocateBackingMemory c pages mapAddr start).run spaceCalls s =
          some ((.invalidParam, start), s) := by
        rw [allocateBackingMemory, if_pos (not_not.mp haccepted)]
        rfl
      obtain ⟨rfl, rfl⟩ := Prod.mk.inj (Option.some.inj (hinvalid.symm.trans hcall))
      exact ⟨nofun, fun _ => rfl⟩

/-- **A call does as it says** exactly if what it needs is so; the pages that become tables are empty. -/
theorem allocateBackingMemory_iff {s : MemState Mapping} (htables : s.spaces.Ok) (h : s.view.Ok)
    (hempty : (allocateBackingMemory c pages mapAddr start).Along tableCalls MemState.TakesEmpty s) :
    Allocates c pages mapAddr start s ↔ (Accepted pages mapAddr start → Allocatable c pages start s.view) :=
  (run_agrees_iff htables hempty (allocateBackingMemory_safe h)).trans (allocatesPages_iff h)

end

/-- A page is asked for, at an address that the kernel chooses. -/
theorem allocateBackingMemory_page : Allocates 1 1 0x1000 0 bootMemory := by
  have hempty : (allocateBackingMemory 1 1 0x1000 0).Along tableCalls MemState.TakesEmpty bootMemory := by
    decide +kernel
  refine (allocateBackingMemory_iff bootMapping_ok bootMemory_ok hempty).mpr fun _ =>
    ⟨fun _ a ranges ha => ?_, fun hne => absurd rfl hne⟩
  have hfirst : (memAllocateVirtualRange 1 memVmmInitProcData).map (·.1) = some 0 := by decide +kernel
  have ha : memAllocateVirtualRange 1 memVmmInitProcData = some (a, ranges) := ha
  obtain rfl : a = 0 := by simpa [ha] using hfirst
  decide

/-- A process has mapped the page at `0x400000`, an address it has chosen, and asks for four pages: the call
is granted those from 0 on, meets the page that is mapped, and keeps the range. -/
theorem allocateBackingMemory_keeps_range :
    ¬ ∀ (c : Nat) (pages mapAddr start : UInt64) (s : MemState Mapping), s.spaces.Ok → s.view.Ok →
      (allocateBackingMemory c pages mapAddr start).Along tableCalls MemState.TakesEmpty s →
        Allocates c pages mapAddr start s := by
  intro hall
  have hrun : ((allocateBackingMemory 1 1 0x1000 0x400000).run tableCalls bootMemory).bind (fun r =>
      ((allocateBackingMemory 1 4 0x1000 0).run tableCalls r.2).map fun r' =>
        (r'.1.1, (r.2.ranges 1).length, (r'.2.ranges 1).length,
          decide ((allocateBackingMemory 1 4 0x1000 0).Along tableCalls MemState.TakesEmpty r.2))) =
      some (.invalidOp, 1, 24, true) := by decide +kernel
  have hempty : (allocateBackingMemory 1 1 0x1000 0x400000).Along tableCalls MemState.TakesEmpty bootMemory := by
    decide +kernel
  obtain ⟨⟨result₁, s⟩, hs, hcall⟩ := Option.bind_eq_some_iff.mp hrun
  obtain ⟨⟨⟨result, start'⟩, s'⟩, hcall, heq⟩ := Option.map_eq_some_iff.mp hcall
  simp only [Prod.mk.injEq, decide_eq_true_eq] at heq
  obtain ⟨rfl, hbefore, hafter, hempty'⟩ := heq
  obtain ⟨htables, hview⟩ := view_run bootMapping_ok hempty (allocateBackingMemory_safe bootMemory_ok) hs
  have hkept : s'.view = s.view :=
    (hall 1 4 0x1000 0 s htables (bootMemory_ok.allocate hview) hempty' _ _ hcall).2 fun heq => by cases heq
  have hranges : s'.view.ranges = s.view.ranges := congrArg MemState.ranges hkept
  change s'.ranges = s.ranges at hranges
  rw [hranges, hbefore] at hafter
  exact absurd hafter (by decide)

end Azalea.Syscall
