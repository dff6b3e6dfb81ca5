import Azalea.Mem.Pages
import Azalea.Support.Programs

/-!
# Mem — address spaces

The mapping code as its callers see it: a page of a process has a physical page behind it or not.  The
tables look at 27 bits of the number of a page, so that addresses which differ above are one `slot`.  The
upper half of the slots is the kernel's, and the same for all processes.

Of the tables it is known where they are: a page whose tables are missing takes new ones from the pool, and
cannot be mapped when there are none left.  How many can be had is `TablePool.room`.  What is in a page when
it becomes a table is not asked here; `Mem/TableViews.lean` says when that is right.
-/

namespace Azalea.Mem
open Azalea.Bitmaps Azalea.Programs Function

/-! ### Tables that can be had -/

/-- What is left of the page that is carved up, in tables. -/
def TablePool.left (pool : TablePool) : Nat :=
  if pool.next4kbPage = 0 then 0 else (sizeOfPage - pool.next4kbPage % sizeOfPage) / 4096

/-- The tables that can be had, if all physical pages are carved up. -/
def TablePool.room (pool : TablePool) : Nat := pool.left + 512 * pool.phys.freePages

/-- Other physical pages. -/
def TablePool.withPhys (pool : TablePool) (phys : PhysMem) : TablePool := { pool with phys := phys }

@[simp] theorem TablePool.withPhys_phys (pool : TablePool) (phys : PhysMem) :
    (pool.withPhys phys).phys = phys := rfl

/-- The page that is carved up has been begun. -/
structure TablePool.InOrder (pool : TablePool) : Prop where
  ok : pool.Ok
  begun : pool.next4kbPage ≠ 0 → pool.next4kbPage % sizeOfPage ≠ 0

/-- No table has been carved from the physical page that could still be. -/
def TablePool.NotCarved (pool : TablePool) (n : Nat) : Prop :=
  pool.next4kbPage ≠ 0 → pool.next4kbPage / sizeOfPage ≠ n

section
variable {pool pool' : TablePool} {phys : PhysMem} {f u : BitVec 64} {t : Option (BitVec 64)} {n p : Nat}

theorem TablePool.InOrder.left_lt (h : pool.InOrder) : pool.left < 512 := by
  rw [left]
  split
  · decide
  next hne =>
    have hbegun := h.begun hne
    have haligned := h.ok.aligned
    rw [sizeOfPage] at hbegun ⊢
    omega

/-- A physical page is free exactly if there is room for all its tables. -/
theorem TablePool.InOrder.freePages_pos (h : pool.InOrder) :
    0 < pool.phys.freePages ↔ 512 ≤ pool.room := by
  have := h.left_lt
  rw [room]
  omega

/-- A physical page that is handed out is room for its tables less. -/
theorem TablePool.InOrder.allocate (h : pool.InOrder)
    (ha : memAllocatePhysicalPages 1 pool.phys = some (p, phys)) :
    (pool.withPhys phys).InOrder ∧ (pool.withPhys phys).room + 512 = pool.room ∧
      ∃ q, q < memMaxSupportedPages ∧ p = sizeOfPage * q ∧ p ≠ 0 ∧ bit pool.phys.alloc q = true ∧
        phys.alloc = clearBit pool.phys.alloc q ∧ phys.exist = pool.phys.exist ∧ pool.NotCarved q := by
  have hcount := memAllocatePhysicalPages_freePages ha
  have hfree : 0 < pool.phys.freePages := by omega
  obtain ⟨q, hq, hbit, hsome⟩ := memAllocatePhysicalPages_eq h.ok.phys hfree
  obtain ⟨rfl, rfl⟩ := Prod.mk.inj (Option.some.inj (ha.symm.trans hsome))
  have hcarved : pool.NotCarved q := by
    rintro hne rfl
    rw [(h.ok.held hne).2] at hbit
    cases hbit
  refine ⟨⟨⟨h.ok.phys.take hq hbit, h.ok.aligned, fun hne => ?_⟩, h.begun⟩, ?_, q, hq, rfl, ?_, hbit, rfl, rfl,
    hcarved⟩
  · obtain ⟨hlt, hheld⟩ := h.ok.held hne
    refine ⟨hlt, ?_⟩
    rw [withPhys_phys, bit_clearBit, withPhys, hheld, Bool.and_false]
  · rw [room, room, show ∀ phys, (pool.withPhys phys).left = pool.left from fun _ => rfl]
    dsimp only [withPhys_phys] at hcount ⊢
    omega
  · intro hzero
    have hq0 : q = 0 := (Nat.mul_eq_zero.mp hzero).resolve_left (by decide)
    have hexist := h.ok.phys.sub q hq hbit
    rw [hq0, h.ok.phys.kernel 0 (by decide)] at hexist
    cases hexist

/-- A page that is given back is none that tables are carved from. -/
theorem TablePool.InOrder.deallocate (h : pool.InOrder) (hcarved : pool.NotCarved (p / sizeOfPage))
    (hd : memDeallocatePhysicalPages p 1 pool.phys = some phys) : (pool.withPhys phys).InOrder := by
  obtain ⟨n, hn, rfl, hbit, hexist, rfl⟩ := memDeallocatePhysicalPages_eq_some.mp hd
  rw [Nat.mul_div_cancel_left n (by decide)] at hcarved
  refine ⟨⟨h.ok.phys.giveBack hn hbit hexist, h.ok.aligned, fun hne => ?_⟩, h.begun⟩
  obtain ⟨hlt, hheld⟩ := h.ok.held hne
  refine ⟨hlt, ?_⟩
  rw [withPhys_phys, bit_setBit, withPhys, hheld, Bool.or_false, decide_eq_false_iff_not]
  exact hcarved hne

/-- A new page is begun if there is none. -/
theorem TablePool.InOrder.refill (h : pool.InOrder) (hf : pool.refill = some pool') :
    pool'.Ok ∧ pool'.next4kbPage ≠ 0 ∧
      (sizeOfPage - pool'.next4kbPage % sizeOfPage) / 4096 + 512 * pool'.phys.freePages = pool.room := by
  obtain ⟨hok, hne, -⟩ := refill_spec h.ok hf
  refine ⟨hok, hne, ?_⟩
  rw [TablePool.refill] at hf
  split at hf
  next hzero =>
    obtain ⟨⟨p, phys⟩, hp, rfl⟩ := Option.map_eq_some_iff.mp hf
    obtain ⟨-, hroom, q, -, rfl, -⟩ := h.allocate hp
    simp only [room, left, withPhys, hzero, if_true] at hroom ⊢
    rw [Nat.mul_mod_right]
    rw [sizeOfPage]
    omega
  next hnext =>
    obtain rfl := Option.some.inj hf
    rw [room, left, if_neg hnext]

/-- **A table is handed out** if there is room for one. -/
theorem TablePool.InOrder.next_iff (h : pool.InOrder) :
    (∃ f pool', memGetNext4kbPage pool = some (f, pool')) ↔ 0 < pool.room := by
  have hnext : (∃ f pool', memGetNext4kbPage pool = some (f, pool')) ↔ ∃ mid, pool.refill = some mid := by
    rw [memGetNext4kbPage]
    constructor
    · rintro ⟨f, pool', hf⟩
      obtain ⟨mid, hmid, -⟩ := Option.bind_eq_some_iff.mp hf
      exact ⟨mid, hmid⟩
    · rintro ⟨mid, hmid⟩
      exact ⟨_, _, Option.bind_eq_some_iff.mpr ⟨mid, hmid, rfl⟩⟩
  rw [hnext, TablePool.refill]
  split
  next hzero =>
    have hroom : pool.room = 512 * pool.phys.freePages := by
      rw [room, left, if_pos hzero, Nat.zero_add]
    rcases Nat.eq_zero_or_pos pool.phys.freePages with h0 | hpos
    · rw [memAllocatePhysicalPages_none h0, hroom, h0]
      simp
    · obtain ⟨p, -, -, hp⟩ := memAllocatePhysicalPages_eq h.ok.phys hpos
      rw [hp]
      exact iff_of_true ⟨_, rfl⟩ (by omega)
  next hne =>
    refine iff_of_true ⟨pool, rfl⟩ ?_
    have haligned := h.ok.aligned
    rw [room, left, if_neg hne]
    rw [sizeOfPage]
    omega

/-- It is one less that can be had. -/
theorem TablePool.InOrder.next (h : pool.InOrder) (hf : memGetNext4kbPage pool = some (f, pool')) :
    pool'.InOrder ∧ pool'.room + 1 = pool.room := by
  have hok := (memGetNext4kbPage_spec h.ok hf).2.2.2.2.2
  rw [memGetNext4kbPage] at hf
  obtain ⟨mid, hmid, hf⟩ := Option.bind_eq_some_iff.mp hf
  obtain ⟨hmidOk, hne, hroom⟩ := h.refill hmid
  obtain ⟨-, rfl⟩ := Prod.mk.inj (Option.some.inj hf)
  have haligned := hmidOk.aligned
  have hbegun : (if (mid.next4kbPage + 4096) % sizeOfPage = 0 then 0 else mid.next4kbPage + 4096) ≠ 0 ↔
      (mid.next4kbPage + 4096) % sizeOfPage ≠ 0 := by
    split
    next hmod => exact iff_of_false (fun h => h rfl) (fun h => h hmod)
    next hmod =>
      have hne : mid.next4kbPage + 4096 ≠ 0 := Nat.ne_of_gt (Nat.add_pos_right _ (by decide))
      exact iff_of_true hne hmod
  refine ⟨⟨hok, fun hnext => ?_⟩, ?_⟩
  · dsimp only at hnext ⊢
    have hmod := hbegun.mp hnext
    rwa [if_neg hmod]
  · rw [← hroom, room, left]
    dsimp only
    by_cases hmod : (mid.next4kbPage + 4096) % sizeOfPage = 0
    · rw [if_pos (not_not.mp (mt hbegun.mp (not_not.mpr hmod)))]
      rw [sizeOfPage] at *
      omega
    · rw [if_neg (hbegun.mpr hmod), if_neg hmod]
      rw [sizeOfPage] at *
      omega

/-- What handing out a table leaves of the physical pages: none becomes free, and none that is in use becomes
the page that is carved up. -/
theorem TablePool.InOrder.next_phys (h : pool.InOrder) (hf : memGetNext4kbPage pool = some (f, pool')) :
    pool'.phys.exist = pool.phys.exist ∧
      (∀ m, bit pool'.phys.alloc m = true → bit pool.phys.alloc m = true) ∧
      bit pool'.phys.alloc (f.toNat / sizeOfPage) = false ∧
      ∀ m, bit pool.phys.alloc m = false → pool.NotCarved m →
        pool'.NotCarved m ∧ f.toNat / sizeOfPage ≠ m := by
  rw [memGetNext4kbPage] at hf
  obtain ⟨mid, hmid, hf⟩ := Option.bind_eq_some_iff.mp hf
  obtain ⟨rfl, rfl⟩ := Prod.mk.inj (Option.some.inj hf)
  obtain ⟨hok, hne, -⟩ := refill_spec h.ok hmid
  have haligned := hok.aligned
  have hrefill : mid.phys.exist = pool.phys.exist ∧
      (∀ m, bit mid.phys.alloc m = true → bit pool.phys.alloc m = true) ∧
      ∀ m, bit pool.phys.alloc m = false → pool.NotCarved m → mid.next4kbPage / sizeOfPage ≠ m := by
    rw [TablePool.refill] at hmid
    split at hmid
    next =>
      obtain ⟨⟨p, phys⟩, halloc, rfl⟩ := Option.map_eq_some_iff.mp hmid
      obtain ⟨-, -, q, -, rfl, -, hbit, hclear, hexist, -⟩ := h.allocate halloc
      refine ⟨hexist, fun m hm => ?_, fun m hused _ => ?_⟩
      · rw [hclear, bit_clearBit, Bool.and_eq_true] at hm
        exact hm.2
      · dsimp only
        rw [Nat.mul_div_cancel_left q (by decide)]
        rintro rfl
        rw [hused] at hbit
        cases hbit
    next hne =>
      obtain rfl := Option.some.inj hmid
      exact ⟨rfl, fun _ hm => hm, fun m _ hcarved => hcarved hne⟩
  obtain ⟨hexist, hfree, hcarved⟩ := hrefill
  obtain ⟨hlt, hheld⟩ := hok.held hne
  have hnat : (BitVec.ofNat 64 mid.next4kbPage).toNat = mid.next4kbPage := by
    rw [sizeOfPage, memMaxSupportedPages] at hlt
    rw [BitVec.toNat_ofNat]
    omega
  rw [hnat]
  refine ⟨hexist, hfree, hheld, fun m hused hm => ⟨fun hne => ?_, hcarved m hused hm⟩⟩
  dsimp only at hne ⊢
  split at hne
  next => exact absurd rfl hne
  next hmod =>
    have hdiv : (mid.next4kbPage + 4096) / sizeOfPage = mid.next4kbPage / sizeOfPage := by
      rw [sizeOfPage] at hmod ⊢
      omega
    rw [if_neg hmod, hdiv]
    exact hcarved m hused hm

/-- A table that is not there has to be had. -/
def lacking (t : Option (BitVec 64)) : Nat := if t = none then 1 else 0

theorem TablePool.InOrder.tableFor_iff (h : pool.InOrder) :
    (∃ u pool', pool.tableFor t = some (u, pool')) ↔ lacking t ≤ pool.room := by
  cases t with
  | none => exact h.next_iff
  | some u => exact iff_of_true ⟨u, pool, rfl⟩ (Nat.zero_le _)

theorem TablePool.InOrder.tableFor (h : pool.InOrder) (hf : pool.tableFor t = some (u, pool')) :
    pool'.InOrder ∧ pool'.room + lacking t = pool.room := by
  cases t with
  | none => exact h.next hf
  | some t =>
      obtain ⟨-, rfl⟩ := Prod.mk.inj (Option.some.inj hf)
      exact ⟨h, rfl⟩

theorem TablePool.InOrder.tableFor_phys (h : pool.InOrder) (hf : pool.tableFor t = some (u, pool')) :
    pool'.phys.exist = pool.phys.exist ∧
      (∀ m, bit pool'.phys.alloc m = true → bit pool.phys.alloc m = true) ∧
      (t ≠ some u → bit pool'.phys.alloc (u.toNat / sizeOfPage) = false) ∧
      ∀ m, bit pool.phys.alloc m = false → pool.NotCarved m →
        pool'.NotCarved m ∧ (t ≠ some u → u.toNat / sizeOfPage ≠ m) := by
  cases t with
  | none =>
      obtain ⟨hexist, hfree, hheld, hcarved⟩ := h.next_phys hf
      exact ⟨hexist, hfree, fun _ => hheld,
        fun m hused hm => ⟨(hcarved m hused hm).1, fun _ => (hcarved m hused hm).2⟩⟩
  | some t =>
      obtain ⟨rfl, rfl⟩ := Prod.mk.inj (Option.some.inj hf)
      exact ⟨rfl, fun _ hm => hm, fun hne => absurd rfl hne, fun m _ hm => ⟨hm, fun hne => absurd rfl hne⟩⟩

end

/-! ### What is mapped -/

/-- The entry of a page in the tables. -/
def slot (a : UInt64) : Nat := a.toNat / 2097152 % 2 ^ 27

/-- The slots of the lower half are a process's own. -/
def slotKey (context : Nat) (a : UInt64) : Nat × Nat :=
  (if slot a < 2 ^ 26 then context else 0, slot a)

/-- The place of the pointer table of a slot. -/
def ptrPlace (key : Nat × Nat) : Place := .pageDirPtrTable key.1 (key.2 / 2 ^ 18)

/-- The place of its page directory. -/
def dirPlace (key : Nat × Nat) : Place := .pageDir key.1 (key.2 / 2 ^ 18) (key.2 / 512 % 512)

/-- What is mapped, where the tables are, how often each physical page is mapped, and where new tables and
physical pages come from. -/
@[ext] structure Spaces where
  frames : Nat × Nat → Option Nat
  tables : Place → Option (BitVec 64)
  counters : Nat → BitVec 32
  pool : TablePool

/-- The physical pages. -/
abbrev Spaces.phys (s : Spaces) : PhysMem := s.pool.phys

/-- `mem_get_phys_addr`; zero is `nullptr`.  Of an address in a page that is not mapped it returns the
offset, if there is a page directory. -/
def Spaces.getPhysAddr (s : Spaces) (virtualAddr : UInt64) (context : Nat) : Nat :=
  match s.frames (slotKey context virtualAddr) with
  | some p => p + virtualAddr.toNat % 2097152
  | none =>
      if s.tables (dirPlace (slotKey context virtualAddr)) = none then 0 else virtualAddr.toNat % 2097152

/-- The address of a page: zero if it is not mapped. -/
theorem Spaces.getPhysAddr_page {s : Spaces} {a : UInt64} {c : Nat} (ha : a.toNat % 2097152 = 0) :
    s.getPhysAddr a c = (s.frames (slotKey c a)).getD 0 := by
  unfold getPhysAddr
  cases s.frames (slotKey c a) <;> simp [ha]

/-- The tables that a slot still needs. -/
def Spaces.missing (s : Spaces) (key : Nat × Nat) : Nat :=
  lacking (s.tables (ptrPlace key)) + lacking (s.tables (dirPlace key))

/-- There is a table at a place, and if there was none, it is a new one. -/
def Spaces.takeTable (place : Place) (s : Spaces) : Option Spaces :=
  (s.pool.tableFor (s.tables place)).map fun r =>
    { s with tables := update s.tables place (some r.1), pool := r.2 }

/-- There are the tables of a slot. -/
def Spaces.takeTables (key : Nat × Nat) (s : Spaces) : Option Spaces :=
  (s.takeTable (ptrPlace key)).bind (takeTable (dirPlace key))

/-- No table is in a physical page, nor will be. -/
structure Spaces.HoldsNoTable (s : Spaces) (n : Nat) : Prop where
  tables : ∀ place t, s.tables place = some t → t.toNat / sizeOfPage ≠ n
  next : s.pool.NotCarved n

/-- A page more is mapped. -/
def Spaces.withPage (s : Spaces) (physAddr : Nat) (virtAddr : UInt64) (context : Nat) : Spaces :=
  { s with
    frames := update s.frames (slotKey context virtAddr) (some physAddr)
    counters := countUse (physAddr / sizeOfPage % 2 ^ 32) s.counters }

@[simp] theorem Spaces.withPage_frames (s : Spaces) (p : Nat) (a : UInt64) (c : Nat) :
    (s.withPage p a c).frames = update s.frames (slotKey c a) (some p) := rfl

/-- A page can be mapped as far as its place goes: it is a whole page of a whole page, nothing is mapped there,
and the kernel's half gets no new pointer table. -/
structure Spaces.Mappable (s : Spaces) (physAddr : Nat) (virtAddr : UInt64) (context : Nat) : Prop where
  whole : physAddr % sizeOfPage = 0
  aligned : virtAddr.toNat % sizeOfPage = 0
  kernel : 2 ^ 63 ≤ virtAddr.toNat → s.tables (ptrPlace (slotKey context virtAddr)) ≠ none
  free : s.frames (slotKey context virtAddr) = none

instance (s : Spaces) (p : Nat) (a : UInt64) (c : Nat) : Decidable (s.Mappable p a c) :=
  decidable_of_iff (p % sizeOfPage = 0 ∧ a.toNat % sizeOfPage = 0 ∧
      (2 ^ 63 ≤ a.toNat → s.tables (ptrPlace (slotKey c a)) ≠ none) ∧ s.frames (slotKey c a) = none)
    ⟨fun h => ⟨h.1, h.2.1, h.2.2.1, h.2.2.2⟩, fun h => ⟨h.whole, h.aligned, h.kernel, h.free⟩⟩

/-- `mem_map_range` of one page. -/
def Spaces.mapPage (physAddr : Nat) (virtAddr : UInt64) (context : Nat) (s : Spaces) : Option Spaces :=
  if s.Mappable physAddr virtAddr context then
    (s.takeTables (slotKey context virtAddr)).map fun s => s.withPage physAddr virtAddr context
  else none

theorem Spaces.mapPage_eq_some {s s' : Spaces} {physAddr context : Nat} {virtAddr : UInt64} :
    s.mapPage physAddr virtAddr context = some s' ↔ s.Mappable physAddr virtAddr context ∧
      ∃ s₁, s.takeTables (slotKey context virtAddr) = some s₁ ∧
        s' = s₁.withPage physAddr virtAddr context := by
  unfold mapPage
  split
  next h =>
    rw [Option.map_eq_some_iff]
    exact ⟨fun ⟨s₁, hs₁, hs⟩ => ⟨h, s₁, hs₁, hs.symm⟩, fun ⟨_, s₁, hs₁, hs⟩ => ⟨s₁, hs₁, hs.symm⟩⟩
  next h => exact ⟨fun hs => (by cases hs), fun hs => absurd hs.1 h⟩

/-- A page less is mapped. -/
def Spaces.withoutPage (s : Spaces) (virtAddr : UInt64) (context : Nat) : Spaces :=
  { s with frames := update s.frames (slotKey context virtAddr) none }

@[simp] theorem Spaces.withoutPage_frames (s : Spaces) (a : UInt64) (c : Nat) :
    (s.withoutPage a c).frames = update s.frames (slotKey c a) none := rfl

/-- Physical pages have been handed out or given back. -/
def Spaces.withPhys (s : Spaces) (phys : PhysMem) : Spaces := { s with pool := s.pool.withPhys phys }

/-- Uses have been counted. -/
def Spaces.withCounters (s : Spaces) (counters : Nat → BitVec 32) : Spaces := { s with counters := counters }

/-- The second part of `mem_unmap_virtual_page`. -/
def Spaces.releaseUse (physAddr : Nat) (allowPhysPageFree : Bool) (s : Spaces) : Option Spaces :=
  if physAddr % sizeOfPage ≠ 0 then none
  else
    let counters := dropUse (physAddr / sizeOfPage % 2 ^ 32) s.counters
    if counters (physAddr / sizeOfPage % 2 ^ 32) = 0 ∧ allowPhysPageFree then
      (memDeallocatePhysicalPages physAddr 1 s.phys).map (s.withCounters counters).withPhys
    else some (s.withCounters counters)

/-- `mem_unmap_virtual_page`. -/
def Spaces.unmapPage (virtAddr : UInt64) (context : Nat) (allowPhysPageFree : Bool) (s : Spaces) :
    Option Spaces :=
  if s.getPhysAddr virtAddr context ≠ 0 then
    (s.withoutPage virtAddr context).releaseUse (s.getPhysAddr virtAddr context) allowPhysPageFree
  else some (s.withoutPage virtAddr context)

/-! ### The calls -/

/-- What the rest of the kernel asks of the mapping code. -/
inductive SpaceCall : Type → Type where
  | getPhysAddr (virtualAddr : UInt64) (context : Nat) : SpaceCall Nat
  | allocatePhysicalPage : SpaceCall Nat
  | deallocatePhysicalPage (physAddr : Nat) : SpaceCall Unit
  | mapPage (physAddr : Nat) (virtAddr : UInt64) (context : Nat) : SpaceCall Unit
  | unmapPage (virtAddr : UInt64) (context : Nat) (allowPhysPageFree : Bool) : SpaceCall Unit

/-- One call. -/
def Spaces.exec {β : Type} : SpaceCall β → Spaces → Option (β × Spaces)
  | .getPhysAddr a c, s => some (s.getPhysAddr a c, s)
  | .allocatePhysicalPage, s => (memAllocatePhysicalPages 1 s.phys).map fun r => (r.1, s.withPhys r.2)
  | .deallocatePhysicalPage p, s => (memDeallocatePhysicalPages p 1 s.phys).map fun phys => ((), s.withPhys phys)
  | .mapPage p a c, s => (s.mapPage p a c).map fun s => ((), s)
  | .unmapPage a c allow, s => (s.unmapPage a c allow).map fun s => ((), s)

/-- The calls, on address spaces. -/
def Spaces.calls : Handler SpaceCall Spaces := ⟨Spaces.exec⟩

@[simp] theorem Spaces.calls_exec {β : Type} (o : SpaceCall β) (s : Spaces) :
    Spaces.calls.exec o s = Spaces.exec o s := rfl

/-- The slot of the window. -/
def windowKey : Nat × Nat := (0, 2 ^ 27 - 1)

/-- A physical address that the tables can hold: of a page that can be handed out, or that is mapped. -/
def Spaces.Known (s : Spaces) (physAddr : Nat) : Prop :=
  (∃ n < memMaxSupportedPages, physAddr = sizeOfPage * n) ∨ ∃ key, s.frames key = some physAddr

/-- A call maps a page that memory has, gives back none with tables in it, and leaves the window alone. -/
def Spaces.Safe {β : Type} : SpaceCall β → Spaces → Prop
  | .mapPage p _ _, s => s.Known p
  | .deallocatePhysicalPage p, s => s.HoldsNoTable (p / sizeOfPage)
  | .unmapPage a c allow, s => slotKey c a ≠ windowKey ∧ (allow = true → s.getPhysAddr a c ≠ 0 →
      s.getPhysAddr a c % sizeOfPage = 0 → s.HoldsNoTable (s.getPhysAddr a c / sizeOfPage))
  | _, _ => True

section
variable {s s₁ : Spaces} {place q : Place} {key : Nat × Nat} {c n : Nat} {a : UInt64}

theorem slotKey_low (hlow : a.toNat < 2 ^ 47) : slotKey c a = (c, a.toNat / 2097152) := by
  have hslot : slot a = a.toNat / 2097152 := by
    unfold slot
    omega
  rw [slotKey, if_pos (by omega), hslot]

/-! ### Taking tables -/

theorem Spaces.takeTable_eq_some : s.takeTable place = some s₁ ↔
    ∃ t pool, s.pool.tableFor (s.tables place) = some (t, pool) ∧
      s₁ = { s with tables := update s.tables place (some t), pool := pool } := by
  rw [takeTable, Option.map_eq_some_iff]
  exact ⟨fun ⟨r, hr, hs⟩ => ⟨r.1, r.2, hr, hs.symm⟩, fun ⟨t, pool, hr, hs⟩ => ⟨(t, pool), hr, hs.symm⟩⟩

/-- The pool is in order, and no table is in a page that is free. -/
structure Spaces.InOrder (s : Spaces) : Prop where
  pool : s.pool.InOrder
  tables : ∀ place t, s.tables place = some t → t.toNat / sizeOfPage < memMaxSupportedPages →
    bit s.phys.alloc (t.toNat / sizeOfPage) = false

/-- What taking the tables of some slots changes. -/
structure Spaces.Takes (s s₁ : Spaces) : Prop where
  frames : s₁.frames = s.frames
  counters : s₁.counters = s.counters
  order : s₁.InOrder
  exist : s₁.phys.exist = s.phys.exist
  alloc : ∀ m, bit s₁.phys.alloc m = true → bit s.phys.alloc m = true
  noTable : ∀ m, bit s.phys.alloc m = false → s.HoldsNoTable m → s₁.HoldsNoTable m

theorem Spaces.InOrder.congr (h : s.InOrder) (htables : s₁.tables = s.tables) (hpool : s₁.pool = s.pool) :
    s₁.InOrder := by
  refine ⟨hpool ▸ h.pool, ?_⟩
  rw [htables, phys, hpool]
  exact h.tables

/-- A physical page is handed out. -/
theorem Spaces.InOrder.allocate {phys : PhysMem} {p : Nat} (h : s.InOrder)
    (ha : memAllocatePhysicalPages 1 s.phys = some (p, phys)) :
    (s.withPhys phys).InOrder ∧ (s.withPhys phys).pool.room + 512 = s.pool.room := by
  obtain ⟨hpool, hroom, n, -, -, -, -, hclear, -⟩ := h.pool.allocate ha
  refine ⟨⟨hpool, fun q u hu hlt => ?_⟩, hroom⟩
  show bit phys.alloc _ = false
  rw [hclear, bit_clearBit, h.tables q u hu hlt, Bool.and_false]

/-- A page without tables is given back. -/
theorem Spaces.InOrder.deallocate {phys : PhysMem} {p : Nat} (h : s.InOrder)
    (hno : s.HoldsNoTable (p / sizeOfPage)) (hd : memDeallocatePhysicalPages p 1 s.phys = some phys) :
    (s.withPhys phys).InOrder := by
  refine ⟨h.pool.deallocate hno.next hd, fun q u hu hlt => ?_⟩
  obtain ⟨n, -, rfl, -, -, rfl⟩ := memDeallocatePhysicalPages_eq_some.mp hd
  have hne := hno.tables q u hu
  rw [Nat.mul_div_cancel_left n (by decide)] at hne
  show bit (setBit s.phys.alloc n) _ = false
  rw [bit_setBit, h.tables q u hu hlt, Bool.or_false, decide_eq_false_iff_not]
  exact hne

/-- A page is unmapped, and its physical page given back if there is no table in it. -/
theorem Spaces.InOrder.unmapPage {allow : Bool} (h : s.InOrder) (hsafe : s.Safe (.unmapPage a c allow))
    (hs : s.unmapPage a c allow = some s₁) :
    s₁.InOrder ∧ s₁.frames = update s.frames (slotKey c a) none := by
  rw [Spaces.unmapPage] at hs
  split at hs
  next hne =>
    rw [releaseUse] at hs
    split at hs
    next => cases hs
    next hwhole =>
      dsimp only at hs
      split at hs
      next hzero =>
        obtain ⟨phys, hphys, rfl⟩ := Option.map_eq_some_iff.mp hs
        have hno := hsafe.2 hzero.2 hne (not_not.mp hwhole)
        exact ⟨(h.deallocate hno hphys).congr rfl rfl, rfl⟩
      next =>
        obtain rfl := Option.some.inj hs
        exact ⟨h.congr rfl rfl, rfl⟩
  next =>
    obtain rfl := Option.some.inj hs
    exact ⟨h.congr rfl rfl, rfl⟩

theorem Spaces.takeTable_takes (h : s.InOrder) (hs : s.takeTable place = some s₁) :
    s.Takes s₁ ∧ s₁.pool.room + lacking (s.tables place) = s.pool.room := by
  obtain ⟨t, pool, hpool, rfl⟩ := takeTable_eq_some.mp hs
  obtain ⟨horder, hroom⟩ := h.pool.tableFor hpool
  obtain ⟨hexist, hfree, hheld, hcarved⟩ := h.pool.tableFor_phys hpool
  -- a table is the new one, or it was there
  have hcases : ∀ q u, update s.tables place (some t) q = some u →
      (s.tables place ≠ some t ∧ u = t) ∨ ∃ q', s.tables q' = some u := by
    intro q u hu
    rw [update_apply] at hu
    split at hu
    next hq =>
      obtain rfl := Option.some.inj hu
      exact (em (s.tables place = some t)).elim (fun hold => .inr ⟨place, hold⟩) fun hnew => .inl ⟨hnew, rfl⟩
    next => exact .inr ⟨q, hu⟩
  refine ⟨⟨rfl, rfl, ⟨horder, fun q u hu hlt => ?_⟩, hexist, hfree, fun m hused hm => ?_⟩, hroom⟩
  · rcases hcases q u hu with ⟨hnew, rfl⟩ | ⟨q', hq'⟩
    · exact hheld hnew
    · by_contra hbit
      rw [Bool.not_eq_false] at hbit
      have hused := hfree _ hbit
      rw [h.tables q' u hq' hlt] at hused
      cases hused
  · obtain ⟨hnext, hnew⟩ := hcarved m hused hm.next
    refine ⟨fun q u hu => ?_, hnext⟩
    rcases hcases q u hu with ⟨hne, rfl⟩ | ⟨q', hq'⟩
    · exact hnew hne
    · exact hm.tables q' u hq'

theorem Spaces.takeTable_tables (hs : s.takeTable place = some s₁) :
    s₁.tables place ≠ none ∧ ∀ q, q ≠ place → s₁.tables q = s.tables q := by
  obtain ⟨t, pool, -, rfl⟩ := takeTable_eq_some.mp hs
  refine ⟨?_, fun q hq => update_of_ne hq ..⟩
  dsimp only
  rw [update_self]
  exact Option.some_ne_none t

theorem Spaces.Takes.trans {s₂ : Spaces} (h : s.Takes s₁) (h' : s₁.Takes s₂) : s.Takes s₂ where
  frames := h'.frames.trans h.frames
  counters := h'.counters.trans h.counters
  order := h'.order
  exist := h'.exist.trans h.exist
  alloc m hm := h.alloc m (h'.alloc m hm)
  noTable m hused hm := h'.noTable m (by
    by_contra hfree
    rw [Bool.not_eq_false] at hfree
    rw [h.alloc m hfree] at hused
    cases hused) (h.noTable m hused hm)

theorem dirPlace_ne_ptrPlace (key key' : Nat × Nat) : dirPlace key ≠ ptrPlace key' := by
  rw [dirPlace, ptrPlace]
  exact fun heq => by cases heq

/-- **The tables of a slot are taken** from the pool, as many as there are missing. -/
theorem Spaces.takeTables_takes (h : s.InOrder) (hs : s.takeTables key = some s₁) :
    s.Takes s₁ ∧ s₁.pool.room + s.missing key = s.pool.room := by
  obtain ⟨mid, hmid, hs⟩ := Option.bind_eq_some_iff.mp hs
  obtain ⟨htakes, hroom⟩ := takeTable_takes h hmid
  obtain ⟨htakes', hroom'⟩ := takeTable_takes htakes.order hs
  rw [(takeTable_tables hmid).2 _ (dirPlace_ne_ptrPlace key key)] at hroom'
  exact ⟨htakes.trans htakes', by rw [missing]; omega⟩

/-- They can be, if there is room for them. -/
theorem Spaces.takeTables_iff (h : s.InOrder) :
    (∃ s₁, s.takeTables key = some s₁) ↔ s.missing key ≤ s.pool.room := by
  constructor
  · rintro ⟨s₁, hs₁⟩
    have := (takeTables_takes h hs₁).2
    omega
  · intro hroom
    rw [missing] at hroom
    obtain ⟨t, pool, hpool⟩ := h.pool.tableFor_iff.mpr (Nat.le_of_add_right_le hroom)
    have hmid : s.takeTable (ptrPlace key) = some _ := takeTable_eq_some.mpr ⟨t, pool, hpool, rfl⟩
    obtain ⟨htakes, hroom'⟩ := takeTable_takes h hmid
    have hdir := (takeTable_tables hmid).2 _ (dirPlace_ne_ptrPlace key key)
    obtain ⟨u, pool', hpool'⟩ := htakes.order.pool.tableFor_iff.mpr
      (show lacking (s.tables (dirPlace key)) ≤ _ by omega)
    rw [← hdir] at hpool'
    exact ⟨_, Option.bind_eq_some_iff.mpr ⟨_, hmid, takeTable_eq_some.mpr ⟨u, pool', hpool', rfl⟩⟩⟩

theorem Spaces.takeTables_tables (hs : s.takeTables key = some s₁) :
    s₁.tables (ptrPlace key) ≠ none ∧ s₁.tables (dirPlace key) ≠ none ∧
      ∀ q, q ≠ ptrPlace key → q ≠ dirPlace key → s₁.tables q = s.tables q := by
  obtain ⟨mid, hmid, hs⟩ := Option.bind_eq_some_iff.mp hs
  obtain ⟨hptr, hothers⟩ := takeTable_tables hmid
  obtain ⟨hdir, hothers'⟩ := takeTable_tables hs
  refine ⟨?_, hdir, fun q hq hq' => (hothers' q hq').trans (hothers q hq)⟩
  rwa [hothers' _ (dirPlace_ne_ptrPlace key key).symm]

/-- The places of the tables of some slots. -/
def placesOf (keys : Finset (Nat × Nat)) : Finset Place := keys.image ptrPlace ∪ keys.image dirPlace

theorem placesOf_insert (keys : Finset (Nat × Nat)) :
    placesOf (insert key keys) = {ptrPlace key, dirPlace key} ∪ placesOf keys := by
  ext q
  simp only [placesOf, Finset.image_insert, Finset.mem_union, Finset.mem_insert, Finset.mem_singleton]
  tauto

/-- The tables that some slots need together, and that are not there. -/
def Spaces.tablesNeeded (s : Spaces) (keys : Finset (Nat × Nat)) : Nat :=
  ((placesOf keys).filter fun q => s.tables q = none).card

theorem Spaces.tablesNeeded_congr {s' : Spaces} (h : s'.tables = s.tables) (keys : Finset (Nat × Nat)) :
    s'.tablesNeeded keys = s.tablesNeeded keys := by
  rw [tablesNeeded, h]
  rfl

theorem Spaces.card_missing (s : Spaces) (key : Nat × Nat) :
    (({ptrPlace key, dirPlace key} : Finset Place).filter fun q => s.tables q = none).card = s.missing key := by
  rw [missing, lacking, lacking, Finset.filter_insert, Finset.filter_singleton]
  split
  · rw [Finset.card_insert_of_notMem]
    · split <;> rfl
    · split
      · exact fun hmem => dirPlace_ne_ptrPlace key key (Finset.mem_singleton.mp hmem).symm
      · exact Finset.notMem_empty _
  · split <;> rfl

/-- One slot needs no more tables than some with it. -/
theorem Spaces.missing_le (s : Spaces) (key : Nat × Nat) (keys : Finset (Nat × Nat)) :
    s.missing key ≤ s.tablesNeeded (insert key keys) := by
  rw [← card_missing, tablesNeeded, placesOf_insert]
  exact Finset.card_le_card (Finset.filter_subset_filter _ Finset.subset_union_left)

/-- Once a slot has its tables, the others need those that are left. -/
theorem Spaces.tablesNeeded_insert (hs : s.takeTables key = some s₁) (keys : Finset (Nat × Nat)) :
    s.tablesNeeded (insert key keys) = s.missing key + s₁.tablesNeeded keys := by
  obtain ⟨hptr, hdir, hothers⟩ := takeTables_tables hs
  have hleft : (placesOf keys).filter (fun q => s₁.tables q = none) =
      ((placesOf keys).filter fun q => s.tables q = none) \ {ptrPlace key, dirPlace key} := by
    ext q
    simp only [Finset.mem_filter, Finset.mem_sdiff, Finset.mem_insert, Finset.mem_singleton, not_or]
    constructor
    · rintro ⟨hq, hnone⟩
      have hne : q ≠ ptrPlace key ∧ q ≠ dirPlace key :=
        ⟨fun heq => hptr (heq ▸ hnone), fun heq => hdir (heq ▸ hnone)⟩
      exact ⟨⟨hq, hothers q hne.1 hne.2 ▸ hnone⟩, hne⟩
    · rintro ⟨⟨hq, hnone⟩, hne⟩
      exact ⟨hq, (hothers q hne.1 hne.2).trans hnone⟩
  rw [tablesNeeded, tablesNeeded, placesOf_insert, Finset.filter_union, hleft, ← card_missing,
    ← Finset.union_sdiff_self_eq_union, Finset.card_union_of_disjoint Finset.disjoint_sdiff]
  congr 2
  ext q
  simp only [Finset.mem_sdiff, Finset.mem_filter, Finset.mem_insert, Finset.mem_singleton]
  tauto

end

end Azalea.Mem
