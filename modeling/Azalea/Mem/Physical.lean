import Azalea.Mem.Vmm
import Azalea.Support.Bitmaps
import Azalea.Support.Runs

/-!
# Mem — physical pages

`mem/physical.cpp`, and `mem_gen_phys_pages_bitmap` of `mem/x64/mem-x64.cpp`.  A page that is free
has a 1 in `phys_pages_alloc_bitmap`, a page that can be used one in `phys_pages_exist_bitmap`; both
bitmaps count pages from the top bit of each word.  An `ASSERT` that fails or a `panic` is `none`.

* `physical_pages_owned`: pages are handed out that exist and that nobody holds, as long as there
  are any, and giving the last one back undoes its allocation.
-/

namespace Azalea.Mem
open Azalea.Bitmaps Azalea.Runs Function

/-- `SIZE_OF_PAGE`. -/
def sizeOfPage : Nat := 2097152

/-- `MEM_MAX_SUPPORTED_PAGES`. -/
def memMaxSupportedPages : Nat := 2048

/-- `phys_pages_alloc_bitmap`, `phys_pages_exist_bitmap` and `free_pages`. -/
structure PhysMem where
  alloc : Words
  exist : Words
  freePages : Nat

/-- `mem_set_bitmap_page_bit`. -/
def memSetBitmapPageBit (pageAddr : Nat) (ignoreChecks : Bool) (s : PhysMem) : Option PhysMem :=
  let page := pageAddr / sizeOfPage
  if page < memMaxSupportedPages then
    if ignoreChecks ∨ s.exist (page / 64) &&& mask (page % 64) ≠ 0 then
      some { s with alloc := setBit s.alloc page }
    else none
  else none

/-- `mem_clear_bitmap_page_bit`. -/
def memClearBitmapPageBit (pageAddr : Nat) (ignoreChecks : Bool) (s : PhysMem) : Option PhysMem :=
  let page := pageAddr / sizeOfPage
  if page < memMaxSupportedPages then
    if ignoreChecks ∨ s.exist (page / 64) &&& mask (page % 64) ≠ 0 then
      some { s with alloc := clearBit s.alloc page }
    else none
  else none

/-- `mem_is_bitmap_page_bit_set`. -/
def memIsBitmapPageBitSet (pageAddr : Nat) (s : PhysMem) : Option Bool :=
  let page := pageAddr / sizeOfPage
  if page < memMaxSupportedPages then some (s.alloc (page / 64) &&& mask (page % 64) != 0)
  else none

/-! ### The memory map -/

/-- `e820_record`. -/
structure E820Record where
  startAddr : UInt64
  length : UInt64
  memoryType : UInt32
  deriving Repr, DecidableEq

/-- The pages of one record, except page zero. -/
def markPages (startAddr : UInt64) : Nat → PhysMem → Option PhysMem
  | 0, s => some s
  | n + 1, s => do
      let s ← if startAddr ≠ 0 then memSetBitmapPageBit startAddr.toNat true s else some s
      markPages (startAddr + memPageSize) n s

/-- One record: its whole pages, if it is usable memory. -/
def markRecord (r : E820Record) (s : PhysMem) : Option PhysMem :=
  if r.memoryType = 1 then
    let startAddr :=
      if r.startAddr % memPageSize ≠ 0 then
        r.startAddr + memPageSize - r.startAddr % memPageSize
      else r.startAddr
    let endAddr := r.startAddr + r.length
    let endAddr := if endAddr % memPageSize ≠ 0 then endAddr - endAddr % memPageSize else endAddr
    if endAddr > startAddr then markPages startAddr ((endAddr - startAddr) / memPageSize).toNat s
    else some s
  else some s

/-- The loop over the records, up to one that is all zero. -/
def markRecords (table : Nat → E820Record) : Nat → Nat → PhysMem → Option PhysMem
  | _, 0, s => some s
  | k, n + 1, s =>
      if (table k).startAddr ≠ 0 ∨ (table k).length ≠ 0 ∨ (table k).memoryType ≠ 0 then do
        let s ← markRecord (table k) s
        markRecords table (k + 1) n s
      else some s

/-- `mem_gen_phys_pages_bitmap`.  A record has 24 bytes, and one is looked at as long as
`bytes_read < table_length`. -/
def memGenPhysPagesBitmap (table : Nat → E820Record) (tableLength : Nat) (s : PhysMem) :
    Option PhysMem :=
  if tableLength ≥ 24 then
    markRecords table 0 ((tableLength + 23) / 24) { s with alloc := fun _ => 0 }
  else none

/-- The bits of one word, from the low bit up. -/
def countWord (w : BitVec 64) (m : BitVec 64) : Nat → Nat
  | 0 => 0
  | n + 1 => (if w &&& m ≠ 0 then 1 else 0) + countWord w (m <<< 1) n

/-- The free pages of the first words. -/
def countWords (ws : Words) : Nat → Nat
  | 0 => 0
  | n + 1 => countWords ws n + countWord (ws n) 1 64

/-- The pages of the kernel's image are not free. -/
def clearKernelPages : Nat → PhysMem → Option PhysMem
  | 0, s => some s
  | n + 1, s => do
      let s ← clearKernelPages n s
      memClearBitmapPageBit (n * sizeOfPage) true s

/-- `mem_init_gen_phys_sys`, on variables that are zero. -/
def memInitGenPhysSys (table : Nat → E820Record) (tableLength : Nat) : Option PhysMem := do
  let s ← memGenPhysPagesBitmap table tableLength ⟨fun _ => 0, fun _ => 0, 0⟩
  let s ← clearKernelPages memNumKernelPages.toNat s
  let freePages := countWords s.alloc (memMaxSupportedPages / 64)
  if freePages > 0 then some ⟨s.alloc, s.alloc, freePages⟩ else none

/-! ### Allocation -/

/-- The loops of `mem_allocate_physical_pages`: the first page that is free, as its word, its bit
and the mask of this bit. -/
def scanWords (ws : Words) : Nat → Nat → Option (Nat × Nat × BitVec 64)
  | _, 0 => none
  | i, n + 1 =>
      match scanMask (fun m => ws i &&& m != 0) 0 (mask 0) 64 with
      | some (j, m) => some (i, j, m)
      | none => scanWords ws (i + 1) n

/-- `mem_allocate_physical_pages`. -/
def memAllocatePhysicalPages (numPages : UInt32) (s : PhysMem) : Option (Nat × PhysMem) :=
  if numPages ≠ 1 ∨ s.freePages = 0 then none
  else
    match scanWords s.alloc 0 (memMaxSupportedPages / 64) with
    | none => none
    | some (i, j, m) =>
        if s.exist i &&& m = 0 then none
        else
          some (sizeOfPage * (64 * i + j),
            { s with
              alloc := update s.alloc i (s.alloc i &&& ~~~m)
              freePages := s.freePages - 1 })

/-- `mem_deallocate_physical_pages`. -/
def memDeallocatePhysicalPages (start : Nat) (numPages : UInt32) (s : PhysMem) : Option PhysMem :=
  if numPages ≠ 1 ∨ start % sizeOfPage ≠ 0 then none
  else do
    let isSet ← memIsBitmapPageBitSet start s
    if isSet then none
    else
      let s ← memSetBitmapPageBit start false s
      some { s with freePages := s.freePages + 1 }

/-! ### The bits -/

section
variable {ws : Words} {i j n k : Nat} {m w : BitVec 64}

theorem and_mask_ne (hj : j < 64) : (w &&& mask j != 0) = w.getMsbD j := by
  rw [Bool.eq_iff_iff, bne_iff_ne, ne_eq, and_mask_eq_zero hj, Bool.not_eq_false]

/-- The scan finds the first free page. -/
theorem scanWords_eq_some (h : scanWords ws i n = some (k, j, m)) :
    i ≤ k ∧ k < i + n ∧ j < 64 ∧ m = mask j ∧ bit ws (64 * k + j) = true := by
  induction n generalizing i with
  | zero => cases h
  | succ n ih =>
      rw [scanWords] at h
      cases hs : scanMask (fun m => ws i &&& m != 0) 0 (mask 0) 64 with
      | none =>
          rw [hs] at h
          obtain ⟨h₁, h₂, h₃⟩ := ih h
          exact ⟨by omega, by omega, h₃⟩
      | some r =>
          rw [hs] at h
          obtain ⟨rfl, rfl⟩ : i = k ∧ r = (j, m) := by simpa using h
          obtain ⟨-, hj, hm, hfound, -⟩ := scanMask_eq_some.mp hs
          rw [Nat.zero_add] at hj
          rw [and_mask_ne hj] at hfound
          exact ⟨Nat.le_refl _, by omega, hj, hm, (bit_at hj).trans hfound⟩

theorem scanWords_eq_none (h : scanWords ws i n = none) (hk : 64 * i ≤ k) (hn : k < 64 * (i + n)) :
    bit ws k = false := by
  induction n generalizing i with
  | zero => omega
  | succ n ih =>
      rw [scanWords] at h
      cases hs : scanMask (fun m => ws i &&& m != 0) 0 (mask 0) 64 with
      | some r => rw [hs] at h; cases h
      | none =>
          rw [hs] at h
          by_cases hki : k < 64 * (i + 1)
          · have hj : k - 64 * i < 64 := by omega
            have hnone := scanMask_eq_none.mp hs (k - 64 * i) (Nat.zero_le _) (by omega)
            rw [and_mask_ne hj] at hnone
            rw [show k = 64 * i + (k - 64 * i) by omega, bit_at hj, hnone]
          · exact ih h (by omega) (by omega)

theorem countWord_eq (hn : j + n ≤ 64) :
    countWord w (BitVec.twoPow 64 j) n = Nat.count (fun k => w.getLsbD (j + k) = true) n := by
  induction n generalizing j with
  | zero => rfl
  | succ n ih =>
      have hshift : BitVec.twoPow 64 j <<< 1 = BitVec.twoPow 64 (j + 1) := by
        rw [BitVec.twoPow_eq, BitVec.twoPow_eq, BitVec.shiftLeft_add]
      have hbit : w &&& BitVec.twoPow 64 j ≠ 0 ↔ w.getLsbD (j + 0) = true := by
        rw [BitVec.and_twoPow]
        by_cases hw : w.getLsbD j = true
        · have hpow : BitVec.twoPow 64 j ≠ 0#64 := fun h0 => by
            have := congrArg (fun x : BitVec 64 => x.getLsbD j) h0
            simp [show j < 64 by omega] at this
          simp [hw, hpow]
        · simp [hw]
      rw [countWord, hshift, ih (by omega), Nat.count_succ', Nat.add_comm]
      simp only [hbit, show ∀ k, j + 1 + k = j + (k + 1) by omega]

/-- Counting from the low bit up or from the top bit down. -/
theorem countWord_one : countWord w 1 64 = Nat.count (fun k => w.getMsbD k = true) 64 := by
  have h := countWord_eq (w := w) (j := 0) (n := 64) (by decide)
  rw [show BitVec.twoPow 64 0 = 1 by decide] at h
  rw [h, Nat.count_eq_card_filter_range, Nat.count_eq_card_filter_range]
  refine Finset.card_nbij' (63 - ·) (63 - ·) ?_ ?_ ?_ ?_
  · intro k hk
    have hk := Finset.mem_filter.mp hk
    have hlt := Finset.mem_range.mp hk.1
    refine Finset.mem_filter.mpr ⟨Finset.mem_range.mpr (by dsimp only; omega), ?_⟩
    rw [BitVec.getMsbD_eq_getLsbD]
    simpa [show 63 - (63 - k) = k by omega, show 63 - k < 64 by omega] using hk.2
  · intro k hk
    have hk := Finset.mem_filter.mp hk
    have hlt := Finset.mem_range.mp hk.1
    refine Finset.mem_filter.mpr ⟨Finset.mem_range.mpr (by dsimp only; omega), ?_⟩
    have hbit := hk.2
    rw [BitVec.getMsbD_eq_getLsbD] at hbit
    simpa [hlt] using hbit
  · intro k hk
    have hlt := Finset.mem_range.mp (Finset.mem_filter.mp hk).1
    dsimp only
    omega
  · intro k hk
    have hlt := Finset.mem_range.mp (Finset.mem_filter.mp hk).1
    dsimp only
    omega

theorem countWords_eq : countWords ws n = count ws (64 * n) := by
  induction n with
  | zero => rfl
  | succ n ih =>
      rw [countWords, ih, countWord_one, Nat.mul_succ, count, count, Nat.count_add]
      congr 1
      rw [Nat.count_eq_card_filter_range, Nat.count_eq_card_filter_range]
      refine congrArg Finset.card (Finset.filter_congr fun k hk => ?_)
      rw [bit_at (Finset.mem_range.mp hk)]

end

/-! ### What the calls do -/

/-- Free pages exist and are counted, and the kernel's own pages are not among those that exist. -/
structure PhysMem.Ok (s : PhysMem) : Prop where
  sub : ∀ p < memMaxSupportedPages, bit s.alloc p = true → bit s.exist p = true
  kernel : ∀ p < memNumKernelPages.toNat, bit s.exist p = false
  count : s.freePages = Bitmaps.count s.alloc memMaxSupportedPages

section
variable {s s' : PhysMem} {p start : Nat} {table : Nat → E820Record} {tableLength : Nat}

theorem clearKernelPages_bit {n : Nat} (h : clearKernelPages n s = some s') (hp : p < n) :
    bit s'.alloc p = false := by
  induction n generalizing s' with
  | zero => omega
  | succ n ih =>
      rw [clearKernelPages] at h
      obtain ⟨s₁, h₁, h⟩ := Option.bind_eq_some_iff.mp h
      rw [memClearBitmapPageBit, Nat.mul_div_cancel _ (by decide : 0 < sizeOfPage)] at h
      split at h
      next =>
        simp only [true_or, if_true, Option.some.injEq] at h
        rw [← h]
        dsimp only
        rw [bit_clearBit]
        by_cases hpn : p = n
        · simp [hpn]
        · simp [ih h₁ (by omega)]
      next => cases h

/-- **`mem_init_gen_phys_sys`.** -/
theorem memInitGenPhysSys_ok (h : memInitGenPhysSys table tableLength = some s) :
    s.Ok ∧ s.exist = s.alloc := by
  rw [memInitGenPhysSys] at h
  obtain ⟨s₁, -, h⟩ := Option.bind_eq_some_iff.mp h
  obtain ⟨s₂, h₂, h⟩ := Option.bind_eq_some_iff.mp h
  dsimp only at h
  split at h
  next =>
    rw [Option.some.injEq] at h
    subst h
    exact ⟨⟨fun _ _ hp => hp, fun _ hp => clearKernelPages_bit h₂ hp, countWords_eq⟩, rfl⟩
  next => cases h

/-- A page is taken. -/
theorem PhysMem.Ok.take (h : s.Ok) (hp : p < memMaxSupportedPages) (hbit : bit s.alloc p = true) :
    PhysMem.Ok { s with alloc := clearBit s.alloc p, freePages := s.freePages - 1 } := by
  refine ⟨fun q hq hq' => ?_, h.kernel, ?_⟩
  · rw [bit_clearBit, Bool.and_eq_true] at hq'
    exact h.sub q hq hq'.2
  · have hcount := h.count
    rw [count_clearBit hp hbit] at hcount
    dsimp only
    omega

/-- A page is given back. -/
theorem PhysMem.Ok.giveBack (h : s.Ok) (hp : p < memMaxSupportedPages)
    (hbit : bit s.alloc p = false) (hexist : bit s.exist p = true) :
    PhysMem.Ok { s with alloc := setBit s.alloc p, freePages := s.freePages + 1 } := by
  refine ⟨fun q hq hq' => ?_, h.kernel, ?_⟩
  · rw [bit_setBit, Bool.or_eq_true, decide_eq_true_eq] at hq'
    rcases hq' with rfl | hq'
    · exact hexist
    · exact h.sub q hq hq'
  · rw [count_setBit hp hbit, h.count]

/-- **`mem_allocate_physical_pages`** takes a free page, if there is one. -/
theorem memAllocatePhysicalPages_eq (h : s.Ok) (hfree : 0 < s.freePages) :
    ∃ p < memMaxSupportedPages, bit s.alloc p = true ∧
      memAllocatePhysicalPages 1 s = some (sizeOfPage * p,
        { s with alloc := clearBit s.alloc p, freePages := s.freePages - 1 }) := by
  rw [memAllocatePhysicalPages, if_neg (by simp; omega)]
  cases hs : scanWords s.alloc 0 (memMaxSupportedPages / 64) with
  | none =>
      rw [h.count, count_pos_iff] at hfree
      obtain ⟨p, hp, hbit⟩ := hfree
      rw [scanWords_eq_none hs (by omega) (by simpa [memMaxSupportedPages] using hp)] at hbit
      cases hbit
  | some r =>
      obtain ⟨i, j, m⟩ := r
      obtain ⟨-, hi, hj, rfl, hbit⟩ := scanWords_eq_some hs
      have hp : 64 * i + j < memMaxSupportedPages := by
        rw [memMaxSupportedPages] at hi ⊢
        omega
      have hexist := h.sub _ hp hbit
      rw [bit_at hj] at hexist
      have hne : s.exist i &&& mask j ≠ 0 := fun h0 => by
        rw [(and_mask_eq_zero hj).mp h0] at hexist
        cases hexist
      refine ⟨64 * i + j, hp, hbit, ?_⟩
      dsimp only
      rw [if_neg hne, clearBit, show (64 * i + j) / 64 = i by omega,
        show (64 * i + j) % 64 = j by omega]

/-- There is nothing to hand out when no page is free. -/
theorem memAllocatePhysicalPages_none (hfree : s.freePages = 0) :
    memAllocatePhysicalPages 1 s = none := by
  rw [memAllocatePhysicalPages, if_pos (Or.inr hfree)]

theorem memAllocatePhysicalPages_freePages {m m' : PhysMem}
    (h : memAllocatePhysicalPages 1 m = some (p, m')) : m'.freePages + 1 = m.freePages := by
  rw [memAllocatePhysicalPages] at h
  split at h
  next => cases h
  next hne =>
    split at h
    next => cases h
    next =>
      split at h
      next => cases h
      next =>
        obtain ⟨-, rfl⟩ := Prod.mk.inj (Option.some.inj h)
        have : m.freePages ≠ 0 := fun h0 => hne (.inr h0)
        dsimp only
        omega

/-- **`mem_deallocate_physical_pages`** takes back a page that exists and is not free. -/
theorem memDeallocatePhysicalPages_eq_some :
    memDeallocatePhysicalPages start 1 s = some s' ↔
      ∃ p < memMaxSupportedPages, start = sizeOfPage * p ∧ bit s.alloc p = false ∧
        bit s.exist p = true ∧
        s' = { s with alloc := setBit s.alloc p, freePages := s.freePages + 1 } := by
  have hmod (p : Nat) : p % 64 < 64 := Nat.mod_lt _ (by decide)
  constructor
  · intro h
    rw [memDeallocatePhysicalPages] at h
    split at h
    next => cases h
    next hstart =>
      obtain ⟨isSet, hset, h⟩ := Option.bind_eq_some_iff.mp h
      rw [memIsBitmapPageBitSet] at hset
      split at hset
      next hp =>
        rw [and_mask_ne (hmod _), Option.some.injEq] at hset
        subst hset
        split at h
        next => cases h
        next hbit =>
          rw [memSetBitmapPageBit, if_pos hp] at h
          by_cases hexist : s.exist (start / sizeOfPage / 64) &&& mask (start / sizeOfPage % 64) = 0
          · simp [hexist] at h
          · rw [if_pos (Or.inr hexist)] at h
            refine ⟨start / sizeOfPage, hp, ?_, Bool.not_eq_true _ ▸ hbit, ?_, ?_⟩
            · simp only [ne_eq, not_true_eq_false, false_or, not_not] at hstart
              exact (Nat.mul_div_cancel' (Nat.dvd_of_mod_eq_zero hstart)).symm
            · rw [and_mask_eq_zero (hmod _), Bool.not_eq_false] at hexist
              exact hexist
            · exact (Option.some.inj h).symm
      next => cases hset
  · rintro ⟨p, hp, rfl, hbit, hexist, rfl⟩
    have hdiv : sizeOfPage * p / sizeOfPage = p := Nat.mul_div_cancel_left _ (by decide)
    rw [memDeallocatePhysicalPages, if_neg (by simp), memIsBitmapPageBitSet, hdiv, if_pos hp,
      and_mask_ne (hmod p), memSetBitmapPageBit, hdiv, if_pos hp]
    have hne : s.exist (p / 64) &&& mask (p % 64) ≠ 0 := fun h0 => by
      rw [bit, (and_mask_eq_zero (hmod p)).mp h0] at hexist
      cases hexist
    rw [bit] at hbit
    rw [if_pos (Or.inr hne), Option.bind_eq_bind, Option.bind_some, hbit]
    rfl

end

/-! ### Runs -/

/-- The calls for single pages. -/
inductive PhysOp where
  | allocate
  | deallocate (start : Nat)

/-- The bitmaps, and the pages handed out and not taken back.  No function of the source reads
these. -/
structure PhysRun where
  mem : PhysMem
  held : List Nat

/-- One call. -/
def PhysRun.step (r : PhysRun) : PhysOp → Option PhysRun
  | .allocate => do
      let (addr, mem) ← memAllocatePhysicalPages 1 r.mem
      some ⟨mem, addr :: r.held⟩
  | .deallocate start => do
      let mem ← memDeallocatePhysicalPages start 1 r.mem
      some ⟨mem, r.held.erase start⟩

/-- The pages held are those that exist and are not free. -/
structure PhysRun.Ok (r : PhysRun) : Prop where
  mem : r.mem.Ok
  nodup : r.held.Nodup
  held : ∀ addr, addr ∈ r.held ↔ ∃ p < memMaxSupportedPages, addr = sizeOfPage * p ∧
    bit r.mem.exist p = true ∧ bit r.mem.alloc p = false

section
variable {r r' : PhysRun} {mem : PhysMem} {p q : Nat}

theorem sizeOfPage_mul_inj (h : sizeOfPage * p = sizeOfPage * q) : p = q :=
  Nat.eq_of_mul_eq_mul_left (by decide) h

/-- A page that is free is not held. -/
theorem PhysRun.Ok.not_held (h : r.Ok) (hbit : bit r.mem.alloc p = true) :
    sizeOfPage * p ∉ r.held := fun hmem => by
  obtain ⟨q, -, hq, -, hfree⟩ := (h.held _).mp hmem
  rw [sizeOfPage_mul_inj hq, hfree] at hbit
  cases hbit

theorem PhysRun.Ok.allocate (h : r.Ok) (hp : p < memMaxSupportedPages)
    (hbit : bit r.mem.alloc p = true) :
    PhysRun.Ok ⟨{ r.mem with alloc := clearBit r.mem.alloc p, freePages := r.mem.freePages - 1 },
      sizeOfPage * p :: r.held⟩ where
  mem := h.mem.take hp hbit
  nodup := List.nodup_cons.mpr ⟨h.not_held hbit, h.nodup⟩
  held := fun addr => by
    rw [List.mem_cons, h.held]
    constructor
    · rintro (rfl | ⟨q, hq, rfl, he, hf⟩)
      · exact ⟨p, hp, rfl, h.mem.sub p hp hbit, by rw [bit_clearBit]; simp⟩
      · exact ⟨q, hq, rfl, he, by rw [bit_clearBit, hf, Bool.and_false]⟩
    · rintro ⟨q, hq, rfl, he, hf⟩
      rw [bit_clearBit] at hf
      by_cases hqp : q = p
      · exact Or.inl (hqp ▸ rfl)
      · exact Or.inr ⟨q, hq, rfl, he, by simpa [hqp] using hf⟩

theorem PhysRun.Ok.deallocate (h : r.Ok) (hp : p < memMaxSupportedPages)
    (hbit : bit r.mem.alloc p = false) (hexist : bit r.mem.exist p = true) :
    PhysRun.Ok ⟨{ r.mem with alloc := setBit r.mem.alloc p, freePages := r.mem.freePages + 1 },
      r.held.erase (sizeOfPage * p)⟩ where
  mem := h.mem.giveBack hp hbit hexist
  nodup := h.nodup.erase _
  held := fun addr => by
    rw [h.nodup.mem_erase_iff, h.held]
    constructor
    · rintro ⟨hne, q, hq, rfl, he, hf⟩
      have hqp : q ≠ p := fun hqp => hne (hqp ▸ rfl)
      exact ⟨q, hq, rfl, he, by rw [bit_setBit, hf]; simp [hqp]⟩
    · rintro ⟨q, hq, rfl, he, hf⟩
      rw [bit_setBit, Bool.or_eq_false_iff, decide_eq_false_iff_not] at hf
      exact ⟨fun heq => hf.1 (sizeOfPage_mul_inj heq), q, hq, rfl, he, hf.2⟩

/-- What one call keeps. -/
theorem PhysRun.Ok.step (h : r.Ok) {op : PhysOp} (hstep : r.step op = some r') : r'.Ok := by
  cases op with
  | allocate =>
      obtain ⟨a, ha, hstep⟩ := Option.bind_eq_some_iff.mp hstep
      rcases Nat.eq_zero_or_pos r.mem.freePages with h0 | hpos
      · rw [memAllocatePhysicalPages_none h0] at ha
        cases ha
      · obtain ⟨p, hp, hbit, hok⟩ := memAllocatePhysicalPages_eq h.mem hpos
        rw [hok] at ha
        cases ha
        cases hstep
        exact h.allocate hp hbit
  | deallocate start =>
      obtain ⟨mem, hmem, hstep⟩ := Option.bind_eq_some_iff.mp hstep
      obtain ⟨p, hp, rfl, hbit, hexist, rfl⟩ := memDeallocatePhysicalPages_eq_some.mp hmem
      cases hstep
      exact h.deallocate hp hbit hexist

/-- At the start nothing is held. -/
theorem memInitGenPhysSys_run {table : Nat → E820Record} {tableLength : Nat}
    (h : memInitGenPhysSys table tableLength = some mem) : PhysRun.Ok ⟨mem, []⟩ := by
  obtain ⟨hok, hexist⟩ := memInitGenPhysSys_ok h
  refine ⟨hok, List.nodup_nil, fun addr => ⟨fun hmem => (by cases hmem), ?_⟩⟩
  rintro ⟨p, -, -, he, hf⟩
  dsimp only at he hf
  rw [hexist, hf] at he
  cases he

end

/-- **Physical pages have one owner.**  In every state of a run the free pages exist and are
counted, and a page is handed out exactly when one is free.  It exists, is not one of the kernel's,
is not held, and giving it back at once restores the state. -/
theorem physical_pages_owned {table : Nat → E820Record} {tableLength : Nat} {mem : PhysMem}
    {r : PhysRun} (hinit : memInitGenPhysSys table tableLength = some mem)
    (hrun : Reach PhysRun.step anyInput ⟨mem, []⟩ r) :
    (∀ p < memMaxSupportedPages, bit r.mem.alloc p = true → bit r.mem.exist p = true) ∧
      r.mem.freePages = count r.mem.alloc memMaxSupportedPages ∧
      ((memAllocatePhysicalPages 1 r.mem).isSome = true ↔ 0 < r.mem.freePages) ∧
      ∀ addr mem', memAllocatePhysicalPages 1 r.mem = some (addr, mem') →
        (∃ p < memMaxSupportedPages, addr = sizeOfPage * p ∧ bit r.mem.exist p = true ∧
          memNumKernelPages.toNat ≤ p) ∧
        addr ∉ r.held ∧ memDeallocatePhysicalPages addr 1 mem' = some r.mem := by
  have h : r.Ok :=
    hrun.invariant (memInitGenPhysSys_run hinit) fun _ _ _ hok _ hstep => hok.step hstep
  refine ⟨h.mem.sub, h.mem.count, ?_, fun addr mem' hadd => ?_⟩
  · rcases Nat.eq_zero_or_pos r.mem.freePages with h0 | hpos
    · simp [memAllocatePhysicalPages_none h0, h0]
    · obtain ⟨p, -, -, hok⟩ := memAllocatePhysicalPages_eq h.mem hpos
      simp [hok, hpos]
  · rcases Nat.eq_zero_or_pos r.mem.freePages with h0 | hpos
    · rw [memAllocatePhysicalPages_none h0] at hadd
      cases hadd
    · obtain ⟨p, hp, hbit, hok⟩ := memAllocatePhysicalPages_eq h.mem hpos
      rw [hok] at hadd
      cases hadd
      have hexist := h.mem.sub p hp hbit
      refine ⟨⟨p, hp, rfl, hexist, Nat.le_of_not_lt fun hlt => ?_⟩, h.not_held hbit, ?_⟩
      · rw [h.mem.kernel p hlt] at hexist
        cases hexist
      · refine memDeallocatePhysicalPages_eq_some.mpr ⟨p, hp, rfl, ?_, hexist, ?_⟩
        · rw [bit_clearBit]
          simp
        · dsimp only
          rw [setBit_clearBit hbit, Nat.sub_add_cancel hpos]

/-- A memory map of 16MB. -/
def smallMap : Nat → E820Record
  | 0 => ⟨0, 0x1000000, 1⟩
  | _ => ⟨0, 0, 0⟩

/-- On 16MB, after one allocation. -/
theorem physical_pages_owned_16MB :
    ∃ mem r, memInitGenPhysSys smallMap 24 = some mem ∧
      run PhysRun.step anyInput ⟨mem, []⟩ [.allocate] = some r ∧
      r.mem.freePages = count r.mem.alloc memMaxSupportedPages := by
  have hmem : ((memInitGenPhysSys smallMap 24).bind fun mem =>
      run PhysRun.step anyInput ⟨mem, []⟩ [.allocate]).isSome = true := by decide +kernel
  obtain ⟨r, hr⟩ := Option.isSome_iff_exists.mp hmem
  obtain ⟨mem, hinit, hrun⟩ := Option.bind_eq_some_iff.mp hr
  exact ⟨mem, r, hinit, hrun, (physical_pages_owned hinit (Reach.run .refl hrun)).2.1⟩

end Azalea.Mem
