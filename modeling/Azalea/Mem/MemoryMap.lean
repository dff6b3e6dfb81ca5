import Azalea.Mem.Physical

/-!
# Mem — the memory map

`mem_gen_phys_pages_bitmap` (`mem/x64/mem-x64.cpp`), for a table of any length and records in any order,
that overlap or not.

* `memGenPhysPagesBitmap_iff`: a page is marked if it lies wholly inside a usable record, and a page above
  those supported stops the kernel.  Records of other types are passed over: a page is marked also when
  one of them covers it (`memGenPhysPagesBitmap_overlap`).
* A record for which the end of the range, or its start when it is rounded up, is beyond 64 bits is left
  out.
-/

namespace Azalea.Mem
open Azalea.Bitmaps

namespace E820Record

/-- The loop ends at such a record. -/
def IsZero (r : E820Record) : Prop := r.startAddr = 0 ∧ r.length = 0 ∧ r.memoryType = 0

/-- The page lies wholly inside the record's range. -/
def Contains (r : E820Record) (page : Nat) : Prop :=
  r.startAddr.toNat ≤ sizeOfPage * page ∧
    sizeOfPage * (page + 1) ≤ r.startAddr.toNat + r.length.toNat

/-- The range ends below 2^64, and so does the start when it is rounded up to a page. -/
def Fits (r : E820Record) : Prop :=
  r.startAddr.toNat + r.length.toNat < 2 ^ 64 ∧ r.startAddr.toNat ≤ 2 ^ 64 - sizeOfPage

instance (r : E820Record) : Decidable r.IsZero := inferInstanceAs (Decidable (_ ∧ _))
instance (r : E820Record) (page : Nat) : Decidable (r.Contains page) := inferInstanceAs (Decidable (_ ∧ _))
instance (r : E820Record) : Decidable r.Fits := inferInstanceAs (Decidable (_ ∧ _))

end E820Record

/-- A record that begins inside the table, and that is not after one that is all zero. -/
def Examined (table : Nat → E820Record) (tableLength k : Nat) : Prop :=
  24 * k < tableLength ∧ ∀ j ≤ k, ¬ (table j).IsZero

/-- `o` is what marking the pages of `P` in `s` comes to: page zero is left alone, and a page that is
not supported stops the kernel. -/
structure Marks (o : Option PhysMem) (s : PhysMem) (P : Nat → Prop) : Prop where
  stops : o = none ↔ ∃ page, P page ∧ memMaxSupportedPages ≤ page
  marked : ∀ s', o = some s' → ∀ page,
    bit s'.alloc page = true ↔ bit s.alloc page = true ∨ page ≠ 0 ∧ P page

section

variable {o : Option PhysMem} {s : PhysMem} {P Q : Nat → Prop}

theorem Marks.congr (h : Marks o s P) (hPQ : ∀ page, P page ↔ Q page) : Marks o s Q :=
  (funext fun page => propext (hPQ page) : P = Q) ▸ h

theorem Marks.none_of (h : ∀ page, ¬ P page) : Marks (some s) s P where
  stops := iff_of_false (Option.some_ne_none _) fun ⟨page, hpage, _⟩ => h page hpage
  marked := by
    rintro _ ⟨⟩ page
    rw [or_iff_left fun hpage => h page hpage.2]

theorem Marks.bind {f : PhysMem → Option PhysMem} (h : Marks o s P)
    (hf : ∀ s', o = some s' → Marks (f s') s' Q) : Marks (o.bind f) s fun page => P page ∨ Q page := by
  cases o with
  | none =>
      obtain ⟨page, hpage, hbig⟩ := h.stops.mp rfl
      exact ⟨iff_of_true rfl ⟨page, .inl hpage, hbig⟩, fun _ hs => absurd hs (by simp)⟩
  | some s₁ =>
      have hrest := hf s₁ rfl
      constructor
      case stops =>
        rw [Option.bind_some, hrest.stops]
        constructor
        · rintro ⟨page, hpage, hbig⟩
          exact ⟨page, .inr hpage, hbig⟩
        · rintro ⟨page, hpage | hpage, hbig⟩
          · cases h.stops.mpr ⟨page, hpage, hbig⟩
          · exact ⟨page, hpage, hbig⟩
      case marked =>
        intro s' hs page
        rw [hrest.marked s' hs page, h.marked s₁ rfl page, and_or_left, or_assoc]

/-- One page. -/
theorem marks_page {addr : UInt64} {page : Nat} (haddr : addr.toNat = sizeOfPage * page) :
    Marks (if addr ≠ 0 then memSetBitmapPageBit addr.toNat true s else some s) s (· = page) := by
  have hpage : addr.toNat / sizeOfPage = page := by rw [haddr, Nat.mul_div_cancel_left _ (by decide)]
  have hzero : addr ≠ 0 ↔ page ≠ 0 := by
    rw [ne_eq, ← UInt64.toNat_inj, haddr]
    simp [sizeOfPage]
  simp only [hzero, memSetBitmapPageBit, hpage, true_or, if_true]
  constructor
  case stops =>
    simp only [exists_eq_left]
    by_cases h0 : page = 0
    · simp [h0, memMaxSupportedPages]
    · rw [if_pos h0]
      split
      next hlt => exact iff_of_false (Option.some_ne_none _) (by omega)
      next hge => exact iff_of_true rfl (by omega)
  case marked =>
    intro s' hs q
    by_cases h0 : page = 0
    · rw [if_neg (not_not_intro h0)] at hs
      obtain rfl := Option.some.inj hs
      rw [or_iff_left]
      rintro ⟨hq, rfl⟩
      exact hq h0
    · rw [if_pos h0] at hs
      split at hs
      next =>
        obtain rfl := Option.some.inj hs
        rw [bit_setBit, Bool.or_eq_true, decide_eq_true_eq, or_comm]
        refine or_congr_right ⟨?_, And.right⟩
        rintro rfl
        exact ⟨h0, rfl⟩
      next => cases hs

theorem markPages_succ {addr : UInt64} {n : Nat} :
    markPages addr (n + 1) s =
      (if addr ≠ 0 then memSetBitmapPageBit addr.toNat true s else some s).bind
        (markPages (addr + memPageSize) n) := by
  rw [markPages]
  split <;> rfl

theorem marks_pages {n page : Nat} (hn : page + n ≤ 2 ^ 43) :
    ∀ {addr : UInt64} {s : PhysMem}, addr.toNat = sizeOfPage * page →
      Marks (markPages addr n s) s fun q => page ≤ q ∧ q < page + n := by
  induction n generalizing page with
  | zero => exact fun _ => .none_of fun q => by omega
  | succ n ih =>
      intro addr s haddr
      have hrest : ∀ s', Marks (markPages (addr + memPageSize) n s') s'
          fun q => page + 1 ≤ q ∧ q < page + 1 + n := by
        intro s'
        rcases Nat.eq_zero_or_pos n with rfl | hpos
        · exact .none_of fun q => by omega
        · refine ih (by omega) ?_
          have hsize : memPageSize.toNat = 2097152 := rfl
          rw [UInt64.toNat_add, haddr, hsize, sizeOfPage]
          omega
      rw [markPages_succ]
      exact ((marks_page haddr).bind fun s' _ => hrest s').congr fun q => by omega

/-! ### One record -/

section

variable {r : E820Record} {page : Nat}

/-- The address of the first page that begins in the range. -/
def firstPageAddr (r : E820Record) : UInt64 :=
  if r.startAddr % memPageSize ≠ 0 then r.startAddr + memPageSize - r.startAddr % memPageSize
  else r.startAddr

/-- The end of the last page that ends in the range. -/
def lastPageEnd (r : E820Record) : UInt64 :=
  let endAddr := r.startAddr + r.length
  if endAddr % memPageSize ≠ 0 then endAddr - endAddr % memPageSize else endAddr

theorem toNat_mod_memPageSize (addr : UInt64) : (addr % memPageSize).toNat = addr.toNat % sizeOfPage := by
  rw [UInt64.toNat_mod]
  rfl

theorem mod_memPageSize_ne (addr : UInt64) : addr % memPageSize ≠ 0 ↔ addr.toNat % sizeOfPage ≠ 0 := by
  rw [ne_eq, ← UInt64.toNat_inj, toNat_mod_memPageSize]
  rfl

theorem firstPageAddr_toNat (h : r.Fits) :
    (firstPageAddr r).toNat = sizeOfPage * ((r.startAddr.toNat + (sizeOfPage - 1)) / sizeOfPage) := by
  have hfits := h.2
  have hsize : memPageSize.toNat = 2097152 := rfl
  have hmax := r.startAddr.toNat_lt
  simp only [firstPageAddr, mod_memPageSize_ne, sizeOfPage] at *
  split
  · rw [UInt64.toNat_sub, UInt64.toNat_add, toNat_mod_memPageSize, hsize, sizeOfPage]
    omega
  · omega

theorem lastPageEnd_toNat (h : r.Fits) :
    (lastPageEnd r).toNat =
      sizeOfPage * ((r.startAddr.toNat + r.length.toNat) / sizeOfPage) := by
  have hfits := h.1
  have hend : (r.startAddr + r.length).toNat = r.startAddr.toNat + r.length.toNat := by
    rw [UInt64.toNat_add, Nat.mod_eq_of_lt hfits]
  simp only [lastPageEnd, mod_memPageSize_ne, hend]
  split
  · rw [UInt64.toNat_sub, toNat_mod_memPageSize, hend, sizeOfPage]
    omega
  · rw [hend]
    unfold sizeOfPage at *
    omega

theorem markRecord_eq : markRecord r s =
    if r.memoryType = 1 then
      if lastPageEnd r > firstPageAddr r then
        markPages (firstPageAddr r) ((lastPageEnd r - firstPageAddr r) / memPageSize).toNat s
      else some s
    else some s := rfl

theorem marks_record (h : r.memoryType = 1 → r.Fits) :
    Marks (markRecord r s) s fun page => r.memoryType = 1 ∧ r.Contains page := by
  rw [markRecord_eq]
  split
  swap
  · next hother => exact .none_of fun page hpage => hother hpage.1
  next husable =>
    have hfirst := firstPageAddr_toNat (h husable)
    have hlast := lastPageEnd_toNat (h husable)
    have hfits := (h husable).1
    simp only [gt_iff_lt, UInt64.lt_iff_toNat_lt, hfirst, hlast]
    unfold E820Record.Contains
    split
    next hlt =>
      have hcount : ((lastPageEnd r - firstPageAddr r) / memPageSize).toNat =
          (r.startAddr.toNat + r.length.toNat) / sizeOfPage -
            (r.startAddr.toNat + (sizeOfPage - 1)) / sizeOfPage := by
        have hsize : memPageSize.toNat = 2097152 := rfl
        rw [UInt64.toNat_div, UInt64.toNat_sub, hfirst, hlast, hsize]
        unfold sizeOfPage at *
        omega
      rw [hcount]
      refine (marks_pages ?_ hfirst).congr fun page => ?_
      · unfold sizeOfPage at *
        omega
      · rw [and_iff_right husable]
        unfold sizeOfPage at *
        omega
    next hge =>
      refine .none_of fun page => ?_
      unfold sizeOfPage at *
      omega

end

/-! ### The loop over the records -/

/-- The loop that starts at the record `k`, and looks at `n` at most, comes to the record `j`. -/
def Reached (table : Nat → E820Record) (k n j : Nat) : Prop :=
  k ≤ j ∧ j < k + n ∧ ∀ i, k ≤ i → i ≤ j → ¬ (table i).IsZero

variable {table : Nat → E820Record} {k n j tableLength : Nat}

theorem reached_succ_iff (hk : ¬ (table k).IsZero) :
    Reached table k (n + 1) j ↔ j = k ∨ Reached table (k + 1) n j := by
  constructor
  · rintro ⟨hle, hlt, hzero⟩
    rcases Nat.eq_or_lt_of_le hle with rfl | hgt
    · exact .inl rfl
    · exact .inr ⟨hgt, by omega, fun i hi => hzero i (by omega)⟩
  · rintro (rfl | ⟨hle, hlt, hzero⟩)
    · refine ⟨le_rfl, by omega, fun i hi hij => ?_⟩
      rwa [Nat.le_antisymm hij hi]
    · refine ⟨by omega, by omega, fun i hi hij => ?_⟩
      rcases Nat.eq_or_lt_of_le hi with rfl | hgt
      · exact hk
      · exact hzero i hgt hij

theorem examined_iff : Examined table tableLength j ↔ Reached table 0 ((tableLength + 23) / 24) j := by
  unfold Examined Reached
  simp only [Nat.zero_le, true_and, Nat.zero_add, true_imp_iff]
  exact and_congr_left fun _ => by omega

theorem markRecords_succ :
    markRecords table k (n + 1) s =
      if (table k).IsZero then some s
      else (markRecord (table k) s).bind (markRecords table (k + 1) n) := by
  rw [markRecords]
  by_cases hzero : (table k).IsZero
  · obtain ⟨hstart, hlength, htype⟩ := hzero
    rw [if_neg (by simp [hstart, hlength, htype]), if_pos ⟨hstart, hlength, htype⟩]
  · rw [if_neg hzero, if_pos]
    · rfl
    · by_contra hall
      push Not at hall
      exact hzero hall

theorem marks_records (h : ∀ j, Reached table k n j → (table j).memoryType = 1 → (table j).Fits) :
    Marks (markRecords table k n s) s fun page =>
      ∃ j, Reached table k n j ∧ (table j).memoryType = 1 ∧ (table j).Contains page := by
  induction n generalizing k s with
  | zero =>
      refine .none_of ?_
      rintro page ⟨j, ⟨hle, hlt, -⟩, -⟩
      omega
  | succ n ih =>
      rw [markRecords_succ]
      split
      next hzero =>
        refine .none_of ?_
        rintro page ⟨j, ⟨hle, -, hnonzero⟩, -⟩
        exact hnonzero k le_rfl hle hzero
      next hzero =>
        have hfirst : (table k).memoryType = 1 → (table k).Fits :=
          h k ((reached_succ_iff hzero).mpr (.inl rfl))
        have hrest : ∀ j, Reached table (k + 1) n j → (table j).memoryType = 1 → (table j).Fits :=
          fun j hj => h j ((reached_succ_iff hzero).mpr (.inr hj))
        refine ((marks_record hfirst).bind fun s' _ => ih hrest).congr fun page => ?_
        simp only [reached_succ_iff hzero, or_and_right, exists_or, exists_eq_left]

/-- A page that is contained in a usable record and that is not supported stops the kernel.  Otherwise a
page is free if and only if it is contained in a usable record, and is not page zero. -/
theorem memGenPhysPagesBitmap_iff (hlength : 24 ≤ tableLength)
    (hfits : ∀ k, Examined table tableLength k → (table k).memoryType = 1 → (table k).Fits) :
    (memGenPhysPagesBitmap table tableLength s = none ↔ ∃ k page, Examined table tableLength k ∧
      (table k).memoryType = 1 ∧ (table k).Contains page ∧ memMaxSupportedPages ≤ page) ∧
    ∀ s', memGenPhysPagesBitmap table tableLength s = some s' → ∀ page, bit s'.alloc page = true ↔
      page ≠ 0 ∧ ∃ k, Examined table tableLength k ∧ (table k).memoryType = 1 ∧
        (table k).Contains page := by
  simp only [examined_iff] at hfits ⊢
  have hmarks := marks_records (s := { s with alloc := fun _ => 0 }) hfits
  have hcode : memGenPhysPagesBitmap table tableLength s =
      markRecords table 0 ((tableLength + 23) / 24) { s with alloc := fun _ => 0 } := if_pos hlength
  rw [hcode]
  constructor
  · rw [hmarks.stops]
    constructor
    · rintro ⟨page, ⟨k, hreached, husable, hcontains⟩, hbig⟩
      exact ⟨k, page, hreached, husable, hcontains, hbig⟩
    · rintro ⟨k, page, hreached, husable, hcontains, hbig⟩
      exact ⟨page, ⟨k, hreached, husable, hcontains⟩, hbig⟩
  · intro s' hs page
    have hzero : bit (fun _ => 0) page = false := by simp [bit]
    rw [hmarks.marked s' hs page, hzero, or_iff_right Bool.false_ne_true]

end

/-- Memory from 1 MB to 7 MB, of which 2 MB are reserved, and the end of the table. -/
def overlappingMap : Nat → E820Record
  | 0 => ⟨0x100000, 0x600000, 1⟩
  | 1 => ⟨0x200000, 0x200000, 2⟩
  | _ => ⟨0, 0, 0⟩

theorem memGenPhysPagesBitmap_iff_overlapping :
    ∃ s, memGenPhysPagesBitmap overlappingMap 48 ⟨fun _ => 0, fun _ => 0, 0⟩ = some s ∧
      bit s.alloc 2 = true ∧ bit s.alloc 3 = false := by
  have hfits : ∀ k, Examined overlappingMap 48 k → (overlappingMap k).memoryType = 1 →
      (overlappingMap k).Fits := by
    rintro k ⟨hlt, -⟩ -
    obtain rfl | rfl : k = 0 ∨ k = 1 := by omega
    · decide
    · decide
  obtain ⟨-, hmarked⟩ := memGenPhysPagesBitmap_iff (s := ⟨fun _ => 0, fun _ => 0, 0⟩) (by decide) hfits
  obtain ⟨s, hs⟩ := Option.isSome_iff_exists.mp (by decide +kernel :
    (memGenPhysPagesBitmap overlappingMap 48 ⟨fun _ => 0, fun _ => 0, 0⟩).isSome = true)
  have hexamined : Examined overlappingMap 48 0 := by
    refine ⟨by decide, fun j hj => ?_⟩
    obtain rfl := Nat.le_zero.mp hj
    decide
  refine ⟨s, hs, ?_, ?_⟩
  · exact (hmarked s hs 2).mpr ⟨by decide, 0, hexamined, by decide, by decide⟩
  · refine Bool.eq_false_iff.mpr fun hbit => ?_
    obtain ⟨-, k, ⟨hlt, -⟩, husable, hcontains⟩ := (hmarked s hs 3).mp hbit
    obtain rfl | rfl : k = 0 ∨ k = 1 := by omega
    · exact absurd hcontains (by decide)
    · exact absurd husable (by decide)

/-- Some of the page is in the record's range. -/
def E820Record.Overlaps (r : E820Record) (page : Nat) : Prop :=
  r.startAddr.toNat < sizeOfPage * (page + 1) ∧
    sizeOfPage * page < r.startAddr.toNat + r.length.toNat

instance (r : E820Record) (page : Nat) : Decidable (r.Overlaps page) :=
  inferInstanceAs (Decidable (_ ∧ _))

/-- The start of such a record is rounded up to page zero, and its end down to the last page. -/
theorem markRecord_top (s : PhysMem) : markRecord ⟨0xFFFFFFFFFFFFF000, 0x500, 1⟩ s = none := by
  have hfirst : firstPageAddr ⟨0xFFFFFFFFFFFFF000, 0x500, 1⟩ = 0 := by decide
  have hlast : lastPageEnd ⟨0xFFFFFFFFFFFFF000, 0x500, 1⟩ = 0xFFFFFFFFFFE00000 := by decide
  have hcount : (((0xFFFFFFFFFFE00000 : UInt64) - 0) / memPageSize).toNat = 2 ^ 43 - 1 := by decide
  rw [markRecord_eq, if_pos rfl, hfirst, hlast, if_pos (by decide), hcount]
  have hmarks := marks_pages (s := s) (by decide : 0 + (2 ^ 43 - 1) ≤ 2 ^ 43)
    (by decide : (0 : UInt64).toNat = sizeOfPage * 0)
  exact hmarks.stops.mpr ⟨memMaxSupportedPages, by decide, le_rfl⟩

/-- A page that is reserved by one record is handed out because another one says that it is usable; memory
above the supported pages stops the kernel; and so does a piece of the last page of the 64-bit range, for
which the first whole page is page zero. -/
theorem memGenPhysPagesBitmap_overlap :
    (¬ ∀ table tableLength s s', memGenPhysPagesBitmap table tableLength s = some s' →
      ∀ page < memMaxSupportedPages, bit s'.alloc page = true →
        ∀ k, Examined table tableLength k → (table k).memoryType ≠ 1 → ¬ (table k).Overlaps page) ∧
    (∀ s, memGenPhysPagesBitmap (fun _ => ⟨0x100000000, 0x200000, 1⟩) 24 s = none) ∧
    ∀ s, memGenPhysPagesBitmap (fun _ => ⟨0xFFFFFFFFFFFFF000, 0x500, 1⟩) 24 s = none := by
  refine ⟨fun h => ?_, fun s => ?_, fun s => ?_⟩
  · obtain ⟨s, hs, hbit⟩ := Option.map_eq_some_iff.mp (by decide +kernel :
      (memGenPhysPagesBitmap overlappingMap 48 ⟨fun _ => 0, fun _ => 0, 0⟩).map
        (fun s => bit s.alloc 1) = some true)
    refine h overlappingMap 48 _ s hs 1 (by decide) hbit 1 ⟨by decide, ?_⟩ (by decide) (by decide)
    intro j hj
    obtain rfl | rfl : j = 0 ∨ j = 1 := by omega
    · decide
    · decide
  · have hmarks := @marks_records { s with alloc := fun _ => 0 } (fun _ => ⟨0x100000000, 0x200000, 1⟩) 0 1
      fun _ _ _ => by decide
    refine hmarks.stops.mpr ⟨memMaxSupportedPages, ⟨0, ⟨le_rfl, by decide, ?_⟩, rfl, by decide⟩, le_rfl⟩
    intro i _ _
    change ¬ (⟨0x100000000, 0x200000, 1⟩ : E820Record).IsZero
    decide
  · have hcode : memGenPhysPagesBitmap (fun _ => ⟨0xFFFFFFFFFFFFF000, 0x500, 1⟩) 24 s =
        markRecords (fun _ => ⟨0xFFFFFFFFFFFFF000, 0x500, 1⟩) 0 1 { s with alloc := fun _ => 0 } :=
      rfl
    rw [hcode, markRecords_succ, markRecord_top, if_neg (by decide)]
    rfl

end Azalea.Mem
