import Azalea.Mem.Vmm
import Azalea.Support.Tiling
import Mathlib.Tactic.Linarith

/-!
# Mem — the invariant of a range list

Ranges are read as dyadic blocks of pages: `page` is the page a range starts at and `pages` its
length.  A list is in order (`VmmInv`) when its ranges are well formed, tile the root and hold no
two free buddies.  Each function that changes the list puts pieces in the place of one range
(`Pieces`), or merges a free range with its free buddy:

* `splitRange_spec`: `mem_vmm_split_range` leaves a range of the size asked for and free halves;
* `allocate_spec`, `allocateSpecific_spec`: the two allocations put pieces in the place of one
  range;
* `resolveMerges_spec`: `mem_vmm_resolve_merges` ends with no free buddies.
-/

namespace Azalea.Mem
open Azalea.Klib Azalea.Tiling

/-- The page a range starts at. -/
def VmmRangeData.page (r : VmmRangeData) : Nat := r.start.toNat / 2097152

/-- The number of pages of a range. -/
def VmmRangeData.pages (r : VmmRangeData) : Nat := r.numberOfPages.toNat

/-- The range is not allocated. -/
def VmmRangeData.Free (r : VmmRangeData) : Prop := r.allocated = false

/-- The range starts on a page and is a dyadic block of pages that fits in the address space. -/
structure VmmRangeData.WellFormed (r : VmmRangeData) : Prop where
  aligned : 2097152 ∣ r.start.toNat
  dyadic : Dyadic r.page r.pages
  top : r.page + r.pages ≤ 2 ^ 43
  small : r.pages < 2 ^ 32

namespace VmmRangeData
variable {r : VmmRangeData}

theorem WellFormed.start_eq (h : r.WellFormed) : r.start.toNat = r.page * 2097152 :=
  (Nat.div_mul_cancel h.aligned).symm

/-- Marking a range changes neither its place nor its length. -/
theorem WellFormed.mark (h : r.WellFormed) (b : Bool) :
    ({ r with allocated := b } : VmmRangeData).WellFormed :=
  ⟨h.aligned, h.dyadic, h.top, h.small⟩

/-- The first half of a range. -/
def firstHalf (r : VmmRangeData) : VmmRangeData := { r with numberOfPages := r.numberOfPages / 2 }

/-- The second half of a range, free. -/
def secondHalf (r : VmmRangeData) : VmmRangeData :=
  ⟨r.start + r.numberOfPages / 2 * memPageSize, r.numberOfPages / 2, false⟩

theorem toNat_half (r : VmmRangeData) : (r.numberOfPages / 2).toNat = r.pages / 2 := by
  simp [pages]

theorem secondHalf_start (h : r.WellFormed) (h1 : r.pages ≠ 1) :
    r.secondHalf.start.toNat = (r.page + r.pages / 2) * 2097152 := by
  have hs := h.start_eq
  have ht := h.top
  have hh := (h.dyadic.half h1).1
  have hp := h.dyadic.pos
  simp only [secondHalf, memPageSize, UInt64.toNat_add, UInt64.toNat_mul, toNat_half,
    UInt64.reduceToNat, hs]
  omega

theorem firstHalf_wellFormed (h : r.WellFormed) (h1 : r.pages ≠ 1) :
    r.firstHalf.WellFormed ∧ r.firstHalf.page = r.page ∧ r.firstHalf.pages = r.pages / 2 := by
  have hd := (h.dyadic.half h1).2.1
  have hp : r.firstHalf.pages = r.pages / 2 := toNat_half r
  have ht := h.top
  have hs := h.small
  refine ⟨⟨h.aligned, ?_, ?_, ?_⟩, rfl, hp⟩
  · rw [hp]; exact hd
  · rw [hp]; show r.page + _ ≤ _; omega
  · rw [hp]; omega

theorem secondHalf_wellFormed (h : r.WellFormed) (h1 : r.pages ≠ 1) :
    r.secondHalf.WellFormed ∧ r.secondHalf.page = r.page + r.pages / 2 ∧
      r.secondHalf.pages = r.pages / 2 := by
  have hst := secondHalf_start h h1
  have hp : r.secondHalf.pages = r.pages / 2 := toNat_half r
  have hpage : r.secondHalf.page = r.page + r.pages / 2 := by
    rw [page, hst]; exact Nat.mul_div_cancel _ (by decide)
  obtain ⟨hh, -, hd⟩ := h.dyadic.half h1
  have ht := h.top
  have hs := h.small
  refine ⟨⟨by rw [hst]; exact Dvd.intro_left _ rfl, ?_, ?_, ?_⟩, hpage, hp⟩
  · rw [hp, hpage]; exact hd
  · rw [hp, hpage]; omega
  · rw [hp]; omega

end VmmRangeData

open VmmRangeData

/-! ### What may stand in the place of a range -/

/-- The ranges `mid` may stand in the place of a range of `n` pages at page `p`: they tile it,
the free ones are shorter than it, and no two free ones are buddies. -/
structure Pieces (p n : Nat) (mid : List VmmRangeData) : Prop where
  tiles : Tiles page pages p mid (p + n)
  wf : ∀ z ∈ mid, z.WellFormed
  small : ∀ z ∈ mid, z.Free → z.pages < n
  coalesced : Coalesced page pages Free mid

theorem Pieces.single {r : VmmRangeData} (h : r.WellFormed) (ha : r.allocated = true) :
    Pieces r.page r.pages [r] where
  tiles := by simp
  wf := by simpa using h
  small := by simp [Free, ha]
  coalesced := by simp [Coalesced, Free, ha]

/-- Pieces in the place of the first half, with the second half behind them. -/
theorem Pieces.first {r h₂ : VmmRangeData} {mid : List VmmRangeData} (hr : r.WellFormed)
    (h1 : r.pages ≠ 1) (h : Pieces r.page (r.pages / 2) mid) (hw : h₂.WellFormed)
    (hp : h₂.page = r.page + r.pages / 2) (hn : h₂.pages = r.pages / 2) :
    Pieces r.page r.pages (mid ++ [h₂]) := by
  obtain ⟨hh, hd, -⟩ := hr.dyadic.half h1
  have htail : Tiles page pages (r.page + r.pages / 2) [h₂] (r.page + r.pages) := by
    simp [hp, hn]; omega
  refine ⟨tiles_append.mpr ⟨_, h.tiles, htail⟩, ?_, ?_, ?_⟩
  · intro z hz
    rcases List.mem_append.mp hz with hz | hz
    · exact h.wf z hz
    · rw [List.mem_singleton.mp hz]; exact hw
  · intro z hz hf
    have hpos := hd.pos
    rcases List.mem_append.mp hz with hz | hz
    · have := h.small z hz hf; omega
    · rw [List.mem_singleton.mp hz, hn]; omega
  · refine coalesced_replace [] _ (a := r.page) hd (by simp) h.tiles htail
      (fun z hz => (h.wf z hz).dyadic) h.small ?_ ?_ h.coalesced
    · simp only [List.nil_append, List.mem_singleton, forall_eq]; exact hw.dyadic.pos
    · intro x hx y hy _ _ hb
      simp only [List.nil_append, List.mem_singleton] at hx hy
      have := hb.2.1; have := hw.dyadic.pos; subst hx; subst hy; omega

/-- Pieces in the place of the second half, with the first half before them. -/
theorem Pieces.second {r h₁ : VmmRangeData} {mid : List VmmRangeData} (hr : r.WellFormed)
    (h1 : r.pages ≠ 1) (h : Pieces (r.page + r.pages / 2) (r.pages / 2) mid) (hw : h₁.WellFormed)
    (hp : h₁.page = r.page) (hn : h₁.pages = r.pages / 2) :
    Pieces r.page r.pages (h₁ :: mid) := by
  obtain ⟨hh, -, hd⟩ := hr.dyadic.half h1
  have hmid : Tiles page pages (r.page + r.pages / 2) mid (r.page + r.pages) := by
    have := h.tiles; rwa [add_assoc, ← two_mul, hh] at this
  refine ⟨⟨hp, by rw [hn]; exact hmid⟩, ?_, ?_, ?_⟩
  · intro z hz
    rcases List.mem_cons.mp hz with rfl | hz
    · exact hw
    · exact h.wf z hz
  · intro z hz hf
    have hpos := hd.pos
    rcases List.mem_cons.mp hz with rfl | hz
    · rw [hn]; omega
    · have := h.small z hz hf; omega
  · have : Coalesced page pages Free ([h₁] ++ mid ++ []) := coalesced_replace [h₁] [] (a := r.page)
      (b := r.page + r.pages / 2 + r.pages / 2) hd
      (by simp [hp, hn]) h.tiles (by simp) (fun z hz => (h.wf z hz).dyadic) h.small
      (by simp only [List.append_nil, List.mem_singleton, forall_eq]; exact hw.dyadic.pos)
      (fun x hx y hy _ _ hb => by
        simp only [List.append_nil, List.mem_singleton] at hx hy
        have := hb.2.1; have := hw.dyadic.pos; subst hx; subst hy; omega) h.coalesced
    simpa using this

/-! ### The invariant -/

/-- The first page of the root, and its number of pages. -/
def VmmRoot.page (root : VmmRoot) : Nat := root.range.page
def VmmRoot.pages (root : VmmRoot) : Nat := root.range.pages

/-- The ranges are well formed, tile the root and hold no two free buddies. -/
structure VmmInv (root : VmmRoot) (ranges : List VmmRangeData) : Prop where
  tiles : Tiles VmmRangeData.page VmmRangeData.pages root.page ranges (root.page + root.pages)
  wf : ∀ r ∈ ranges, r.WellFormed
  coalesced : Coalesced VmmRangeData.page VmmRangeData.pages Free ranges

theorem VmmRoot.wellFormed (root : VmmRoot) : root.range.WellFormed := by
  have hdvd : 2097152 ∣ root.start.toNat := (Dvd.intro_left _ rfl).trans root.aligned
  have hs : root.start.toNat = root.range.page * 2097152 := (Nat.div_mul_cancel hdvd).symm
  refine ⟨hdvd, ⟨root.pow, ?_⟩, ?_, root.small⟩
  · have := root.aligned
    rw [hs] at this
    exact Nat.dvd_of_mul_dvd_mul_right (by decide) this
  · have := root.top
    rw [hs] at this
    show root.range.page + root.numberOfPages.toNat ≤ 2 ^ 43
    omega

theorem vmmInv_root (root : VmmRoot) : VmmInv root [root.range] where
  tiles := by simp [VmmRoot.page, VmmRoot.pages]
  wf := by simpa using root.wellFormed
  coalesced := by
    intro x hx y hy _ _ hb
    rw [List.mem_singleton] at hx hy
    subst hx; subst hy
    have := hb.2.1; have := root.wellFormed.dyadic.pos; omega

namespace VmmInv
variable {root : VmmRoot} {pre post mid : List VmmRangeData} {x : VmmRangeData}

/-- Pieces in the place of a range keep the invariant. -/
theorem replace (h : VmmInv root (pre ++ x :: post)) (hp : Pieces x.page x.pages mid) :
    VmmInv root (pre ++ mid ++ post) := by
  obtain ⟨m, hpre, hx, hpost⟩ := tiles_append.mp h.tiles
  subst hx
  have hxw := h.wf x (by simp)
  refine ⟨tiles_append.mpr ⟨_, tiles_append.mpr ⟨_, hpre, hp.tiles⟩, hpost⟩, ?_, ?_⟩
  · intro z hz
    simp only [List.mem_append] at hz
    rcases hz with (hz | hz) | hz
    · exact h.wf z (by simp [hz])
    · exact hp.wf z hz
    · exact h.wf z (by simp [hz])
  · refine coalesced_replace _ _ hxw.dyadic hpre hp.tiles hpost (fun z hz => (hp.wf z hz).dyadic)
      hp.small (fun z hz => (h.wf z ?_).dyadic.pos) (h.coalesced.mono fun z hz => ?_) hp.coalesced
    all_goals
      rw [List.mem_append] at hz
      rcases hz with hz | hz <;> simp [hz]

end VmmInv

/-! ### Splitting -/

/-- **What `mem_vmm_split_range` leaves.**  Asked for a power of two below the size of a well
formed range, it leaves a range of that size in its place, and free ranges behind it that make up
the rest. -/
theorem splitRange_spec {it : ListItem VmmRangeData} {reqd : UInt32} (hw : it.item.WellFormed)
    (hpow : ∃ j, reqd.toNat = 2 ^ j) (hlt : reqd.toNat < it.item.pages) :
    ∃ halves : List VmmRangeData,
      memVmmSplitRange it reqd =
        ⟨it.prev, { it.item with numberOfPages := reqd.toUInt64 }, halves ++ it.next⟩ ∧
      (∀ h ∈ halves, h.Free) ∧
      Pieces it.item.page it.item.pages (⟨it.item.start, reqd.toUInt64, true⟩ :: halves) := by
  obtain ⟨j, hj⟩ := hpow
  fun_induction memVmmSplitRange it reqd with
  | case1 it half new split h ih =>
      have h1 : it.item.pages ≠ 1 := by have := Nat.two_pow_pos j; omega
      obtain ⟨hw₁, hp₁, hn₁⟩ := firstHalf_wellFormed hw h1
      obtain ⟨hw₂, hp₂, hn₂⟩ := secondHalf_wellFormed hw h1
      have hh : reqd.toNat < it.item.pages / 2 := by
        rw [← toNat_half]; simpa [UInt64.lt_iff_toNat_lt, half] using h
      obtain ⟨halves, he, hf, hpc⟩ := ih hw₁ (by rw [← hn₁] at hh; exact hh)
      refine ⟨halves ++ [it.item.secondHalf], ?_, ?_, ?_⟩
      · rw [he]; simp only [List.append_assoc, List.singleton_append]; rfl
      · intro z hz
        rcases List.mem_append.mp hz with hz | hz
        · exact hf z hz
        · rw [List.mem_singleton.mp hz]; rfl
      · have hpc' : Pieces it.item.page (it.item.pages / 2)
            (⟨it.item.start, reqd.toUInt64, true⟩ :: halves) := by rw [← hn₁]; exact hpc
        simpa using hpc'.first hw h1 hw₂ hp₂ hn₂
  | case2 it half new split h =>
      have h1 : it.item.pages ≠ 1 := by have := Nat.two_pow_pos j; omega
      obtain ⟨hw₁, hp₁, hn₁⟩ := firstHalf_wellFormed hw h1
      obtain ⟨hw₂, hp₂, hn₂⟩ := secondHalf_wellFormed hw h1
      have hle : it.item.pages / 2 ≤ reqd.toNat := by
        rw [← toNat_half]; simpa [UInt64.lt_iff_toNat_lt, half] using h
      -- the size asked for is a power of two below the range's: it is the half
      have hdvd : 2 * reqd.toNat ∣ it.item.pages :=
        Dyadic.double_le (s := 0) ⟨⟨j, hj⟩, dvd_zero _⟩ hw.dyadic hlt
      have hge := Nat.le_of_dvd hw.dyadic.pos hdvd
      have heq : reqd.toUInt64 = it.item.numberOfPages / 2 := by
        rw [← UInt64.toNat_inj, toNat_half]; simp; omega
      refine ⟨[it.item.secondHalf], ?_, by simp [secondHalf, Free], ?_⟩
      · rw [heq]; rfl
      · have hs := Pieces.single (hw₁.mark true) rfl
        have hs' : Pieces it.item.page (it.item.pages / 2)
            [⟨it.item.start, reqd.toUInt64, true⟩] := by rw [heq, ← hn₁]; exact hs
        exact hs'.first hw h1 hw₂ hp₂ hn₂

/-! ### Allocating -/

theorem suitableLoop_spec {numPages : UInt32} {it : ListItem VmmRangeData} :
    ∀ {next prev : List VmmRangeData} {selected : Option (ListItem VmmRangeData)},
      (∀ s ∈ selected, s.toList = prev.reverse ++ next ∧ s.item.Free ∧
        numPages.toNat ≤ s.item.pages) →
      suitableLoop numPages prev next selected = some it →
      it.toList = prev.reverse ++ next ∧ it.item.Free ∧ numPages.toNat ≤ it.item.pages := by
  intro next
  induction next with
  | nil =>
      intro prev selected hs h
      exact hs it h
  | cons cur next ih =>
      intro prev selected hs h
      rw [suitableLoop] at h
      have : it.toList = (cur :: prev).reverse ++ next ∧ it.item.Free ∧
          numPages.toNat ≤ it.item.pages := by
        refine ih (fun s hsel => ?_) h
        split at hsel
        next hc =>
          cases hsel
          simp only [Bool.and_eq_true, Bool.not_eq_true', decide_eq_true_eq] at hc
          refine ⟨by simp, hc.1.1, ?_⟩
          simpa [UInt64.le_iff_toNat_le, VmmRangeData.pages] using hc.1.2
        next => simpa using hs s hsel
      simpa using this

/-- A free range that is large enough is found, or one met before it. -/
theorem suitableLoop_isSome {numPages : UInt32} :
    ∀ {next prev : List VmmRangeData} {selected : Option (ListItem VmmRangeData)},
      (selected.isSome ∨ ∃ r ∈ next, r.Free ∧ numPages.toNat ≤ r.pages) →
      (suitableLoop numPages prev next selected).isSome := by
  intro next
  induction next with
  | nil =>
      intro prev selected h
      simpa [suitableLoop] using h
  | cons cur next ih =>
      intro prev selected h
      rw [suitableLoop]
      refine ih ?_
      rcases h with h | ⟨r, hr, hf, hn⟩
      · left; split
        · rfl
        · exact h
      · rcases List.mem_cons.mp hr with rfl | hr
        · left
          have hn' : r.numberOfPages ≥ numPages.toUInt64 := by
            simpa [UInt64.le_iff_toNat_le, VmmRangeData.pages] using hn
          have hf' : r.allocated = false := hf
          cases selected with
          | none => simp [hn', hf', improvesOn]
          | some s => split <;> rfl
        · exact Or.inr ⟨r, hr, hf, hn⟩

theorem getSuitableRange_spec {numPages : UInt32} {ranges : List VmmRangeData}
    {it : ListItem VmmRangeData} (h : memVmmGetSuitableRange numPages ranges = some it) :
    numPages ≠ 0 ∧ it.toList = ranges ∧ it.item.Free ∧ numPages.toNat ≤ it.item.pages := by
  rw [memVmmGetSuitableRange] at h
  split at h
  next => cases h
  next hne =>
    have hz : numPages ≠ 0 := fun e => hne (Or.inr e)
    obtain ⟨h₁, h₂, h₃⟩ := suitableLoop_spec (by simp) h
    exact ⟨hz, by simpa using h₁, h₂, h₃⟩

/-- `actual_num_pages`, when it is not zero, is the least power of two not below the number of
pages asked for: `round_to_power_two` is cut to 32 bits, and is zero where it does not fit. -/
def actualNumPages (numPages : UInt32) : UInt32 := (roundToPowerTwo numPages.toUInt64).toUInt32

theorem actualNumPages_toNat (n : UInt32) :
    (actualNumPages n).toNat = if n = 0 ∨ 2 ^ 31 < n.toNat then 0 else 2 ^ Nat.clog 2 n.toNat := by
  by_cases h0 : n = 0
  · subst h0; decide
  have hne : n.toUInt64 ≠ 0 := fun e => h0 (by
    rw [← UInt32.toNat_inj]; simpa using congrArg UInt64.toNat e)
  have hlt := n.toNat_lt
  have hr := roundToPowerTwo_toNat hne (by simp; omega)
  simp only [UInt32.toNat_toUInt64] at hr
  rw [actualNumPages, UInt64.toNat_toUInt32, hr]
  by_cases hbig : 2 ^ 31 < n.toNat
  · rw [if_pos (Or.inr hbig)]
    have hc : Nat.clog 2 n.toNat = 32 := by
      refine le_antisymm (Nat.clog_le_of_le_pow hlt.le) ?_
      by_contra hcon
      have := (Nat.clog_le_iff_le_pow (b := 2) (by decide)).mp (Nat.le_of_lt_succ (not_le.mp hcon))
      omega
    rw [hc]; decide
  · rw [if_neg (by simp only [h0, hbig, or_self, not_false_eq_true])]
    have hc : Nat.clog 2 n.toNat ≤ 31 := Nat.clog_le_of_le_pow (not_lt.mp hbig)
    exact Nat.mod_eq_of_lt ((Nat.pow_le_pow_right (by decide) hc).trans_lt (by decide))

theorem actualNumPages_pow {n : UInt32} (h : actualNumPages n ≠ 0) :
    ∃ j, (actualNumPages n).toNat = 2 ^ j := by
  have := actualNumPages_toNat n
  split at this
  next => exact absurd (UInt32.toNat_inj.mp this) h
  next => exact ⟨_, this⟩

/-- **What `mem_allocate_virtual_range` does.**  It finds a free range, and puts a range of the
rounded size at its start, allocated, with free ranges behind it. -/
theorem allocate_spec {root : VmmRoot} {n : UInt32} {ranges ranges' : List VmmRangeData}
    {a : UInt64} (hi : VmmInv root ranges)
    (h : memAllocateVirtualRange n ranges = some (a, ranges')) :
    ∃ (pre post : List VmmRangeData) (x : VmmRangeData) (halves : List VmmRangeData),
      ranges = pre ++ x :: post ∧ x.Free ∧ x.start = a ∧ (∀ z ∈ halves, z.Free) ∧
      Pieces x.page x.pages (⟨a, (actualNumPages n).toUInt64, true⟩ :: halves) ∧
      ranges' = pre ++ (⟨a, (actualNumPages n).toUInt64, true⟩ :: halves) ++ post := by
  rw [memAllocateVirtualRange] at h
  simp only [Option.bind_eq_bind, Option.bind_eq_some_iff] at h
  obtain ⟨it, hit, h⟩ := h
  obtain ⟨hz, hl, hf, hle⟩ := getSuitableRange_spec hit
  rw [← actualNumPages] at hz hle h
  have hw : it.item.WellFormed := hi.wf _ (by rw [← hl]; simp [ListItem.toList])
  have hpow := actualNumPages_pow hz
  by_cases heq : it.item.numberOfPages = (actualNumPages n).toUInt64
  · -- the range has the size asked for: it is marked
    rw [if_neg (not_not.mpr heq), if_neg (not_not.mpr heq)] at h
    obtain ⟨rfl, rfl⟩ := Prod.mk.inj (Option.some.inj h)
    have hm : (⟨it.item.start, (actualNumPages n).toUInt64, true⟩ : VmmRangeData) =
        { it.item with allocated := true } := by rw [← heq]
    refine ⟨it.prev.reverse, it.next, it.item, [], hl.symm, hf, rfl, by simp, ?_, ?_⟩
    · rw [hm]; exact Pieces.single (hw.mark true) rfl
    · rw [hm]; simp [ListItem.toList]
  · -- it is larger: it is split first
    have hne : (actualNumPages n).toNat ≠ it.item.pages := fun e =>
      heq (UInt64.toNat_inj.mp (by simpa [VmmRangeData.pages] using e.symm))
    obtain ⟨halves, he, hhf, hp⟩ := splitRange_spec hw hpow (lt_of_le_of_ne hle hne)
    rw [if_pos heq, he, if_neg (by simp)] at h
    obtain ⟨rfl, rfl⟩ := Prod.mk.inj (Option.some.inj h)
    refine ⟨it.prev.reverse, it.next, it.item, halves, hl.symm, hf, rfl, hhf, hp, ?_⟩
    simp [ListItem.toList]

/-! ### Allocating a given range -/

/-- On a page's address, the test of `mem_vmm_allocate_specific_range` asks whether the range
covers the page; also for the range that ends at `2^64`, whose `end_addr` wraps around twice. -/
theorem rangeHolds_iff {a : UInt64} {r : VmmRangeData} (hw : r.WellFormed)
    (ha : 2097152 ∣ a.toNat) :
    rangeHolds a r = true ↔ Covers page pages r (a.toNat / 2097152) := by
  obtain ⟨q, hq⟩ := ha
  have hs := hw.start_eq
  have ht := hw.top
  have hp := hw.dyadic.pos
  have hend : (r.start + r.numberOfPages * memPageSize - 1).toNat =
      (r.page + r.pages) * 2097152 - 1 := by
    have hnp : r.numberOfPages.toNat = r.pages := rfl
    simp only [memPageSize, UInt64.toNat_sub, UInt64.toNat_add, UInt64.toNat_mul,
      UInt64.reduceToNat, hs, hnp]
    omega
  simp only [rangeHolds, Bool.and_eq_true, decide_eq_true_eq, UInt64.le_iff_toNat_le, gt_iff_lt,
    UInt64.lt_iff_toNat_lt, hend, hs, Covers, hq]
  omega

/-- Asked for half the pages, `mem_vmm_split_range` halves once. -/
theorem splitRange_half {it : ListItem VmmRangeData} (hs : it.item.pages < 2 ^ 32) :
    memVmmSplitRange it (it.item.numberOfPages / 2).toUInt32 =
      ⟨it.prev, it.item.firstHalf, it.item.secondHalf :: it.next⟩ := by
  rw [memVmmSplitRange]
  dsimp only
  rw [dif_neg]
  · rfl
  · rw [gt_iff_lt, UInt64.lt_iff_toNat_lt, UInt32.toNat_toUInt64, UInt64.toNat_toUInt32,
      toNat_half]
    omega

/-- What the checks before the search promise: the number of pages is a power of two, and the
address a multiple of as many pages. -/
structure SpecificOk (a : UInt64) (n : UInt32) : Prop where
  pow : ∃ j, n.toNat = 2 ^ j
  aligned : n.toNat * 2097152 ∣ a.toNat

theorem specificOk_of_checks {a : UInt64} {n : UInt32}
    (hr : (roundToPowerTwo n.toUInt64).toUInt32 = n) (hb : n * 2097152 ≠ 0)
    (ha : a % (n * 2097152).toUInt64 = 0) : SpecificOk a n := by
  have hn : n ≠ 0 := fun e => hb (by rw [e]; rfl)
  obtain ⟨j, hj⟩ := actualNumPages_pow (n := n) (by rw [actualNumPages, hr]; exact hn)
  rw [actualNumPages, hr] at hj
  have hlt := n.toNat_lt
  -- the 32-bit product is not zero, so it has not wrapped
  have hj11 : j < 11 := by
    by_contra hc
    refine hb (UInt32.toNat_inj.mp ?_)
    obtain ⟨i, rfl⟩ := Nat.exists_eq_add_of_le (not_lt.mp hc)
    rw [UInt32.toNat_mul, hj, pow_add]
    simp only [UInt32.reduceToNat, UInt32.toNat_zero]
    omega
  have hm : n.toNat * 2097152 < 4294967296 := by
    have : 2 ^ j ≤ 2 ^ 10 := Nat.pow_le_pow_right (by decide) (by omega)
    omega
  refine ⟨⟨j, hj⟩, Nat.dvd_of_mod_eq_zero ?_⟩
  have := congrArg UInt64.toNat ha
  simpa [UInt64.toNat_mod, UInt32.toNat_mul, Nat.mod_eq_of_lt hm] using this

/-- What a call that trips no assertion did: its checks held, and it marked the range that holds
the address, or halved it and went on. -/
theorem allocateSpecific_cases {a : UInt64} {n : UInt32} {ranges ranges' : List VmmRangeData}
    (h : memVmmAllocateSpecificRange a n ranges = some ranges') :
    SpecificOk a n ∧ ∃ cur : ListItem VmmRangeData,
      ListItem.find (rangeHolds a) [] ranges = some cur ∧ n.toNat ≤ cur.item.pages ∧
      ((cur.item.numberOfPages = n.toUInt64 ∧ cur.item.Free ∧
          ranges' = cur.prev.reverse ++ { cur.item with allocated := true } :: cur.next) ∨
        (cur.item.pages ≠ n.toNat ∧
          memVmmAllocateSpecificRange a n
            (memVmmSplitRange cur (cur.item.numberOfPages / 2).toUInt32).toList =
              some ranges')) := by
  rw [memVmmAllocateSpecificRange] at h
  dsimp only at h
  split at h
  next => cases h
  next hr =>
    split at h
    next => cases h
    next hb =>
      split at h
      next => cases h
      next ha =>
        refine ⟨specificOk_of_checks (not_not.mp hr) hb (not_not.mp ha), ?_⟩
        split at h
        next => cases h
        next cur hcur =>
          split at h
          next => cases h
          next hlt =>
            have hle : n.toNat ≤ cur.item.pages := by
              simpa [UInt64.lt_iff_toNat_lt, VmmRangeData.pages] using hlt
            refine ⟨cur, hcur, hle, ?_⟩
            split at h
            next heq =>
              split at h
              next => cases h
              next hal =>
                exact Or.inl ⟨heq, Bool.eq_false_iff.mpr hal, (Option.some.inj h).symm⟩
            next hne =>
              refine Or.inr ⟨fun e => hne (UInt64.toNat_inj.mp ?_), h⟩
              rw [UInt32.toNat_toUInt64]; exact e

/-- The dyadic block of `n` pages at `a` is the range of `n` pages that covers `a`. -/
theorem SpecificOk.start_eq {a : UInt64} {n : UInt32} {x : VmmRangeData} (ho : SpecificOk a n)
    (hw : x.WellFormed) (hx : x.numberOfPages = n.toUInt64)
    (hc : Covers page pages x (a.toNat / 2097152)) : x.start = a := by
  have hxn : x.pages = n.toNat := by rw [VmmRangeData.pages, hx]; simp
  obtain ⟨c, hc'⟩ := ho.aligned
  obtain ⟨d, hd⟩ := hw.dyadic.2
  have hpos := hw.dyadic.pos
  have hq : a.toNat / 2097152 = x.pages * c := by
    rw [hc', hxn, mul_right_comm]; exact Nat.mul_div_cancel _ (by decide)
  have hcd : c = d := by
    have h₁ := hc.1
    have h₂ := hc.2
    rw [hq, hd] at h₁ h₂
    have h₃ : d ≤ c := Nat.le_of_mul_le_mul_left h₁ hpos
    have h₄ : c < d + 1 := Nat.lt_of_mul_lt_mul_left (by rw [mul_add, mul_one]; exact h₂)
    omega
  rw [← UInt64.toNat_inj, hw.start_eq, hd, ← hcd, hc', hxn, mul_right_comm]

section
variable {a : UInt64} {lo hi : Nat} {pre post : List VmmRangeData} {x : VmmRangeData}

/-- The search stops at the range that covers the address. -/
theorem find_rangeHolds (ht : Tiles page pages lo (pre ++ x :: post) hi)
    (hwf : ∀ r ∈ pre ++ x :: post, r.WellFormed) (ha : 2097152 ∣ a.toNat)
    (hc : Covers page pages x (a.toNat / 2097152)) :
    ListItem.find (rangeHolds a) [] (pre ++ x :: post) = some ⟨pre.reverse, x, post⟩ := by
  have hw := hwf x (by simp)
  rw [ListItem.find_append ((rangeHolds_iff hw ha).mpr hc), List.append_nil]
  intro y hy
  rw [Bool.eq_false_iff, ne_eq, rangeHolds_iff (hwf y (by simp [hy])) ha]
  intro hy'
  have := (List.pairwise_append.mp ht.pairwise).2.2 y hy x (by simp)
  have := hy'.2
  have := hc.1
  omega

/-- The two halves of a range tile what it did. -/
theorem tiles_halves (hw : x.WellFormed) (h1 : x.pages ≠ 1)
    (ht : Tiles page pages lo (pre ++ x :: post) hi) :
    Tiles page pages lo (pre ++ x.firstHalf :: x.secondHalf :: post) hi := by
  obtain ⟨-, hp₁, hn₁⟩ := firstHalf_wellFormed hw h1
  obtain ⟨-, hp₂, hn₂⟩ := secondHalf_wellFormed hw h1
  obtain ⟨hh, -, -⟩ := hw.dyadic.half h1
  obtain ⟨m, htp, rfl, htq⟩ := tiles_append.mp ht
  refine tiles_append.mpr ⟨_, htp, hp₁, ?_, ?_⟩
  · rw [hp₂, hn₁]
  · rw [hn₁, hn₂, add_assoc, ← two_mul, hh]
    exact htq

theorem wellFormed_halves (h1 : x.pages ≠ 1) (hwf : ∀ r ∈ pre ++ x :: post, r.WellFormed) :
    ∀ r ∈ pre ++ x.firstHalf :: x.secondHalf :: post, r.WellFormed := by
  have hw := hwf x (by simp)
  intro r hr
  simp only [List.mem_append, List.mem_cons] at hr
  rcases hr with hr | rfl | rfl | hr
  · exact hwf r (by simp [hr])
  · exact (firstHalf_wellFormed hw h1).1
  · exact (secondHalf_wellFormed hw h1).1
  · exact hwf r (by simp [hr])

end

/-- **What `mem_vmm_allocate_specific_range` does.**  It puts pieces in the place of the range that
covers the address, one of them the range asked for.  Where that range was free, the range asked
for is the only allocated piece. -/
theorem allocateSpecific_spec {a : UInt64} {n : UInt32} {lo hi : Nat} (k : Nat) :
    ∀ {pre post ranges' : List VmmRangeData} {x : VmmRangeData}, x.pages ≤ k →
      Tiles page pages lo (pre ++ x :: post) hi → (∀ r ∈ pre ++ x :: post, r.WellFormed) →
      SpecificOk a n → Covers page pages x (a.toNat / 2097152) →
      memVmmAllocateSpecificRange a n (pre ++ x :: post) = some ranges' →
      ∃ mid, ranges' = pre ++ mid ++ post ∧ Pieces x.page x.pages mid ∧
        ⟨a, n.toUInt64, true⟩ ∈ mid ∧
        (x.Free → mid.filter (·.allocated) = [⟨a, n.toUInt64, true⟩]) := by
  induction k with
  | zero =>
      intro pre post ranges' x hk _ hwf _ _ _
      have := (hwf x (by simp)).dyadic.pos
      omega
  | succ k ih =>
      intro pre post ranges' x hk ht hwf ho hc h
      have hw := hwf x (by simp)
      have ha : 2097152 ∣ a.toNat := (Dvd.intro_left _ rfl).trans ho.aligned
      have hfind := find_rangeHolds ht hwf ha hc
      obtain ⟨-, cur, hcur, hle, hcases⟩ := allocateSpecific_cases h
      obtain rfl : (⟨pre.reverse, x, post⟩ : ListItem VmmRangeData) = cur :=
        Option.some.inj (hfind.symm.trans hcur)
      rcases hcases with ⟨heq, -, rfl⟩ | ⟨hne, h⟩
      · -- the range has the size asked for
        have hst := ho.start_eq hw heq hc
        have hm : ({ x with allocated := true } : VmmRangeData) = ⟨a, n.toUInt64, true⟩ := by
          rw [← hst, ← heq]
        refine ⟨[⟨a, n.toUInt64, true⟩], ?_, ?_, by simp, by simp⟩
        · dsimp only; rw [hm]; simp
        · rw [← hm]; exact Pieces.single (hw.mark true) rfl
      · have h1 : x.pages ≠ 1 := by
          obtain ⟨j, hj⟩ := ho.pow
          have hjp := Nat.two_pow_pos j
          dsimp only at hle hne
          omega
        obtain ⟨hw₁, hp₁, hn₁⟩ := firstHalf_wellFormed hw h1
        obtain ⟨hw₂, hp₂, hn₂⟩ := secondHalf_wellFormed hw h1
        obtain ⟨hh, -, -⟩ := hw.dyadic.half h1
        have hpos := hw.dyadic.pos
        rw [splitRange_half hw.small, ListItem.toList_mk, List.reverse_reverse] at h
        have ht' := tiles_halves hw h1 ht
        have hwf' := wellFormed_halves h1 hwf
        by_cases hside : a.toNat / 2097152 < x.page + x.pages / 2
        · -- the address lies in the first half
          obtain ⟨mid, rfl, hpc, hmem, hfr⟩ := ih (by omega) ht' hwf' ho
            ⟨by rw [hp₁]; exact hc.1, by rw [hp₁, hn₁]; exact hside⟩ h
          rw [hp₁, hn₁] at hpc
          refine ⟨mid ++ [x.secondHalf], by simp, hpc.first hw h1 hw₂ hp₂ hn₂,
            by simp [hmem], fun hx => ?_⟩
          rw [List.filter_append, hfr hx]; simp [secondHalf]
        · -- it lies in the second half, which is free
          rw [← List.singleton_append, ← List.append_assoc] at ht' hwf' h
          obtain ⟨mid, rfl, hpc, hmem, hfr⟩ := ih (by omega) ht' hwf' ho
            ⟨by rw [hp₂]; omega, by have := hc.2; rw [hp₂, hn₂]; omega⟩ h
          rw [hp₂, hn₂] at hpc
          refine ⟨x.firstHalf :: mid, by simp, hpc.second hw h1 hw₁ hp₁ hn₁,
            by simp [hmem], fun hx => ?_⟩
          have hx' : x.firstHalf.allocated = false := hx
          rw [List.filter_cons_of_neg (by simp [hx']), hfr rfl]

/-- The range that covers the address stands somewhere in the list. -/
theorem allocateSpecific_covers {a : UInt64} {n : UInt32} {ranges ranges' : List VmmRangeData}
    (hwf : ∀ r ∈ ranges, r.WellFormed)
    (h : memVmmAllocateSpecificRange a n ranges = some ranges') :
    ∃ pre x post, ranges = pre ++ x :: post ∧ Covers page pages x (a.toNat / 2097152) := by
  obtain ⟨ho, cur, hcur, -, -⟩ := allocateSpecific_cases h
  obtain ⟨hl, hp⟩ := ListItem.find_spec hcur
  have hl' : ranges = cur.prev.reverse ++ cur.item :: cur.next := hl.symm
  refine ⟨_, _, _, hl', (rangeHolds_iff (hwf _ ?_) ?_).mp hp⟩
  · rw [hl']; simp
  · exact (Dvd.intro_left _ rfl).trans ho.aligned

/-- **A page of a free range can be reserved.** -/
theorem allocateSpecific_page {a : UInt64} {lo hi : Nat} (k : Nat) :
    ∀ {pre post : List VmmRangeData} {x : VmmRangeData}, x.pages ≤ k →
      Tiles page pages lo (pre ++ x :: post) hi → (∀ r ∈ pre ++ x :: post, r.WellFormed) →
      2097152 ∣ a.toNat → x.Free → Covers page pages x (a.toNat / 2097152) →
      ∃ ranges', memVmmAllocateSpecificRange a 1 (pre ++ x :: post) = some ranges' := by
  induction k with
  | zero =>
      intro pre post x hk _ hwf _ _ _
      have := (hwf x (by simp)).dyadic.pos
      omega
  | succ k ih =>
      intro pre post x hk ht hwf ha hx hc
      have hw := hwf x (by simp)
      have hpos := hw.dyadic.pos
      have hmod : a % (1 * 2097152 : UInt32).toUInt64 = 0 := by
        rw [← UInt64.toNat_inj, UInt64.toNat_mod]
        exact Nat.mod_eq_zero_of_dvd ha
      rw [memVmmAllocateSpecificRange]
      dsimp only
      rw [if_neg (by decide), dif_neg (by decide), if_neg (not_not.mpr hmod)]
      split
      next hnone =>
        rw [find_rangeHolds ht hwf ha hc] at hnone
        cases hnone
      next cur hcur =>
        obtain rfl : (⟨pre.reverse, x, post⟩ : ListItem VmmRangeData) = cur :=
          Option.some.inj ((find_rangeHolds ht hwf ha hc).symm.trans hcur)
        rw [dif_neg (by
          rw [UInt64.lt_iff_toNat_lt]
          exact not_lt.mpr hpos)]
        split
        next => rw [if_neg (by rw [hx]; decide)]; exact ⟨_, rfl⟩
        next hne =>
          have h1 : x.pages ≠ 1 := fun h1 => hne (UInt64.toNat_inj.mp h1)
          obtain ⟨hw₁, hp₁, hn₁⟩ := firstHalf_wellFormed hw h1
          obtain ⟨hw₂, hp₂, hn₂⟩ := secondHalf_wellFormed hw h1
          have ht' := tiles_halves hw h1 ht
          have hwf' := wellFormed_halves h1 hwf
          obtain ⟨hh, -, -⟩ := hw.dyadic.half h1
          have hless : x.pages / 2 ≤ k := by omega
          rw [splitRange_half hw.small, ListItem.toList_mk, List.reverse_reverse]
          by_cases hside : a.toNat / 2097152 < x.page + x.pages / 2
          · exact ih (hn₁ ▸ hless) ht' hwf' ha hx
              ⟨by rw [hp₁]; exact hc.1, by rw [hp₁, hn₁]; exact hside⟩
          · rw [← List.singleton_append, ← List.append_assoc] at ht' hwf' ⊢
            exact ih (hn₂ ▸ hless) ht' hwf' ha rfl
              ⟨by rw [hp₂]; omega, by have := hc.2; rw [hp₂, hn₂]; omega⟩

/-- A page that no allocated range covers can be reserved. -/
theorem VmmInv.reserves {root : VmmRoot} {ranges : List VmmRangeData} {a : UInt64}
    (h : VmmInv root ranges) (ha : 2097152 ∣ a.toNat) (hlo : root.page ≤ a.toNat / 2097152)
    (hhi : a.toNat / 2097152 < root.page + root.pages)
    (hfree : ∀ r ∈ ranges, r.allocated = true → ¬ Covers page pages r (a.toNat / 2097152)) :
    ∃ ranges', memVmmAllocateSpecificRange a 1 ranges = some ranges' := by
  obtain ⟨x, hx, hc⟩ := h.tiles.exists_covers hlo hhi
  obtain ⟨pre, post, rfl⟩ := List.append_of_mem hx
  have hfreex : x.Free := by
    cases hxa : x.allocated with
    | false => exact hxa
    | true => exact absurd hc (hfree x hx hxa)
  exact allocateSpecific_page x.pages le_rfl h.tiles h.wf ha hfreex hc

end Azalea.Mem
