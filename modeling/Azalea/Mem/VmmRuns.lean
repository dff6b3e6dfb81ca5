import Azalea.Mem.VmmMerge
import Azalea.Support.Runs

/-!
# Mem — runs of the virtual memory manager

Runs of `mem_allocate_virtual_range`, `mem_vmm_allocate_specific_range` and
`mem_deallocate_virtual_range` on one `vmm_process_data`, from its root range.  Beside the list the
state keeps the ranges granted and not yet given back; no function of the source reads these.

* `ranges_tile_root`: in every state reached the ranges are aligned powers of two and stand end to
  end over the root, in 64-bit arithmetic.
* `free_ranges_coalesced`: no two free ranges are buddies, so a free block is always found, and a
  list whose ranges are all given back is the root again.
* `grants_kept`: no page is granted twice, where no specific request falls into an allocated range.
  `mem_vmm_allocate_specific_range` does not look at the flag of a range it halves, and a second
  half is always free (`grants_kept_fails`).
-/

namespace Azalea.Mem
open Azalea.Klib Azalea.Tiling Azalea.Runs VmmRangeData

/-- The calls that change a range list. -/
inductive VmmOp where
  | allocate (numPages : UInt32)
  | allocateSpecific (startAddr : UInt64) (numPages : UInt32)
  | deallocate (start : UInt64) (numPages : UInt32)
  deriving Repr, DecidableEq

/-- A range list, and the ranges granted from it that are outstanding. -/
structure VmmState where
  ranges : List VmmRangeData
  grants : List VmmRangeData
  deriving Repr, DecidableEq

/-- A new `vmm_process_data`. -/
def VmmRoot.init (root : VmmRoot) : VmmState := ⟨[root.range], []⟩

/-- The range a request for `numPages` pages is granted at `start`. -/
def grantOf (start : UInt64) (numPages : UInt32) : VmmRangeData :=
  ⟨start, (actualNumPages numPages).toUInt64, true⟩

/-- One call. -/
def VmmState.step (s : VmmState) : VmmOp → Option VmmState
  | .allocate numPages => do
      let (start, ranges) ← memAllocateVirtualRange numPages s.ranges
      some ⟨ranges, grantOf start numPages :: s.grants⟩
  | .allocateSpecific startAddr numPages => do
      let ranges ← memVmmAllocateSpecificRange startAddr numPages s.ranges
      some ⟨ranges, grantOf startAddr numPages :: s.grants⟩
  | .deallocate start numPages => do
      let ranges ← memDeallocateVirtualRange start numPages s.ranges
      some ⟨ranges, s.grants.erase (grantOf start numPages)⟩

/-- The states a run can reach from the root. -/
def VmmReach (root : VmmRoot) (ok : VmmState → VmmOp → Prop) : VmmState → Prop :=
  Reach VmmState.step ok root.init

/-- The ranges that are allocated. -/
def allocatedRanges (ranges : List VmmRangeData) : List VmmRangeData :=
  ranges.filter (·.allocated)

/-! ### One call -/

section
variable {root : VmmRoot} {s s' : VmmState}

/-- A specific request that passes its checks asks for a power of two: nothing is rounded. -/
theorem SpecificOk.actualNumPages_eq {a : UInt64} {n : UInt32} (ho : SpecificOk a n) :
    actualNumPages n = n := by
  obtain ⟨j, hj⟩ := ho.pow
  have hlt := n.toNat_lt
  have hj32 : j < 32 := (Nat.pow_lt_pow_iff_right (a := 2) (by decide)).mp (by omega)
  have h31 : ¬ 2 ^ 31 < n.toNat := by
    have := Nat.pow_le_pow_right (n := 2) (by decide) (Nat.le_of_lt_succ hj32)
    omega
  have h0 : n ≠ 0 := by
    rintro rfl
    have := Nat.two_pow_pos j
    rw [← hj] at this
    simp at this
  rw [← UInt32.toNat_inj, actualNumPages_toNat, if_neg (by simp only [h0, h31, or_self,
    not_false_eq_true]), hj, Nat.clog_pow 2 j (by decide)]

/-- **What a call does to the list.**  It puts pieces in the place of one range, the grant among
them, or takes one grant back; either way the list stays in order. -/
theorem step_cases (hi : VmmInv root s.ranges) {op : VmmOp} (h : s.step op = some s') :
    VmmInv root s'.ranges ∧
      ((∃ g pre x post mid, s'.grants = g :: s.grants ∧ s.ranges = pre ++ x :: post ∧
          s'.ranges = pre ++ mid ++ post ∧ g ∈ mid ∧
          ((∃ n, op = .allocate n) ∧ x.Free ∨ ∃ a n, op = .allocateSpecific a n ∧
            rangeHolds a x = true) ∧
          (x.Free → allocatedRanges mid = [g])) ∨
        ∃ g pre post, s'.grants = s.grants.erase g ∧ s.ranges = pre ++ g :: post ∧
          g.allocated = true ∧
          allocatedRanges s'.ranges = allocatedRanges (pre ++ post)) := by
  cases op with
  | allocate n =>
      obtain ⟨⟨a, ranges⟩, ha, he⟩ := Option.bind_eq_some_iff.mp h
      obtain rfl := Option.some.inj he
      obtain ⟨pre, post, x, halves, hl, hx, -, hh, hp, rfl⟩ := allocate_spec hi ha
      refine ⟨VmmInv.replace (hl ▸ hi) hp, Or.inl ⟨_, pre, x, post, _, rfl, hl, rfl,
        List.mem_cons_self .., Or.inl ⟨⟨n, rfl⟩, hx⟩, fun _ => ?_⟩⟩
      have hnil : halves.filter (·.allocated) = [] :=
        List.filter_eq_nil_iff.mpr fun z hz => by rw [hh z hz]; decide
      simp only [allocatedRanges, List.filter_cons, if_true, hnil, grantOf]
  | allocateSpecific a n =>
      obtain ⟨ranges, ha, he⟩ := Option.bind_eq_some_iff.mp h
      obtain rfl := Option.some.inj he
      obtain ⟨ho, -⟩ := allocateSpecific_cases ha
      obtain ⟨pre, x, post, hl, hc⟩ := allocateSpecific_covers hi.wf ha
      have hx : x ∈ s.ranges := by rw [hl]; simp
      rw [hl] at ha
      obtain ⟨mid, rfl, hp, hm, hf⟩ :=
        allocateSpecific_spec x.pages le_rfl (hl ▸ hi.tiles) (hl ▸ hi.wf) ho hc ha
      have hg : grantOf a n = ⟨a, n.toUInt64, true⟩ := by rw [grantOf, ho.actualNumPages_eq]
      refine ⟨VmmInv.replace (hl ▸ hi) hp, Or.inl ⟨_, pre, x, post, mid, rfl, hl, rfl, ?_,
        Or.inr ⟨a, n, rfl, ?_⟩, ?_⟩⟩
      · rw [hg]; exact hm
      · exact (rangeHolds_iff (hi.wf x hx) ((Dvd.intro_left _ rfl).trans ho.aligned)).mpr hc
      · rw [hg]; exact hf
  | deallocate a n =>
      obtain ⟨ranges, ha, he⟩ := Option.bind_eq_some_iff.mp h
      obtain rfl := Option.some.inj he
      obtain ⟨hv, pre, x, post, hl, rfl, hf⟩ := deallocate_spec hi ha
      exact ⟨hv, Or.inr ⟨_, pre, post, rfl, hl, rfl, hf⟩⟩

/-- The invariant holds in every state reached. -/
theorem VmmReach.inv {ok : VmmState → VmmOp → Prop} (h : VmmReach root ok s) :
    VmmInv root s.ranges :=
  Reach.invariant (I := fun s => VmmInv root s.ranges) (vmmInv_root root)
    (fun _ _ _ hi _ hs => (step_cases hi hs).1) h

end

/-- `mem_vmm_initialize` trips no assertion, and is such a run. -/
theorem memVmmInitialize_reaches :
    ∃ s, memVmmInitialize = some s.ranges ∧ VmmReach kernelRoot anyInput s := by
  have hrun : ((run VmmState.step anyInput kernelRoot.init
      [.allocateSpecific 0xFFFFFFFF00000000 memNumKernelPages,
        .allocateSpecific 0xFFFFFFFFFFE00000 1]).map (·.ranges)) = memVmmInitialize := by
    decide +kernel
  have hsome : memVmmInitialize.isSome := by decide +kernel
  obtain ⟨ranges, hr⟩ := Option.isSome_iff_exists.mp hsome
  obtain ⟨s, hs, rfl⟩ := Option.map_eq_some_iff.mp (hrun.trans hr)
  exact ⟨s, hr, Reach.refl.run hs⟩

/-! ### The ranges tile the root -/

/-- The byte at `addr` lies in the range, in 64-bit arithmetic. -/
def VmmRangeData.Contains (r : VmmRangeData) (addr : UInt64) : Prop :=
  addr - r.start < r.numberOfPages * memPageSize

/-- The ranges are aligned powers of two that stand in order, end to end, over `root`; ends are
taken modulo `2^64`. -/
structure TilesRoot (root : VmmRangeData) (ranges : List VmmRangeData) : Prop where
  sorted : ranges.Pairwise fun r r' => r.start < r'.start
  pow : ∀ r ∈ ranges, ∃ k, r.numberOfPages.toNat = 2 ^ k
  aligned : ∀ r ∈ ranges, r.start % (r.numberOfPages * memPageSize) = 0
  first : ∀ r ∈ ranges.head?, r.start = root.start
  adjoining : ranges.IsChain fun r r' => r'.start = r.start + r.numberOfPages * memPageSize
  last : ∀ r ∈ ranges.getLast?,
    r.start + r.numberOfPages * memPageSize = root.start + root.numberOfPages * memPageSize
  covers : ∀ addr, (∃ r ∈ ranges, r.Contains addr) ↔ root.Contains addr
  disjoint : ranges.Pairwise fun r r' => ∀ addr, ¬ (r.Contains addr ∧ r'.Contains addr)

section
variable {r r' : VmmRangeData}

theorem toNat_bytes (hw : r.WellFormed) :
    (r.numberOfPages * memPageSize).toNat = r.pages * 2097152 := by
  have := hw.small
  have hnp : r.numberOfPages.toNat = r.pages := rfl
  simp only [memPageSize, UInt64.toNat_mul, UInt64.reduceToNat, hnp]
  omega

theorem contains_iff (hw : r.WellFormed) (addr : UInt64) :
    r.Contains addr ↔ Covers page pages r (addr.toNat / 2097152) := by
  have hs := hw.start_eq
  have ht := hw.top
  have hlt := addr.toNat_lt
  rw [Contains, UInt64.lt_iff_toNat_lt, toNat_bytes hw, UInt64.toNat_sub, hs, Covers]
  omega

/-- A range starts where another ends when it does so in pages. -/
theorem start_eq_end (hw : r.WellFormed) (hw' : r'.WellFormed)
    (h : r'.page = r.page + r.pages) : r'.start = r.start + r.numberOfPages * memPageSize := by
  have hs := hw.start_eq
  have hs' := hw'.start_eq
  have ht := hw'.top
  have hp := hw'.dyadic.pos
  rw [← UInt64.toNat_inj, UInt64.toNat_add, toNat_bytes hw]
  omega

theorem end_eq (hw : r.WellFormed) (hw' : r'.WellFormed)
    (h : r.page + r.pages = r'.page + r'.pages) :
    r.start + r.numberOfPages * memPageSize = r'.start + r'.numberOfPages * memPageSize := by
  rw [← UInt64.toNat_inj, UInt64.toNat_add, UInt64.toNat_add, toNat_bytes hw, toNat_bytes hw',
    hw.start_eq, hw'.start_eq, ← add_mul, ← add_mul, h]

theorem start_eq_of_page (hw : r.WellFormed) (hw' : r'.WellFormed) (h : r.page = r'.page) :
    r.start = r'.start := by
  rw [← UInt64.toNat_inj, hw.start_eq, hw'.start_eq, h]

/-- A tiling in pages is a chain of ranges that end where the next one starts. -/
theorem isChain_of_tiles {xs : List VmmRangeData} : ∀ {a b : Nat}, Tiles page pages a xs b →
    (∀ r ∈ xs, r.WellFormed) →
    xs.IsChain fun r r' => r'.start = r.start + r.numberOfPages * memPageSize := by
  induction xs with
  | nil => intro a b _ _; exact .nil
  | cons x xs ih =>
      intro a b h hw
      obtain ⟨rfl, h⟩ := h
      have ih' := ih h fun r hr => hw r (by simp [hr])
      cases xs with
      | nil => exact .singleton _
      | cons y xs =>
          exact .cons_cons (start_eq_end (hw x (by simp)) (hw y (by simp)) h.1) ih'

theorem getLast_of_tiles {xs : List VmmRangeData} {a b : Nat} (h : Tiles page pages a xs b)
    {r : VmmRangeData} (hr : r ∈ xs.getLast?) : r.page + r.pages = b := by
  obtain ⟨ys, rfl⟩ := List.getLast?_eq_some_iff.mp hr
  obtain ⟨m, -, rfl, h⟩ := tiles_append.mp h
  exact h

end

/-- **The ranges tile the root**, in every state reached from the root by calls that trip no
assertion; for the kernel's root, which ends at `2^64`, and for a user process's. -/
theorem ranges_tile_root {root : VmmRoot} {s : VmmState} (h : VmmReach root anyInput s) :
    TilesRoot root.range s.ranges := by
  have hi := h.inv
  have hroot := root.wellFormed
  have hpw := hi.tiles.pairwise
  refine ⟨?_, fun r hr => (hi.wf r hr).dyadic.1, ?_, ?_, isChain_of_tiles hi.tiles hi.wf, ?_, ?_, ?_⟩
  · refine hpw.imp_of_mem fun {r r'} hr hr' hlt => ?_
    have hp := (hi.wf r hr).dyadic.pos
    rw [UInt64.lt_iff_toNat_lt, (hi.wf r hr).start_eq, (hi.wf r' hr').start_eq]
    omega
  · intro r hr
    have hw := hi.wf r hr
    rw [← UInt64.toNat_inj, UInt64.toNat_mod, toNat_bytes hw, hw.start_eq, UInt64.toNat_zero]
    exact Nat.mod_eq_zero_of_dvd (Nat.mul_dvd_mul_right hw.dyadic.2 _)
  · intro r hr
    obtain ⟨ys, he⟩ := List.head?_eq_some_iff.mp hr
    have ht := hi.tiles
    rw [he] at ht
    exact start_eq_of_page (hi.wf r (by simp [he])) hroot ht.1
  · intro r hr
    have hmem := List.mem_of_getLast? hr
    exact end_eq (hi.wf r hmem) hroot (getLast_of_tiles hi.tiles hr)
  · intro addr
    rw [contains_iff hroot]
    constructor
    · rintro ⟨r, hr, hc⟩
      rw [contains_iff (hi.wf r hr)] at hc
      have hb := hi.tiles.bounds r hr
      exact ⟨hb.1.trans hc.1, hc.2.trans_le hb.2⟩
    · rintro ⟨h₁, h₂⟩
      obtain ⟨r, hr, hc⟩ := hi.tiles.exists_covers h₁ h₂
      exact ⟨r, hr, (contains_iff (hi.wf r hr) addr).mpr hc⟩
  · refine hpw.imp_of_mem fun {r r'} hr hr' hle addr => ?_
    rw [contains_iff (hi.wf r hr), contains_iff (hi.wf r' hr')]
    rintro ⟨⟨-, h₁⟩, h₂, -⟩
    omega

/-- The state after the calls `mem_vmm_initialize` makes, with a page allocated after them. -/
theorem ranges_tile_root_after_initialize :
    ∃ s, VmmReach kernelRoot anyInput s ∧ s.ranges.length = 21 ∧
      TilesRoot kernelRoot.range s.ranges := by
  have hrun : ((run VmmState.step anyInput kernelRoot.init
      [.allocateSpecific 0xFFFFFFFF00000000 2, .allocateSpecific 0xFFFFFFFFFFE00000 1,
        .allocate 1]).map (·.ranges.length)) = some 21 := by
    decide +kernel
  obtain ⟨s, hs, hl⟩ := Option.map_eq_some_iff.mp hrun
  exact ⟨s, Reach.refl.run hs, hl, ranges_tile_root (Reach.refl.run hs)⟩

/-! ### Free ranges are merged -/

/-- Two ranges are buddies: of one size, the second where the first ends, the first at a multiple
of twice the size. -/
def VmmRangeData.IsBuddyOf (x y : VmmRangeData) : Prop :=
  x.numberOfPages = y.numberOfPages ∧ y.start = x.start + x.numberOfPages * memPageSize ∧
    x.start % (2 * (x.numberOfPages * memPageSize)) = 0

/-- `n` pages from page `p` on, aligned to `n`, are free. -/
def FreeBlock (ranges : List VmmRangeData) (n p : Nat) : Prop :=
  n ∣ p ∧ ∀ q, p ≤ q → q < p + n →
    ∃ r ∈ ranges, r.allocated = false ∧ Covers page pages r q

section
variable {root : VmmRoot} {ranges : List VmmRangeData}

theorem VmmInv.not_isBuddyOf (hi : VmmInv root ranges) {x y : VmmRangeData} (hx : x ∈ ranges)
    (hy : y ∈ ranges) (fx : x.allocated = false) (fy : y.allocated = false) :
    ¬ x.IsBuddyOf y := by
  rintro ⟨hn, hs, hm⟩
  have hwx := hi.wf x hx
  have hwy := hi.wf y hy
  have hn' : x.pages = y.pages := congrArg UInt64.toNat hn
  have hsx := hwx.start_eq
  have hsy := hwy.start_eq
  have htx := hwx.top
  have hsm : root.pages < 2 ^ 32 := root.small
  have hbx := hi.tiles.bounds x hx
  have hby := hi.tiles.bounds y hy
  have hpx := hwx.dyadic.pos
  have hxs := hwx.small
  refine hi.coalesced x hx y hy fx fy ⟨hn', ?_, ?_⟩
  · have := congrArg UInt64.toNat hs
    rw [UInt64.toNat_add, toNat_bytes hwx] at this
    -- the first cannot end at `2^64`: the root would then be the whole address space
    omega
  · have h2 : (2 * (x.numberOfPages * memPageSize)).toNat = 2 * x.pages * 2097152 := by
      rw [UInt64.toNat_mul, toNat_bytes hwx]
      simp only [UInt64.reduceToNat]
      omega
    have := congrArg UInt64.toNat hm
    rw [UInt64.toNat_mod, h2, hsx, UInt64.toNat_zero] at this
    exact Nat.dvd_of_mul_dvd_mul_right (by decide) (Nat.dvd_of_mod_eq_zero this)

/-- `round_to_power_two` of a nonzero number of pages. -/
theorem roundToPowerTwo_pages {n : UInt32} (h0 : n ≠ 0) :
    (roundToPowerTwo n.toUInt64).toNat = 2 ^ Nat.clog 2 n.toNat := by
  have hlt := n.toNat_lt
  rw [roundToPowerTwo_toNat _ (by simp; omega), UInt32.toNat_toUInt64]
  exact fun e => h0 (UInt32.toNat_inj.mp (by simpa using congrArg UInt64.toNat e))

/-- A range is found where a block is free. -/
theorem getSuitableRange_isSome_iff (hi : VmmInv root ranges) {n : UInt32} (h0 : n ≠ 0) :
    (memVmmGetSuitableRange (actualNumPages n) ranges).isSome ↔
      ∃ p, FreeBlock ranges (roundToPowerTwo n.toUInt64).toNat p := by
  rw [roundToPowerTwo_pages h0]
  have hact := actualNumPages_toNat n
  constructor
  · intro h
    obtain ⟨it, hit⟩ := Option.isSome_iff_exists.mp h
    obtain ⟨hz, hl, hf, hle⟩ := getSuitableRange_spec hit
    have hmem : it.item ∈ ranges := by rw [← hl]; simp [ListItem.toList]
    have hw := hi.wf _ hmem
    have hpow : (actualNumPages n).toNat = 2 ^ Nat.clog 2 n.toNat := by
      split at hact
      next => exact absurd (UInt32.toNat_inj.mp hact) hz
      next => exact hact
    rw [hpow] at hle
    refine ⟨it.item.page, ?_, fun q h₁ h₂ => ⟨it.item, hmem, hf, h₁, by omega⟩⟩
    have hD : Dyadic 0 (2 ^ Nat.clog 2 n.toNat) := ⟨⟨_, rfl⟩, dvd_zero _⟩
    exact (hD.dvd hw.dyadic hle).trans hw.dyadic.2
  · rintro ⟨p, hdvd, hfree⟩
    have hpos := Nat.two_pow_pos (Nat.clog 2 n.toNat)
    obtain ⟨r₁, hr₁, -, hc₁⟩ := hfree p le_rfl (by omega)
    obtain ⟨r₂, hr₂, -, hc₂⟩ := hfree (p + 2 ^ Nat.clog 2 n.toNat - 1) (by omega) (by omega)
    have hlo := (hi.tiles.bounds r₁ hr₁).1.trans hc₁.1
    have hhi := hc₂.2.trans_le (hi.tiles.bounds r₂ hr₂).2
    obtain ⟨x, hx, fx, h₁, h₂⟩ := hi.coalesced.exists_block hi.tiles
      (fun r hr => (hi.wf r hr).dyadic) (Nat.clog 2 n.toNat) p hdvd hlo (by omega)
      fun q hq₁ hq₂ r hr hc => by
        obtain ⟨r', hr', fr', hc'⟩ := hfree q hq₁ hq₂
        rw [hi.tiles.covers_unique hr hr' hc hc']; exact fr'
    have hsmall := (hi.wf x hx).small
    -- the block fits in a root of fewer than `2^32` pages, so the rounded size fits in 32 bits
    have hbig : ¬ 2 ^ 31 < n.toNat := fun hb => by
      have h32 : 2 ^ 32 ≤ 2 ^ Nat.clog 2 n.toNat := by
        refine Nat.pow_le_pow_right (by decide) ?_
        by_contra hcon
        have := (Nat.clog_le_iff_le_pow (b := 2) (by decide)).mp
          (Nat.le_of_lt_succ (not_le.mp hcon))
        omega
      omega
    rw [if_neg (by simp only [h0, hbig, or_self, not_false_eq_true])] at hact
    have hnz : actualNumPages n ≠ 0 := fun e => by
      rw [e] at hact
      exact hpos.ne hact
    rw [memVmmGetSuitableRange, if_neg (by
      rintro (e | e)
      · rw [e] at hx; cases hx
      · exact hnz e)]
    exact suitableLoop_isSome (Or.inr ⟨x, hx, fx, by omega⟩)

/-- A range that is found is allocated: after the split it has the size asked for. -/
theorem allocate_isSome_iff (hi : VmmInv root ranges) {n : UInt32} :
    (memAllocateVirtualRange n ranges).isSome ↔
      (memVmmGetSuitableRange (actualNumPages n) ranges).isSome := by
  rw [memAllocateVirtualRange]
  dsimp only
  rw [← actualNumPages]
  cases hit : memVmmGetSuitableRange (actualNumPages n) ranges with
  | none => simp
  | some it =>
      obtain ⟨hz, hl, -, hle⟩ := getSuitableRange_spec hit
      have hw : it.item.WellFormed := hi.wf _ (by rw [← hl]; simp [ListItem.toList])
      simp only [Option.bind_eq_bind, Option.bind_some, Option.isSome_some, iff_true]
      by_cases heq : it.item.numberOfPages = (actualNumPages n).toUInt64
      · rw [if_neg (not_not.mpr heq), if_neg (not_not.mpr heq)]; rfl
      · have hne : (actualNumPages n).toNat ≠ it.item.pages := fun e =>
          heq (UInt64.toNat_inj.mp (by simpa [VmmRangeData.pages] using e.symm))
        obtain ⟨halves, he, -⟩ :=
          splitRange_spec hw (actualNumPages_pow hz) (lt_of_le_of_ne hle hne)
        rw [if_pos heq, he, if_neg (not_not.mpr rfl)]; rfl

/-- A list in order with nothing allocated is the root. -/
theorem VmmInv.eq_root (hi : VmmInv root ranges) (hf : allocatedRanges ranges = []) :
    ranges = [root.range] := by
  have hfree : ∀ r ∈ ranges, r.Free := fun r hr =>
    Bool.eq_false_iff.mpr (List.filter_eq_nil_iff.mp hf r hr)
  obtain ⟨x, rfl, hp, hn⟩ := hi.coalesced.eq_singleton root.wellFormed.dyadic hi.tiles
    (fun r hr => (hi.wf r hr).dyadic) hfree
  have hw := hi.wf x (by simp)
  have hst := start_eq_of_page hw root.wellFormed hp
  have hnp : x.numberOfPages = root.range.numberOfPages := UInt64.toNat_inj.mp hn
  have hx : x.allocated = false := hfree x (by simp)
  cases x
  simp_all [VmmRoot.range]

/-- Deallocating the allocated ranges one after the other, in the order given. -/
theorem run_deallocate (numPages : VmmRangeData → UInt32) (order : List VmmRangeData) :
    ∀ {s : VmmState}, VmmInv root s.ranges → order.Perm (allocatedRanges s.ranges) →
      (∀ r ∈ order, (actualNumPages (numPages r)).toUInt64 = r.numberOfPages) →
      ∃ s', run VmmState.step anyInput s
          (order.map fun r => VmmOp.deallocate r.start (numPages r)) = some s' ∧
        VmmInv root s'.ranges ∧ allocatedRanges s'.ranges = [] := by
  induction order with
  | nil => intro s hi hp _; exact ⟨s, rfl, hi, hp.symm.eq_nil⟩
  | cons r order ih =>
      intro s hi hp hn
      obtain ⟨hr, ha⟩ := List.mem_filter.mp (hp.subset (List.mem_cons_self ..))
      have hn' := hn r (by simp)
      have hre : r = ⟨r.start, (actualNumPages (numPages r)).toUInt64, true⟩ := by
        rw [hn', ← ha]
      rw [hre] at hr
      obtain ⟨ranges', hd⟩ := deallocate_of_mem hi hr
      obtain ⟨hi', pre, x, post, hl, hx, hf⟩ := deallocate_spec hi hd
      rw [← hre] at hx
      subst hx
      have hp' : order.Perm (allocatedRanges ranges') := by
        have hmid : (allocatedRanges s.ranges).Perm (x :: allocatedRanges (pre ++ post)) := by
          simp only [allocatedRanges, hl, List.filter_append, List.filter_cons, ha, if_true]
          exact List.perm_middle
        have hf' : allocatedRanges ranges' = allocatedRanges (pre ++ post) := hf
        rw [hf']
        exact (hp.trans hmid).cons_inv
      obtain ⟨s', hrun, hres⟩ := ih
        (s := ⟨ranges', s.grants.erase (grantOf x.start (numPages x))⟩) hi' hp'
        fun r hr => hn r (by simp [hr])
      refine ⟨s', ?_, hres⟩
      rw [List.map_cons, run, if_pos (by trivial), VmmState.step, hd]
      exact hrun

end

/-- **Free ranges are merged**, in every state reached: no two of them are buddies; a request is
met exactly where a block of its rounded size is free; and when the allocated ranges are given
back, in any order, the root range is all that is left. -/
theorem free_ranges_coalesced {root : VmmRoot} {s : VmmState} (h : VmmReach root anyInput s) :
    (∀ x ∈ s.ranges, ∀ y ∈ s.ranges, x.allocated = false → y.allocated = false →
      ¬ x.IsBuddyOf y) ∧
    (∀ n : UInt32, n ≠ 0 →
      ((memVmmGetSuitableRange (actualNumPages n) s.ranges).isSome ↔
        ∃ p, FreeBlock s.ranges (roundToPowerTwo n.toUInt64).toNat p) ∧
      ((memAllocateVirtualRange n s.ranges).isSome ↔
        ∃ p, FreeBlock s.ranges (roundToPowerTwo n.toUInt64).toNat p)) ∧
    (∀ (order : List VmmRangeData) (numPages : VmmRangeData → UInt32),
      order.Perm (allocatedRanges s.ranges) →
      (∀ r ∈ order, (actualNumPages (numPages r)).toUInt64 = r.numberOfPages) →
      ∃ s', run VmmState.step anyInput s
          (order.map fun r => VmmOp.deallocate r.start (numPages r)) = some s' ∧
        s'.ranges = [root.range]) ∧
    (allocatedRanges s.ranges = [] → s.ranges = [root.range]) := by
  have hi := h.inv
  refine ⟨fun x hx y hy => hi.not_isBuddyOf hx hy, fun n h0 => ?_, fun order numPages hp hn => ?_,
    hi.eq_root⟩
  · exact ⟨getSuitableRange_isSome_iff hi h0,
      (allocate_isSome_iff hi).trans (getSuitableRange_isSome_iff hi h0)⟩
  · obtain ⟨s', hrun, hi', hf⟩ := run_deallocate numPages order hi hp hn
    exact ⟨s', hrun, hi'.eq_root hf⟩

/-- Two pages taken one by one from the kernel's root and given back in the order they were
taken. -/
theorem free_ranges_coalesced_two_pages :
    ∃ s, VmmReach kernelRoot anyInput s ∧
      allocatedRanges s.ranges =
        [⟨0xFFFFFFFF00000000, 1, true⟩, ⟨0xFFFFFFFF00200000, 1, true⟩] ∧
      ∃ s', run VmmState.step anyInput s
          ((allocatedRanges s.ranges).map fun r => VmmOp.deallocate r.start 1) = some s' ∧
        s'.ranges = [kernelRoot.range] := by
  have hrun : ((run VmmState.step anyInput kernelRoot.init [.allocate 1, .allocate 1]).map
      (allocatedRanges ·.ranges)) =
        some [⟨0xFFFFFFFF00000000, 1, true⟩, ⟨0xFFFFFFFF00200000, 1, true⟩] := by
    decide +kernel
  obtain ⟨s, hs, ha⟩ := Option.map_eq_some_iff.mp hrun
  have hr := Reach.refl.run hs
  refine ⟨s, hr, ha, (free_ranges_coalesced hr).2.2.1 _ (fun _ => 1) (List.Perm.refl _) ?_⟩
  rw [ha]
  decide +kernel

/-! ### Grants -/

/-- No two outstanding grants share a page, and each stands in the list as it was granted. -/
def GrantsKept (s : VmmState) : Prop :=
  s.grants.Pairwise (fun g g' => ∀ p, ¬ (Covers page pages g p ∧ Covers page pages g' p)) ∧
    ∀ g ∈ s.grants, g.allocated = true ∧ g ∈ s.ranges

/-- A request for a given address does not fall into an allocated range. -/
def SpecificIntoFree (s : VmmState) : VmmOp → Prop
  | .allocateSpecific startAddr _ =>
      ∀ r ∈ s.ranges, rangeHolds startAddr r = true → r.allocated = false
  | _ => True

instance (s : VmmState) (op : VmmOp) : Decidable (SpecificIntoFree s op) := by
  cases op <;> simp only [SpecificIntoFree] <;> infer_instance

/-- The outstanding grants are the allocated ranges. -/
structure GrantInv (root : VmmRoot) (s : VmmState) : Prop where
  inv : VmmInv root s.ranges
  perm : (allocatedRanges s.ranges).Perm s.grants

theorem GrantInv.step {root : VmmRoot} {s s' : VmmState} {op : VmmOp} (h : GrantInv root s)
    (hok : SpecificIntoFree s op) (hs : s.step op = some s') : GrantInv root s' := by
  obtain ⟨hi, hc⟩ := step_cases h.inv hs
  refine ⟨hi, ?_⟩
  have hperm := h.perm
  rcases hc with ⟨g, pre, x, post, mid, hg, hl, hl', -, hop, hmid⟩ |
    ⟨g, pre, post, hg, hl, ha, hf⟩
  · have hx : x.Free := by
      rcases hop with ⟨-, hx⟩ | ⟨a, n, rfl, hx⟩
      · exact hx
      · exact hok x (by rw [hl]; simp) hx
    have hx' : x.allocated = false := hx
    have hmid' : mid.filter (·.allocated) = [g] := hmid hx
    rw [hg, hl']
    simp only [allocatedRanges, hl, List.filter_append, List.filter_cons, hx', hmid',
      Bool.false_eq_true, if_false] at hperm ⊢
    simp only [List.append_assoc, List.singleton_append]
    exact List.perm_middle.trans (hperm.cons g)
  · rw [hg, hf]
    simp only [allocatedRanges, hl, List.filter_append, List.filter_cons, ha, if_true] at hperm ⊢
    have := (List.perm_middle.symm.trans hperm).erase g
    rwa [List.erase_cons_head] at this

theorem GrantInv.kept {root : VmmRoot} {s : VmmState} (h : GrantInv root s) : GrantsKept s := by
  have hpw : (allocatedRanges s.ranges).Pairwise
      (fun g g' => ∀ p, ¬ (Covers page pages g p ∧ Covers page pages g' p)) := by
    refine (h.inv.tiles.pairwise.imp ?_).filter _
    rintro g g' hle p ⟨⟨-, h₁⟩, h₂, -⟩
    omega
  refine ⟨(h.perm.pairwise_iff fun {x y} hxy p hp => hxy p hp.symm).mp hpw, fun g hg => ?_⟩
  obtain ⟨hm, ha⟩ := List.mem_filter.mp (h.perm.symm.subset hg)
  exact ⟨ha, hm⟩

/-- **No page is granted twice**, and every outstanding grant keeps its place, its length and its
flag, in every run whose specific requests do not fall into allocated ranges. -/
theorem grants_kept {root : VmmRoot} {s : VmmState} (h : VmmReach root SpecificIntoFree s) :
    GrantsKept s :=
  (Reach.invariant (I := GrantInv root) ⟨vmmInv_root root, .refl _⟩
    (fun _ _ _ hi hok hs => hi.step hok hs) h).kept

/-- The run of `mem_vmm_initialize`, three pages allocated after it, and one range given back. -/
theorem grants_kept_after_initialize :
    ∃ s, VmmReach kernelRoot SpecificIntoFree s ∧
      s.grants = [⟨0xFFFFFFFF00800000, 4, true⟩, ⟨0xFFFFFFFF00000000, 2, true⟩] ∧
      GrantsKept s := by
  have hrun : ((run VmmState.step SpecificIntoFree kernelRoot.init
      [.allocateSpecific 0xFFFFFFFF00000000 2, .allocateSpecific 0xFFFFFFFFFFE00000 1,
        .allocate 3, .deallocate 0xFFFFFFFFFFE00000 1]).map (·.grants)) =
        some [⟨0xFFFFFFFF00800000, 4, true⟩, ⟨0xFFFFFFFF00000000, 2, true⟩] := by
    decide +kernel
  obtain ⟨s, hs, hg⟩ := Option.map_eq_some_iff.mp hrun
  exact ⟨s, Reach.refl.run hs, hg, grants_kept (Reach.refl.run hs)⟩

/-- Four pages, then the last one of them again: the specific request halves the allocated range,
and finds the page it asks for in the free second half. -/
theorem grants_kept_fails :
    ¬ ∀ (root : VmmRoot) (s : VmmState), VmmReach root anyInput s → GrantsKept s := by
  intro hall
  have hrun : ((run VmmState.step anyInput userRoot.init
      [.allocate 4, .allocateSpecific 0x600000 1]).map (·.grants)) =
        some [⟨0x600000, 1, true⟩, ⟨0, 4, true⟩] := by
    decide +kernel
  obtain ⟨s, hs, hg⟩ := Option.map_eq_some_iff.mp hrun
  have hk := (hall userRoot s (Reach.refl.run hs)).1
  rw [hg, List.pairwise_cons] at hk
  exact hk.1 _ (List.mem_singleton.mpr rfl) 3 (by decide)

end Azalea.Mem
