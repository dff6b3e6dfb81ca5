import Azalea.Klib.Heap

/-!
# Klib — the ranges while an allocation is under way

`mem_vmm_split_range` allocates its items before it changes the list of ranges, so that a `kmalloc`
can meet the list in the middle of a split, where two halves of a range are free side by side.
`RangesOk` is what the list keeps even then.

- `getSuitableRange_iff`: the range that is selected is the first of the smallest.
- `getSuitableRange_halve`: a range that is selected and then halved would be selected again.
-/

namespace Azalea.Klib
open Azalea.Tiling Azalea.Mem VmmRangeData

/-- The ranges tile the kernel's address space. -/
structure RangesOk (ranges : List VmmRangeData) : Prop where
  tiles : Tiles page pages kernelRoot.page ranges (kernelRoot.page + kernelRoot.pages)
  wf : ∀ r ∈ ranges, r.WellFormed

section
variable {ranges pre post mid : List VmmRangeData} {r r' x : VmmRangeData}
  {it : ListItem VmmRangeData} {n : UInt32}

theorem free_eq (h : r.Free) : r = ⟨r.start, r.numberOfPages, false⟩ := by
  rw [← h]

/-- No two ranges start at one address. -/
theorem RangesOk.unique (h : RangesOk ranges) (hr : r ∈ ranges) (hr' : r' ∈ ranges)
    (hstart : r.start = r'.start) : r = r' := by
  have hpage : r.page = r'.page := by rw [VmmRangeData.page, VmmRangeData.page, hstart]
  have hpos := (h.wf r hr).dyadic.pos
  have hpos' := (h.wf r' hr').dyadic.pos
  refine h.tiles.covers_unique (p := r.page) hr hr' ⟨Nat.le_refl _, by omega⟩ ⟨?_, ?_⟩
  · exact hpage.ge
  · omega

/-- Pieces in the place of a range. -/
theorem RangesOk.replace (h : RangesOk (pre ++ x :: post))
    (htiles : Tiles page pages x.page mid (x.page + x.pages)) (hwf : ∀ z ∈ mid, z.WellFormed) :
    RangesOk (pre ++ mid ++ post) := by
  obtain ⟨m, hpre, hx, hpost⟩ := tiles_append.mp h.tiles
  subst hx
  refine ⟨tiles_append.mpr ⟨_, tiles_append.mpr ⟨_, hpre, htiles⟩, hpost⟩, fun z hz => ?_⟩
  rcases List.mem_append.mp hz with hz | hz
  · rcases List.mem_append.mp hz with hz | hz
    · exact h.wf z (by simp [hz])
    · exact hwf z hz
  · exact h.wf z (by simp [hz])

theorem RangesOk.halve (h : RangesOk (pre ++ x :: post)) (hx : x.pages ≠ 1) :
    RangesOk (pre ++ x.firstHalf :: x.secondHalf :: post) := by
  have hw := h.wf x (by simp)
  obtain ⟨hw₁, hp₁, hn₁⟩ := firstHalf_wellFormed hw hx
  obtain ⟨hw₂, hp₂, hn₂⟩ := secondHalf_wellFormed hw hx
  have hhalf := (hw.dyadic.half hx).1
  have htiles : Tiles page pages x.page [x.firstHalf, x.secondHalf] (x.page + x.pages) :=
    ⟨hp₁, by rw [hn₁]; exact hp₂, by rw [hn₁, hn₂]; change _ = _; omega⟩
  have hwf : ∀ z ∈ [x.firstHalf, x.secondHalf], z.WellFormed := by
    rintro z (_ | ⟨_, _ | ⟨_, hz⟩⟩)
    · exact hw₁
    · exact hw₂
    · cases hz
  simpa using h.replace htiles hwf

theorem RangesOk.mark (h : RangesOk (pre ++ x :: post)) :
    RangesOk (pre ++ { x with allocated := true } :: post) := by
  have hw := h.wf x (by simp)
  have htiles : Tiles page pages x.page [{ x with allocated := true }] (x.page + x.pages) := ⟨rfl, rfl⟩
  have hwf : ∀ z ∈ [{ x with allocated := true }], z.WellFormed := by
    rintro z (_ | ⟨_, hz⟩)
    · exact hw.mark true
    · cases hz
  simpa using h.replace htiles hwf

/-- No range before another starts where it does. -/
theorem RangesOk.before (h : RangesOk (pre ++ x :: post)) : ∀ y ∈ pre, (y.start == x.start) = false := by
  intro y hy
  rw [beq_eq_false_iff_ne]
  intro hstart
  obtain ⟨m, hpre, hm, -⟩ := tiles_append.mp h.tiles
  have hle := (hpre.bounds y hy).2
  have hpos := (h.wf y (by simp [hy])).dyadic.pos
  have hpage : y.page = x.page := by rw [VmmRangeData.page, VmmRangeData.page, hstart]
  omega

/-- The item of a range is found at its start. -/
theorem RangesOk.find_item (h : RangesOk it.toList) :
    ListItem.find (fun z => z.start == it.item.start) [] it.toList = some it := by
  rw [ListItem.toList, ListItem.find_append (by simp) h.before, List.reverse_reverse, List.append_nil]

theorem RangesOk.find_start (h : RangesOk ranges) (hr : r ∈ ranges) :
    ∃ it, ListItem.find (fun z => z.start == r.start) [] ranges = some it ∧ it.item = r ∧
      it.toList = ranges := by
  obtain ⟨pre, post, rfl⟩ := List.append_of_mem hr
  have hlist : (⟨pre.reverse, r, post⟩ : ListItem VmmRangeData).toList = pre ++ r :: post := by
    rw [ListItem.toList_mk, List.reverse_reverse]
  exact ⟨⟨pre.reverse, r, post⟩, by rw [← hlist]; exact (hlist ▸ h).find_item, rfl, hlist⟩

/-! ### Which range is selected -/

/-- The first of the smallest free ranges of at least `n` pages. -/
structure IsSuitable (n : UInt32) (it : ListItem VmmRangeData) : Prop where
  free : it.item.Free
  enough : n.toNat ≤ it.item.pages
  prev : ∀ r ∈ it.prev, r.Free → n.toNat ≤ r.pages → it.item.pages < r.pages
  next : ∀ r ∈ it.next, r.Free → n.toNat ≤ r.pages → it.item.pages ≤ r.pages

/-- The test of the loop. -/
theorem improves_iff {selected : Option (ListItem VmmRangeData)} {cur : VmmRangeData} :
    (!cur.allocated && cur.numberOfPages ≥ n.toUInt64 && improvesOn selected cur) = true ↔
      cur.Free ∧ n.toNat ≤ cur.pages ∧ ∀ s ∈ selected, cur.pages < s.item.pages := by
  rw [Bool.and_eq_true, Bool.and_eq_true, Bool.not_eq_true', decide_eq_true_eq,
    ge_iff_le, UInt64.le_iff_toNat_le, UInt32.toNat_toUInt64, and_assoc]
  refine and_congr_right fun _ => and_congr_right fun _ => ?_
  cases selected with
  | none => simp [improvesOn]
  | some s => simp [improvesOn, UInt64.lt_iff_toNat_lt, VmmRangeData.pages]

/-- The loop, when the rest of the list has nothing better. -/
theorem suitableLoop_keep {s : ListItem VmmRangeData} : ∀ {next prev : List VmmRangeData},
    (∀ r ∈ next, r.Free → n.toNat ≤ r.pages → s.item.pages ≤ r.pages) →
      suitableLoop n prev next (some s) = some s := by
  intro next
  induction next with
  | nil => intro prev _; rfl
  | cons cur next ih =>
      intro prev hnext
      rw [suitableLoop, if_neg, ih fun r hr => hnext r (List.mem_cons_of_mem _ hr)]
      rw [improves_iff]
      rintro ⟨hfree, hn, hlt⟩
      exact absurd (hnext cur (List.mem_cons_self ..) hfree hn) (Nat.not_le.mpr (hlt s rfl))

/-- The loop, up to the first of the smallest. -/
theorem suitableLoop_reach (hx : x.Free) (hn : n.toNat ≤ x.pages)
    (hpost : ∀ r ∈ post, r.Free → n.toNat ≤ r.pages → x.pages ≤ r.pages) :
    ∀ {pre prev : List VmmRangeData} {selected : Option (ListItem VmmRangeData)},
      (∀ r ∈ pre, r.Free → n.toNat ≤ r.pages → x.pages < r.pages) →
      (∀ s ∈ selected, x.pages < s.item.pages) →
      suitableLoop n prev (pre ++ x :: post) selected = some ⟨pre.reverse ++ prev, x, post⟩ := by
  intro pre
  induction pre with
  | nil =>
      intro prev selected _ hsel
      rw [List.nil_append, suitableLoop, if_pos (improves_iff.mpr ⟨hx, hn, hsel⟩)]
      exact suitableLoop_keep hpost
  | cons cur pre ih =>
      intro prev selected hpre hsel
      rw [List.cons_append, suitableLoop, ih fun r hr => hpre r (List.mem_cons_of_mem _ hr)]
      · simp
      · intro s hs
        split at hs
        next himp =>
          obtain rfl := Option.some.inj hs
          have himp := improves_iff.mp himp
          exact hpre cur (List.mem_cons_self ..) himp.1 himp.2.1
        next => exact hsel s hs

theorem getSuitableRange_of_isSuitable (h : IsSuitable n it) (hn : n ≠ 0) :
    memVmmGetSuitableRange n it.toList = some it := by
  have hne : it.toList ≠ [] := by simp [ListItem.toList]
  rw [memVmmGetSuitableRange, if_neg (not_or.mpr ⟨hne, hn⟩), ListItem.toList,
    suitableLoop_reach h.free h.enough h.next (fun r hr => h.prev r (List.mem_reverse.mp hr))
      (fun s hs => (by cases hs)), List.reverse_reverse, List.append_nil]

/-- There is a first of the smallest, if there is any. -/
theorem exists_isSuitable : ∀ {ranges : List VmmRangeData}, (∃ r ∈ ranges, r.Free ∧ n.toNat ≤ r.pages) →
    ∃ it, it.toList = ranges ∧ IsSuitable n it := by
  intro ranges
  induction ranges with
  | nil => rintro ⟨r, hr, -⟩; cases hr
  | cons cur ranges ih =>
      intro hex
      by_cases hrest : ∃ r ∈ ranges, r.Free ∧ n.toNat ≤ r.pages
      · obtain ⟨it, rfl, hit⟩ := ih hrest
        by_cases hcur : cur.Free ∧ n.toNat ≤ cur.pages ∧ cur.pages ≤ it.item.pages
        · refine ⟨⟨[], cur, it.toList⟩, rfl, hcur.1, hcur.2.1, fun r hr => (by cases hr), ?_⟩
          intro r hr hfree hn
          refine hcur.2.2.trans ?_
          rcases List.mem_append.mp hr with hr | hr
          · exact (hit.prev r (List.mem_reverse.mp hr) hfree hn).le
          · rcases List.mem_cons.mp hr with rfl | hr
            · exact Nat.le_refl _
            · exact hit.next r hr hfree hn
        · refine ⟨⟨it.prev ++ [cur], it.item, it.next⟩, by simp [ListItem.toList], hit.free, hit.enough,
            ?_, hit.next⟩
          intro r hr hfree hn
          rcases List.mem_append.mp hr with hr | hr
          · exact hit.prev r hr hfree hn
          · obtain rfl := List.mem_singleton.mp hr
            by_contra hlt
            exact hcur ⟨hfree, hn, Nat.not_lt.mp hlt⟩
      · obtain ⟨r, hr, hfree, hn⟩ := hex
        rcases List.mem_cons.mp hr with rfl | hr
        · exact ⟨⟨[], r, ranges⟩, rfl, hfree, hn, fun z hz => (by cases hz),
            fun z hz hz₁ hz₂ => absurd ⟨z, hz, hz₁, hz₂⟩ hrest⟩
        · exact absurd ⟨r, hr, hfree, hn⟩ hrest

/-- **`mem_vmm_get_suitable_range`** selects the first of the smallest. -/
theorem getSuitableRange_iff : memVmmGetSuitableRange n ranges = some it ↔
    n ≠ 0 ∧ it.toList = ranges ∧ IsSuitable n it := by
  constructor
  · intro h
    obtain ⟨hn, hlist, hfree, hle⟩ := getSuitableRange_spec h
    refine ⟨hn, hlist, ?_⟩
    have hmem : it.item ∈ ranges := by
      rw [← hlist]
      simp [ListItem.toList]
    obtain ⟨it', hlist', hit'⟩ := exists_isSuitable ⟨it.item, hmem, hfree, hle⟩
    have heq := getSuitableRange_of_isSuitable hit' hn
    rw [hlist', h, Option.some.injEq] at heq
    rwa [heq]
  · rintro ⟨hn, rfl, hit⟩
    exact getSuitableRange_of_isSuitable hit hn

/-- A range that was selected for one page and is halved would be selected again. -/
theorem IsSuitable.halve (h : IsSuitable 1 it) (hw : it.item.WellFormed) (hx : it.item.pages ≠ 1) :
    IsSuitable 1 ⟨it.prev, it.item.firstHalf, it.item.secondHalf :: it.next⟩ := by
  obtain ⟨-, -, hn₁⟩ := firstHalf_wellFormed hw hx
  obtain ⟨-, -, hn₂⟩ := secondHalf_wellFormed hw hx
  have hhalf := (hw.dyadic.half hx).1
  have hpos := hw.dyadic.pos
  refine ⟨h.free, ?_, fun r hr hfree hn => ?_, fun r hr hfree hn => ?_⟩
  · change 1 ≤ it.item.firstHalf.pages
    omega
  · have hlt := h.prev r hr hfree hn
    change it.item.firstHalf.pages < r.pages
    omega
  · change it.item.firstHalf.pages ≤ r.pages
    rcases List.mem_cons.mp hr with rfl | hr
    · omega
    · have hle := h.next r hr hfree hn
      omega

end

end Azalea.Klib
