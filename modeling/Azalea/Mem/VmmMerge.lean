import Azalea.Mem.VmmInvariant

/-!
# Mem — merging and deallocating

`mem_vmm_resolve_merges` looks at one side of the freed range only.  Its loop keeps that no two
free ranges other than the one it stands on are buddies (`MergeInv`), and where it stops that range
has no free buddy either:

* `resolveMerges_spec`: it ends in a list without free buddies, with the same allocated ranges;
* `deallocate_spec`, `deallocate_of_mem`: a deallocation takes one allocated range out.
-/

namespace Azalea.Mem
open Azalea.Klib Azalea.Tiling VmmRangeData

variable {root : VmmRoot}

/-- The address test: the range starts at a multiple of twice its length. -/
theorem VmmRangeData.WellFormed.lower_iff {r : VmmRangeData} (h : r.WellFormed) :
    r.start % (r.numberOfPages * 2 * memPageSize) = 0 ↔ 2 * r.pages ∣ r.page := by
  have hs := h.start_eq
  have hsm := h.small
  have hnp : r.numberOfPages.toNat = r.pages := rfl
  have hm : (r.numberOfPages * 2 * memPageSize).toNat = 2 * r.pages * 2097152 := by
    simp only [memPageSize, UInt64.toNat_mul, UInt64.reduceToNat, hnp]
    omega
  rw [← UInt64.toNat_inj, UInt64.toNat_mod, hm, hs, UInt64.toNat_zero, ← Nat.dvd_iff_mod_eq_zero]
  exact Nat.mul_dvd_mul_iff_right (by decide)

/-- Where the upper of two blocks of one length is not aligned to the double length, the lower is. -/
theorem lower_of_upper {p n : Nat} (hup : Dyadic (p + n) n) (hd : ¬ 2 * n ∣ p + n) : 2 * n ∣ p := by
  obtain ⟨c, hc⟩ := hup.2
  rw [hc] at hd
  have hodd : c % 2 = 1 := by
    by_contra hce
    exact hd ⟨c / 2, by rw [mul_comm 2, mul_assoc]; congr 1; omega⟩
  refine ⟨c / 2, ?_⟩
  have hc2 : c = 2 * (c / 2) + 1 := by omega
  rw [hc2, mul_add, mul_one] at hc
  rw [mul_comm 2, mul_assoc]
  omega

/-- Two ranges of one length, side by side, make a range of the double length. -/
theorem doubled_wellFormed {x y : VmmRangeData} (hx : x.WellFormed) (hy : y.WellFormed)
    (hxy : y.page = x.page + x.pages) (hn : y.pages = x.pages) (hd : 2 * x.pages ∣ x.page)
    (hsmall : 2 * x.pages < 2 ^ 32) (b : Bool) :
    (⟨x.start, x.numberOfPages * 2, b⟩ : VmmRangeData).WellFormed ∧
      (⟨x.start, x.numberOfPages * 2, b⟩ : VmmRangeData).pages = 2 * x.pages := by
  have hpages : (⟨x.start, x.numberOfPages * 2, b⟩ : VmmRangeData).pages = 2 * x.pages := by
    have hnp : x.numberOfPages.toNat = x.pages := rfl
    simp only [pages, UInt64.toNat_mul, UInt64.reduceToNat] at *
    omega
  have htop := hy.top
  refine ⟨⟨hx.aligned, ?_, ?_, ?_⟩, hpages⟩
  · rw [hpages]
    exact hx.dyadic.double hd
  · rw [hpages]
    change x.page + _ ≤ _
    omega
  · rw [hpages]
    exact hsmall

/-- What holds while merging: all of `VmmInv`, but for buddies of the range stood on. -/
structure MergeInv (root : VmmRoot) (it : ListItem VmmRangeData) : Prop where
  tiles : Tiles page pages root.page it.toList (root.page + root.pages)
  wf : ∀ r ∈ it.toList, r.WellFormed
  free : it.item.Free
  others : Coalesced page pages Free (it.prev.reverse ++ it.next)

namespace MergeInv
variable {it : ListItem VmmRangeData}

theorem item_wf (h : MergeInv root it) : it.item.WellFormed := h.wf _ (by simp [ListItem.toList])

/-- The merge stops where the range stood on has no free buddy. -/
theorem done (h : MergeInv root it)
    (hnext : ∀ y ∈ it.toList, y.Free → ¬ Buddies page pages it.item y)
    (hprev : ∀ x ∈ it.toList, x.Free → ¬ Buddies page pages x it.item) :
    VmmInv root it.toList := by
  refine ⟨h.tiles, h.wf, ?_⟩
  intro x hx y hy fx fy
  have split : ∀ z ∈ it.toList, z = it.item ∨ z ∈ it.prev.reverse ++ it.next := by
    intro z hz
    simp only [ListItem.toList, List.mem_append, List.mem_cons] at hz ⊢
    tauto
  rcases split x hx, split y hy with ⟨rfl | hx', rfl | hy'⟩
  · exact hnext _ hy fy
  · exact hnext _ hy fy
  · exact hprev _ hx fx
  · exact h.others x hx' y hy' fx fy

/-- A lower half has no buddy below it, an upper half none above it. -/
theorem not_buddies_below (h : MergeInv root it) (hd : 2 * it.item.pages ∣ it.item.page)
    (x : VmmRangeData) : ¬ Buddies page pages x it.item := by
  rintro ⟨hl, hp, hx⟩
  have hpos := h.item_wf.dyadic.pos
  rw [hl] at hx hp
  have hdvd : 2 * it.item.pages ∣ it.item.pages := by
    rw [hp] at hd; exact (Nat.dvd_add_right hx).mp hd
  have := Nat.le_of_dvd hpos hdvd
  omega

/-- The range that starts where the one stood on ends is the next one. -/
theorem next_eq (h : MergeInv root it) {y : VmmRangeData} (hy : y ∈ it.toList)
    (hp : y.page = it.item.page + it.item.pages) : ∃ next, it.next = y :: next := by
  have hyp := (h.wf y hy).dyadic.pos
  obtain ⟨m, hpre, rfl, hpost⟩ := tiles_append.mp h.tiles
  have hb := h.tiles.bounds y hy
  cases hn : it.next with
  | nil =>
      rw [hn, tiles_nil] at hpost
      omega
  | cons z next =>
      rw [hn, tiles_cons] at hpost
      have hz : z ∈ it.toList := by simp [ListItem.toList, hn]
      have hzp := (h.wf z hz).dyadic.pos
      have := h.tiles.covers_unique hy hz (p := y.page) ⟨le_rfl, by omega⟩ ⟨by omega, by omega⟩
      exact ⟨next, by rw [this]⟩

/-- The range that ends where the one stood on starts is the one before it. -/
theorem prev_eq (h : MergeInv root it) {x : VmmRangeData} (hx : x ∈ it.toList)
    (hp : it.item.page = x.page + x.pages) : ∃ prev, it.prev = x :: prev := by
  have hxp := (h.wf x hx).dyadic.pos
  obtain ⟨m, hpre, rfl, hpost⟩ := tiles_append.mp h.tiles
  have hb := h.tiles.bounds x hx
  cases hn : it.prev with
  | nil =>
      rw [hn, List.reverse_nil, tiles_nil] at hpre
      omega
  | cons z prev =>
      rw [hn, List.reverse_cons, tiles_append] at hpre
      obtain ⟨m, -, rfl, hz'⟩ := hpre
      have hz : z ∈ it.toList := by simp [ListItem.toList, hn]
      have hzp := (h.wf z hz).dyadic.pos
      rw [tiles_nil] at hz'
      have := h.tiles.covers_unique hx hz (p := it.item.page - 1)
        ⟨by omega, by omega⟩ ⟨by omega, by omega⟩
      exact ⟨prev, by rw [this]⟩

end MergeInv

/-- Two free ranges of one length make a range of the double length. -/
theorem mergeInv_of_pair {prev next : List VmmRangeData} {x y z : VmmRangeData}
    (ht : Tiles page pages root.page (prev.reverse ++ x :: y :: next) (root.page + root.pages))
    (hwf : ∀ r ∈ prev.reverse ++ x :: y :: next, r.WellFormed)
    (hc : Coalesced page pages Free (prev.reverse ++ next))
    (hxy : y.pages = x.pages) (hd : 2 * x.pages ∣ x.page)
    (hz : z = ⟨x.start, x.numberOfPages * 2, false⟩) : MergeInv root ⟨prev, z, next⟩ := by
  obtain ⟨m, hpre, rfl, hy, hpost⟩ := tiles_append.mp ht
  have hbx := ht.bounds x (by simp)
  have hby := ht.bounds y (by simp)
  have hroot : root.pages < 2 ^ 32 := root.small
  obtain ⟨hzw, hzn⟩ := doubled_wellFormed (hwf x (by simp)) (hwf y (by simp)) hy hxy hd (by omega) false
  rw [← hz] at hzw hzn
  refine ⟨tiles_append.mpr ⟨_, hpre, by rw [hz]; rfl, ?_⟩, ?_, by rw [hz]; rfl, hc⟩
  · rw [hzn]
    rw [hxy, add_assoc, ← two_mul] at hpost
    exact hpost
  · intro r hr
    rcases List.mem_append.mp hr with hr | hr
    · exact hwf r (by simp [hr])
    rcases List.mem_cons.mp hr with rfl | hr
    · exact hzw
    · exact hwf r (by simp [hr])

/-- **What `mem_vmm_resolve_merges` does.**  It ends with no two free buddies in the list, and
leaves the allocated ranges as they are. -/
theorem resolveMerges_spec {it : ListItem VmmRangeData} (h : MergeInv root it) :
    ∃ it', memVmmResolveMerges it = some it' ∧ VmmInv root it'.toList ∧
      it'.toList.filter (·.allocated) = it.toList.filter (·.allocated) := by
  fun_induction memVmmResolveMerges it with
  | case1 it ha =>
      have := h.free
      rw [Free, ha] at this
      cases this
  | case2 it ha _ hmod hn =>
      have hd := h.item_wf.lower_iff.mp hmod
      refine ⟨it, rfl, h.done (fun y hy _ hb => ?_) (fun x _ _ => h.not_buddies_below hd x), rfl⟩
      obtain ⟨next, he⟩ := h.next_eq hy hb.2.1
      rw [hn] at he; cases he
  | case3 it ha _ hmod partner next hn hm ih =>
      have hd := h.item_wf.lower_iff.mp hmod
      simp only [Bool.and_eq_true, Bool.not_eq_true', beq_iff_eq] at hm
      have hl : it.toList = it.prev.reverse ++ it.item :: partner :: next := by
        rw [ListItem.toList, hn]
      have hit : it.item.allocated = false := h.free
      have h' := mergeInv_of_pair (hl ▸ h.tiles) (hl ▸ h.wf)
        (h.others.mono (by intro r hr; rw [hn]; simp at hr ⊢; tauto))
        (congrArg UInt64.toNat hm.2) hd rfl
      rw [← hit] at h'
      obtain ⟨it', he, hv, hf⟩ := ih h'
      refine ⟨it', he, hv, hf.trans ?_⟩
      rw [hl]
      simp [hit, hm.1]
  | case4 it ha _ hmod partner next hn hm =>
      have hd := h.item_wf.lower_iff.mp hmod
      refine ⟨it, rfl, h.done (fun y hy fy hb => ?_) (fun x _ _ => h.not_buddies_below hd x), rfl⟩
      obtain ⟨next', he⟩ := h.next_eq hy hb.2.1
      rw [hn] at he
      obtain ⟨rfl, -⟩ := List.cons.inj he
      refine hm ?_
      have fy' : partner.allocated = false := fy
      simp [fy', UInt64.toNat_inj.mp hb.1.symm]
  | case5 it ha _ hmod hp =>
      have hd : ¬ 2 * it.item.pages ∣ it.item.page := fun hd => hmod (h.item_wf.lower_iff.mpr hd)
      refine ⟨it, rfl, h.done (fun y _ _ hb => hd hb.2.2) (fun x hx _ hb => ?_), rfl⟩
      obtain ⟨prev, he⟩ := h.prev_eq hx hb.2.1
      rw [hp] at he; cases he
  | case6 it ha _ hmod partner prev hp hm ih =>
      have hd : ¬ 2 * it.item.pages ∣ it.item.page := fun hd => hmod (h.item_wf.lower_iff.mpr hd)
      simp only [Bool.and_eq_true, Bool.not_eq_true', beq_iff_eq] at hm
      have hl : it.toList = prev.reverse ++ partner :: it.item :: it.next := by
        rw [ListItem.toList, hp]; simp
      have hit : it.item.allocated = false := h.free
      have hpn : partner.pages = it.item.pages := congrArg UInt64.toNat hm.2
      -- the upper half is not aligned to the double length, so the lower half is
      have hlow : 2 * partner.pages ∣ partner.page := by
        have ht := hl ▸ h.tiles
        obtain ⟨_, -, rfl, hi, -⟩ := tiles_append.mp ht
        have hup := h.item_wf.dyadic
        rw [hi, ← hpn] at hup
        refine lower_of_upper hup fun hd' => hd ?_
        rwa [← hpn, hi]
      have h' := mergeInv_of_pair (hl ▸ h.tiles) (hl ▸ h.wf)
        (h.others.mono (by intro r hr; rw [hp]; simp at hr ⊢; tauto)) hpn.symm hlow rfl
      rw [← hm.1] at h'
      obtain ⟨it', he, hv, hf⟩ := ih h'
      refine ⟨it', he, hv, hf.trans ?_⟩
      rw [hl]
      simp [hit, hm.1]
  | case7 it ha _ hmod partner prev hp hm =>
      have hd : ¬ 2 * it.item.pages ∣ it.item.page := fun hd => hmod (h.item_wf.lower_iff.mpr hd)
      refine ⟨it, rfl, h.done (fun y _ _ hb => hd hb.2.2) (fun x hx fx hb => ?_), rfl⟩
      obtain ⟨prev', he⟩ := h.prev_eq hx hb.2.1
      rw [hp] at he
      obtain ⟨rfl, -⟩ := List.cons.inj he
      refine hm ?_
      have fx' : partner.allocated = false := fx
      simp [fx', UInt64.toNat_inj.mp hb.1]

/-! ### Deallocating -/

/-- Marking one range of an ordered list free is where a merge starts. -/
theorem mergeInv_of_free {prev next : List VmmRangeData} {x : VmmRangeData}
    (hi : VmmInv root (prev.reverse ++ x :: next)) :
    MergeInv root ⟨prev, { x with allocated := false }, next⟩ := by
  obtain ⟨m, hpre, rfl, hpost⟩ := tiles_append.mp hi.tiles
  refine ⟨tiles_append.mpr ⟨_, hpre, rfl, hpost⟩, ?_, rfl, hi.coalesced.mono ?_⟩
  · intro r hr
    simp only [ListItem.toList_mk, List.mem_append, List.mem_cons] at hr
    rcases hr with hr | rfl | hr
    · exact hi.wf r (by simp [hr])
    · exact (hi.wf x (by simp)).mark false
    · exact hi.wf r (by simp [hr])
  · intro r hr
    simp only [List.mem_append, List.mem_cons] at hr ⊢
    tauto

/-- **What `mem_deallocate_virtual_range` does.**  It takes the range that starts at `a` out of the
allocated ones. -/
theorem deallocate_spec {a : UInt64} {n : UInt32} {ranges ranges' : List VmmRangeData}
    (hi : VmmInv root ranges) (h : memDeallocateVirtualRange a n ranges = some ranges') :
    VmmInv root ranges' ∧
      ∃ pre x post, ranges = pre ++ x :: post ∧ x = ⟨a, (actualNumPages n).toUInt64, true⟩ ∧
        ranges'.filter (·.allocated) = (pre ++ post).filter (·.allocated) := by
  rw [memDeallocateVirtualRange] at h
  simp only [Option.bind_eq_bind, Option.bind_eq_some_iff] at h
  obtain ⟨cur, hcur, h⟩ := h
  obtain ⟨hl, hst⟩ := ListItem.find_spec hcur
  have hl' : ranges = cur.prev.reverse ++ cur.item :: cur.next := hl.symm
  split at h
  next => cases h
  next ha =>
    split at h
    next => cases h
    next hn =>
      obtain ⟨it', hm, he⟩ := Option.bind_eq_some_iff.mp h
      obtain rfl := Option.some.inj he
      obtain ⟨it'', hm', hv, hf⟩ := resolveMerges_spec (mergeInv_of_free (hl' ▸ hi))
      obtain rfl := Option.some.inj (hm.symm.trans hm')
      refine ⟨hv, _, _, _, hl', ?_, hf.trans (by simp)⟩
      rw [← beq_iff_eq.mp hst, actualNumPages, ← not_not.mp hn, ← not_not.mp ha]

/-- An allocated range is deallocated by its start and its length. -/
theorem deallocate_of_mem {a : UInt64} {n : UInt32} {ranges : List VmmRangeData}
    (hi : VmmInv root ranges) (hx : ⟨a, (actualNumPages n).toUInt64, true⟩ ∈ ranges) :
    ∃ ranges', memDeallocateVirtualRange a n ranges = some ranges' := by
  obtain ⟨pre, post, rfl⟩ := List.append_of_mem hx
  have hw := hi.wf _ hx
  have hfind : ListItem.find (fun r => r.start == a) []
      (pre ++ ⟨a, (actualNumPages n).toUInt64, true⟩ :: post) =
        some ⟨pre.reverse, ⟨a, (actualNumPages n).toUInt64, true⟩, post⟩ := by
    rw [ListItem.find_append (by simp), List.append_nil]
    intro y hy
    rw [Bool.eq_false_iff, ne_eq, beq_iff_eq]
    rintro rfl
    have := (List.pairwise_append.mp hi.tiles.pairwise).2.2 y hy _ (List.mem_cons_self ..)
    have := (hi.wf y (by simp [hy])).dyadic.pos
    simp only [page] at *
    omega
  have hi' : VmmInv root (pre.reverse.reverse ++ ⟨a, (actualNumPages n).toUInt64, true⟩ :: post) := by
    rw [List.reverse_reverse]; exact hi
  obtain ⟨it', he, -, -⟩ := resolveMerges_spec (mergeInv_of_free hi')
  refine ⟨it'.toList, ?_⟩
  rw [memDeallocateVirtualRange]
  simp only [hfind, Option.bind_eq_bind, Option.bind_some, ne_eq, not_true_eq_false, if_false, he]
  exact if_neg (not_not.mpr rfl)

end Azalea.Mem
