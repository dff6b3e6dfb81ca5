import Azalea.Fat.Children

/-!
# Fat — the children after a change of the entries

A change of some entries of a folder leaves the children elsewhere alone.  For those behind the
change this rests on how the constructor puts long names together: an entry that is not a part of one
ends it (`Resets`), and what comes after does not depend on what was before.

* `childAt_set`, `childAt_concat`: an entry is put in a free place, or at the end.
* `childAt_markFree`: a child and the parts of its long name become free.
* `LfnsAttached`: no free place and no end follows a part of a long name.
-/

namespace Azalea.Fat
open Azalea.Memory Azalea.Maps Function

/-- The entry ends a long name. -/
def FatDirEntry.Resets (e : FatDirEntry) : Prop := e.IsFree ∨ e.attributesRaw ≠ 0x0F

instance (e : FatDirEntry) : Decidable e.Resets := inferInstanceAs (Decidable (_ ∨ _))

section
variable {es es' : List FatDirEntry} {e x : FatDirEntry} {i j : Nat} {a b : LfnState}

/-- The states give the same long names.  The checksum counts where there are parts only. -/
structure LfnState.Same (a b : LfnState) : Prop where
  longName : a.longName = b.longName
  lastWasLfn : a.lastWasLfn = b.lastWasLfn
  checksum : a.lastWasLfn = true ∨ a.longName ≠ [] → a.curLfnChecksum = b.curLfnChecksum

theorem LfnState.next_of_resets (h : e.Resets) :
    a.next e = { a with longName := [], lastWasLfn := false } := by
  rw [LfnState.next]
  split
  · rfl
  · next hfree =>
      rw [if_neg]
      have hattr := h.resolve_left hfree
      simpa [FatDirEntry.isLongFnEntry] using hattr

theorem LfnState.Same.next (h : a.Same b) (e : FatDirEntry) : (a.next e).Same (b.next e) := by
  by_cases hr : e.Resets
  · rw [LfnState.next_of_resets hr, LfnState.next_of_resets hr]
    exact ⟨rfl, rfl, by simp⟩
  · rw [FatDirEntry.Resets, not_or, not_not] at hr
    have hlfn : e.isLongFnEntry = true := by simpa [FatDirEntry.isLongFnEntry] using hr.2
    rw [LfnState.next, LfnState.next, if_neg (show ¬ e.name 0 = 0xE5 from hr.1),
      if_neg (show ¬ e.name 0 = 0xE5 from hr.1), if_pos hlfn, if_pos hlfn, ← h.lastWasLfn]
    by_cases hlast : a.lastWasLfn = true
    · rw [← h.checksum (Or.inl hlast)]
      split
      · exact ⟨h.longName, rfl, fun _ => rfl⟩
      · exact ⟨congrArg (lfnPart e ++ ·) h.longName, rfl, fun _ => rfl⟩
    · rw [if_neg fun hc => hlast hc.1, if_neg fun hc => hlast hc.1]
      exact ⟨congrArg (lfnPart e ++ ·) h.longName, rfl, fun _ => rfl⟩

theorem LfnState.Same.nameOf (h : a.Same b) (e : FatDirEntry) : a.nameOf e = b.nameOf e := by
  rw [LfnState.nameOf, LfnState.nameOf, ← h.longName]
  by_cases hn : a.longName = []
  · rw [hn, ite_self, ite_self]
  · rw [h.checksum (Or.inr hn)]

theorem LfnState.Same.foldl (h : a.Same b) : (es.foldl .next a).Same (es.foldl .next b) := by
  induction es generalizing a b with
  | nil => exact h
  | cons e es ih => exact ih (h.next e)

/-- Behind an entry that ends a long name, what was before does not count. -/
theorem lfnBefore_same {as bs cs : List FatDirEntry} {y : FatDirEntry} (hx : x.Resets)
    (hy : y.Resets) : (lfnBefore (as ++ x :: cs)).Same (lfnBefore (bs ++ y :: cs)) := by
  rw [lfnBefore, lfnBefore, List.foldl_append, List.foldl_append, List.foldl_cons, List.foldl_cons,
    LfnState.next_of_resets hx, LfnState.next_of_resets hy]
  exact LfnState.Same.foldl ⟨rfl, rfl, by simp⟩

/-- The children before a change. -/
theorem childAt_of_take {n : Nat} (h : es'.take n = es.take n) (hj : j < n) :
    childAt es' j = childAt es j := by
  have htake : es'.take j = es.take j := by
    have := congrArg (List.take j) h
    rwa [List.take_take, List.take_take, Nat.min_eq_left hj.le] at this
  have hget : es'[j]? = es[j]? := by
    have := congrArg (fun l : List FatDirEntry => l[j]?) h
    simpa only [List.getElem?_take_of_lt hj] using this
  rw [childAt, childAt, entryAt, entryAt, hget, htake]

/-- The children behind a change that ends with an entry that ends a long name. -/
theorem childAt_of_drop {n : Nat} {y : FatDirEntry} (hx : es[n]? = some x) (hy : es'[n]? = some y)
    (hxr : x.Resets) (hyr : y.Resets) (h : es'.drop (n + 1) = es.drop (n + 1)) (hj : n < j) :
    childAt es' j = childAt es j := by
  obtain ⟨k, rfl⟩ := Nat.exists_eq_add_of_lt hj
  have hsplit : ∀ {l : List FatDirEntry} {z : FatDirEntry}, l[n]? = some z →
      l.take (n + k + 1) = l.take n ++ z :: (l.drop (n + 1)).take k := by
    intro l z hz
    obtain ⟨hn, rfl⟩ := List.getElem?_eq_some_iff.mp hz
    rw [Nat.add_assoc, List.take_add, List.drop_eq_getElem_cons hn, List.take_succ_cons]
  have hget : es'[n + k + 1]? = es[n + k + 1]? := by
    have := congrArg (fun l : List FatDirEntry => l[k]?) h
    simp only [List.getElem?_drop] at this
    rwa [show n + 1 + k = n + k + 1 by omega] at this
  rw [childAt, childAt, entryAt, entryAt, hget, hsplit hx, hsplit hy, h]
  refine congrFun (congrArg Option.map (funext fun c => ?_)) _
  rw [(lfnBefore_same hyr hxr).nameOf]

/-! ### The changes -/

/-- The child with an entry that is put in a place. -/
def childIn (es : List FatDirEntry) (i : Nat) (e : FatDirEntry) : Option FatObjectDetails :=
  (childOf i e).map fun c => { c with longFn := (lfnBefore (es.take i)).nameOf e }

theorem fde_of_childOf {c : FatObjectDetails} (h : childOf i e = some c) :
    c = ⟨[], shortNameFromFde e, i, e⟩ := by
  rw [childOf] at h
  split at h
  · exact (Option.some.inj h).symm
  · cases h

theorem entryAt_set (hi : i < es.length) :
    entryAt (es.set i e) = update (entryAt es) i (childOf i e) := by
  funext j
  rw [update_apply, entryAt]
  split
  · next he => rw [he, List.getElem?_set_self hi]; rfl
  · next hne => rw [List.getElem?_set_ne (Ne.symm hne)]; rfl

/-- **An entry is put in a place.** -/
theorem childAt_set (hx : es[i]? = some x) (hxr : x.Resets) (her : e.Resets) :
    childAt (es.set i e) = update (childAt es) i (childIn es i e) := by
  obtain ⟨hi, -⟩ := List.getElem?_eq_some_iff.mp hx
  have htake : (es.set i e).take i = es.take i := List.take_set_of_le le_rfl
  funext j
  rw [update_apply]
  rcases Nat.lt_trichotomy j i with hlt | rfl | hgt
  · rw [if_neg hlt.ne]
    exact childAt_of_take htake hlt
  · rw [if_pos rfl, childAt, entryAt_set hi, update_self, htake, childIn]
    cases hc : childOf j e with
    | none => rfl
    | some c => rw [fde_of_childOf hc]; rfl
  · rw [if_neg hgt.ne']
    exact childAt_of_drop hx (List.getElem?_set_self hi) hxr her
      (List.drop_set_of_lt (Nat.lt_succ_self i)) hgt

/-- A part of a long name has no child. -/
theorem entryAt_of_lfn {lo hi : Nat} (hrun : IsLfnRun es lo hi) (h₁ : lo ≤ j) (h₂ : j < hi) :
    entryAt es j = none := by
  rw [entryAt]
  cases hy : es[j]? with
  | none => rfl
  | some y => exact if_neg fun hc => hc.1.2 (hrun.2.1 j y h₁ h₂ hy)

theorem entryAt_markFree {lo idx : Nat} (hrun : IsLfnRun es lo idx) :
    entryAt (markFree es lo (idx + 1)) = update (entryAt es) idx none := by
  funext j
  rw [update_apply]
  by_cases hj : lo ≤ j ∧ j < idx + 1
  · have hnone : entryAt (markFree es lo (idx + 1)) j = none := by
      rw [entryAt, getElem?_markFree hj]
      cases es[j]? with
      | none => rfl
      | some y =>
          rw [Option.map_some, Option.bind_some, childOf, if_neg fun hc => hc.1.1 y.isFree_mark]
    rw [hnone]
    split
    · rfl
    · exact (entryAt_of_lfn hrun hj.1 (by omega)).symm
  · have := hrun.1
    rw [entryAt, getElem?_markFree_of_not hj, if_neg (by omega)]
    rfl

/-- **A child and the parts of its long name become free.** -/
theorem childAt_markFree {lo idx : Nat} (hx : es[idx]? = some x) (hattr : x.attributesRaw ≠ 0x0F)
    (hrun : IsLfnRun es lo idx) :
    childAt (markFree es lo (idx + 1)) = update (childAt es) idx none := by
  have hlo := hrun.1
  funext j
  by_cases hj : lo ≤ j ∧ j < idx + 1
  · have h := congrFun (entryAt_markFree hrun) j
    rw [update_apply] at h ⊢
    rw [childAt, h]
    split
    · rfl
    · rw [childAt, entryAt_of_lfn hrun hj.1 (by omega)]
      rfl
  · rw [update_of_ne (by omega)]
    rcases Nat.lt_or_ge j lo with hlt | hge
    · refine childAt_of_take (List.ext_getElem? fun k => ?_) hlt
      by_cases hk : k < lo
      · rw [List.getElem?_take_of_lt hk, List.getElem?_take_of_lt hk,
          getElem?_markFree_of_not (by omega)]
      · rw [List.getElem?_take_eq_none (by omega), List.getElem?_take_eq_none (by omega)]
    · refine childAt_of_drop hx (by rw [getElem?_markFree (by omega), hx]; rfl) (Or.inr hattr)
        (Or.inl x.isFree_mark) (List.ext_getElem? fun k => ?_) (show idx < j by omega)
      rw [List.getElem?_drop, List.getElem?_drop, getElem?_markFree_of_not (by omega)]

/-! ### Parts of a long name without an entry -/

/-- No free place, and not the end, follows a part of a long name. -/
def LfnsAttached (es : List FatDirEntry) : Prop :=
  ∀ (j : Nat) (x : FatDirEntry), es[j]? = some x → ¬ x.Resets →
    ∃ y, es[j + 1]? = some y ∧ ¬ y.IsFree

theorem lfnBefore_longName (h : ∀ x, es.getLast? = some x → x.Resets) :
    (lfnBefore es).longName = [] := by
  rcases List.eq_nil_or_concat es with rfl | ⟨as, x, rfl⟩
  · rfl
  · rw [List.concat_eq_append] at h ⊢
    rw [lfnBefore, List.foldl_append]
    exact congrArg LfnState.longName (LfnState.next_of_resets (h x (by simp)))

/-- An entry that is put in a free place, or at the end, has no long name. -/
theorem LfnsAttached.nameOf (h : LfnsAttached es) (hle : i ≤ es.length)
    (hfree : ∀ y, es[i]? = some y → y.IsFree) : (lfnBefore (es.take i)).nameOf e = [] := by
  have hname : (lfnBefore (es.take i)).longName = [] := by
    refine lfnBefore_longName fun x hx => ?_
    rw [List.getLast?_eq_getElem?, List.length_take, Nat.min_eq_left hle] at hx
    by_cases hi : i = 0
    · subst hi; simp at hx
    · rw [List.getElem?_take_of_lt (by omega)] at hx
      by_contra hr
      obtain ⟨y, hy, hnf⟩ := h _ x hx hr
      rw [show i - 1 + 1 = i by omega] at hy
      exact hnf (hfree y hy)
  rw [LfnState.nameOf, hname, ite_self]

theorem LfnsAttached.set (h : LfnsAttached es) (hf : ¬ e.IsFree) (hr : e.Resets) :
    LfnsAttached (es.set i e) := by
  intro j x hx hxr
  rw [List.getElem?_set] at hx
  split at hx
  · split at hx
    · exact absurd hr (Option.some.inj hx ▸ hxr)
    · cases hx
  · obtain ⟨y, hy, hnf⟩ := h j x hx hxr
    by_cases hji : i = j + 1
    · subst hji
      obtain ⟨hlt, -⟩ := List.getElem?_eq_some_iff.mp hy
      exact ⟨e, List.getElem?_set_self hlt, hf⟩
    · exact ⟨y, by rw [List.getElem?_set_ne hji, hy], hnf⟩

theorem LfnsAttached.concat (h : LfnsAttached es) (hr : e.Resets) : LfnsAttached (es ++ [e]) := by
  intro j x hx hxr
  rcases Nat.lt_or_ge j es.length with hlt | hge
  · rw [List.getElem?_append_left hlt] at hx
    obtain ⟨y, hy, hnf⟩ := h j x hx hxr
    obtain ⟨hlt', -⟩ := List.getElem?_eq_some_iff.mp hy
    exact ⟨y, by rw [List.getElem?_append_left hlt', hy], hnf⟩
  · rw [List.getElem?_append_right hge] at hx
    have hmem := List.mem_of_getElem? hx
    rw [List.mem_singleton] at hmem
    exact absurd hr (hmem ▸ hxr)

theorem LfnsAttached.markFree {lo idx : Nat} (h : LfnsAttached es) (hrun : IsLfnRun es lo idx) :
    LfnsAttached (markFree es lo (idx + 1)) := by
  have hlo := hrun.1
  intro j x hx hxr
  by_cases hj : lo ≤ j ∧ j < idx + 1
  · rw [getElem?_markFree hj, Option.map_eq_some_iff] at hx
    obtain ⟨z, -, rfl⟩ := hx
    exact absurd (Or.inl z.isFree_mark) hxr
  · rw [getElem?_markFree_of_not hj] at hx
    obtain ⟨y, hy, hnf⟩ := h j x hx hxr
    refine ⟨y, ?_, hnf⟩
    rw [getElem?_markFree_of_not, hy]
    rintro ⟨h₁, h₂⟩
    refine hxr (Or.inr (hrun.2.2 x (by omega) ?_))
    rw [show lo - 1 = j by omega]
    exact hx

end

end Azalea.Fat
