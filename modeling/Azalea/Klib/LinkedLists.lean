import Mathlib.Data.List.Basic
import Mathlib.Logic.Function.Basic
import Azalea.Support.Links
import Azalea.Support.Runs

/-!
# Klib — lists and items that move between them

`ListItem` is an item with the items on both sides of it, for those who only look at one list.

`klib/data_structures/lists.h`: any number of `klib_list`s `ι` and `klib_list_item`s `κ`, with every
pointer write as the source makes it, in its order.  A call that trips an ASSERT, or dereferences
`nullptr` (`klib_list_add_after` an item that is in no list), has no result; `nullptr` arguments do
the former and are left out.  A walk over a list is given the number of items it may visit.

* `lists_ok_iff`: along every sequence of calls that gets through its ASSERTs, every list is valid,
  has the items that the same calls put into a sequence, and has its items to itself, exactly when
  each item given to `klib_list_add_head` or `klib_list_add_tail` is in no list.
  `klib_list_add_after` and `klib_list_add_before` check this, the other two do not
  (`lists_ok_fails`).
-/

namespace Azalea.Klib
open Azalea.Links Azalea.Runs

/-- An item of a `klib_list`, with what its `prev` and `next` pointers lead to. -/
structure ListItem (α : Type*) where
  prev : List α
  item : α
  next : List α
  deriving Repr, DecidableEq

namespace ListItem
variable {α : Type*}

/-- The list the item is in, from its head. -/
def toList (it : ListItem α) : List α := it.prev.reverse ++ it.item :: it.next

@[simp] theorem toList_mk (prev : List α) (x : α) (next : List α) :
    toList ⟨prev, x, next⟩ = prev.reverse ++ x :: next := rfl

/-- Walk a list from its head to the first item that satisfies `p`; the items passed are kept in
`prev`. -/
def find (p : α → Bool) : List α → List α → Option (ListItem α)
  | _, [] => none
  | prev, x :: next => if p x then some ⟨prev, x, next⟩ else find p (x :: prev) next

theorem find_spec {p : α → Bool} {it : ListItem α} :
    ∀ {next prev : List α}, find p prev next = some it →
      it.toList = prev.reverse ++ next ∧ p it.item = true := by
  intro next
  induction next with
  | nil => intro prev h; cases h
  | cons x next ih =>
      intro prev h
      by_cases hx : p x = true
      · rw [find, if_pos hx] at h
        cases h
        exact ⟨rfl, hx⟩
      · rw [find, if_neg hx] at h
        obtain ⟨h₁, h₂⟩ := ih h
        exact ⟨by simpa using h₁, h₂⟩

/-- The walk stops at an item that satisfies `p` when no item before it does. -/
theorem find_append {p : α → Bool} {x : α} (hx : p x = true) :
    ∀ {pre prev post : List α}, (∀ y ∈ pre, p y = false) →
      find p prev (pre ++ x :: post) = some ⟨pre.reverse ++ prev, x, post⟩ := by
  intro pre
  induction pre with
  | nil => intro prev post _; simp [find, hx]
  | cons y pre ih =>
      intro prev post h
      rw [List.cons_append, find, if_neg (by simp [h y (by simp)]),
        ih fun z hz => h z (by simp [hz])]
      simp

end ListItem

/-- The fields of all lists and of all items. -/
structure ListHeap (ι κ τ : Type*) where
  head : ι → Option κ
  tail : ι → Option κ
  prev : κ → Option κ
  next : κ → Option κ
  listObj : κ → Option ι
  item : κ → Option τ

/-- A call that changes a list. -/
inductive ListOp (ι κ : Type*) where
  | addHead (existingList : ι) (newItem : κ)
  | addTail (existingList : ι) (newItem : κ)
  | addBefore (listItem newItem : κ)
  | addAfter (listItem newItem : κ)
  | remove (entryToRemove : κ)

variable {ι κ τ : Type*} [DecidableEq ι] [DecidableEq κ]

namespace ListHeap

/-- Every list and every item is initialised; `item` is what the owner of an item has set. -/
def init (item : κ → Option τ) : ListHeap ι κ τ where
  head _ := none
  tail _ := none
  prev _ := none
  next _ := none
  listObj _ := none
  item := item

/-- `klib_list_add_after`. -/
def addAfter (s : ListHeap ι κ τ) (listItem newItem : κ) : Option (ListHeap ι κ τ) :=
  if s.listObj newItem = none ∧ (s.item newItem).isSome then
    let s := { s with next := Function.update s.next newItem (s.next listItem) }
    let s := { s with prev := Function.update s.prev newItem (some listItem) }
    let s := { s with next := Function.update s.next listItem (some newItem) }
    let s := match s.next newItem with
      | some n => { s with prev := Function.update s.prev n (some newItem) }
      | none => s
    let s := { s with listObj := Function.update s.listObj newItem (s.listObj listItem) }
    match s.listObj listItem with
    | none => none
    | some l =>
        if s.tail l = some listItem then
          some { s with tail := Function.update s.tail l (some newItem) }
        else some s
  else none

/-- `klib_list_add_before`. -/
def addBefore (s : ListHeap ι κ τ) (listItem newItem : κ) : Option (ListHeap ι κ τ) :=
  if s.listObj newItem = none ∧ (s.item newItem).isSome then
    let s := { s with prev := Function.update s.prev newItem (s.prev listItem) }
    let s := { s with next := Function.update s.next newItem (some listItem) }
    let s := { s with prev := Function.update s.prev listItem (some newItem) }
    let s := match s.prev newItem with
      | some p => { s with next := Function.update s.next p (some newItem) }
      | none => s
    let s := { s with listObj := Function.update s.listObj newItem (s.listObj listItem) }
    match s.listObj listItem with
    | none => none
    | some l =>
        if s.head l = some listItem then
          some { s with head := Function.update s.head l (some newItem) }
        else some s
  else none

/-- `klib_list_add_tail`. -/
def addTail (s : ListHeap ι κ τ) (l : ι) (newItem : κ) : Option (ListHeap ι κ τ) :=
  if (s.item newItem).isSome then
    match s.tail l with
    | none =>
        if s.head l = none then
          let s := { s with head := Function.update s.head l (some newItem) }
          let s := { s with tail := Function.update s.tail l (some newItem) }
          if s.next newItem = none ∧ s.prev newItem = none then
            some { s with listObj := Function.update s.listObj newItem (some l) }
          else none
        else none
    | some t =>
        let s := { s with next := Function.update s.next t (some newItem) }
        let s := { s with prev := Function.update s.prev newItem (s.tail l) }
        let s := { s with tail := Function.update s.tail l (some newItem) }
        if s.next newItem = none then
          some { s with listObj := Function.update s.listObj newItem (some l) }
        else none
  else none

/-- `klib_list_add_head`. -/
def addHead (s : ListHeap ι κ τ) (l : ι) (newItem : κ) : Option (ListHeap ι κ τ) :=
  if (s.item newItem).isSome then
    match s.head l with
    | none =>
        if s.tail l = none then
          let s := { s with head := Function.update s.head l (some newItem) }
          let s := { s with tail := Function.update s.tail l (some newItem) }
          if s.next newItem = none ∧ s.prev newItem = none then
            some { s with listObj := Function.update s.listObj newItem (some l) }
          else none
        else none
    | some h =>
        let s := { s with prev := Function.update s.prev h (some newItem) }
        let s := { s with next := Function.update s.next newItem (s.head l) }
        let s := { s with head := Function.update s.head l (some newItem) }
        if s.prev newItem = none then
          some { s with listObj := Function.update s.listObj newItem (some l) }
        else none
  else none

/-- `klib_list_remove`, up to the two ends of the list. -/
def removeEnds (s : ListHeap ι κ τ) (l : ι) (e : κ) : Option (ListHeap ι κ τ) :=
  let s? := if s.prev e = none then
      if s.head l = some e then some { s with head := Function.update s.head l (s.next e) } else none
    else some s
  s?.bind fun s =>
    if s.next e = none then
      if s.tail l = some e then some { s with tail := Function.update s.tail l (s.prev e) } else none
    else some s

/-- `klib_list_remove`. -/
def remove (s : ListHeap ι κ τ) (e : κ) : Option (ListHeap ι κ τ) :=
  match s.listObj e with
  | none => none
  | some l => (s.removeEnds l e).map fun s =>
      let s := match s.prev e with
        | some p => { s with next := Function.update s.next p (s.next e) }
        | none => s
      let s := match s.next e with
        | some n => { s with prev := Function.update s.prev n (s.prev e) }
        | none => s
      { s with
        listObj := Function.update s.listObj e none
        next := Function.update s.next e none
        prev := Function.update s.prev e none }

/-- The loop of `klib_list_get_length`; fewer than 2^64 items fit into memory. -/
def lengthLoop (s : ListHeap ι κ τ) : Nat → Option κ → Nat → Option Nat
  | _, none, count => some count
  | 0, some _, _ => none
  | fuel + 1, some x, count => s.lengthLoop fuel (s.next x) (count + 1)

/-- `klib_list_get_length`. -/
def getLength (s : ListHeap ι κ τ) (fuel : Nat) (l : ι) : Option Nat :=
  s.lengthLoop fuel (s.head l) 0

/-- The checks of `klib_list_is_valid` on one item. -/
def itemValid (s : ListHeap ι κ τ) (l : ι) (x : κ) : Bool :=
  s.listObj x == some l &&
  (match s.prev x with
    | none => s.head l == some x
    | some p => s.next p == some x) &&
  (match s.next x with
    | none => s.tail l == some x
    | some n => s.prev n == some x) &&
  (s.item x).isSome

/-- The loop of `klib_list_is_valid`. -/
def validLoop (s : ListHeap ι κ τ) (l : ι) : Nat → Option κ → Option Bool
  | _, none => some true
  | 0, some _ => none
  | fuel + 1, some x => if s.itemValid l x then s.validLoop l fuel (s.next x) else some false

/-- `klib_list_is_valid`. -/
def isValid (s : ListHeap ι κ τ) (fuel : Nat) (l : ι) : Option Bool :=
  if (s.head l).isSome == (s.tail l).isSome then s.validLoop l fuel (s.head l) else some false

/-- One call. -/
def step (s : ListHeap ι κ τ) : ListOp ι κ → Option (ListHeap ι κ τ)
  | .addHead l x => s.addHead l x
  | .addTail l x => s.addTail l x
  | .addBefore y x => s.addBefore y x
  | .addAfter y x => s.addAfter y x
  | .remove x => s.remove x

end ListHeap

/-! ### Sequences -/

/-- Put `x` right after `y`. -/
def insertAfter (y x : κ) : List κ → List κ
  | [] => []
  | z :: zs => if z = y then z :: x :: zs else z :: insertAfter y x zs

/-- Put `x` right before `y`. -/
def insertBefore (y x : κ) : List κ → List κ
  | [] => []
  | z :: zs => if z = y then x :: z :: zs else z :: insertBefore y x zs

/-- The same calls, on the sequences of items. -/
def ListOp.apply (seqs : ι → List κ) : ListOp ι κ → ι → List κ
  | .addHead l x => Function.update seqs l (x :: seqs l)
  | .addTail l x => Function.update seqs l (seqs l ++ [x])
  | .addBefore y x => fun l => insertBefore y x (seqs l)
  | .addAfter y x => fun l => insertAfter y x (seqs l)
  | .remove x => fun l => (seqs l).erase x

theorem insertAfter_append {y x : κ} {xs ys : List κ} (h : y ∉ xs) :
    insertAfter y x (xs ++ y :: ys) = xs ++ y :: x :: ys := by
  induction xs with
  | nil => simp [insertAfter]
  | cons z zs ih =>
      rw [List.mem_cons, not_or] at h
      simp [insertAfter, Ne.symm h.1, ih h.2]

theorem insertAfter_of_notMem {y x : κ} {xs : List κ} (h : y ∉ xs) : insertAfter y x xs = xs := by
  induction xs with
  | nil => rfl
  | cons z zs ih =>
      rw [List.mem_cons, not_or] at h
      simp [insertAfter, Ne.symm h.1, ih h.2]

theorem insertBefore_append {y x : κ} {xs ys : List κ} (h : y ∉ xs) :
    insertBefore y x (xs ++ y :: ys) = xs ++ x :: y :: ys := by
  induction xs with
  | nil => simp [insertBefore]
  | cons z zs ih =>
      rw [List.mem_cons, not_or] at h
      simp [insertBefore, Ne.symm h.1, ih h.2]

theorem insertBefore_of_notMem {y x : κ} {xs : List κ} (h : y ∉ xs) :
    insertBefore y x xs = xs := by
  induction xs with
  | nil => rfl
  | cons z zs ih =>
      rw [List.mem_cons, not_or] at h
      simp [insertBefore, Ne.symm h.1, ih h.2]

/-! ### What holds of the lists -/

/-- Each list has the items of its sequence, and each item is in at most one list. -/
structure ListsOk (s : ListHeap ι κ τ) (seqs : ι → List κ) : Prop where
  valid : ∀ l fuel, (seqs l).length ≤ fuel → s.isValid fuel l = some true
  ends : ∀ l, s.head l = (seqs l).head? ∧ s.tail l = (seqs l).getLast?
  linked : ∀ l, Linked s.prev s.next none (seqs l) none
  acyclic : ∀ l, (seqs l).Nodup
  owner : ∀ x l, s.listObj x = some l ↔ x ∈ seqs l
  length : ∀ l fuel, (seqs l).length ≤ fuel → s.getLength fuel l = some (seqs l).length

/-- `ListsOk`, less what follows from the rest. -/
structure ListsInv (s : ListHeap ι κ τ) (seqs : ι → List κ) : Prop where
  ends : ∀ l, s.head l = (seqs l).head? ∧ s.tail l = (seqs l).getLast?
  linked : ∀ l, Linked s.prev s.next none (seqs l) none
  nodup : ∀ l, (seqs l).Nodup
  owner : ∀ x l, s.listObj x = some l ↔ x ∈ seqs l
  item : ∀ x l, x ∈ seqs l → (s.item x).isSome

variable {s s' : ListHeap ι κ τ} {seqs : ι → List κ} {l : ι} {x y : κ} {xs ys : List κ}

omit [DecidableEq ι] [DecidableEq κ] in
theorem lengthLoop_linked {p : Option κ} {fuel count : Nat} (h : Linked s.prev s.next p xs none)
    (hf : xs.length ≤ fuel) : s.lengthLoop fuel xs.head? count = some (count + xs.length) := by
  induction xs generalizing p fuel count with
  | nil => cases fuel <;> rfl
  | cons x xs ih =>
      obtain ⟨-, hn, h⟩ := h
      cases fuel with
      | zero => simp at hf
      | succ fuel =>
          rw [List.head?_cons, ListHeap.lengthLoop, hn, Option.or_none,
            ih h (by simpa using hf), List.length_cons]
          congr 1
          omega

theorem validLoop_linked {p : Option κ} {fuel : Nat} (h : Linked s.prev s.next p xs none)
    (hv : ∀ x ∈ xs, s.itemValid l x) (hf : xs.length ≤ fuel) :
    s.validLoop l fuel xs.head? = some true := by
  induction xs generalizing p fuel with
  | nil => cases fuel <;> rfl
  | cons x xs ih =>
      obtain ⟨-, hn, h⟩ := h
      cases fuel with
      | zero => simp at hf
      | succ fuel =>
          rw [List.head?_cons, ListHeap.validLoop, if_pos (hv x (by simp)), hn, Option.or_none]
          exact ih h (fun y hy => hv y (by simp [hy])) (by simpa using hf)

omit [DecidableEq ι] [DecidableEq κ] in
theorem ListsInv.init (item : κ → Option τ) :
    ListsInv (ListHeap.init item) (fun _ : ι => ([] : List κ)) := by
  constructor <;> simp [ListHeap.init]

/-- Neighbours in a list point at each other, and the ends of the list at their items. -/
theorem ListsInv.itemValid (h : ListsInv s seqs) (hx : x ∈ seqs l) : s.itemValid l x := by
  obtain ⟨xs, ys, hl⟩ := List.append_of_mem hx
  have hlinked := h.linked l
  obtain ⟨hhead, htail⟩ := h.ends l
  rw [hl] at hlinked hhead htail
  obtain ⟨hp, hn⟩ := hlinked.neighbours
  have hprev : (match s.prev x with
      | none => s.head l == some x
      | some p => s.next p == some x) = true := by
    rw [hp]
    rcases List.eq_nil_or_concat' xs with rfl | ⟨zs, p, rfl⟩
    · simp [hhead]
    · rw [List.append_assoc, List.singleton_append] at hlinked
      simp [(hlinked.neighbours).2]
  have hnext : (match s.next x with
      | none => s.tail l == some x
      | some n => s.prev n == some x) = true := by
    rw [hn]
    cases ys with
    | nil => simp [htail]
    | cons n zs =>
        have := (show Linked s.prev s.next none ((xs ++ [x]) ++ n :: zs) none by
          simpa using hlinked).neighbours
        simp [this.1]
  simp [ListHeap.itemValid, (h.owner x l).2 hx, hprev, hnext, h.item x l hx]

theorem ListsInv.ok (h : ListsInv s seqs) : ListsOk s seqs where
  valid l fuel hf := by
    obtain ⟨hhead, htail⟩ := h.ends l
    have hiff : (s.head l).isSome == (s.tail l).isSome := by
      rw [hhead, htail]
      cases seqs l <;> simp
    rw [ListHeap.isValid, if_pos hiff, hhead]
    exact validLoop_linked (h.linked l) (fun x hx => h.itemValid hx) hf
  ends := h.ends
  linked := h.linked
  acyclic := h.nodup
  owner := h.owner
  length l fuel hf := by
    rw [ListHeap.getLength, (h.ends l).1, lengthLoop_linked (h.linked l) hf, Nat.zero_add]

/-! ### An item is linked in or out -/

omit [DecidableEq ι] [DecidableEq κ] in
theorem ListsInv.eq_of_mem {l' : ι} (h : ListsInv s seqs) (hx : x ∈ seqs l) (hx' : x ∈ seqs l') :
    l' = l := by
  have := ((h.owner x l').2 hx').symm.trans ((h.owner x l).2 hx)
  exact Option.some.inj this

omit [DecidableEq ι] [DecidableEq κ] in
theorem ListsInv.notMem (h : ListsInv s seqs) (hx : s.listObj x = none) (l : ι) : x ∉ seqs l := by
  rw [← h.owner x l, hx]
  simp

/-- The pointers after `x` has been linked in between `xs` and `ys`. -/
structure LinkedIn (s s' : ListHeap ι κ τ) (l : ι) (xs : List κ) (x : κ) (ys : List κ) : Prop where
  head : ∀ l', s'.head l' = if l' = l then (xs ++ x :: ys).head? else s.head l'
  tail : ∀ l', s'.tail l' = if l' = l then (xs ++ x :: ys).getLast? else s.tail l'
  here : s'.prev x = xs.getLast? ∧ s'.next x = ys.head?
  prev : ∀ y, y ≠ x → s'.prev y = if ys.head? = some y then some x else s.prev y
  next : ∀ y, y ≠ x → s'.next y = if xs.getLast? = some y then some x else s.next y
  listObj : ∀ y, s'.listObj y = if y = x then some l else s.listObj y
  item : s'.item = s.item

theorem ListsInv.linkedIn (h : ListsInv s seqs) (hl : seqs l = xs ++ ys)
    (hfree : s.listObj x = none) (hitem : (s.item x).isSome) (hs : LinkedIn s s' l xs x ys) :
    ListsInv s' (Function.update seqs l (xs ++ x :: ys)) := by
  have hnew := h.notMem hfree
  have hne : ∀ l', ∀ y ∈ seqs l', y ≠ x := fun l' y hy e => hnew l' (e ▸ hy)
  have hnd := h.nodup l
  have hlinked := h.linked l
  rw [hl] at hnd hlinked
  constructor
  case ends =>
    intro l'
    rw [hs.head, hs.tail]
    by_cases e : l' = l
    · simp [e]
    · simpa [e] using h.ends l'
  case linked =>
    intro l'
    by_cases e : l' = l
    · subst e
      rw [Function.update_self]
      refine hlinked.insert hnd hs.here (fun y hy => ?_) fun y hy => ?_
      · have hyx := hne l' y (by simp [hl, hy])
        have hhead : ys.head? ≠ some y := by
          intro hh
          exact (List.nodup_append.mp hnd).2.2 y hy y (List.mem_of_head? hh) rfl
        exact ⟨by rw [hs.prev y hyx, if_neg hhead], hs.next y hyx⟩
      · have hyx := hne l' y (by simp [hl, hy])
        have hlast : xs.getLast? ≠ some y := by
          intro hh
          exact (List.nodup_append.mp hnd).2.2 y (List.mem_of_getLast? hh) y hy rfl
        exact ⟨by rw [hs.next y hyx, if_neg hlast], hs.prev y hyx⟩
    · rw [Function.update_of_ne e]
      refine (h.linked l').congr fun y hy => ?_
      have hyx := hne l' y hy
      have hyl : y ∉ seqs l := fun hy' => e (h.eq_of_mem hy' hy)
      rw [hl, List.mem_append, not_or] at hyl
      rw [hs.prev y hyx, hs.next y hyx, if_neg fun hh => hyl.2 (List.mem_of_head? hh),
        if_neg fun hh => hyl.1 (List.mem_of_getLast? hh)]
      exact ⟨rfl, rfl⟩
  case nodup =>
    intro l'
    by_cases e : l' = l
    · subst e
      have hx := hnew l'
      rw [hl] at hx
      rw [Function.update_self, List.nodup_middle]
      exact List.nodup_cons.mpr ⟨hx, hnd⟩
    · rw [Function.update_of_ne e]
      exact h.nodup l'
  case owner =>
    intro y l'
    rw [hs.listObj]
    by_cases e : l' = l
    · subst e
      have := h.owner y l'
      by_cases hyx : y = x <;> simp_all
    · rw [Function.update_of_ne e]
      by_cases hyx : y = x
      · subst hyx
        simp [hnew l', Ne.symm e]
      · simp [hyx, h.owner y l']
  case item =>
    intro y l' hy
    rw [hs.item]
    by_cases e : l' = l
    · subst e
      rw [Function.update_self, List.mem_append, List.mem_cons] at hy
      rcases hy with hy | rfl | hy
      · exact h.item y l' (by simp [hl, hy])
      · exact hitem
      · exact h.item y l' (by simp [hl, hy])
    · rw [Function.update_of_ne e] at hy
      exact h.item y l' hy

/-- The pointers after `x` has been linked out from between `xs` and `ys`. -/
structure LinkedOut (s s' : ListHeap ι κ τ) (l : ι) (xs : List κ) (x : κ) (ys : List κ) : Prop where
  head : ∀ l', s'.head l' = if l' = l then (xs ++ ys).head? else s.head l'
  tail : ∀ l', s'.tail l' = if l' = l then (xs ++ ys).getLast? else s.tail l'
  prev : ∀ y, y ≠ x → s'.prev y = if ys.head? = some y then xs.getLast? else s.prev y
  next : ∀ y, y ≠ x → s'.next y = if xs.getLast? = some y then ys.head? else s.next y
  listObj : ∀ y, s'.listObj y = if y = x then none else s.listObj y
  item : s'.item = s.item

theorem ListsInv.linkedOut (h : ListsInv s seqs) (hl : seqs l = xs ++ x :: ys)
    (hs : LinkedOut s s' l xs x ys) : ListsInv s' (Function.update seqs l (xs ++ ys)) := by
  have hnd := h.nodup l
  have hlinked := h.linked l
  rw [hl] at hnd hlinked
  have hcons := List.nodup_cons.mp (List.nodup_middle.mp hnd)
  have hne : ∀ l', l' ≠ l → ∀ y ∈ seqs l', y ≠ x := by
    rintro l' e y hy rfl
    exact e (h.eq_of_mem (l := l) (by simp [hl]) hy)
  have hdisj := (List.nodup_append.mp hcons.2).2.2
  constructor
  case ends =>
    intro l'
    rw [hs.head, hs.tail]
    by_cases e : l' = l
    · simp [e]
    · simpa [e] using h.ends l'
  case linked =>
    intro l'
    by_cases e : l' = l
    · subst e
      rw [Function.update_self]
      refine hlinked.erase hnd (fun y hy => ?_) fun y hy => ?_
      · have hyx : y ≠ x := fun e => hcons.1 (by simp [← e, hy])
        rw [hs.prev y hyx, hs.next y hyx, if_neg fun hh => hdisj y hy y (List.mem_of_head? hh) rfl]
        exact ⟨rfl, rfl⟩
      · have hyx : y ≠ x := fun e => hcons.1 (by simp [← e, hy])
        rw [hs.prev y hyx, hs.next y hyx,
          if_neg fun hh => hdisj y (List.mem_of_getLast? hh) y hy rfl]
        exact ⟨rfl, rfl⟩
    · rw [Function.update_of_ne e]
      refine (h.linked l').congr fun y hy => ?_
      have hyx := hne l' e y hy
      have hyl : y ∉ seqs l := fun hy' => e (h.eq_of_mem hy' hy)
      rw [hl, List.mem_append, List.mem_cons, not_or, not_or] at hyl
      rw [hs.prev y hyx, hs.next y hyx, if_neg fun hh => hyl.2.2 (List.mem_of_head? hh),
        if_neg fun hh => hyl.1 (List.mem_of_getLast? hh)]
      exact ⟨rfl, rfl⟩
  case nodup =>
    intro l'
    by_cases e : l' = l
    · subst e
      rw [Function.update_self]
      exact hcons.2
    · rw [Function.update_of_ne e]
      exact h.nodup l'
  case owner =>
    intro y l'
    rw [hs.listObj]
    by_cases e : l' = l
    · subst e
      have := h.owner y l'
      by_cases hyx : y = x <;> simp_all
    · rw [Function.update_of_ne e]
      by_cases hyx : y = x
      · subst hyx
        simpa using fun hy => hne l' e y hy rfl
      · simp [hyx, h.owner y l']
  case item =>
    intro y l' hy
    rw [hs.item]
    by_cases e : l' = l
    · subst e
      rw [Function.update_self] at hy
      refine h.item y l' ?_
      rw [hl]
      simp only [List.mem_append, List.mem_cons] at hy ⊢
      tauto
    · rw [Function.update_of_ne e] at hy
      exact h.item y l' hy

/-! ### The calls -/

theorem addTail_linkedIn (h : ListsInv s seqs) (hfree : s.listObj x = none)
    (hs : s.addTail l x = some s') :
    (s.item x).isSome ∧ LinkedIn s s' l (seqs l) x [] := by
  obtain ⟨hhead, htail⟩ := h.ends l
  have hnew := h.notMem hfree l
  rw [ListHeap.addTail, Option.ite_none_right_eq_some] at hs
  obtain ⟨hitem, hs⟩ := hs
  refine ⟨hitem, ?_⟩
  split at hs
  next hnil =>
    have hseq := List.getLast?_eq_none_iff.mp (htail.symm.trans hnil)
    simp only [Option.ite_none_right_eq_some] at hs
    obtain ⟨-, ⟨hn, hp⟩, hs⟩ := hs
    cases hs
    rw [hseq]
    constructor <;> simp [Function.update_apply, hn, hp]
  next t hlast =>
    rw [hlast] at htail
    simp only [Option.ite_none_right_eq_some] at hs
    obtain ⟨hn, hs⟩ := hs
    cases hs
    have htx : x ≠ t := fun e => hnew (e ▸ List.mem_of_getLast? htail.symm)
    rw [Function.update_of_ne htx] at hn
    constructor
    case head =>
      intro l'
      split
      next e =>
        subst e
        rw [List.head?_append_of_ne_nil _ fun e => by simp [e] at htail]
        exact hhead
      next => rfl
    case next =>
      intro y hy
      simp [Function.update_apply, ← htail, eq_comm]
    all_goals simp [Function.update_apply, ← htail, hlast, htx, hn]
    simp +contextual

theorem addHead_linkedIn (h : ListsInv s seqs) (hfree : s.listObj x = none)
    (hs : s.addHead l x = some s') :
    (s.item x).isSome ∧ LinkedIn s s' l [] x (seqs l) := by
  obtain ⟨hhead, htail⟩ := h.ends l
  have hnew := h.notMem hfree l
  rw [ListHeap.addHead, Option.ite_none_right_eq_some] at hs
  obtain ⟨hitem, hs⟩ := hs
  refine ⟨hitem, ?_⟩
  split at hs
  next hnil =>
    have hseq := List.head?_eq_none_iff.mp (hhead.symm.trans hnil)
    simp only [Option.ite_none_right_eq_some] at hs
    obtain ⟨-, ⟨hn, hp⟩, hs⟩ := hs
    cases hs
    rw [hseq]
    constructor <;> simp [Function.update_apply, hn, hp]
  next t hfirst =>
    rw [hfirst] at hhead
    simp only [Option.ite_none_right_eq_some] at hs
    obtain ⟨hp, hs⟩ := hs
    cases hs
    have htx : x ≠ t := fun e => hnew (e ▸ List.mem_of_head? hhead.symm)
    rw [Function.update_of_ne htx] at hp
    constructor
    case tail =>
      intro l'
      split
      next e =>
        subst e
        rw [List.nil_append, List.getLast?_cons_of_ne_nil fun e => by simp [e] at hhead]
        exact htail
      next => rfl
    case prev =>
      intro y hy
      simp [Function.update_apply, ← hhead, eq_comm]
    all_goals simp [Function.update_apply, ← hhead, hfirst, htx, hp]
    simp +contextual

omit [DecidableEq ι] [DecidableEq κ] in
/-- A list with an item that has a list object. -/
theorem ListsInv.split (h : ListsInv s seqs) (hy : s.listObj y = some l) :
    ∃ xs ys, seqs l = xs ++ y :: ys ∧ y ∉ xs ∧ y ∉ ys ∧
      s.prev y = xs.getLast? ∧ s.next y = ys.head? ∧
      s.head l = (xs ++ y :: ys).head? ∧ s.tail l = (xs ++ y :: ys).getLast? := by
  obtain ⟨xs, ys, hl⟩ := List.append_of_mem ((h.owner y l).1 hy)
  have hnd := h.nodup l
  have hlinked := h.linked l
  have hends := h.ends l
  rw [hl] at hnd hlinked hends
  have hmid := (List.nodup_cons.mp (List.nodup_middle.mp hnd)).1
  rw [List.mem_append, not_or] at hmid
  exact ⟨xs, ys, hl, hmid.1, hmid.2, hlinked.neighbours.1, hlinked.neighbours.2, hends.1, hends.2⟩

theorem addAfter_linkedIn (h : ListsInv s seqs) (hs : s.addAfter y x = some s') :
    s.listObj x = none ∧ (s.item x).isSome ∧ ∃ l xs ys, seqs l = xs ++ y :: ys ∧ y ∉ xs ∧
      LinkedIn s s' l (xs ++ [y]) x ys := by
  simp only [ListHeap.addAfter, Option.ite_none_right_eq_some] at hs
  obtain ⟨⟨hfree, hitem⟩, hs⟩ := hs
  refine ⟨hfree, hitem, ?_⟩
  have hxy : x ≠ y := by
    rintro rfl
    revert hs
    cases hn : s.next x <;> simp [hfree]
  cases hy : s.listObj y with
  | none =>
      revert hs
      cases hn : s.next y <;> simp [hy, hxy, hxy.symm]
  | some l =>
      obtain ⟨xs, ys, hl, hxs, hys, hp, hn, hhead, htail⟩ := h.split hy
      have hnew := h.notMem hfree l
      rw [hl] at hnew
      refine ⟨l, xs, ys, hl, hxs, ?_⟩
      cases ys with
      | nil =>
          simp only [List.head?_nil] at hn
          simp only [hn, hy, htail, Function.update_self, Function.update_of_ne hxy,
            Function.update_of_ne hxy.symm, List.getLast?_concat, if_true, Option.some.injEq] at hs
          subst hs
          constructor <;> simp [Function.update_apply, hxy, hhead] <;> grind
      | cons n zs =>
          simp only [List.head?_cons] at hn
          have hnx : n ≠ x := by
            rintro rfl
            simp at hnew
          have hlast : s.tail l ≠ some y := by
            rw [htail, List.getLast?_append_of_ne_nil _ (by simp), List.getLast?_cons_cons]
            intro hh
            exact hys (List.mem_of_getLast? hh)
          simp only [hn, hy, hlast, Function.update_self, Function.update_of_ne hxy,
            Function.update_of_ne hxy.symm, if_false, Option.some.injEq] at hs
          subst hs
          have hend : s.tail l = (n :: zs).getLast? := by
            rw [htail, List.getLast?_append_of_ne_nil _ (by simp), List.getLast?_cons_cons]
          constructor <;> simp [Function.update_apply, hhead] <;> grind

theorem addBefore_linkedIn (h : ListsInv s seqs) (hs : s.addBefore y x = some s') :
    s.listObj x = none ∧ (s.item x).isSome ∧ ∃ l xs ys, seqs l = xs ++ y :: ys ∧ y ∉ xs ∧
      LinkedIn s s' l xs x (y :: ys) := by
  simp only [ListHeap.addBefore, Option.ite_none_right_eq_some] at hs
  obtain ⟨⟨hfree, hitem⟩, hs⟩ := hs
  refine ⟨hfree, hitem, ?_⟩
  have hxy : x ≠ y := by
    rintro rfl
    revert hs
    cases hp : s.prev x <;> simp [hfree]
  cases hy : s.listObj y with
  | none =>
      revert hs
      cases hp : s.prev y <;> simp [hy, hxy, hxy.symm]
  | some l =>
      obtain ⟨xs, ys, hl, hxs, hys, hp, hn, hhead, htail⟩ := h.split hy
      have hnew := h.notMem hfree l
      rw [hl] at hnew
      refine ⟨l, xs, ys, hl, hxs, ?_⟩
      rcases List.eq_nil_or_concat' xs with rfl | ⟨zs, p, rfl⟩
      · simp only [List.getLast?_nil] at hp
        simp only [hp, hy, hhead, Function.update_self, Function.update_of_ne hxy,
          Function.update_of_ne hxy.symm, List.nil_append, List.head?_cons, if_true,
          Option.some.injEq] at hs
        subst hs
        constructor <;> simp [Function.update_apply, hxy, htail] <;> grind
      · simp only [List.getLast?_concat] at hp
        have hpx : p ≠ x := by
          rintro rfl
          simp at hnew
        have hfirst : s.head l ≠ some y := by
          rw [hhead, List.head?_append_of_ne_nil _ (by simp)]
          intro hh
          exact hxs (List.mem_of_head? hh)
        simp only [hp, hy, hfirst, Function.update_self, Function.update_of_ne hxy,
          Function.update_of_ne hxy.symm, if_false, Option.some.injEq] at hs
        subst hs
        constructor <;> simp [Function.update_apply, htail, hhead] <;> grind

theorem remove_linkedOut (h : ListsInv s seqs) (hs : s.remove x = some s') :
    ∃ l xs ys, seqs l = xs ++ x :: ys ∧ x ∉ xs ∧ LinkedOut s s' l xs x ys := by
  unfold ListHeap.remove at hs
  split at hs
  next => cases hs
  next l hx =>
    obtain ⟨xs, ys, hl, hxs, hys, hp, hn, hhead, htail⟩ := h.split hx
    refine ⟨l, xs, ys, hl, hxs, ?_⟩
    have hnd := h.nodup l
    rw [hl, List.nodup_middle, List.nodup_cons, List.nodup_append] at hnd
    rw [Option.map_eq_some_iff] at hs
    obtain ⟨s₁, hs₁, rfl⟩ := hs
    simp only [ListHeap.removeEnds] at hs₁
    rcases List.eq_nil_or_concat' xs with rfl | ⟨zs, p, rfl⟩ <;> cases ys with
    | nil =>
        simp_all
        subst hs₁
        constructor <;> simp [Function.update_apply, *] <;> grind
    | cons n ns =>
        simp_all
        subst hs₁
        constructor <;> simp [Function.update_apply, *] <;> grind

/-! ### Sequences of calls -/

/-- All lists with the sequences they should be. -/
abbrev ListRun (ι κ τ : Type*) := ListHeap ι κ τ × (ι → List κ)

/-- One call, on the lists and on the sequences. -/
def ListRun.step (r : ListRun ι κ τ) (op : ListOp ι κ) : Option (ListRun ι κ τ) :=
  (r.1.step op).map fun s => (s, op.apply r.2)

/-- All lists and items are initialised. -/
def ListRun.start (item : κ → Option τ) : ListRun ι κ τ := (.init item, fun _ => [])

/-- An item given to `klib_list_add_head` or `klib_list_add_tail` is in no list. -/
def GivenFree (r : ListRun ι κ τ) : ListOp ι κ → Prop
  | .addHead _ x | .addTail _ x => r.1.listObj x = none
  | _ => True

omit [DecidableEq κ] in
/-- The sequences when only one of them changes. -/
theorem ListsInv.eq_update (h : ListsInv s seqs) (f : List κ → List κ) (hy : y ∈ seqs l)
    (hf : ∀ zs, y ∉ zs → f zs = zs) : (fun l => f (seqs l)) = Function.update seqs l (f (seqs l)) := by
  funext l'
  by_cases e : l' = l
  · rw [e, Function.update_self]
  · rw [Function.update_of_ne e]
    exact hf _ fun hy' => e (h.eq_of_mem hy hy')

theorem ListsInv.step {op : ListOp ι κ} (h : ListsInv s seqs) (hfree : GivenFree (s, seqs) op)
    (hs : s.step op = some s') : ListsInv s' (op.apply seqs) := by
  cases op with
  | addHead l x =>
      obtain ⟨hitem, hin⟩ := addHead_linkedIn h hfree hs
      exact h.linkedIn (by simp) hfree hitem hin
  | addTail l x =>
      obtain ⟨hitem, hin⟩ := addTail_linkedIn h hfree hs
      exact h.linkedIn (by simp) hfree hitem hin
  | addBefore y x =>
      obtain ⟨hnone, hitem, l, xs, ys, hl, hxs, hin⟩ := addBefore_linkedIn h hs
      have heq := h.eq_update (insertBefore y x) (l := l) (y := y) (by simp [hl])
        fun _ => insertBefore_of_notMem
      rw [hl, insertBefore_append hxs] at heq
      rw [ListOp.apply, heq]
      exact h.linkedIn hl hnone hitem hin
  | addAfter y x =>
      obtain ⟨hnone, hitem, l, xs, ys, hl, hxs, hin⟩ := addAfter_linkedIn h hs
      have heq := h.eq_update (insertAfter y x) (l := l) (y := y) (by simp [hl])
        fun _ => insertAfter_of_notMem
      rw [hl, insertAfter_append hxs, List.append_cons] at heq
      rw [ListOp.apply, heq]
      exact h.linkedIn (by simpa using hl) hnone hitem hin
  | remove x =>
      obtain ⟨l, xs, ys, hl, hxs, hout⟩ := remove_linkedOut h hs
      have heq := h.eq_update (List.erase · x) (l := l) (y := x) (by simp [hl])
        fun _ => List.erase_of_not_mem
      rw [hl, List.erase_append_right _ hxs, List.erase_cons_head] at heq
      rw [ListOp.apply, heq]
      exact h.linkedOut hl hout

/-- An item that is added to a list while it is in one is then in two places. -/
theorem ListsInv.givenFree {op : ListOp ι κ} (h : ListsInv s seqs)
    (hok : ListsOk s' (op.apply seqs)) : GivenFree (s, seqs) op := by
  have key : ∀ l x zs, op.apply seqs = Function.update seqs l zs → x ∈ zs →
      (x ∈ seqs l → ¬ zs.Nodup) → s.listObj x = none := by
    intro l x zs happly hx hnd
    rw [happly] at hok
    have hl : s'.listObj x = some l := (hok.owner x l).2 (by rwa [Function.update_self])
    cases hobj : s.listObj x with
    | none => rfl
    | some l' =>
        have hmem : x ∈ seqs l' := (h.owner x l').1 hobj
        by_cases e : l' = l
        · subst e
          exact absurd (by simpa using hok.acyclic l') (hnd hmem)
        · have hl' := (hok.owner x l').2 (by rwa [Function.update_of_ne e])
          exact absurd (Option.some.inj (hl'.symm.trans hl)) e
  cases op with
  | addHead l x => exact key l x _ rfl (by simp) (by simp +contextual)
  | addTail l x => exact key l x _ rfl (by simp) (by simp +contextual [List.nodup_append])
  | _ => trivial

/-- Whatever is called, as long as no ASSERT trips: the lists stay as they should be exactly when
every item that is put at the head or the tail of a list is in no list at that moment. -/
theorem lists_ok_iff (item : κ → Option τ) (ops : List (ListOp ι κ)) :
    AlongSome ListRun.step (fun _ _ r => ListsOk r.1 r.2) (.start item) ops ↔
      AlongSome ListRun.step (fun r op _ => GivenFree r op) (.start item) ops := by
  refine alongSome_congr (I := fun r => ListsInv r.1 r.2) (fun r op r' h hs => ?_)
    (fun r op r' h hs hfree => ?_) (.init item)
  · obtain ⟨s', hs', rfl⟩ := Option.map_eq_some_iff.mp hs
    exact ⟨fun hok => h.givenFree hok, fun hfree => (h.step hfree hs').ok⟩
  · obtain ⟨s', hs', rfl⟩ := Option.map_eq_some_iff.mp hs
    exact h.step hfree hs'

/-- The only item of one list is put at the tail of an empty one: the first list, which still points
at it, is not valid any more. -/
theorem lists_ok_fails : ¬ ∀ ops : List (ListOp Bool Unit),
    AlongSome ListRun.step (fun _ _ r => ListsOk r.1 r.2)
      (.start fun _ => some () : ListRun Bool Unit Unit) ops := by
  intro h
  have hok := ((h [.addTail false (), .addTail true ()] _ rfl).2 _ rfl).1
  have hvalid := hok.valid false 1 (by decide)
  revert hvalid
  decide

end Azalea.Klib
