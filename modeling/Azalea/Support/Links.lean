import Mathlib.Data.List.Nodup
import Mathlib.Data.List.Basic

/-!
# Support — items linked both ways

`Linked prev next p xs n`: the items `xs` follow each other in both directions, `p` before the
first and `n` after the last.  A sequence can be cut (`linked_append`), depends on its own items
only (`Linked.congr`), and an item can be linked into it (`Linked.insert`) or out of it
(`Linked.erase`) by changing its two neighbours.  `Chain next h xs`: linked one way, from `h` to the end.
-/

namespace Azalea.Links

variable {κ : Type*}

/-- The items `xs`, with what comes before and after them. -/
def Linked (prev next : κ → Option κ) : Option κ → List κ → Option κ → Prop
  | _, [], _ => True
  | p, x :: xs, n => prev x = p ∧ next x = xs.head?.or n ∧ Linked prev next (some x) xs n

variable {prev next prev' next' : κ → Option κ} {p n p' n' : Option κ} {xs ys : List κ} {x : κ}

@[simp] theorem linked_nil : Linked prev next p [] n := trivial

@[simp] theorem linked_cons : Linked prev next p (x :: xs) n ↔
    prev x = p ∧ next x = xs.head?.or n ∧ Linked prev next (some x) xs n := Iff.rfl

theorem linked_append : Linked prev next p (xs ++ ys) n ↔
    Linked prev next p xs (ys.head?.or n) ∧ Linked prev next (xs.getLast?.or p) ys n := by
  induction xs generalizing p with
  | nil => simp
  | cons x xs ih =>
      have hlast : ((x :: xs).getLast?).or p = xs.getLast?.or (some x) := by
        cases xs <;> simp [List.getLast?_cons]
      rw [List.cons_append, linked_cons, linked_cons, ih, hlast, List.head?_append, Option.or_assoc]
      simp only [and_assoc]

theorem Linked.congr (h : Linked prev next p xs n)
    (hxs : ∀ x ∈ xs, prev' x = prev x ∧ next' x = next x) : Linked prev' next' p xs n := by
  induction xs generalizing p with
  | nil => trivial
  | cons x xs ih =>
      obtain ⟨hp, hn, h⟩ := h
      obtain ⟨hp', hn'⟩ := hxs x (by simp)
      exact ⟨hp'.trans hp, hn'.trans hn, ih h fun y hy => hxs y (by simp [hy])⟩

/-- The two neighbours of an item. -/
theorem Linked.neighbours (h : Linked prev next none (xs ++ x :: ys) none) :
    prev x = xs.getLast? ∧ next x = ys.head? := by
  rw [linked_append, linked_cons] at h
  exact ⟨by simpa using h.2.1, by simpa using h.2.2.1⟩

/-- From `h` the items `xs` follow each other, and there is none after the last. -/
def Chain (next : κ → Option κ) : Option κ → List κ → Prop
  | h, [] => h = none
  | h, x :: xs => h = some x ∧ Chain next (next x) xs

variable {h : Option κ}

@[simp] theorem chain_nil : Chain next h [] ↔ h = none := Iff.rfl

@[simp] theorem chain_cons : Chain next h (x :: xs) ↔ h = some x ∧ Chain next (next x) xs := Iff.rfl

/-- A chain depends on its own items only. -/
theorem Chain.congr (hc : Chain next h xs) (hxs : ∀ x ∈ xs, next' x = next x) :
    Chain next' h xs := by
  induction xs generalizing h with
  | nil => exact hc
  | cons x xs ih =>
      refine ⟨hc.1, ?_⟩
      rw [hxs x (by simp)]
      exact ih hc.2 fun y hy => hxs y (by simp [hy])

theorem Chain.head_eq (hc : Chain next h xs) : h = xs.head? := by
  cases xs with
  | nil => exact hc
  | cons x xs => exact hc.1

/-- An item that is linked to itself begins no chain. -/
theorem Chain.next_ne (hc : Chain next (some x) xs) : next x ≠ some x := by
  intro hloop
  induction xs with
  | nil => cases hc
  | cons y ys ih =>
      obtain ⟨heq, hrest⟩ := hc
      obtain rfl := Option.some.inj heq
      rw [hloop] at hrest
      exact ih hrest

variable [DecidableEq κ]

/-- Another item after the last one. -/
theorem Linked.set_next (h : Linked prev next p xs n) (hnd : xs.Nodup)
    (hprev : ∀ x ∈ xs, prev' x = prev x)
    (hnext : ∀ x ∈ xs, next' x = if xs.getLast? = some x then n' else next x) :
    Linked prev' next' p xs n' := by
  induction xs generalizing p with
  | nil => trivial
  | cons x xs ih =>
      obtain ⟨hp, hn, h⟩ := h
      rw [List.nodup_cons] at hnd
      refine ⟨(hprev x (by simp)).trans hp, ?_, ?_⟩
      · rw [hnext x (by simp)]
        cases xs with
        | nil => simp
        | cons y ys =>
            have hx : (x :: y :: ys).getLast? ≠ some x := by
              rw [List.getLast?_cons_cons]
              intro hm
              exact hnd.1 (List.mem_of_getLast? hm)
            rw [if_neg hx, hn]
            rfl
      · refine ih h hnd.2 (fun y hy => hprev y (by simp [hy])) fun y hy => ?_
        rw [hnext y (by simp [hy])]
        cases xs with
        | nil => cases hy
        | cons z zs => rw [List.getLast?_cons_cons]

/-- Another item before the first one. -/
theorem Linked.set_prev (h : Linked prev next p xs n) (hnd : xs.Nodup)
    (hnext : ∀ x ∈ xs, next' x = next x)
    (hprev : ∀ x ∈ xs, prev' x = if xs.head? = some x then p' else prev x) :
    Linked prev' next' p' xs n := by
  cases xs with
  | nil => trivial
  | cons x xs =>
      obtain ⟨-, hn, h⟩ := h
      rw [List.nodup_cons] at hnd
      refine ⟨by simpa using hprev x (by simp), (hnext x (by simp)).trans hn, h.congr fun y hy => ?_⟩
      have hxy : (x :: xs).head? ≠ some y := by
        rintro ⟨⟩
        exact hnd.1 hy
      exact ⟨by rw [hprev y (by simp [hy]), if_neg hxy], hnext y (by simp [hy])⟩

/-- Link an item in between `xs` and `ys`. -/
theorem Linked.insert (h : Linked prev next none (xs ++ ys) none) (hnd : (xs ++ ys).Nodup)
    (hx : prev' x = xs.getLast? ∧ next' x = ys.head?)
    (hxs : ∀ y ∈ xs, prev' y = prev y ∧ next' y = if xs.getLast? = some y then some x else next y)
    (hys : ∀ y ∈ ys, next' y = next y ∧ prev' y = if ys.head? = some y then some x else prev y) :
    Linked prev' next' none (xs ++ x :: ys) none := by
  rw [linked_append] at h ⊢
  rw [List.nodup_append] at hnd
  refine ⟨h.1.set_next hnd.1 (fun y hy => (hxs y hy).1) fun y hy => ?_, ?_, ?_, ?_⟩
  · simpa using (hxs y hy).2
  · simpa using hx.1
  · simpa using hx.2
  · exact h.2.set_prev hnd.2.1 (fun y hy => (hys y hy).1) fun y hy => (hys y hy).2

/-- Link the item in between `xs` and `ys` out. -/
theorem Linked.erase (h : Linked prev next none (xs ++ x :: ys) none)
    (hnd : (xs ++ x :: ys).Nodup)
    (hxs : ∀ y ∈ xs, prev' y = prev y ∧ next' y = if xs.getLast? = some y then ys.head? else next y)
    (hys : ∀ y ∈ ys, next' y = next y ∧ prev' y = if ys.head? = some y then xs.getLast? else prev y) :
    Linked prev' next' none (xs ++ ys) none := by
  rw [linked_append, linked_cons] at h
  rw [List.nodup_append, List.nodup_cons] at hnd
  rw [linked_append]
  refine ⟨h.1.set_next hnd.1 (fun y hy => (hxs y hy).1) fun y hy => ?_,
    h.2.2.2.set_prev hnd.2.1.2 (fun y hy => (hys y hy).1) fun y hy => ?_⟩
  · simpa using (hxs y hy).2
  · simpa using (hys y hy).2

end Azalea.Links
