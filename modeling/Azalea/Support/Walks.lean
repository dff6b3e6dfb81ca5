import Mathlib.Data.Finset.Card
import Mathlib.Data.List.Nodup
import Mathlib.Data.List.Basic
import Mathlib.Data.Nat.Find
import Mathlib.Logic.Function.Iterate

/-!
# Support — walks along a next function

`Walk next c xs d`: from `c`, following `next`, the list `xs` is visited and `d` comes after it.
A linked chain in a table is a walk from its first cell to its end marker.

* `walk_append`: a walk is cut at any place of its list.
* `Walk.congr`: a walk depends on `next` at the places it visits only.
* `Walk.eq_of_length`: a walk is determined by its start and its length.
* `exists_iterate_le_card`: how long it takes at most to leave finitely many places.
-/

namespace Azalea.Walks

variable {α : Type*}

/-- From `c` the list is visited, and the last value met is the one after it. -/
def Walk (next : α → α) : α → List α → α → Prop
  | c, [], d => c = d
  | c, x :: xs, d => x = c ∧ Walk next (next c) xs d

variable {next next' : α → α}

@[simp] theorem walk_nil {c d : α} : Walk next c [] d ↔ c = d := Iff.rfl

@[simp] theorem walk_cons {c d x : α} {xs : List α} :
    Walk next c (x :: xs) d ↔ x = c ∧ Walk next (next c) xs d := Iff.rfl

/-- A walk is cut at any place of its list. -/
theorem walk_append {xs ys : List α} : ∀ {c d : α},
    Walk next c (xs ++ ys) d ↔ ∃ m, Walk next c xs m ∧ Walk next m ys d := by
  induction xs with
  | nil => simp
  | cons x xs ih =>
      intro c d
      simp only [List.cons_append, walk_cons, ih, and_assoc, exists_and_left]

/-- A walk depends on `next` at the places it visits only. -/
theorem Walk.congr {xs : List α} : ∀ {c d : α}, Walk next c xs d →
    (∀ x ∈ xs, next' x = next x) → Walk next' c xs d := by
  induction xs with
  | nil => intro c d h _; exact h
  | cons x xs ih =>
      rintro c d ⟨rfl, h⟩ he
      refine ⟨rfl, ?_⟩
      rw [he x (by simp)]
      exact ih h fun y hy => he y (by simp [hy])

/-- The `j`th place of a walk is reached by `j` steps. -/
theorem Walk.getElem_eq {xs : List α} : ∀ {c d : α}, Walk next c xs d →
    ∀ {j : Nat} (hj : j < xs.length), xs[j] = next^[j] c := by
  induction xs with
  | nil => intro c d _ j hj; cases hj
  | cons x xs ih =>
      rintro c d ⟨rfl, h⟩ j hj
      cases j with
      | zero => rfl
      | succ j => exact ih h _

theorem Walk.end_eq {xs : List α} : ∀ {c d : α}, Walk next c xs d → d = next^[xs.length] c := by
  induction xs with
  | nil => intro c d h; exact h.symm
  | cons x xs ih => rintro c d ⟨rfl, h⟩; exact ih h

/-- One step along a walk. -/
theorem Walk.next_getElem {xs : List α} {c d x : α} (h : Walk next c xs d) {k : Nat}
    (hk : xs[k]? = some x) :
    (k + 1 < xs.length → xs[k + 1]? = some (next x)) ∧ (k + 1 = xs.length → next x = d) := by
  obtain ⟨hlt, rfl⟩ := List.getElem?_eq_some_iff.mp hk
  rw [h.getElem_eq hlt, ← Function.iterate_succ_apply' next]
  refine ⟨fun h₁ => ?_, fun h₁ => ?_⟩
  · rw [List.getElem?_eq_getElem h₁, h.getElem_eq h₁]
  · rw [h.end_eq, ← h₁]

/-- Two walks from one place of one length visit the same list. -/
theorem Walk.eq_of_length {xs ys : List α} {c d e : α} (hx : Walk next c xs d)
    (hy : Walk next c ys e) (hl : xs.length = ys.length) : xs = ys :=
  List.ext_getElem hl fun _ h₁ h₂ => (hx.getElem_eq h₁).trans (hy.getElem_eq h₂).symm

/-- From every place but the last of a walk, `next` leads to a place of it. -/
theorem Walk.next_mem {xs : List α} : ∀ {c d : α}, Walk next c xs d →
    ∀ x ∈ xs, next x ∈ xs ∨ next x = d := by
  induction xs with
  | nil => intro c d _ x hx; cases hx
  | cons y xs ih =>
      rintro c d ⟨rfl, h⟩ x hx
      rcases List.mem_cons.mp hx with rfl | hx
      · cases xs with
        | nil => exact Or.inr h
        | cons z xs => exact Or.inl (by rw [← h.1]; simp)
      · rcases ih h x hx with h' | h'
        · exact Or.inl (List.mem_cons_of_mem _ h')
        · exact Or.inr h'

/-- An orbit that ever leaves the places with `P` has left them after one step more than there are places
that have `P` and lead to one that has it. -/
theorem exists_iterate_le_card {next : α → α} {P : α → Prop} {s : Finset α}
    (hs : ∀ x, P x → P (next x) → x ∈ s) {c : α} {n : Nat} (hn : ¬ P (next^[n] c)) :
    ∃ m, m ≤ s.card + 1 ∧ ¬ P (next^[m] c) := by
  classical
  have hex : ∃ m, ¬ P (next^[m] c) := ⟨n, hn⟩
  have hmin : ∀ j, j < Nat.find hex → P (next^[j] c) := fun j hj => not_not.mp (Nat.find_min hex hj)
  refine ⟨Nat.find hex, ?_, Nat.find_spec hex⟩
  -- the places before the last one lie in `s`, and no two of them are the same
  have hcard : (Finset.range (Nat.find hex - 1)).card ≤ s.card := by
    refine Finset.card_le_card_of_injOn (fun j => next^[j] c) (fun j hj => ?_) ?_
    · have hj := Finset.mem_range.mp (Finset.mem_coe.mp hj)
      refine hs _ (hmin j (by omega)) ?_
      rw [← Function.iterate_succ_apply' next]
      exact hmin (j + 1) (by omega)
    · have hne : ∀ i j, i < j → j < Nat.find hex → next^[i] c ≠ next^[j] c := by
        intro i j hij hj heq
        refine Nat.find_spec hex ?_
        have hend : next^[Nat.find hex] c = next^[Nat.find hex - j + i] c := by
          rw [Function.iterate_add_apply, heq, ← Function.iterate_add_apply]
          congr 1
          omega
        rw [hend]
        exact hmin _ (by omega)
      intro i hi j hj heq
      have hi := Finset.mem_range.mp (Finset.mem_coe.mp hi)
      have hj := Finset.mem_range.mp (Finset.mem_coe.mp hj)
      rcases Nat.lt_trichotomy i j with h | h | h
      · exact absurd heq (hne i j h (by omega))
      · exact h
      · exact absurd heq.symm (hne j i h (by omega))
  rw [Finset.card_range] at hcard
  omega
end Azalea.Walks
