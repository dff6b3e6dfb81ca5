import Mathlib.Data.Finmap

/-!
# Support — maps that index a partial function

`std::map::insert` leaves a key that is present alone (`insertNew`).  A map indexes a partial
function when it takes each key to the place of the one value that has it.

* `Indexes.insertNew`, `Indexes.erase`: a value is added at a new place, or taken away.
* `Indexes.unique`: the index of a function is one map.
-/

namespace Azalea.Maps
open Function

variable {κ ι α β : Type} [DecidableEq κ] [DecidableEq ι]

/-- A key that is present keeps its value. -/
def insertNew (m : Finmap fun _ : κ => β) (k : κ) (v : β) : Finmap fun _ : κ => β :=
  if k ∈ m then m else m.insert k v

section
variable {m : Finmap fun _ : κ => β} {k k' : κ} {v : β}

theorem insertNew_of_lookup {w : β} (h : m.lookup k = some w) : insertNew m k v = m :=
  if_pos (Finmap.mem_of_lookup_eq_some h)

theorem lookup_insertNew (h : m.lookup k = none) :
    (insertNew m k v).lookup k' = if k' = k then some v else m.lookup k' := by
  rw [insertNew, if_neg (Finmap.lookup_eq_none.mp h)]
  split
  · next he => rw [he, Finmap.lookup_insert]
  · next hne => exact Finmap.lookup_insert_of_ne m hne

theorem lookup_erase_eq (m : Finmap fun _ : κ => β) (k k' : κ) :
    (m.erase k).lookup k' = if k' = k then none else m.lookup k' := by
  split
  · next he => rw [he, Finmap.lookup_erase]
  · next hne => exact Finmap.lookup_erase_ne hne

end

/-- The map `m` takes a key to the place of the value of `f` that has it. -/
def Indexes (m : Finmap fun _ : κ => ι) (f : ι → Option α) (key : α → Option κ) : Prop :=
  ∀ k i, m.lookup k = some i ↔ ∃ a, f i = some a ∧ key a = some k

section
variable {m m' : Finmap fun _ : κ => ι} {f : ι → Option α} {key : α → Option κ} {i j : ι} {a b : α}
  {k : κ}

/-- No two places have values with the same key. -/
theorem Indexes.inj (h : Indexes m f key) (hi : f i = some a) (hj : f j = some b)
    (ha : key a = some k) (hb : key b = some k) : i = j :=
  Option.some.inj (((h k i).mpr ⟨a, hi, ha⟩).symm.trans ((h k j).mpr ⟨b, hj, hb⟩))

theorem Indexes.insertNew (h : Indexes m f key) (hi : f i = none) (ha : key a = some k)
    (hk : m.lookup k = none) : Indexes (insertNew m k i) (update f i (some a)) key := by
  intro k' j
  rw [lookup_insertNew hk, update_apply]
  by_cases hj : j = i
  · subst hj
    rw [if_pos rfl]
    constructor
    · intro hk'
      split at hk'
      · next he => exact ⟨a, rfl, he ▸ ha⟩
      · obtain ⟨b, hb, -⟩ := (h k' j).mp hk'
        rw [hi] at hb; cases hb
    · rintro ⟨b, hb, hb'⟩
      obtain rfl := Option.some.inj hb
      rw [if_pos (Option.some.inj (hb'.symm.trans ha))]
  · rw [if_neg hj]
    by_cases he : k' = k
    · subst he
      rw [if_pos rfl, ← h k' j, hk]
      exact ⟨fun hij => absurd (Option.some.inj hij).symm hj, fun hn => by cases hn⟩
    · rw [if_neg he]
      exact h k' j

/-- A value without a key changes nothing. -/
theorem Indexes.insertNone (h : Indexes m f key) (hi : f i = none) (ha : key a = none) :
    Indexes m (update f i (some a)) key := by
  intro k j
  rw [update_apply, h k j]
  by_cases hj : j = i
  · subst hj
    rw [if_pos rfl, hi]
    constructor
    · rintro ⟨b, hb, -⟩; cases hb
    · rintro ⟨b, hb, hb'⟩
      rw [← Option.some.inj hb, ha] at hb'
      cases hb'
  · rw [if_neg hj]

theorem Indexes.erase (h : Indexes m f key) (hi : f i = some a) (ha : key a = some k) :
    Indexes (m.erase k) (update f i none) key := by
  intro k' j
  rw [lookup_erase_eq, update_apply]
  by_cases he : k' = k
  · subst he
    rw [if_pos rfl]
    refine iff_of_false (by simp) ?_
    rintro ⟨b, hb, hb'⟩
    split at hb
    · cases hb
    · next hne => exact hne (h.inj hb hi hb' ha)
  · rw [if_neg he, h k' j]
    by_cases hj : j = i
    · subst hj
      rw [if_pos rfl, hi]
      constructor
      · rintro ⟨b, hb, hb'⟩
        rw [← Option.some.inj hb, ha] at hb'
        exact absurd (Option.some.inj hb').symm he
      · rintro ⟨b, hb, -⟩; cases hb
    · rw [if_neg hj]

theorem Indexes.eraseNone (h : Indexes m f key) (hi : f i = some a) (ha : key a = none) :
    Indexes m (update f i none) key := by
  intro k j
  rw [update_apply, h k j]
  by_cases hj : j = i
  · subst hj
    rw [if_pos rfl, hi]
    constructor
    · rintro ⟨b, hb, hb'⟩
      rw [← Option.some.inj hb, ha] at hb'
      cases hb'
    · rintro ⟨b, hb, -⟩; cases hb
  · rw [if_neg hj]

theorem Indexes.unique (h : Indexes m f key) (h' : Indexes m' f key) : m = m' :=
  Finmap.ext_lookup fun k => Option.ext fun i => (h k i).trans (h' k i).symm

end

end Azalea.Maps
