import Mathlib.Data.List.Infix

/-!
# Support — maps from paths

A map from lists of keys, as a tree is one that is looked up along its edges: what is below a path is a map
again, and another map can be put in its place.

* `graft_append`: what is below a path is changed below a longer one.
* `graft_below`: to put below a path what is there changes nothing.
-/

namespace Azalea.Paths

variable {κ β : Type*}

/-- What is below the path `p`. -/
def below (m : List κ → Option β) (p : List κ) : List κ → Option β := fun q => m (p ++ q)

/-- `sub` in place of what is below the path `p`. -/
def graft [DecidableEq κ] (m : List κ → Option β) (p : List κ) (sub : List κ → Option β) : List κ → Option β :=
  fun q => if p <+: q then sub (q.drop p.length) else m q

variable {m sub : List κ → Option β} {p q : List κ} {n n' : κ}

theorem below_below : below (below m p) q = below m (p ++ q) := by
  funext r
  exact congrArg m (List.append_assoc ..).symm

variable [DecidableEq κ]

theorem graft_append_self (r : List κ) : graft m p sub (p ++ r) = sub r := by
  rw [graft, if_pos (List.prefix_append ..), List.drop_left]

theorem graft_of_not (h : ¬ p <+: q) : graft m p sub q = m q := if_neg h

theorem graft_nil : graft m [] sub = sub := by
  funext q
  exact graft_append_self q

theorem below_graft : below (graft m p sub) p = sub := funext graft_append_self

theorem graft_below : graft m p (below m p) = m := by
  funext q
  by_cases h : p <+: q
  · obtain ⟨r, rfl⟩ := h
    exact graft_append_self r
  · exact graft_of_not h

theorem graft_graft {sub' : List κ → Option β} : graft (graft m p sub) p sub' = graft m p sub' := by
  funext q
  by_cases h : p <+: q
  · obtain ⟨r, rfl⟩ := h
    rw [graft_append_self, graft_append_self]
  · rw [graft_of_not h, graft_of_not h, graft_of_not h]

theorem graft_append : graft m (p ++ q) sub = graft m p (graft (below m p) q sub) := by
  funext r
  by_cases hp : p <+: r
  · obtain ⟨r, rfl⟩ := hp
    rw [graft_append_self]
    by_cases hq : q <+: r
    · obtain ⟨r, rfl⟩ := hq
      rw [graft_append_self, ← List.append_assoc, graft_append_self]
    · rw [graft_of_not hq, graft_of_not fun h => hq ((List.prefix_append_right_inj p).mp h)]
      rfl
  · rw [graft_of_not hp, graft_of_not fun h => hp ((List.prefix_append p q).trans h)]

/-- The first key decides. -/
theorem graft_single_cons : graft m [n] sub (n' :: q) = if n' = n then sub q else m (n' :: q) := by
  by_cases h : n' = n
  · subst h
    rw [if_pos rfl]
    exact graft_append_self (p := [n']) q
  · rw [if_neg h, graft_of_not]
    rw [List.cons_prefix_cons]
    exact fun hn => h hn.1.symm

theorem graft_single_nil : graft m [n] sub [] = m [] := graft_of_not (by simp)

end Azalea.Paths
