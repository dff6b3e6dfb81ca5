import Azalea.Support.Walks

/-!
# Support — rings of linked places

`Ring next l`: from the first place of the list `l`, following `next`, the places of `l` are visited one
after the other, each once, and then the first one comes again.

* `Ring.rotate`: a ring can be read from any of its places.
* `Ring.insert`, `Ring.erase`: a place is put behind the first one, or taken out, by changing one link.
* `Ring.returns`: from every place of a ring every other is met, and the place itself again.
* `Leads`: from a place that has been taken out, a walk comes into the ring.
* `Scan`: a search has come from one place to another, and not past a third; `Ring.ahead` says that it meets the
  third before it comes round.
-/

namespace Azalea.Rings
open Azalea.Walks Function

variable {α : Type*}

/-- The places of the list, one after the other, and the first one again. -/
structure Ring (next : α → α) (l : List α) : Prop where
  nodup : l.Nodup
  walk : ∀ x ∈ l.head?, Walk next x l x

variable {next : α → α} {l xs ys : List α} {t x y z : α}

theorem Ring.nil : Ring next [] := ⟨List.nodup_nil, nofun⟩

theorem ring_cons : Ring next (x :: xs) ↔ (x :: xs).Nodup ∧ Walk next (next x) xs x :=
  ⟨fun h => ⟨h.nodup, (h.walk x rfl).2⟩, fun h => ⟨h.1, fun y hy => by cases hy; exact ⟨rfl, h.2⟩⟩⟩

/-- A place that is linked to itself. -/
theorem Ring.single (h : next x = x) : Ring next [x] := ring_cons.mpr ⟨List.nodup_singleton x, h⟩

theorem Ring.next_mem (h : Ring next l) (hx : x ∈ l) : next x ∈ l := by
  cases l with
  | nil => cases hx
  | cons y ys =>
      rcases (h.walk y rfl).next_mem x hx with hmem | heq
      · exact hmem
      · exact heq ▸ List.mem_cons_self ..

theorem Ring.iterate_mem (h : Ring next l) (hx : x ∈ l) (n : Nat) : next^[n] x ∈ l := by
  induction n generalizing x with
  | zero => exact hx
  | succ n ih => exact ih (h.next_mem hx)

/-- A ring is read from its second place. -/
theorem Ring.rotate_one (h : Ring next (x :: xs)) : Ring next (xs ++ [x]) := by
  obtain ⟨hnodup, hwalk⟩ := ring_cons.mp h
  have hnodup' : (xs ++ [x]).Nodup := (List.perm_append_singleton x xs).nodup_iff.mpr hnodup
  cases xs with
  | nil => exact .single hwalk
  | cons y ys =>
      obtain ⟨rfl, hwalk⟩ := hwalk
      refine ring_cons.mpr ⟨hnodup', walk_append.mpr ⟨x, hwalk, rfl, rfl⟩⟩

theorem Ring.rotate (h : Ring next (xs ++ y :: ys)) : Ring next (y :: ys ++ xs) := by
  induction xs generalizing ys with
  | nil => rwa [List.append_nil]
  | cons x xs ih =>
      have hone : Ring next (xs ++ (y :: ys) ++ [x]) := h.rotate_one
      rw [List.append_assoc, List.cons_append] at hone
      have := ih hone
      rwa [List.cons_append, List.append_assoc] at this

/-- From the first place every place is met. -/
theorem Ring.reaches (h : Ring next (x :: xs)) (hy : y ∈ x :: xs) : ∃ n, next^[n] x = y := by
  obtain ⟨n, hn, rfl⟩ := List.getElem_of_mem hy
  exact ⟨n, ((h.walk x rfl).getElem_eq hn).symm⟩

/-- From every place every place is met after a step or more. -/
theorem Ring.returns (h : Ring next l) (hx : x ∈ l) (hy : y ∈ l) : ∃ n, next^[n + 1] x = y := by
  obtain ⟨before, behind, rfl⟩ := List.append_of_mem (h.next_mem hx)
  have hmem : y ∈ next x :: (behind ++ before) := by
    rw [← List.cons_append, List.mem_append]
    exact (List.mem_append.mp hy).symm
  exact Ring.reaches h.rotate hmem

section
variable [DecidableEq α]

/-- A place is put behind the first one. -/
theorem Ring.insert (h : Ring next (x :: xs)) (ht : t ∉ x :: xs) :
    Ring (update (update next t (next x)) x t) (x :: t :: xs) := by
  obtain ⟨hnodup, hwalk⟩ := ring_cons.mp h
  have htx : t ≠ x := fun heq => ht (heq ▸ List.mem_cons_self ..)
  have hkeep : ∀ y ∈ xs, update (update next t (next x)) x t y = next y := by
    intro y hy
    rw [update_of_ne, update_of_ne]
    · rintro rfl
      exact ht (List.mem_cons_of_mem _ hy)
    · rintro rfl
      exact (List.nodup_cons.mp hnodup).1 hy
  refine ring_cons.mpr ⟨?_, ?_, ?_⟩
  · have hx := List.nodup_cons.mp hnodup
    refine List.nodup_cons.mpr ⟨fun hm => ?_, List.nodup_cons.mpr
      ⟨fun hm => ht (List.mem_cons_of_mem _ hm), hx.2⟩⟩
    exact (List.mem_cons.mp hm).elim (fun heq => htx heq.symm) hx.1
  · rw [update_self]
  · rw [update_self, update_of_ne htx, update_self]
    exact hwalk.congr hkeep

/-- A place that is not the first one is taken out. -/
theorem Ring.erase (h : Ring next (xs ++ z :: t :: ys)) :
    next z = t ∧ Ring (update next z (next t)) (xs ++ z :: ys) := by
  have hnodup := h.nodup
  have hz : z ∉ xs ∧ z ∉ ys := by
    rw [List.nodup_append, List.nodup_cons] at hnodup
    exact ⟨fun hm => hnodup.2.2 z hm z (List.mem_cons_self ..) rfl,
      fun hm => hnodup.2.1.1 (List.mem_cons_of_mem _ hm)⟩
  have hwalk : ∀ x ∈ (xs ++ z :: ys).head?,
      next z = t ∧ Walk (update next z (next t)) x (xs ++ z :: ys) x := by
    intro x hx
    have hhead : (xs ++ z :: t :: ys).head? = (xs ++ z :: ys).head? := by cases xs <;> rfl
    obtain ⟨m, hbefore, rfl, htz, hbehind⟩ := walk_append.mp (h.walk x (hhead ▸ hx))
    refine ⟨htz.symm, walk_append.mpr ⟨z, hbefore.congr fun y hy => ?_, rfl, ?_⟩⟩
    · rw [update_of_ne]
      rintro rfl
      exact hz.1 hy
    · rw [update_self]
      rw [← htz] at hbehind
      refine hbehind.congr fun y hy => ?_
      rw [update_of_ne]
      rintro rfl
      exact hz.2 hy
  obtain ⟨x, hx⟩ : ∃ x, (xs ++ z :: ys).head? = some x := by cases xs <;> exact ⟨_, rfl⟩
  refine ⟨(hwalk x hx).1, ?_, fun y hy => (hwalk y hy).2⟩
  exact hnodup.sublist (List.Sublist.append_left ((List.sublist_cons_self ..).cons_cons z) xs)

end

/-- From `t` the walk comes to a place of the list; until then it is at places where `out` holds. -/
inductive Leads (next : α → α) (out : α → Prop) (l : List α) : α → Prop where
  | here {t : α} : t ∈ l → Leads next out l t
  | skip {t : α} : out t → Leads next out l (next t) → Leads next out l t

theorem Leads.enters {out : α → Prop} (h : Leads next out l t) : ∃ n, next^[n] t ∈ l := by
  induction h with
  | here hmem => exact ⟨0, hmem⟩
  | skip _ _ ih =>
      obtain ⟨n, hn⟩ := ih
      exact ⟨n + 1, hn⟩

/-- What holds of the places on the way, and what the links are there, is all that matters. -/
theorem Leads.congr {next' : α → α} {out out' : α → Prop} {l' : List α} (h : Leads next out l t)
    (hl : ∀ u ∈ l, Leads next' out' l' u) (hout : ∀ u, out u → u ∉ l → Leads next' out' l' u ∨
      next' u = next u ∧ out' u) : Leads next' out' l' t := by
  induction h with
  | here hmem => exact hl _ hmem
  | @skip u hu _ ih =>
      by_cases hmem : u ∈ l
      · exact hl u hmem
      · rcases hout u hu hmem with h | ⟨hnext, hu'⟩
        · exact h
        · exact .skip hu' (hnext ▸ ih)

/-! ### Searches -/

/-- `u` is met `j` links on from `t`, and not before. -/
structure Ahead (next : α → α) (u t : α) (j : Nat) : Prop where
  meets : next^[j] t = u
  first : ∀ i < j, next^[i] t ≠ u

/-- The search has come from `start` to `t`, and not past `u`. -/
def Scan (next : α → α) (u : α) (k : Nat) (start t : α) : Prop :=
  ∃ i j, next^[i] start = t ∧ i ≤ j ∧ j ≤ k ∧ Ahead next u start j

section
variable {u start : α} {i j k : Nat}

theorem Ahead.behind (h : Ahead next u start j) (hi : i < j) :
    Ahead next u (next^[i + 1] start) (j - (i + 1)) := by
  constructor
  · rw [← iterate_add_apply, Nat.sub_add_cancel hi]
    exact h.meets
  · intro m hm
    rw [← iterate_add_apply]
    exact h.first _ (by omega)

/-- The search does not come round before it has met `u`. -/
theorem Ahead.ne_start (h : Ahead next u start j) (hi : i < j) : next^[i + 1] start ≠ start := by
  intro heq
  have hbehind := (h.behind hi).meets
  rw [heq] at hbehind
  exact h.first _ (by omega) hbehind

theorem Scan.refl (hj : j ≤ k) (h : Ahead next u start j) : Scan next u k start start :=
  ⟨0, j, rfl, Nat.zero_le j, hj, h⟩

/-- A place that is not `u` is before it. -/
theorem Scan.before (h : Scan next u k start t) (hne : t ≠ u) :
    ∃ i j, next^[i] start = t ∧ i < j ∧ j ≤ k ∧ Ahead next u start j := by
  obtain ⟨i, j, rfl, hij, hjk, hahead⟩ := h
  refine ⟨i, j, rfl, Nat.lt_of_le_of_ne hij ?_, hjk, hahead⟩
  rintro rfl
  exact hne hahead.meets

theorem Scan.advance (h : Scan next u k start t) (hne : t ≠ u) :
    next t ≠ start ∧ Scan next u k start (next t) := by
  obtain ⟨i, j, rfl, hij, hjk, hahead⟩ := h.before hne
  rw [← iterate_succ_apply' next i start]
  exact ⟨hahead.ne_start hij, i + 1, j, rfl, hij, hjk, hahead⟩

/-- From the next place on it is nearer. -/
theorem Scan.nearer (h : Scan next u k start t) (hne : t ≠ u) : ∃ j < k, Ahead next u (next t) j := by
  obtain ⟨i, j, rfl, hij, hjk, hahead⟩ := h.before hne
  refine ⟨j - (i + 1), by omega, ?_⟩
  rw [← iterate_succ_apply' next i start]
  exact hahead.behind hij

/-- In a ring every place is met before the first one again. -/
theorem Ring.ahead {l : List α} (h : Ring next l) (ht : t ∈ l) (hu : u ∈ l) :
    ∃ j < l.length, Ahead next u t j := by
  obtain ⟨before, behind, rfl⟩ := List.append_of_mem ht
  have hring : Ring next (t :: (behind ++ before)) := h.rotate
  have hmem : u ∈ t :: (behind ++ before) := by
    rw [← List.cons_append, List.mem_append]
    exact (List.mem_append.mp hu).symm
  obtain ⟨j, hj, rfl⟩ := List.getElem_of_mem hmem
  have hplace : ∀ i (hi : i < (t :: (behind ++ before)).length),
      (t :: (behind ++ before))[i] = next^[i] t := fun i hi => (hring.walk t rfl).getElem_eq hi
  refine ⟨j, ?_, (hplace j hj).symm, fun i hi heq => ?_⟩
  · simp only [List.length_append, List.length_cons] at hj ⊢
    omega
  · rw [← hplace i (Nat.lt_trans hi hj), hring.nodup.getElem_inj_iff] at heq
    omega

end

end Azalea.Rings
