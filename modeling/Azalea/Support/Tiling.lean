import Mathlib.Algebra.Order.Group.Nat
import Mathlib.Data.List.Pairwise
import Mathlib.Data.Nat.Prime.Basic
import Mathlib.Tactic.Ring

/-!
# Support — lists that tile an interval, and dyadic blocks

A list whose items have a position `lo` and a length `len` *tiles* `[a, b)` when the items stand
end to end from `a` to `b` (`Tiles`).  A block is *dyadic* when its length is a power of two and
divides its position (`Dyadic`): two dyadic blocks that meet are nested.

* `Tiles.eq_or_apart`: two items of a tiling are one item, or one ends before the other starts.
* `coalesced_replace`: putting smaller pieces in the place of one item keeps a tiling free of
  free buddies.
* `Coalesced.exists_block`: where no two free items are buddies, a dyadic block that only meets
  free items lies inside one of them.
-/

namespace Azalea.Tiling

variable {α : Type*}

section
variable (lo len : α → Nat)

/-- The items stand end to end from `a` to `b`. -/
def Tiles : Nat → List α → Nat → Prop
  | a, [], b => a = b
  | a, x :: xs, b => lo x = a ∧ Tiles (a + len x) xs b

/-- `p` lies in the item `x`. -/
def Covers (x : α) (p : Nat) : Prop := lo x ≤ p ∧ p < lo x + len x

instance (x : α) (p : Nat) : Decidable (Covers lo len x p) :=
  inferInstanceAs (Decidable (_ ∧ _))

end

section
variable {lo len : α → Nat}

@[simp] theorem tiles_nil {a b : Nat} : Tiles lo len a [] b ↔ a = b := Iff.rfl

@[simp] theorem tiles_cons {a b : Nat} {x : α} {xs : List α} :
    Tiles lo len a (x :: xs) b ↔ lo x = a ∧ Tiles lo len (a + len x) xs b := Iff.rfl

/-- A tiling is cut at any place of its list. -/
theorem tiles_append {xs ys : List α} : ∀ {a b : Nat},
    Tiles lo len a (xs ++ ys) b ↔ ∃ m, Tiles lo len a xs m ∧ Tiles lo len m ys b := by
  induction xs with
  | nil => simp
  | cons x xs ih =>
      intro a b
      simp only [List.cons_append, tiles_cons, ih, and_assoc, exists_and_left]

theorem Tiles.le {xs : List α} : ∀ {a b : Nat}, Tiles lo len a xs b → a ≤ b := by
  induction xs with
  | nil => intro a b h; exact Nat.le_of_eq h
  | cons x xs ih =>
      rintro a b ⟨-, h⟩
      exact (Nat.le_add_right _ _).trans (ih h)

theorem Tiles.bounds {xs : List α} : ∀ {a b : Nat}, Tiles lo len a xs b →
    ∀ x ∈ xs, a ≤ lo x ∧ lo x + len x ≤ b := by
  induction xs with
  | nil => simp
  | cons y xs ih =>
      rintro a b ⟨rfl, h⟩ x hx
      rcases List.mem_cons.mp hx with rfl | hx
      · exact ⟨le_rfl, h.le⟩
      · exact ⟨(Nat.le_add_right _ _).trans (ih h x hx).1, (ih h x hx).2⟩

/-- Every point of `[a, b)` lies in an item. -/
theorem Tiles.exists_covers {xs : List α} : ∀ {a b : Nat}, Tiles lo len a xs b →
    ∀ {p}, a ≤ p → p < b → ∃ x ∈ xs, Covers lo len x p := by
  induction xs with
  | nil => rintro a b rfl p h₁ h₂; omega
  | cons y xs ih =>
      rintro a b ⟨rfl, h⟩ p h₁ h₂
      by_cases hp : p < lo y + len y
      · exact ⟨y, by simp, h₁, hp⟩
      · obtain ⟨x, hx, hc⟩ := ih h (not_lt.mp hp) h₂
        exact ⟨x, by simp [hx], hc⟩

theorem Tiles.pairwise {xs : List α} : ∀ {a b : Nat}, Tiles lo len a xs b →
    xs.Pairwise (fun x y => lo x + len x ≤ lo y) := by
  induction xs with
  | nil => simp
  | cons y xs ih =>
      rintro a b ⟨rfl, h⟩
      exact List.pairwise_cons.mpr ⟨fun x hx => (h.bounds x hx).1, ih h⟩

/-- Two items of a tiling are one item, or one ends before the other starts. -/
theorem Tiles.eq_or_apart {xs : List α} {a b : Nat} (h : Tiles lo len a xs b) {x y : α}
    (hx : x ∈ xs) (hy : y ∈ xs) : x = y ∨ lo x + len x ≤ lo y ∨ lo y + len y ≤ lo x := by
  have hsym : xs.Pairwise (fun x y => lo x + len x ≤ lo y ∨ lo y + len y ≤ lo x) :=
    h.pairwise.imp fun h => Or.inl h
  have : Std.Symm fun x y => lo x + len x ≤ lo y ∨ lo y + len y ≤ lo x := ⟨fun _ _ h => h.symm⟩
  by_cases e : x = y
  · exact Or.inl e
  · exact Or.inr (hsym.forall hx hy e)

/-- The item that covers a point is the only one. -/
theorem Tiles.covers_unique {xs : List α} {a b p : Nat} (h : Tiles lo len a xs b) {x y : α}
    (hx : x ∈ xs) (hy : y ∈ xs) (hxp : Covers lo len x p) (hyp : Covers lo len y p) : x = y := by
  rcases h.eq_or_apart hx hy with e | e | e
  · exact e
  · have := hxp.2; have := hyp.1; omega
  · have := hyp.2; have := hxp.1; omega

end

/-! ### Dyadic blocks -/

/-- `[s, s + n)` is dyadic: `n` is a power of two that divides `s`. -/
def Dyadic (s n : Nat) : Prop := (∃ k, n = 2 ^ k) ∧ n ∣ s

theorem Dyadic.pos {s n : Nat} (h : Dyadic s n) : 0 < n := by
  obtain ⟨⟨k, rfl⟩, -⟩ := h
  exact Nat.two_pow_pos k

/-- A dyadic block of more than one point is two dyadic halves. -/
theorem Dyadic.half {s n : Nat} (h : Dyadic s n) (hn : n ≠ 1) :
    2 * (n / 2) = n ∧ Dyadic s (n / 2) ∧ Dyadic (s + n / 2) (n / 2) := by
  obtain ⟨⟨k, rfl⟩, hd⟩ := h
  obtain _ | k := k
  · exact absurd (pow_zero 2) hn
  · have e : 2 ^ (k + 1) / 2 = 2 ^ k := by rw [pow_succ]; simp
    have hs : 2 ^ k ∣ s := (pow_dvd_pow 2 (Nat.le_succ k)).trans hd
    rw [e]
    exact ⟨by ring, ⟨⟨k, rfl⟩, hs⟩, ⟨k, rfl⟩, Nat.dvd_add hs dvd_rfl⟩

/-- Two equal dyadic blocks make one where the first is aligned to the double length. -/
theorem Dyadic.double {s n : Nat} (h : Dyadic s n) (hd : 2 * n ∣ s) : Dyadic s (2 * n) := by
  obtain ⟨⟨k, rfl⟩, -⟩ := h
  exact ⟨⟨k + 1, by ring⟩, hd⟩

/-- The shorter of two powers of two divides the longer. -/
theorem Dyadic.dvd {s t m n : Nat} (h : Dyadic s n) (h' : Dyadic t m) (hle : n ≤ m) : n ∣ m := by
  obtain ⟨⟨k, rfl⟩, -⟩ := h
  obtain ⟨⟨j, rfl⟩, -⟩ := h'
  exact pow_dvd_pow 2 ((Nat.pow_le_pow_iff_right (by decide)).mp hle)

/-- A power of two above another is at least its double. -/
theorem Dyadic.double_le {s t m n : Nat} (h : Dyadic s n) (h' : Dyadic t m) (hlt : n < m) :
    2 * n ∣ m := by
  obtain ⟨⟨k, rfl⟩, -⟩ := h
  obtain ⟨⟨j, rfl⟩, -⟩ := h'
  have hkj : k < j := (Nat.pow_lt_pow_iff_right (by decide)).mp hlt
  rw [mul_comm, ← pow_succ]
  exact pow_dvd_pow 2 hkj

/-- Two dyadic blocks that share a point are nested. -/
theorem Dyadic.nested {s t m n p : Nat} (h : Dyadic s n) (h' : Dyadic t m) (hle : n ≤ m)
    (hs : s ≤ p) (hsn : p < s + n) (ht : t ≤ p) (htm : p < t + m) : t ≤ s ∧ s + n ≤ t + m := by
  have hnm := h.dvd h' hle
  have hnt : n ∣ t := hnm.trans h'.2
  obtain ⟨i, rfl⟩ := h.2
  obtain ⟨j, rfl⟩ := hnt
  obtain ⟨c, rfl⟩ := hnm
  have hn := h.pos
  have h₁ : i < j + c := by
    by_contra hc
    have : n * (j + c) ≤ n * i := Nat.mul_le_mul_left n (not_lt.mp hc)
    rw [mul_add] at this; omega
  have h₂ : j ≤ i := by
    by_contra hc
    have : n * (i + 1) ≤ n * j := Nat.mul_le_mul_left n (by omega)
    rw [mul_add] at this; omega
  have h₃ : n * (i + 1) ≤ n * (j + c) := Nat.mul_le_mul_left n h₁
  rw [mul_add, mul_add, mul_one] at h₃
  exact ⟨Nat.mul_le_mul_left n h₂, h₃⟩

/-! ### Buddies -/

section
variable (lo len : α → Nat)

/-- `x` and `y` are the two halves of a dyadic block twice as long. -/
def Buddies (x y : α) : Prop := len x = len y ∧ lo y = lo x + len x ∧ 2 * len x ∣ lo x

/-- No two free items are buddies. -/
def Coalesced (free : α → Prop) (xs : List α) : Prop :=
  ∀ x ∈ xs, ∀ y ∈ xs, free x → free y → ¬ Buddies lo len x y

end

section
variable {lo len : α → Nat} {free : α → Prop}

theorem Coalesced.mono {xs ys : List α} (h : Coalesced lo len free xs) (hs : ∀ y ∈ ys, y ∈ xs) :
    Coalesced lo len free ys :=
  fun x hx y hy => h x (hs x hx) y (hs y hy)

/-- The block of which two buddies are the halves lies in every dyadic block that properly
contains one of them. -/
theorem Buddies.inside {x y : α} {t m : Nat} (hb : Buddies lo len x y)
    (hx : Dyadic (lo x) (len x)) (ht : Dyadic t m) (hlt : len x < m)
    (hin : t ≤ lo x ∧ lo x + len x ≤ t + m ∨ t ≤ lo y ∧ lo y + len y ≤ t + m) :
    t ≤ lo x ∧ lo y + len y ≤ t + m := by
  obtain ⟨hl, hp, hd⟩ := hb
  have hD := hx.double hd
  have h2 : 2 * len x ≤ m := Nat.le_of_dvd ht.pos (hx.double_le ht hlt)
  have hpos := hx.pos
  rcases hin with ⟨h₁, h₂⟩ | ⟨h₁, h₂⟩
  · have := hD.nested ht h2 (p := lo x) le_rfl (by omega) h₁ (by omega)
    omega
  · have := hD.nested ht h2 (p := lo y) (by omega) (by omega) h₁ (by omega)
    omega

/-- **Putting pieces in the place of one item.**  Where the other items hold no free buddies, and
the pieces that tile `x` hold none and their free ones are shorter than `x`, the new list holds
none: the buddy of a piece lies in `x`. -/
theorem coalesced_replace (pre post : List α) {mid : List α} {a b t m : Nat} (hm : Dyadic t m)
    (hpre : Tiles lo len a pre t) (hmid : Tiles lo len t mid (t + m))
    (hpost : Tiles lo len (t + m) post b)
    (hD : ∀ z ∈ mid, Dyadic (lo z) (len z)) (hsmall : ∀ z ∈ mid, free z → len z < m)
    (hpos : ∀ z ∈ pre ++ post, 0 < len z)
    (hout : Coalesced lo len free (pre ++ post)) (hin : Coalesced lo len free mid) :
    Coalesced lo len free (pre ++ mid ++ post) := by
  -- an item outside does not lie in `[t, t + m)`
  have apart : ∀ w ∈ pre ++ post, ¬ (t ≤ lo w ∧ lo w + len w ≤ t + m) := by
    intro w hw ⟨h₁, h₂⟩
    have := hpos w hw
    rcases List.mem_append.mp hw with hw | hw
    · have := (hpre.bounds w hw).2; omega
    · have := (hpost.bounds w hw).1; omega
  have split : ∀ w ∈ pre ++ mid ++ post, w ∈ mid ∨ w ∈ pre ++ post := by
    intro w hw; simp only [List.mem_append] at hw ⊢; tauto
  intro x hx y hy fx fy hb
  rcases split x hx, split y hy with ⟨hx | hx, hy | hy⟩
  · exact hin x hx y hy fx fy hb
  · have hbd := hmid.bounds x hx
    have := hb.inside (hD x hx) hm (hsmall x hx fx) (Or.inl hbd)
    exact apart y hy ⟨by have := hb.2.1; omega, this.2⟩
  · have hbd := hmid.bounds y hy
    have hlx : len x < m := hb.1 ▸ hsmall y hy fy
    have hDx : Dyadic (lo x) (len x) := ⟨hb.1 ▸ (hD y hy).1, (Dvd.intro_left 2 rfl).trans hb.2.2⟩
    have := hb.inside hDx hm hlx (Or.inr hbd)
    exact apart x hx ⟨this.1, by have := hb.2.1; omega⟩
  · exact hout x hx y hy fx fy hb

/-- **A free dyadic block lies in one free item.**  By induction on the block's length: each half
lies in one item, and where neither item is longer than the half the two are buddies. -/
theorem Coalesced.exists_block {xs : List α} {a b : Nat} (hc : Coalesced lo len free xs)
    (h : Tiles lo len a xs b) (hD : ∀ x ∈ xs, Dyadic (lo x) (len x)) :
    ∀ (k s : Nat), 2 ^ k ∣ s → a ≤ s → s + 2 ^ k ≤ b →
      (∀ p, s ≤ p → p < s + 2 ^ k → ∀ x ∈ xs, Covers lo len x p → free x) →
      ∃ x ∈ xs, free x ∧ lo x ≤ s ∧ s + 2 ^ k ≤ lo x + len x := by
  intro k
  induction k with
  | zero =>
      intro s _ ha hb hf
      obtain ⟨x, hx, hcov⟩ := h.exists_covers ha (by omega)
      exact ⟨x, hx, hf s le_rfl (by omega) x hx hcov, hcov.1, hcov.2⟩
  | succ k ih =>
      intro s hs ha hb hf
      have e : 2 ^ (k + 1) = 2 ^ k + 2 ^ k := by ring
      rw [e] at hs hb hf ⊢
      have hk := Nat.two_pow_pos k
      have hs₁ : 2 ^ k ∣ s := (Dvd.intro_left 2 (by ring)).trans hs
      obtain ⟨x, hx, fx, hx₁, hx₂⟩ :=
        ih s hs₁ ha (by omega) fun p h₁ h₂ => hf p h₁ (by omega)
      obtain ⟨y, hy, fy, hy₁, hy₂⟩ := ih (s + 2 ^ k) (Nat.dvd_add hs₁ dvd_rfl) (by omega) (by omega)
        fun p h₁ h₂ => hf p (by omega) (by omega)
      have hB : Dyadic s (2 ^ k + 2 ^ k) := ⟨⟨k + 1, e.symm⟩, hs⟩
      by_cases hlx : 2 ^ k + 2 ^ k ≤ len x
      · have := hB.nested (hD x hx) hlx (p := s) le_rfl (by omega) hx₁ (by omega)
        exact ⟨x, hx, fx, this.1, this.2⟩
      by_cases hly : 2 ^ k + 2 ^ k ≤ len y
      · have := hB.nested (hD y hy) hly (p := s + 2 ^ k) (by omega) (by omega) hy₁ (by omega)
        exact ⟨y, hy, fy, this.1, this.2⟩
      -- both items are the halves themselves
      have short : ∀ z ∈ xs, ¬ 2 ^ k + 2 ^ k ≤ len z → ¬ 2 ^ k < len z := by
        intro z hz hz' hlt
        have hS : Dyadic s (2 ^ k) := ⟨⟨k, rfl⟩, hs₁⟩
        have := Nat.le_of_dvd (hD z hz).pos (hS.double_le (hD z hz) hlt)
        omega
      have hlx' := short x hx hlx
      have hly' := short y hy hly
      have ex : lo x = s ∧ len x = 2 ^ k := by omega
      have ey : lo y = s + 2 ^ k ∧ len y = 2 ^ k := by omega
      refine absurd ⟨by omega, by omega, ?_⟩ (hc x hx y hy fx fy)
      rw [ex.1, ex.2, two_mul]
      exact hs

/-- Where every item is free, a coalesced tiling of a dyadic block is that block. -/
theorem Coalesced.eq_singleton {xs : List α} {t m : Nat} (hc : Coalesced lo len free xs)
    (hm : Dyadic t m) (h : Tiles lo len t xs (t + m)) (hD : ∀ x ∈ xs, Dyadic (lo x) (len x))
    (hf : ∀ x ∈ xs, free x) : ∃ x, xs = [x] ∧ lo x = t ∧ len x = m := by
  obtain ⟨⟨k, rfl⟩, hd⟩ := hm
  obtain ⟨x, hx, -, h₁, h₂⟩ :=
    hc.exists_block h hD k t hd le_rfl le_rfl fun _ _ _ x hx _ => hf x hx
  have hb := h.bounds x hx
  have alone : ∀ y ∈ xs, y = x := by
    intro y hy
    have hyb := h.bounds y hy
    have := (hD y hy).pos
    exact h.covers_unique hy hx (p := lo y) ⟨le_rfl, by omega⟩ ⟨by omega, by omega⟩
  obtain ⟨pre, post, rfl⟩ := List.append_of_mem hx
  -- a second item would start where `x` starts
  have hpw := h.pairwise
  have hp := (hD x hx).pos
  have hpre : pre = [] := List.eq_nil_iff_forall_not_mem.mpr fun y hy => by
    have := alone y (by simp [hy]); subst this
    have := (List.pairwise_append.mp hpw).2.2 y hy y (by simp); omega
  have hpost : post = [] := List.eq_nil_iff_forall_not_mem.mpr fun y hy => by
    have := alone y (by simp [hy]); subst this
    have := (List.pairwise_cons.mp (List.pairwise_append.mp hpw).2.1).1 y hy; omega
  subst hpre hpost
  exact ⟨x, rfl, by omega, by omega⟩

end

end Azalea.Tiling
