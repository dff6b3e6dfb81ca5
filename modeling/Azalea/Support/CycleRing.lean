import Mathlib.Algebra.Order.Ring.Nat
import Mathlib.Logic.Function.Basic

/-!
# Support — rings told apart by a bit

A ring of `n` cells in which item `k` is put into cell `k % n`, together with the bit of its lap,
which flips from one lap to the next.  A reader that has read `k` items compares the bit in cell
`k % n` with that of its own lap; as long as at most `n` items are unread, the two agree exactly if
item `k` is there (`Written.bit_eq_iff`).
-/

namespace Azalea.CycleRing

/-- The bit of the lap in which item `k` is put into a ring of `n` cells. -/
def lapBit (n k : Nat) : Bool := k / n % 2 == 0

variable {n k : Nat}

@[simp] theorem lapBit_zero : lapBit n 0 = true := by
  simp [lapBit]

theorem lapBit_of_lt (h : k < n) : lapBit n k = true := by
  simp [lapBit, Nat.div_eq_of_lt h]

/-- The other parity gives the other bit. -/
theorem not_beq_mod_two (a : Nat) : ((a + 1) % 2 == 0) = !(a % 2 == 0) := by
  rcases Nat.mod_two_eq_zero_or_one a with h | h <;> simp [h, Nat.add_mod]

theorem lapBit_add (hn : 0 < n) : lapBit n (k + n) = !lapBit n k := by
  rw [lapBit, lapBit, Nat.add_div_right _ hn]
  exact not_beq_mod_two _

/-- The last cell of a lap is followed by the first. -/
theorem succ_of_last (h : k % n + 1 = n) : k + 1 = n * (k / n + 1) := by
  rw [Nat.mul_succ]
  have := Nat.div_add_mod k n
  omega

theorem mod_succ (hn : 0 < n) : (k + 1) % n = if k % n + 1 = n then 0 else k % n + 1 := by
  split
  next h => rw [succ_of_last h, Nat.mul_mod_right]
  next h =>
    have hlt : k % n + 1 < n := Nat.lt_of_le_of_ne (Nat.mod_lt k hn) h
    conv_lhs => rw [← Nat.div_add_mod k n, Nat.add_assoc, Nat.mul_add_mod]
    exact Nat.mod_eq_of_lt hlt

theorem lapBit_succ (hn : 0 < n) :
    lapBit n (k + 1) = if k % n + 1 = n then !lapBit n k else lapBit n k := by
  split
  next h =>
    rw [lapBit, lapBit, succ_of_last h, Nat.mul_div_cancel_left _ hn]
    exact not_beq_mod_two _
  next h =>
    have hlt : k % n + 1 < n := Nat.lt_of_le_of_ne (Nat.mod_lt k hn) h
    have hdiv : (k + 1) / n = k / n := by
      conv_lhs => rw [← Nat.div_add_mod k n, Nat.add_assoc, Nat.mul_add_div hn]
      rw [Nat.div_eq_of_lt hlt, Nat.add_zero]
    rw [lapBit, lapBit, hdiv]

/-- Two items less than a lap apart are in different cells. -/
theorem mod_ne_of_lt {i j : Nat} (hij : i < j) (hlap : j < i + n) : i % n ≠ j % n := by
  intro h
  have hmod : (j - i) % n = 0 := Nat.sub_mod_eq_zero_of_mod_eq h.symm
  rw [Nat.mod_eq_of_lt (by omega)] at hmod
  omega

variable {σ : Type*} {bit : σ → Bool} {cells : Nat → σ} {low : Nat} {items : List σ} {x : σ}

/-- The items have been put into the ring one after the other, and those from `low` on have not been
overwritten. -/
structure Written (n : Nat) (bit : σ → Bool) (cells : Nat → σ) (low : Nat) (items : List σ) : Prop where
  read : low ≤ items.length
  room : items.length ≤ low + n
  unread : ∀ k, low ≤ k → ∀ h : k < items.length, cells (k % n) = items[k]
  bits : ∀ k, k < items.length → items.length ≤ k + n → bit (cells (k % n)) = lapBit n k
  unused : ∀ k, items.length ≤ k → k < n → bit (cells k) = false

theorem Written.nil (h : ∀ k, bit (cells k) = false) : Written n bit cells 0 [] where
  read := le_rfl
  room := Nat.zero_le _
  unread k _ hk := absurd hk (Nat.not_lt_zero k)
  bits k hk := absurd hk (Nat.not_lt_zero k)
  unused k _ _ := h k

/-- The cell for the next item still has the bit of the lap before. -/
theorem Written.old (hn : 0 < n) (h : Written n bit cells low items) :
    bit (cells (items.length % n)) = !lapBit n items.length := by
  rcases Nat.lt_or_ge items.length n with hlt | hge
  · rw [Nat.mod_eq_of_lt hlt, lapBit_of_lt hlt]
    exact h.unused _ le_rfl hlt
  · obtain ⟨k, hk⟩ := Nat.exists_eq_add_of_le' hge
    rw [hk, lapBit_add hn, Nat.add_mod_right, Bool.not_not]
    exact h.bits k (by omega) hk.le

/-- What a reader of `low` items finds in the cell it looks at. -/
theorem Written.bit_eq_iff (hn : 0 < n) (h : Written n bit cells low items) :
    bit (cells (low % n)) = lapBit n low ↔ low < items.length := by
  constructor
  · intro hbit
    refine lt_of_le_of_ne h.read fun heq => ?_
    have hold := h.old hn
    rw [← heq, hbit] at hold
    simp at hold
  · intro hlt
    exact h.bits low hlt h.room

/-- One more item has been read. -/
theorem Written.next (h : Written n bit cells low items) (hlt : low < items.length) :
    Written n bit cells (low + 1) items where
  read := hlt
  room := h.room.trans (by omega)
  unread k hk := h.unread k (by omega)
  bits := h.bits
  unused := h.unused

/-- The cell for the next item is written to, but not its bit. -/
theorem Written.touch (h : Written n bit cells low items) (hroom : items.length < low + n)
    (hbit : bit x = bit (cells (items.length % n))) :
    Written n bit (Function.update cells (items.length % n) x) low items := by
  have hsame : ∀ k, bit (Function.update cells (items.length % n) x k) = bit (cells k) := by
    intro k
    by_cases hk : k = items.length % n
    · rw [hk, Function.update_self, hbit]
    · rw [Function.update_of_ne hk]
  refine ⟨h.read, h.room, fun k hk hlt => ?_, fun k hlt hlap => ?_, fun k hk hlt => ?_⟩
  · rw [Function.update_of_ne (mod_ne_of_lt hlt (by omega))]
    exact h.unread k hk hlt
  · rw [hsame]
    exact h.bits k hlt hlap
  · rw [hsame]
    exact h.unused k hk hlt

/-- The next item is put into the ring. -/
theorem Written.push (h : Written n bit cells low items) (hroom : items.length < low + n)
    (hbit : bit x = lapBit n items.length) :
    Written n bit (Function.update cells (items.length % n) x) low (items ++ [x]) := by
  have hread := h.read
  have hlen : (items ++ [x]).length = items.length + 1 := List.length_append
  refine ⟨by omega, by omega, fun k hk hlt => ?_, fun k hlt hlap => ?_, fun k hk hlt => ?_⟩
  · rcases Nat.lt_or_ge k items.length with hold | hnew
    · rw [Function.update_of_ne (mod_ne_of_lt hold (by omega)), List.getElem_append_left hold]
      exact h.unread k hk hold
    · obtain rfl : k = items.length := by omega
      simp
  · rcases Nat.lt_or_ge k items.length with hold | hnew
    · rw [Function.update_of_ne (mod_ne_of_lt hold (by omega))]
      exact h.bits k hold (by omega)
    · obtain rfl : k = items.length := by omega
      rw [Function.update_self, hbit]
  · have hne : k ≠ items.length % n := by
      rw [Nat.mod_eq_of_lt (by omega)]
      omega
    rw [Function.update_of_ne hne]
    exact h.unused k (by omega) hlt

end Azalea.CycleRing
