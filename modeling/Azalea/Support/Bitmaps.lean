import Mathlib.Data.Nat.Count
import Mathlib.Logic.Function.Basic

/-!
# Support — bitmaps in 64-bit words

A bitmap is an array of words; item `p` is bit `p % 64` of word `p / 64`, counted from the top bit.

* `and_mask_eq_zero`: what a test against a mask says.
* `bit_setBit`, `bit_clearBit`: what setting and clearing a bit changes; `ext`: a bitmap is its bits.
* `scanMask_eq_some`, `scanMask_eq_none`: a mask that moves from the top bit down.
* `count_setBit`, `count_clearBit`: how the number of set bits changes.
-/

namespace Azalea.Bitmaps
open Function

/-- The words of a bitmap. -/
abbrev Words := Nat → BitVec 64

/-- `0x8000000000000000 >> j`. -/
def mask (j : Nat) : BitVec 64 := 0x8000000000000000#64 >>> j

/-- The bit of item `p`. -/
def bit (ws : Words) (p : Nat) : Bool := (ws (p / 64)).getMsbD (p % 64)

/-- Set the bit of item `p`. -/
def setBit (ws : Words) (p : Nat) : Words := update ws (p / 64) (ws (p / 64) ||| mask (p % 64))

/-- Clear the bit of item `p`. -/
def clearBit (ws : Words) (p : Nat) : Words :=
  update ws (p / 64) (ws (p / 64) &&& ~~~mask (p % 64))

/-- Move a mask down from bit `j` until it is `found`, over at most as many bits as given. -/
def scanMask (found : BitVec 64 → Bool) (j : Nat) (m : BitVec 64) : Nat → Option (Nat × BitVec 64)
  | 0 => none
  | n + 1 => if found m then some (j, m) else scanMask found (j + 1) (m >>> 1) n

/-! ### Masks -/

section
variable {j k : Nat} {w : BitVec 64}

theorem mask_succ : mask j >>> 1 = mask (j + 1) := by
  rw [mask, mask, BitVec.shiftRight_add]

@[simp] theorem getMsbD_mask (hj : j < 64) : (mask j).getMsbD k = decide (k = j) := by
  have htop : (0x8000000000000000#64) = BitVec.twoPow 64 63 := by decide
  rw [mask, htop, BitVec.getMsbD_ushiftRight, BitVec.getMsbD_twoPow]
  by_cases hk : k = j
  · subst hk
    simp [hj]
  · by_cases hlt : k < j
    · simp [hk, hlt]
    · simp [hk, show ¬ k - j = 0 by omega]

theorem mask_eq_shiftLeft (hj : j < 64) : mask j = 1#64 <<< (63 - j) := by
  refine BitVec.eq_of_getMsbD_eq fun k hk => ?_
  rw [getMsbD_mask hj, BitVec.getMsbD_shiftLeft, BitVec.getMsbD_one]
  by_cases hkj : k = j
  · simp [hkj, show j + (63 - j) = 63 by omega]
  · simp [hkj, show ¬ k + (63 - j) = 63 by omega]

theorem and_mask_eq_zero (hj : j < 64) : w &&& mask j = 0 ↔ w.getMsbD j = false := by
  constructor
  · intro h
    have hbit := congrArg (fun x : BitVec 64 => x.getMsbD j) h
    simpa [getMsbD_mask hj] using hbit
  · intro h
    refine BitVec.eq_of_getMsbD_eq fun k hk => ?_
    rw [BitVec.getMsbD_and, getMsbD_mask hj]
    by_cases hkj : k = j
    · simp [hkj, h]
    · simp [hkj]

/-- A mask that goes down from bit `j` stops at the first one that is found. -/
theorem scanMask_eq_some {found : BitVec 64 → Bool} {n i : Nat} {m : BitVec 64} :
    scanMask found j (mask j) n = some (i, m) ↔
      j ≤ i ∧ i < j + n ∧ m = mask i ∧ found (mask i) = true ∧
        ∀ k, j ≤ k → k < i → found (mask k) = false := by
  induction n generalizing j with
  | zero => simp only [scanMask, reduceCtorEq, false_iff]; omega
  | succ n ih =>
      rw [scanMask]
      by_cases hf : found (mask j) = true
      · rw [if_pos hf, Option.some.injEq, Prod.mk.injEq]
        constructor
        · rintro ⟨rfl, rfl⟩
          exact ⟨Nat.le_refl _, by omega, rfl, hf, fun k h₁ h₂ => by omega⟩
        · rintro ⟨hle, -, rfl, -, hbefore⟩
          rcases Nat.eq_or_lt_of_le hle with rfl | hlt
          · exact ⟨rfl, rfl⟩
          · rw [hbefore j (Nat.le_refl _) hlt] at hf
            cases hf
      · rw [if_neg hf, mask_succ, ih]
        constructor
        · rintro ⟨hle, hlt, hm, hfound, hbefore⟩
          refine ⟨by omega, by omega, hm, hfound, fun k h₁ h₂ => ?_⟩
          rcases Nat.eq_or_lt_of_le h₁ with rfl | hk
          · simpa using hf
          · exact hbefore k hk h₂
        · rintro ⟨hle, hlt, hm, hfound, hbefore⟩
          have hne : i ≠ j := fun h => hf (h ▸ hfound)
          exact ⟨by omega, by omega, hm, hfound, fun k h₁ h₂ => hbefore k (by omega) h₂⟩

theorem scanMask_eq_none {found : BitVec 64 → Bool} {n : Nat} :
    scanMask found j (mask j) n = none ↔ ∀ k, j ≤ k → k < j + n → found (mask k) = false := by
  induction n generalizing j with
  | zero => simp only [scanMask, true_iff]; omega
  | succ n ih =>
      rw [scanMask]
      by_cases hf : found (mask j) = true
      · simp only [if_pos hf, reduceCtorEq, false_iff]
        exact fun h => by rw [h j (Nat.le_refl _) (by omega)] at hf; cases hf
      · rw [if_neg hf, mask_succ, ih]
        constructor
        · intro h k h₁ h₂
          rcases Nat.eq_or_lt_of_le h₁ with rfl | hk
          · simpa using hf
          · exact h k hk (by omega)
        · exact fun h k h₁ h₂ => h k (by omega) (by omega)

end

/-! ### Bits -/

section
variable {ws ws' : Words} {p q : Nat}

/-- A bitmap is its bits. -/
theorem ext (h : ∀ p, bit ws p = bit ws' p) : ws = ws' := by
  funext i
  refine BitVec.eq_of_getMsbD_eq fun j hj => ?_
  have hp := h (64 * i + j)
  rwa [bit, bit, show (64 * i + j) / 64 = i by omega, show (64 * i + j) % 64 = j by omega] at hp

theorem bit_at {i j : Nat} (hj : j < 64) : bit ws (64 * i + j) = (ws i).getMsbD j := by
  rw [bit, show (64 * i + j) / 64 = i by omega, show (64 * i + j) % 64 = j by omega]

theorem bit_setBit : bit (setBit ws p) q = (decide (q = p) || bit ws q) := by
  rw [bit, setBit]
  by_cases hw : q / 64 = p / 64
  · rw [hw, update_self, BitVec.getMsbD_or, getMsbD_mask (Nat.mod_lt _ (by decide)), bit, hw,
      Bool.or_comm]
    congr 1
    exact decide_eq_decide.mpr (by omega)
  · rw [update_of_ne hw, bit, decide_eq_false (by omega), Bool.false_or]

theorem bit_clearBit : bit (clearBit ws p) q = (decide (q ≠ p) && bit ws q) := by
  rw [bit, clearBit]
  by_cases hw : q / 64 = p / 64
  · rw [hw, update_self, BitVec.getMsbD_and, BitVec.getMsbD_not,
      getMsbD_mask (Nat.mod_lt _ (by decide)), bit, hw, Bool.and_comm,
      decide_eq_true (Nat.mod_lt q (by decide)), Bool.true_and, ← decide_not]
    congr 1
    exact decide_eq_decide.mpr (by omega)
  · rw [update_of_ne hw, bit, decide_eq_true (by omega), Bool.true_and]

theorem setBit_clearBit (h : bit ws p = true) : setBit (clearBit ws p) p = ws := by
  refine ext fun q => ?_
  rw [bit_setBit, bit_clearBit]
  by_cases hq : q = p
  · subst hq
    simp [h]
  · simp [hq]

end

/-! ### Counting -/

/-- The number of set bits among the first `n`. -/
def count (ws : Words) (n : Nat) : Nat := Nat.count (fun p => bit ws p = true) n

section
variable {ws : Words} {p n : Nat}

theorem count_clearBit (hp : p < n) (h : bit ws p = true) :
    count ws n = count (clearBit ws p) n + 1 := by
  have hbits : (Finset.range n).filter (fun q => bit (clearBit ws p) q = true) =
      ((Finset.range n).filter fun q => bit ws q = true).erase p := by
    ext q
    simp only [Finset.mem_filter, Finset.mem_erase, bit_clearBit, Bool.and_eq_true,
      decide_eq_true_eq]
    tauto
  rw [count, count, Nat.count_eq_card_filter_range, Nat.count_eq_card_filter_range, hbits]
  exact (Finset.card_erase_add_one (Finset.mem_filter.mpr ⟨Finset.mem_range.mpr hp, h⟩)).symm

theorem count_setBit (hp : p < n) (h : bit ws p = false) :
    count (setBit ws p) n = count ws n + 1 := by
  have hclear : clearBit (setBit ws p) p = ws := by
    refine ext fun q => ?_
    rw [bit_clearBit, bit_setBit]
    by_cases hq : q = p
    · subst hq
      simp [h]
    · simp [hq]
  have hset : bit (setBit ws p) p = true := by rw [bit_setBit]; simp
  rw [count_clearBit hp hset, hclear]

theorem count_pos_iff : 0 < count ws n ↔ ∃ p < n, bit ws p = true := by
  rw [count, Nat.count_eq_card_filter_range, Finset.card_pos]
  simp [Finset.Nonempty]

theorem count_le : count ws n ≤ n := Nat.count_le _

end

end Azalea.Bitmaps
