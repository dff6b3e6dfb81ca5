import Mathlib.Data.Nat.Bitwise
import Mathlib.Data.Nat.Log
import Mathlib.Order.Bounds.Basic

/-!
# Klib — math_hacks

`round_to_power_two` and `which_power_of_two` of `klib/misc/math_hacks.cpp`.  The guard on bit 60 is the
source's own constant.

* `roundToPowerTwo_toNat`: the function is the next power of two below that bit.
* `rounds_iff`: up to `2 ^ 63`, it is the next power of two exactly if the bit is clear.
-/

namespace Azalea.Klib

/-- `__builtin_clzl`: the number of leading zero bits of a nonzero 64-bit value. -/
def builtinClzl (x : UInt64) : UInt64 := 63 - x.log2

/-- `round_to_power_two`. -/
def roundToPowerTwo (input : UInt64) : UInt64 :=
  if input = 0 then 0
  else if input &&& 0x1000000000000000 ≠ 0 then 0
  else
    let pos := builtinClzl input
    let output : UInt64 := 1 <<< (63 - pos)
    if input ≠ output then output <<< 1 else output

/-- `which_power_of_two`. -/
def whichPowerOfTwo (input : UInt64) : UInt64 :=
  let firstBitPos := builtinClzl input
  if input = 0 then 0 else 63 - firstBitPos

theorem toNat_log2 (x : UInt64) : x.log2.toNat = Nat.log 2 x.toNat := by
  rw [← Nat.log2_eq_log_two]; rfl

theorem log_lt (x : UInt64) : Nat.log 2 x.toNat < 64 := by
  by_cases h : x.toNat = 0
  · simp [h]
  · exact Nat.log_lt_of_lt_pow h (by simpa using x.toNat_lt)

/-- What is left of 63 is the position of the leading bit. -/
theorem toNat_sub_clzl (x : UInt64) : (63 - builtinClzl x).toNat = Nat.log 2 x.toNat := by
  have hl := log_lt x
  have hle : x.log2 ≤ 63 := by
    rw [UInt64.le_iff_toNat_le, toNat_log2]; simpa using Nat.le_of_lt_succ hl
  have h₁ : (builtinClzl x).toNat = 63 - Nat.log 2 x.toNat := by
    rw [builtinClzl, UInt64.toNat_sub_of_le _ _ hle, toNat_log2]; rfl
  have h₂ : builtinClzl x ≤ 63 := by
    rw [UInt64.le_iff_toNat_le, h₁]; simp
  rw [UInt64.toNat_sub_of_le _ _ h₂, h₁]
  simp only [UInt64.reduceToNat]; omega

/-- The value whose leading bit `__builtin_clzl` finds. -/
theorem toNat_leading (x : UInt64) :
    ((1 : UInt64) <<< (63 - builtinClzl x)).toNat = 2 ^ Nat.log 2 x.toNat := by
  have hl := log_lt x
  rw [UInt64.toNat_shiftLeft, toNat_sub_clzl, Nat.mod_eq_of_lt hl]
  simp only [UInt64.reduceToNat, Nat.one_shiftLeft]
  exact Nat.mod_eq_of_lt (Nat.pow_lt_pow_right (by decide) hl)

/-- The guard tests bit 60. -/
theorem guard_eq_zero_iff (x : UInt64) :
    x &&& 0x1000000000000000 = 0 ↔ x.toNat.testBit 60 = false := by
  have e : (0x1000000000000000 : UInt64).toNat = 2 ^ 60 := rfl
  rw [← UInt64.toNat_inj, UInt64.toNat_and, e, Nat.and_two_pow]
  cases x.toNat.testBit 60 <;> decide

/-- Where the guard lets it through, `round_to_power_two` is the least power of two not below its input. -/
theorem roundToPowerTwo_of_clear {x : UInt64} (h0 : x ≠ 0) (hbit : x.toNat.testBit 60 = false)
    (h : x.toNat ≤ 2 ^ 63) : (roundToPowerTwo x).toNat = 2 ^ Nat.clog 2 x.toNat := by
  have hx : x.toNat ≠ 0 := fun e => h0 (UInt64.toNat_inj.mp e)
  have hand := (guard_eq_zero_iff x).mpr hbit
  rw [roundToPowerTwo, if_neg h0, if_neg (not_not.mpr hand)]
  have hlead := toNat_leading x
  have hlow : 2 ^ Nat.log 2 x.toNat ≤ x.toNat := Nat.pow_log_le_self 2 hx
  have hhigh : x.toNat < 2 ^ (Nat.log 2 x.toNat + 1) := Nat.lt_pow_succ_log_self (by decide) _
  dsimp only
  split
  next hne =>
    -- strictly above its leading bit: the double is the least power of two
    have hne' : x.toNat ≠ 2 ^ Nat.log 2 x.toNat := fun e =>
      hne (UInt64.toNat_inj.mp (by rw [hlead]; exact e))
    have hc : Nat.clog 2 x.toNat = Nat.log 2 x.toNat + 1 := by
      refine le_antisymm (Nat.clog_le_of_le_pow hhigh.le) ?_
      by_contra hcon
      have := (Nat.clog_le_iff_le_pow (by decide)).mp (Nat.le_of_lt_succ (not_le.mp hcon))
      omega
    rw [UInt64.toNat_shiftLeft, hlead, hc]
    simp only [UInt64.reduceToNat, Nat.one_mod, Nat.shiftLeft_eq, Nat.pow_succ]
    refine Nat.mod_eq_of_lt ?_
    have : 2 ^ Nat.log 2 x.toNat < 2 ^ 63 := lt_of_lt_of_le (lt_of_le_of_ne hlow (Ne.symm hne')) h
    omega
  next heq =>
    have heq' : x.toNat = 2 ^ Nat.log 2 x.toNat := by
      rw [← hlead]; exact congrArg UInt64.toNat (not_not.mp heq)
    have hc : Nat.clog 2 x.toNat = Nat.log 2 x.toNat := by
      conv_lhs => rw [heq']
      exact Nat.clog_pow 2 _ (by decide)
    rw [hlead, hc]

/-- Below the guarded bit, `round_to_power_two` is the least power of two not below its input. -/
theorem roundToPowerTwo_toNat {x : UInt64} (h0 : x ≠ 0) (h : x.toNat < 2 ^ 60) :
    (roundToPowerTwo x).toNat = 2 ^ Nat.clog 2 x.toNat :=
  roundToPowerTwo_of_clear h0 (Nat.testBit_lt_two_pow h)
    (le_trans h.le (Nat.pow_le_pow_right (by decide) (by decide)))

/-- What has bit 60 is rejected. -/
theorem roundToPowerTwo_of_set {x : UInt64} (hbit : x.toNat.testBit 60 = true) : roundToPowerTwo x = 0 := by
  have hand : x &&& 0x1000000000000000 ≠ 0 := fun h =>
    Bool.false_ne_true (((guard_eq_zero_iff x).mp h).symm.trans hbit)
  rw [roundToPowerTwo, if_pos hand, ite_self]

/-- `which_power_of_two` is the logarithm, rounded down. -/
theorem whichPowerOfTwo_toNat (x : UInt64) : (whichPowerOfTwo x).toNat = Nat.log 2 x.toNat := by
  rw [whichPowerOfTwo]
  split
  next h0 => rw [h0]; rfl
  next => exact toNat_sub_clzl x

/-- `round_to_power_two` gives the least power of two not below `x`, and `which_power_of_two` of it is the
logarithm of `x`, rounded up. -/
def Rounds (x : UInt64) : Prop :=
  IsLeast {y : Nat | x.toNat ≤ y ∧ ∃ k, y = 2 ^ k} (roundToPowerTwo x).toNat ∧
    (whichPowerOfTwo (roundToPowerTwo x)).toNat = Nat.clog 2 x.toNat

theorem rounds_of_clear {x : UInt64} (h0 : x ≠ 0) (hbit : x.toNat.testBit 60 = false)
    (h : x.toNat ≤ 2 ^ 63) : Rounds x := by
  have hround := roundToPowerTwo_of_clear h0 hbit h
  refine ⟨⟨⟨?_, _, hround⟩, ?_⟩, ?_⟩
  · rw [hround]
    exact Nat.le_pow_clog (by decide) _
  · rintro y ⟨hle, k, rfl⟩
    rw [hround]
    exact Nat.pow_le_pow_right (by decide) (Nat.clog_le_of_le_pow hle)
  · rw [whichPowerOfTwo_toNat, hround, Nat.log_pow (by decide)]

/-- **Powers of two.**  Up to `2 ^ 63`, a number is rounded to the least power of two not below it, and its
logarithm found, if and only if its bit 60 is clear; of a power of two the logarithm is always found. -/
theorem rounds_iff {x : UInt64} (h1 : 1 ≤ x.toNat) (h : x.toNat ≤ 2 ^ 63) :
    (Rounds x ↔ x.toNat.testBit 60 = false) ∧
      ∀ k < 64, (whichPowerOfTwo (UInt64.ofNat (2 ^ k))).toNat = k := by
  have h0 : x ≠ 0 := by
    rintro rfl
    exact absurd h1 (by decide)
  refine ⟨⟨fun hrounds => ?_, fun hbit => rounds_of_clear h0 hbit h⟩, fun k hk => ?_⟩
  · rw [Bool.eq_false_iff]
    intro hbit
    have hle : x.toNat ≤ (roundToPowerTwo x).toNat := hrounds.1.1.1
    rw [roundToPowerTwo_of_set hbit] at hle
    exact absurd (Nat.le_trans h1 hle) (by decide)
  · have hpow : (UInt64.ofNat (2 ^ k)).toNat = 2 ^ k :=
      Nat.mod_eq_of_lt (Nat.pow_lt_pow_right (by decide) hk)
    rw [whichPowerOfTwo_toNat, hpow, Nat.log_pow (by decide)]

/-- One past a power of two. -/
theorem rounds_five : Rounds 5 := (rounds_iff (by decide) (by decide)).1.mpr (by decide)

/-- `2 ^ 60` is a power of two, and rounded to nothing. -/
theorem not_rounds_bit60 : ¬ Rounds 0x1000000000000000 := fun h => absurd h.1.1.1 (by decide)

end Azalea.Klib
