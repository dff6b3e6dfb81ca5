import Mathlib.Algebra.Order.Group.Nat
import Mathlib.Tactic.Ring

/-!
# Support — byte memories

A memory is a function from offsets to bytes.  `load` and `store` are `memcpy` between a memory and
a little-endian integer, `blit` is `memcpy` between two memories.

* `load_store`, `load_store_of_disjoint`: what is stored is read back, modulo its width, and
  nothing else changes.
* `blit_back`: a read-modify-write is a copy of the part modified.
* `load_congr`: a load depends on the bytes of its window only.

Where memory is one of words, its bytes are `wordBytes`, and `blitWords` is `memcpy` to it.

* `wordBytes_blitWords`: it is `blit` on the bytes.
-/

namespace Azalea.Memory

/-- A byte memory. -/
abbrev Bytes := Nat → UInt8

/-- The little-endian value of the `n` bytes at `off`. -/
def load (m : Bytes) (off : Nat) : Nat → Nat
  | 0 => 0
  | n + 1 => (m off).toNat + 256 * load m (off + 1) n

/-- Put the low `n` bytes of `v` at `off`. -/
def store (m : Bytes) (off n v : Nat) : Bytes := fun i =>
  if off ≤ i ∧ i < off + n then UInt8.ofNat (v / 256 ^ (i - off)) else m i

/-- `memcpy(dst + d, src + s, n)`. -/
def blit (dst : Bytes) (d : Nat) (src : Bytes) (s n : Nat) : Bytes := fun i =>
  if d ≤ i ∧ i < d + n then src (s + (i - d)) else dst i

variable {m m' : Bytes} {off n i : Nat}

theorem store_of_not_mem (h : ¬ (off ≤ i ∧ i < off + n)) (v : Nat) :
    store m off n v i = m i := if_neg h

theorem store_of_mem (h : i < n) (v : Nat) :
    store m off n v (off + i) = UInt8.ofNat (v / 256 ^ i) := by
  rw [store, if_pos ⟨Nat.le_add_right _ _, by omega⟩, Nat.add_sub_cancel_left]

theorem blit_of_not_mem {dst src : Bytes} {d s : Nat} (h : ¬ (d ≤ i ∧ i < d + n)) :
    blit dst d src s n i = dst i := if_neg h

theorem blit_of_mem {dst src : Bytes} {d s : Nat} (h : i < n) :
    blit dst d src s n (d + i) = src (s + i) := by
  rw [blit, if_pos ⟨Nat.le_add_right _ _, by omega⟩, Nat.add_sub_cancel_left]

theorem blit_start {dst src : Bytes} {s : Nat} (h : i < n) : blit dst 0 src s n i = src (s + i) := by
  have : blit dst 0 src s n (0 + i) = _ := blit_of_mem h
  rwa [Nat.zero_add] at this

@[simp] theorem blit_zero {dst src : Bytes} {d s : Nat} : blit dst d src s 0 = dst := by
  funext i
  exact blit_of_not_mem (by omega)

/-- A window that is read, changed in a part and written back. -/
theorem blit_back {dst buf src : Bytes} {d o s k : Nat} (h : o + k ≤ n) :
    blit dst d (blit (blit buf 0 dst d n) o src s k) 0 n = blit dst (d + o) src s k := by
  funext i
  by_cases hin : d ≤ i ∧ i < d + n
  · obtain ⟨j, rfl⟩ := Nat.exists_eq_add_of_le hin.1
    rw [blit_of_mem (by omega), Nat.zero_add]
    by_cases hj : o ≤ j ∧ j < o + k
    · obtain ⟨l, rfl⟩ := Nat.exists_eq_add_of_le hj.1
      rw [blit_of_mem (by omega), ← Nat.add_assoc, blit_of_mem (by omega)]
    · have hread : blit buf 0 dst d n (0 + j) = dst (d + j) := blit_of_mem (by omega)
      rw [Nat.zero_add] at hread
      rw [blit_of_not_mem hj, hread, blit_of_not_mem (by omega)]
  · rw [blit_of_not_mem hin, blit_of_not_mem (by omega)]

theorem load_lt (m : Bytes) (off n : Nat) : load m off n < 256 ^ n := by
  induction n generalizing off with
  | zero => simp [load]
  | succ n ih =>
      have h₁ := ih (off + 1)
      have h₂ := (m off).toNat_lt
      rw [load, pow_succ]
      omega

/-- A load depends on the bytes of its window only. -/
theorem load_congr (h : ∀ i, i < n → m (off + i) = m' (off + i)) :
    load m off n = load m' off n := by
  induction n generalizing off with
  | zero => rfl
  | succ n ih =>
      have h0 : m off = m' off := h 0 (by omega)
      rw [load, load, h0, ih fun i hi => ?_]
      have := h (i + 1) (by omega)
      rwa [show off + (i + 1) = off + 1 + i by omega] at this

/-- What is stored is read back, modulo its width. -/
theorem load_store (m : Bytes) (off n v : Nat) : load (store m off n v) off n = v % 256 ^ n := by
  induction n generalizing off v with
  | zero => simp [load, Nat.mod_one]
  | succ n ih =>
      have hhead : store m off (n + 1) v off = UInt8.ofNat v := by
        have : store m off (n + 1) v (off + 0) = _ := store_of_mem (Nat.succ_pos n) v
        simpa using this
      have htail : load (store m off (n + 1) v) (off + 1) n =
          load (store m (off + 1) n (v / 256)) (off + 1) n := by
        refine load_congr fun i hi => ?_
        rw [store_of_mem hi, show off + 1 + i = off + (i + 1) by omega,
          store_of_mem (by omega), pow_succ', Nat.div_div_eq_div_mul]
      rw [load, hhead, htail, ih, pow_succ', Nat.mod_mul]
      simp

theorem load_store_of_disjoint {k w : Nat} (v : Nat) (h : off + n ≤ k ∨ k + w ≤ off) :
    load (store m off n v) k w = load m k w :=
  load_congr fun i hi => store_of_not_mem (by omega) v

/-- A byte of a number that is loaded is the one at its place. -/
theorem load_byte (h : i < n) : UInt8.ofNat (load m off n / 256 ^ i) = m (off + i) := by
  induction n generalizing off i with
  | zero => exact absurd h (Nat.not_lt_zero i)
  | succ n ih =>
      have hhead := (m off).toNat_lt
      rw [load]
      cases i with
      | zero =>
          change UInt8.ofNat (_ / 256 ^ 0) = m off
          rw [pow_zero, Nat.div_one, ← UInt8.toNat_inj, UInt8.toNat_ofNat']
          omega
      | succ i =>
          have hdiv : ((m off).toNat + 256 * load m (off + 1) n) / 256 = load m (off + 1) n := by omega
          rw [pow_succ', ← Nat.div_div_eq_div_mul, hdiv, ih (Nat.lt_of_succ_lt_succ h), Nat.add_right_comm,
            Nat.add_assoc]

/-! ### Words -/

/-- The bytes of a memory of words of eight bytes. -/
def wordBytes (mem : Nat → BitVec 64) : Bytes := fun x =>
  UInt8.ofNat ((mem (x / 8 * 8)).toNat / 256 ^ (x % 8))

/-- `memcpy(mem + d, src, n)`, on words. -/
def blitWords (mem : Nat → BitVec 64) (d : Nat) (src : Bytes) (n : Nat) : Nat → BitVec 64 := fun a =>
  if a % 8 = 0 ∧ d < a + 8 ∧ a < d + n then
    BitVec.ofNat 64 (load (blit (wordBytes mem) d src 0 n) a 8)
  else mem a

/-- A word that is different afterwards has bytes among those that are copied. -/
theorem blitWords_ne {mem : Nat → BitVec 64} {src : Bytes} {d a : Nat} (h : blitWords mem d src n a ≠ mem a) :
    a % 8 = 0 ∧ d < a + 8 ∧ a < d + n := by
  by_contra hout
  exact h (if_neg hout)

/-- **Copying to words** is copying to their bytes. -/
theorem wordBytes_blitWords (mem : Nat → BitVec 64) (d : Nat) (src : Bytes) (n : Nat) :
    wordBytes (blitWords mem d src n) = blit (wordBytes mem) d src 0 n := by
  funext x
  have hword : x / 8 * 8 % 8 = 0 := Nat.mul_mod_left ..
  have hx : x / 8 * 8 + x % 8 = x := by omega
  rw [wordBytes, blitWords]
  by_cases hin : d < x / 8 * 8 + 8 ∧ x / 8 * 8 < d + n
  · have hlt : load (blit (wordBytes mem) d src 0 n) (x / 8 * 8) 8 < 2 ^ 64 := load_lt ..
    rw [if_pos ⟨hword, hin⟩, BitVec.toNat_ofNat, Nat.mod_eq_of_lt hlt, load_byte (Nat.mod_lt _ (by decide)), hx]
  · rw [if_neg fun h => hin h.2, blit_of_not_mem (by omega), wordBytes]

end Azalea.Memory
