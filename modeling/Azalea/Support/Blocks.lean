import Azalea.Support.Bytes

/-!
# Support — bytes laid out over blocks

A sequence of bytes stored in blocks of `b` bytes: `sec j` is the number of its `j`th block on a
device.

* `addr_inj`: different bytes have different addresses when the blocks are different.
* `Patched`: a part of the sequence has been replaced, and nothing else of the memory.
* `patched_blit`, `Patched.append`: copying into one block replaces a part, and two parts that
  follow each other are one.
-/

namespace Azalea.Memory

/-- The address of byte `i`. -/
def addr (b : Nat) (sec : Nat → Nat) (i : Nat) : Nat := sec (i / b) * b + i % b

/-- No block is used twice among the first `n`. -/
def DistinctBlocks (sec : Nat → Nat) (n : Nat) : Prop :=
  ∀ i j, i < n → j < n → sec i = sec j → i = j

variable {b n : Nat} {sec : Nat → Nat}

theorem addr_div (hb : 0 < b) (i : Nat) : addr b sec i / b = sec (i / b) := by
  rw [addr, Nat.add_comm, Nat.add_mul_div_right _ _ hb, Nat.div_eq_of_lt (Nat.mod_lt i hb),
    Nat.zero_add]

theorem addr_mod (hb : 0 < b) (i : Nat) : addr b sec i % b = i % b := by
  rw [addr, Nat.add_comm, Nat.add_mul_mod_self_right, Nat.mod_eq_of_lt (Nat.mod_lt i hb)]

/-- Bytes at one address have one place in their blocks. -/
theorem addr_eq {sec' : Nat → Nat} {i j : Nat} (hb : 0 < b) (h : addr b sec i = addr b sec' j) :
    sec (i / b) = sec' (j / b) ∧ i % b = j % b := by
  have hdiv := congrArg (· / b) h
  have hmod := congrArg (· % b) h
  simp only [addr_div hb, addr_mod hb] at hdiv hmod
  exact ⟨hdiv, hmod⟩

/-- Different bytes have different addresses. -/
theorem addr_inj (hb : 0 < b) (hd : DistinctBlocks sec n) {i j : Nat} (hi : i < n * b)
    (hj : j < n * b) (h : addr b sec i = addr b sec j) : i = j := by
  obtain ⟨hs, hm⟩ := addr_eq hb h
  have hdiv := hd _ _ ((Nat.div_lt_iff_lt_mul hb).mpr hi) ((Nat.div_lt_iff_lt_mul hb).mpr hj) hs
  rw [← Nat.div_add_mod i b, hdiv, hm, Nat.div_add_mod]

/-- `m'` is `m` with the `k` bytes from `start` on replaced by those of `buf`. -/
structure Patched (b : Nat) (sec : Nat → Nat) (m m' buf : Bytes) (start k : Nat) : Prop where
  read : ∀ i, i < k → m' (addr b sec (start + i)) = buf i
  rest : ∀ p, (∀ i, i < k → p ≠ addr b sec (start + i)) → m' p = m p

theorem Patched.refl (b : Nat) (sec : Nat → Nat) (m buf : Bytes) (start : Nat) :
    Patched b sec m m buf start 0 :=
  ⟨fun i hi => absurd hi (Nat.not_lt_zero i), fun _ _ => rfl⟩

/-- Copying into one block. -/
theorem patched_blit (hb : 0 < b) (m src : Bytes) (s start k : Nat) (hk : start % b + k ≤ b) :
    Patched b sec m (blit m (addr b sec start) src s k) (fun i => src (s + i)) start k := by
  have hin : ∀ i, i < k → addr b sec (start + i) = addr b sec start + i := by
    intro i hi
    have hsplit : start + i = start % b + i + b * (start / b) := by
      have := Nat.div_add_mod start b
      omega
    rw [addr, addr, hsplit, Nat.add_mul_div_left _ _ hb, Nat.add_mul_mod_self_left,
      Nat.div_eq_of_lt (by omega), Nat.mod_eq_of_lt (by omega), Nat.zero_add, Nat.add_assoc]
  refine ⟨fun i hi => ?_, fun p hp => blit_of_not_mem fun hmem => ?_⟩
  · rw [hin i hi, blit_of_mem hi]
  · refine hp (p - addr b sec start) (by omega) ?_
    rw [hin _ (by omega)]
    omega

/-- A part that follows another one. -/
theorem Patched.append {m m' m'' buf : Bytes} {start k l : Nat} (hb : 0 < b)
    (hd : DistinctBlocks sec n) (hn : start + (k + l) ≤ n * b)
    (h : Patched b sec m m' buf start k)
    (h' : Patched b sec m' m'' (fun i => buf (k + i)) (start + k) l) :
    Patched b sec m m'' buf start (k + l) := by
  refine ⟨fun i hi => ?_, fun p hp => ?_⟩
  · by_cases hik : i < k
    · rw [h'.rest _ fun i' hi' heq => ?_, h.read i hik]
      have := addr_inj hb hd (by omega) (by omega) heq
      omega
    · obtain ⟨i', rfl⟩ := Nat.exists_eq_add_of_le (not_lt.mp hik)
      rw [← Nat.add_assoc]
      exact h'.read i' (by omega)
  · rw [h'.rest p fun i hi => ?_, h.rest p fun i hi => hp i (by omega)]
    rw [Nat.add_assoc]
    exact hp (k + i) (by omega)

/-- Bytes of blocks that share none with the part replaced. -/
theorem Patched.other {sec' : Nat → Nat} {m m' buf : Bytes} {start k j : Nat} (hb : 0 < b)
    (h : Patched b sec m m' buf start k)
    (hne : ∀ i, start ≤ i → i < start + k → sec (i / b) ≠ sec' (j / b)) :
    m' (addr b sec' j) = m (addr b sec' j) :=
  h.rest _ fun i hi heq => hne (start + i) (by omega) (by omega) (addr_eq hb heq.symm).1

/-- The bytes of the same sequence outside the part replaced. -/
theorem Patched.outside {m m' buf : Bytes} {start k j : Nat} (hb : 0 < b)
    (hd : DistinctBlocks sec n) (hn : start + k ≤ n * b) (h : Patched b sec m m' buf start k)
    (hj : j < n * b) (hout : j < start ∨ start + k ≤ j) :
    m' (addr b sec j) = m (addr b sec j) :=
  h.rest _ fun i hi heq => by
    have := addr_inj hb hd hj (by omega) heq
    omega

end Azalea.Memory
