import Azalea.Support.Bitmaps
import Mathlib.Data.Fin.VecNotation

/-!
# Klib — slabs

`klib/memory/memory.cpp`, the slabs of the kernel's allocator: a page that starts with a header and a
bitmap and is cut into chunks of one size.  Here are the tables of sizes, and what is done with one
slab.

- `allocateChunk_spec`, `freeChunk_spec`: a chunk is taken from a slab and given back; the count in
  the header is that of the bitmap, and no bit behind the last chunk is ever set.
- `chunk_fits`, `chunk_apart`: the chunks lie behind the bitmap, inside the page and side by side.
-/

namespace Azalea.Klib
open Azalea.Bitmaps Function

/-- An index into the tables of sizes. -/
abbrev SlabIdx := Fin 5

/-- `CHUNK_SIZES`. -/
def chunkSizes : SlabIdx → Nat := ![8, 64, 256, 1024, 262144]

/-- `NUM_CHUNKS_PER_SLAB`. -/
def numChunksPerSlab : SlabIdx → Nat := ![258041, 32703, 8187, 2047, 7]

/-- `FIRST_OFFSET_IN_SLAB`. -/
def firstOffsetInSlab : SlabIdx → Nat := ![32824, 4160, 1280, 1024, 262144]

/-- `FIRST_BITMAP_ENTRY_OFFSET`, which is the size of `slab_header`. -/
def firstBitmapEntryOffset : Nat := 40

/-- `MAX_FREE_SLABS`. -/
def maxFreeSlabs : Nat := 5

/-- The lists of slabs of one size. -/
inductive SlabList where
  | free
  | partly
  | full
  deriving Repr, DecidableEq

/-- `slab_header` with the bitmap behind it; `listObj` is the list its entry is in. -/
structure SlabHeader where
  listObj : Option (SlabList × SlabIdx)
  allocationCount : Nat
  bitmap : Words

/-- The words of the bitmap that `allocate_new_slab` clears. -/
def bitmapWords (i : SlabIdx) : Nat := (numChunksPerSlab i / 8 + 1) / 8 + 1

/-- The header of a new slab, in a page that holds `old`. -/
def SlabHeader.cleared (i : SlabIdx) (old : SlabHeader) : SlabHeader where
  listObj := none
  allocationCount := 0
  bitmap := fun w => if w < bitmapWords i then 0 else old.bitmap w

/-- The loops of `allocate_chunk_from_slab`: the first chunk, from a word on, whose bit is clear. -/
def firstFreeIdx (bitmap : Words) (numChunks : Nat) : Nat → Nat → Option Nat
  | _, 0 => none
  | w, n + 1 =>
      if 0xFFFFFFFFFFFFFFFF#64 ^^^ bitmap w ≠ 0 then
        match scanMask (fun m => bitmap w &&& m == 0) 0 (mask 0) 64 with
        | some (j, _) => if 64 * w + j ≤ numChunks then some (64 * w + j) else none
        | none => none
      else if 64 * (w + 1) ≤ numChunks then firstFreeIdx bitmap numChunks (w + 1) n
      else none

/-- `allocate_chunk_from_slab`: the index of the chunk. -/
def allocateChunk (i : SlabIdx) (s : SlabHeader) : Option (Nat × SlabHeader) :=
  (firstFreeIdx s.bitmap (numChunksPerSlab i) 0 (numChunksPerSlab i / 64 + 1)).map fun k =>
    (k, { s with
      bitmap := update s.bitmap (k / 64) (s.bitmap (k / 64) ||| mask (k % 64))
      allocationCount := s.allocationCount + 1 })

/-- The offset of a chunk in its slab. -/
def chunkOffset (i : SlabIdx) (k : Nat) : Nat := k * chunkSizes i + firstOffsetInSlab i

/-- `slab_is_full`. -/
def slabIsFull (i : SlabIdx) (s : SlabHeader) : Option Bool :=
  if s.allocationCount ≤ numChunksPerSlab i then some (s.allocationCount == numChunksPerSlab i)
  else none

/-- The part of `kfree` that gives a chunk back to its slab. -/
def freeChunk (i : SlabIdx) (k : Nat) (s : SlabHeader) : Option SlabHeader :=
  if k < numChunksPerSlab i then
    let bitmapMask := 1#64 <<< (63 - k % 64)
    if s.bitmap (k / 64) &&& bitmapMask ≠ 0 then
      some { s with
        bitmap := update s.bitmap (k / 64) (s.bitmap (k / 64) ^^^ bitmapMask)
        allocationCount := s.allocationCount - 1 }
    else none
  else none

/-! ### The tables -/

section
variable {i : SlabIdx} {k l : Nat}

/-- The bitmap has a bit for each chunk, and ends before the first of them. -/
theorem bitmap_fits (i : SlabIdx) : numChunksPerSlab i ≤ 64 * bitmapWords i ∧
    firstBitmapEntryOffset + 8 * bitmapWords i ≤ firstOffsetInSlab i := by
  revert i
  decide

/-- The last chunk ends where the page ends, or before. -/
theorem chunks_fit (i : SlabIdx) :
    firstOffsetInSlab i + numChunksPerSlab i * chunkSizes i ≤ 2097152 := by
  revert i
  decide

theorem numChunksPerSlab_pos (i : SlabIdx) : 2 ≤ numChunksPerSlab i := by
  revert i
  decide

theorem chunkSizes_pos (i : SlabIdx) : 0 < chunkSizes i := by
  revert i
  decide

/-- A chunk lies behind the bitmap and inside the page. -/
theorem chunk_fits (hk : k < numChunksPerSlab i) :
    firstBitmapEntryOffset + 8 * bitmapWords i ≤ chunkOffset i k ∧
      chunkOffset i k + chunkSizes i ≤ 2097152 := by
  have hfit := chunks_fit i
  have hmul : (k + 1) * chunkSizes i ≤ numChunksPerSlab i * chunkSizes i :=
    Nat.mul_le_mul_right _ hk
  have hbitmap := (bitmap_fits i).2
  rw [Nat.succ_mul] at hmul
  rw [chunkOffset]
  omega

/-- Two chunks of a slab do not overlap. -/
theorem chunk_apart (h : k < l) : chunkOffset i k + chunkSizes i ≤ chunkOffset i l := by
  have hmul : (k + 1) * chunkSizes i ≤ l * chunkSizes i := Nat.mul_le_mul_right _ h
  rw [Nat.succ_mul] at hmul
  rw [chunkOffset, chunkOffset]
  omega

/-- The index is found back from the offset. -/
theorem chunkOffset_div : (chunkOffset i k - firstOffsetInSlab i) / chunkSizes i = k := by
  rw [chunkOffset, Nat.add_sub_cancel, Nat.mul_div_cancel _ (chunkSizes_pos i)]

end

/-! ### One slab -/

/-- The count is that of the bitmap, and no bit behind the last chunk is set. -/
structure SlabHeader.Ok (i : SlabIdx) (s : SlabHeader) : Prop where
  counted : s.allocationCount = count s.bitmap (numChunksPerSlab i)
  beyond : ∀ p, numChunksPerSlab i ≤ p → p < 64 * bitmapWords i → bit s.bitmap p = false

section
variable {i : SlabIdx} {s : SlabHeader} {k l n w : Nat} {ws : Words}

theorem SlabHeader.cleared_ok (old : SlabHeader) : (old.cleared i).Ok i := by
  have hzero : ∀ p, p < 64 * bitmapWords i → bit (old.cleared i).bitmap p = false := by
    intro p hp
    have hword : (old.cleared i).bitmap (p / 64) = 0 := if_pos (by omega)
    rw [bit, hword]
    simp
  refine ⟨?_, fun p _ hp => hzero p hp⟩
  by_contra hne
  have hpos : 0 < count (old.cleared i).bitmap (numChunksPerSlab i) :=
    Nat.pos_of_ne_zero fun h => hne h.symm
  obtain ⟨p, hp, hbit⟩ := count_pos_iff.mp hpos
  rw [hzero p (Nat.lt_of_lt_of_le hp (bitmap_fits i).1)] at hbit
  cases hbit

theorem and_mask_beq {x : BitVec 64} {j : Nat} (hj : j < 64) :
    (x &&& mask j == 0) = !x.getMsbD j := by
  rw [Bool.eq_iff_iff, beq_iff_eq, and_mask_eq_zero hj, Bool.not_eq_true']

/-- A word in which no bit is clear. -/
theorem getMsbD_of_xor_eq_zero {x : BitVec 64} (h : 0xFFFFFFFFFFFFFFFF#64 ^^^ x = 0) {j : Nat}
    (hj : j < 64) : x.getMsbD j = true := by
  have hx : x = BitVec.allOnes 64 := (BitVec.xor_eq_zero_iff.mp h).symm
  rw [hx, BitVec.getMsbD_allOnes]
  exact decide_eq_true hj

/-- The scan finds the first clear bit. -/
theorem firstFreeIdx_eq_some (h : firstFreeIdx ws n w l = some k) :
    64 * w ≤ k ∧ bit ws k = false ∧ ∀ p, 64 * w ≤ p → p < k → bit ws p = true := by
  induction l generalizing w with
  | zero => cases h
  | succ l ih =>
      rw [firstFreeIdx] at h
      split at h
      next =>
        cases hs : scanMask (fun m => ws w &&& m == 0) 0 (mask 0) 64 with
        | none =>
            rw [hs] at h
            cases h
        | some r =>
            obtain ⟨j, m⟩ := r
            obtain ⟨-, hj, -, hfound, hbefore⟩ := scanMask_eq_some.mp hs
            rw [Nat.zero_add] at hj
            rw [hs] at h
            dsimp only at h
            split at h
            next =>
              obtain rfl := Option.some.inj h
              rw [and_mask_beq hj, Bool.not_eq_true'] at hfound
              refine ⟨Nat.le_add_right .., (bit_at hj).trans hfound, fun p hle hlt => ?_⟩
              have hp : p - 64 * w < 64 := by omega
              have hset := hbefore (p - 64 * w) (Nat.zero_le _) (by omega)
              rw [and_mask_beq hp, Bool.not_eq_false'] at hset
              rw [show p = 64 * w + (p - 64 * w) by omega, bit_at hp, hset]
            next => cases h
      next hword =>
        split at h
        next =>
          obtain ⟨hle, hbit, hbefore⟩ := ih h
          refine ⟨by omega, hbit, fun p hp hlt => ?_⟩
          by_cases hp' : 64 * (w + 1) ≤ p
          · exact hbefore p hp' hlt
          · have hj : p - 64 * w < 64 := by omega
            rw [show p = 64 * w + (p - 64 * w) by omega, bit_at hj]
            exact getMsbD_of_xor_eq_zero (not_not.mp hword) hj
        next => cases h

/-- There is one to find. -/
theorem firstFreeIdx_isSome (hl : n < 64 * (w + l)) (hw : 64 * w ≤ k) (hk : k ≤ n)
    (hbit : bit ws k = false) : ∃ j, firstFreeIdx ws n w l = some j := by
  induction l generalizing w with
  | zero => omega
  | succ l ih =>
      rw [firstFreeIdx]
      split
      next hword =>
        cases hs : scanMask (fun m => ws w &&& m == 0) 0 (mask 0) 64 with
        | none =>
            exfalso
            refine hword (BitVec.xor_eq_zero_iff.mpr (Eq.symm ?_))
            refine BitVec.eq_of_getMsbD_eq fun j hj => ?_
            have hset := scanMask_eq_none.mp hs j (Nat.zero_le _) (by omega)
            rw [and_mask_beq hj, Bool.not_eq_false'] at hset
            rw [hset]
            exact ((BitVec.getMsbD_allOnes).trans (decide_eq_true hj)).symm
        | some r =>
            obtain ⟨j, m⟩ := r
            obtain ⟨-, hj, -, hfound, hbefore⟩ := scanMask_eq_some.mp hs
            rw [Nat.zero_add] at hj
            refine ⟨64 * w + j, if_pos ?_⟩
            by_contra hgt
            have hp : k - 64 * w < 64 := by omega
            have hset := hbefore (k - 64 * w) (Nat.zero_le _) (by omega)
            rw [and_mask_beq hp, Bool.not_eq_false', ← bit_at hp,
              show 64 * w + (k - 64 * w) = k by omega, hbit] at hset
            cases hset
      next hword =>
        have hk' : 64 * (w + 1) ≤ k := by
          by_contra hlt
          have hj : k - 64 * w < 64 := by omega
          have hset := getMsbD_of_xor_eq_zero (not_not.mp hword) hj
          rw [← bit_at hj, show 64 * w + (k - 64 * w) = k by omega, hbit] at hset
          cases hset
        rw [if_pos (by omega)]
        exact ih (by omega) hk'

/-- **`allocate_chunk_from_slab`** takes a chunk that is free, if the slab is not full. -/
theorem allocateChunk_spec (h : s.Ok i) (hfree : s.allocationCount < numChunksPerSlab i) :
    ∃ k < numChunksPerSlab i, bit s.bitmap k = false ∧
      allocateChunk i s = some (k, { s with
        bitmap := setBit s.bitmap k
        allocationCount := s.allocationCount + 1 }) := by
  have hclear : ∃ p < numChunksPerSlab i, bit s.bitmap p = false := by
    by_contra hall
    rw [h.counted, count, Nat.count_eq_card_filter_range, Finset.filter_true_of_mem,
      Finset.card_range] at hfree
    · exact Nat.lt_irrefl _ hfree
    · intro p hp
      by_contra hbit
      exact hall ⟨p, Finset.mem_range.mp hp, Bool.not_eq_true _ ▸ hbit⟩
  obtain ⟨p, hp, hbit⟩ := hclear
  obtain ⟨k, hk⟩ := firstFreeIdx_isSome (l := numChunksPerSlab i / 64 + 1) (n := numChunksPerSlab i)
    (w := 0) (by omega) (by omega) hp.le hbit
  obtain ⟨-, hkbit, hbefore⟩ := firstFreeIdx_eq_some hk
  have hkp : k ≤ p := by
    by_contra hlt
    rw [hbefore p (by omega) (by omega)] at hbit
    cases hbit
  exact ⟨k, by omega, hkbit, by rw [allocateChunk, hk]; rfl⟩

theorem SlabHeader.Ok.allocate (h : s.Ok i) (hk : k < numChunksPerSlab i)
    (hbit : bit s.bitmap k = false) :
    SlabHeader.Ok i { s with
      bitmap := setBit s.bitmap k
      allocationCount := s.allocationCount + 1 } := by
  refine ⟨?_, fun p hp hlt => ?_⟩
  · dsimp only
    rw [count_setBit hk hbit, h.counted]
  · dsimp only
    rw [bit_setBit, h.beyond p hp hlt, Bool.or_false]
    exact decide_eq_false (by omega)

/-- **A chunk in use is given back.** -/
theorem freeChunk_spec (hk : k < numChunksPerSlab i) (hbit : bit s.bitmap k = true) :
    freeChunk i k s = some { s with
      bitmap := clearBit s.bitmap k
      allocationCount := s.allocationCount - 1 } := by
  have hlt : k % 64 < 64 := Nat.mod_lt _ (by decide)
  have hset : s.bitmap (k / 64) &&& mask (k % 64) ≠ 0 := by
    rw [ne_eq, and_mask_eq_zero hlt]
    rw [bit] at hbit
    simp [hbit]
  have hxor : s.bitmap (k / 64) ^^^ mask (k % 64) = s.bitmap (k / 64) &&& ~~~mask (k % 64) := by
    refine BitVec.eq_of_getMsbD_eq fun j hj => ?_
    rw [BitVec.getMsbD_xor, BitVec.getMsbD_and, BitVec.getMsbD_not, getMsbD_mask hlt]
    by_cases hjk : j = k % 64
    · rw [bit] at hbit
      simp [hjk, hbit]
    · simp [hjk, hj]
  rw [freeChunk, if_pos hk]
  dsimp only
  rw [← mask_eq_shiftLeft hlt, if_pos hset, hxor, clearBit]

theorem SlabHeader.Ok.free (h : s.Ok i) (hk : k < numChunksPerSlab i) (hbit : bit s.bitmap k = true) :
    SlabHeader.Ok i { s with
      bitmap := clearBit s.bitmap k
      allocationCount := s.allocationCount - 1 } := by
  refine ⟨?_, fun p hp hlt => ?_⟩
  · have hcount := h.counted
    rw [count_clearBit hk hbit] at hcount
    dsimp only
    omega
  · dsimp only
    rw [bit_clearBit, h.beyond p hp hlt, Bool.and_false]

theorem SlabHeader.Ok.count_le (h : s.Ok i) : s.allocationCount ≤ numChunksPerSlab i :=
  h.counted ▸ Bitmaps.count_le

theorem SlabHeader.Ok.count_pos (h : s.Ok i) (hk : k < numChunksPerSlab i)
    (hbit : bit s.bitmap k = true) : 0 < s.allocationCount :=
  h.counted ▸ count_pos_iff.mpr ⟨k, hk, hbit⟩

end

end Azalea.Klib
