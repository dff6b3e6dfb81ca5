import Azalea.Fat.Structures
import Mathlib.Algebra.Order.Ring.Nat

/-!
# Fs — files in memory

`mem_fs_leaf` of `system_tree/fs/mem/mem_fs.cpp`: a file is a buffer of its own size, which a write
behind its end replaces by a longer one.  `new` is taken to find the memory; the lock of the file,
which each call holds throughout, is left out.  An `ASSERT` that fails, or a byte outside of the
buffer, is `none`.

* `memFile_iff`: what reads return and writes leave, as long as the end of the access does not pass
  the end of the 64-bit range.
-/

namespace Azalea.Fs
open Azalea.Fat

/-- `mem_fs_leaf`: `_buffer`, and the number of its bytes in `_buffer_length`. -/
structure MemFsLeaf where
  buffer : List UInt8
  bufferLength : UInt64
  length_eq : buffer.length = bufferLength.toNat

namespace MemFsLeaf

/-- `_no_lock_set_file_size`. -/
def setFileSize (leaf : MemFsLeaf) (fileSize : UInt64) : MemFsLeaf where
  buffer :=
    let copySize := if fileSize < leaf.bufferLength then fileSize else leaf.bufferLength
    leaf.buffer.take copySize.toNat ++
      if fileSize > leaf.bufferLength then
        List.replicate (fileSize - leaf.bufferLength).toNat 0
      else []
  bufferLength := fileSize
  length_eq := by
    have hlen := leaf.length_eq
    rw [List.length_append, List.length_take]
    split
    next hlt =>
      rw [UInt64.lt_iff_toNat_lt] at hlt
      rw [if_neg (by rw [gt_iff_lt, UInt64.lt_iff_toNat_lt]; omega), List.length_nil]
      omega
    next hge =>
      rw [UInt64.lt_iff_toNat_lt] at hge
      split
      next hgt =>
        rw [gt_iff_lt, UInt64.lt_iff_toNat_lt] at hgt
        rw [List.length_replicate, UInt64.toNat_sub_of_le _ _ (UInt64.le_iff_toNat_le.mpr (Nat.le_of_lt hgt))]
        omega
      next hgt =>
        rw [gt_iff_lt, UInt64.lt_iff_toNat_lt] at hgt
        rw [List.length_nil]
        omega

/-- `memcpy` from the buffer. -/
def load (leaf : MemFsLeaf) (start n : Nat) : Option (List UInt8) :=
  if start + n ≤ leaf.buffer.length then some ((leaf.buffer.drop start).take n) else none

/-- `memcpy` to the buffer. -/
def store (leaf : MemFsLeaf) (start : Nat) (bytes : List UInt8) : Option MemFsLeaf :=
  if h : start + bytes.length ≤ leaf.buffer.length then
    some
      { buffer := leaf.buffer.take start ++ bytes ++ leaf.buffer.drop (start + bytes.length)
        bufferLength := leaf.bufferLength
        length_eq := by
          rw [← leaf.length_eq, List.length_append, List.length_append, List.length_take,
            List.length_drop]
          omega }
  else none

/-- `read_bytes`: the result, `bytes_read` and the buffer of the caller, which is `none` if it is
`nullptr`. -/
def readBytes (leaf : MemFsLeaf) (start length : UInt64) (buffer : Option (List UInt8))
    (bufferLength bytesRead : UInt64) : Option (ErrCode × UInt64 × Option (List UInt8)) :=
  match buffer with
  | none => some (.invalidParam, bytesRead, none)
  | some buffer =>
      if start > leaf.bufferLength then some (.noError, 0, some buffer)
      else do
        let length :=
          if start + length > leaf.bufferLength then leaf.bufferLength - start else length
        let length := if length > bufferLength then bufferLength else length
        let bytes ← leaf.load start.toNat length.toNat
        some (.noError, length, some (bytes ++ buffer.drop length.toNat))

/-- `write_bytes`: the result, `bytes_written` and the file. -/
def writeBytes (leaf : MemFsLeaf) (start length : UInt64) (buffer : List UInt8)
    (bufferLength : UInt64) : Option (ErrCode × UInt64 × MemFsLeaf) := do
  let length := if bufferLength < length then bufferLength else length
  let leaf :=
    if start + length > leaf.bufferLength then leaf.setFileSize (start + length) else leaf
  if start + length ≤ leaf.bufferLength then
    let leaf ← leaf.store start.toNat (buffer.take length.toNat)
    some (.noError, length, leaf)
  else none

end MemFsLeaf

/-! ### What a file is for -/

/-- The content with zeroes behind it, up to a position. -/
def zeroExtended (content : List UInt8) (n : Nat) : List UInt8 :=
  content ++ List.replicate (n - content.length) 0

/-- The content with other bytes in the place of its own. -/
def overwritten (content bytes : List UInt8) (start : Nat) : List UInt8 :=
  content.take start ++ bytes ++ content.drop (start + bytes.length)

/-- How many bytes a read returns. -/
def readable (size start length bufferLength : Nat) : Nat :=
  if start ≤ size then min (min length bufferLength) (size - start) else 0

namespace MemFsLeaf
variable (leaf : MemFsLeaf) (start length : UInt64) (buffer : List UInt8) (bufferLength : UInt64)

/-- A read returns the bytes from `start` on that the file, the caller and the caller's buffer have
in common. -/
def Reads : Prop :=
  ∀ bytesRead,
    let n := readable leaf.buffer.length start.toNat length.toNat bufferLength.toNat
    leaf.readBytes start length (some buffer) bufferLength bytesRead =
      some (.noError, UInt64.ofNat n,
        some ((leaf.buffer.drop start.toNat).take n ++ buffer.drop n))

/-- A write puts the bytes of the buffer in the place of the content from `start` on, or refuses if
this has no end in the 64-bit range. -/
def Writes : Prop :=
  if start.toNat + length.toNat < 2 ^ 64 then
    ∃ leaf' : MemFsLeaf,
      leaf.writeBytes start length buffer bufferLength =
          some (.noError, UInt64.ofNat (min length.toNat bufferLength.toNat), leaf') ∧
        leaf'.buffer = overwritten (zeroExtended leaf.buffer start.toNat)
          (buffer.take (min length.toNat bufferLength.toNat)) start.toNat
  else
    ∃ result bytesWritten,
      leaf.writeBytes start length buffer bufferLength = some (result, bytesWritten, leaf) ∧
        result ≠ .noError

variable {leaf start length buffer bufferLength}

/-- A longer file is the old one with zeroes behind it. -/
theorem setFileSize_buffer {fileSize : UInt64} (h : leaf.bufferLength < fileSize) :
    (leaf.setFileSize fileSize).buffer = zeroExtended leaf.buffer fileSize.toNat := by
  have hlen := leaf.length_eq
  have hlt := UInt64.lt_iff_toNat_lt.mp h
  have hnot : ¬ fileSize < leaf.bufferLength := by
    rw [UInt64.lt_iff_toNat_lt]
    omega
  rw [setFileSize, zeroExtended]
  dsimp only
  rw [if_neg hnot, if_pos h, ← hlen, List.take_length,
    UInt64.toNat_sub_of_le _ _ (UInt64.le_iff_toNat_le.mpr (Nat.le_of_lt hlt)), hlen]

theorem length_zeroExtended (content : List UInt8) (n : Nat) :
    (zeroExtended content n).length = max content.length n := by
  rw [zeroExtended, List.length_append, List.length_replicate]
  omega

/-- What is overwritten does not depend on how far the content was extended. -/
theorem overwritten_zeroExtended {content bytes : List UInt8} {n : Nat} :
    overwritten (zeroExtended content (n + bytes.length)) bytes n =
      overwritten (zeroExtended content n) bytes n := by
  have hdrop : ∀ k, k ≤ n + bytes.length → (zeroExtended content k).drop (n + bytes.length) =
      content.drop (n + bytes.length) := fun k hk => by
    rw [zeroExtended, List.drop_append, List.drop_replicate]
    simp; omega
  have htake : ∀ k, n ≤ k → (zeroExtended content k).take n = (zeroExtended content n).take n :=
    fun k hk => by
      rw [zeroExtended, zeroExtended, List.take_append, List.take_append, List.take_replicate,
        List.take_replicate]
      congr 2
      omega
  rw [overwritten, overwritten, hdrop _ (Nat.le_refl _), hdrop _ (Nat.le_add_right _ _),
    htake _ (Nat.le_add_right _ _)]

/-- The bytes a read asks for, when the end of the access can be computed. -/
theorem readable_eq {size : UInt64} (hs : start.toNat ≤ size.toNat)
    (h : start.toNat + length.toNat < 2 ^ 64 ∨ bufferLength.toNat ≤ size.toNat - start.toNat) :
    (if (if start + length > size then size - start else length) > bufferLength then bufferLength
      else if start + length > size then size - start else length).toNat =
      readable size.toNat start.toNat length.toNat bufferLength.toNat := by
  have hsub := UInt64.toNat_sub_of_le _ _ (UInt64.le_iff_toNat_le.mpr hs)
  have hl := length.toNat_lt
  have hsize := size.toNat_lt
  rw [readable, if_pos hs]
  simp only [gt_iff_lt, UInt64.lt_iff_toNat_lt, UInt64.toNat_add, apply_ite UInt64.toNat, hsub]
  split <;> split <;> omega

/-- **Reads, exactly.** -/
theorem reads_iff :
    leaf.Reads start length buffer bufferLength ↔
      leaf.bufferLength.toNat < start.toNat ∨ start.toNat + length.toNat < 2 ^ 64 ∨
        bufferLength.toNat ≤ leaf.bufferLength.toNat - start.toNat := by
  have hlen := leaf.length_eq
  unfold Reads readBytes
  dsimp only
  by_cases hs : start > leaf.bufferLength
  · have hs' := UInt64.lt_iff_toNat_lt.mp hs
    refine iff_of_true (fun _ => ?_) (.inl hs')
    rw [if_pos hs, readable, if_neg (by omega)]
    rfl
  · have hs' : start.toNat ≤ leaf.bufferLength.toNat :=
      Nat.le_of_not_lt fun h => hs (UInt64.lt_iff_toNat_lt.mpr h)
    rw [if_neg hs, or_iff_right (Nat.not_lt.mpr hs')]
    by_cases h : start.toNat + length.toNat < 2 ^ 64 ∨
        bufferLength.toNat ≤ leaf.bufferLength.toNat - start.toNat
    · refine iff_of_true (fun _ => ?_) h
      have hn := readable_eq hs' h
      generalize (if (if start + length > leaf.bufferLength then leaf.bufferLength - start
        else length) > bufferLength then bufferLength else if start + length > leaf.bufferLength then
          leaf.bufferLength - start else length) = n at hn ⊢
      have hle : start.toNat + n.toNat ≤ leaf.buffer.length := by
        rw [hn, hlen, readable, if_pos hs']
        omega
      rw [load, if_pos hle, hlen, ← hn, UInt64.ofNat_toNat]
      rfl
    · refine iff_of_false (fun hr => ?_) h
      have hr := hr 0
      have hl := length.toNat_lt
      have hstart := start.toNat_lt
      have hkept : ¬ start + length > leaf.bufferLength := by
        rw [gt_iff_lt, UInt64.lt_iff_toNat_lt, UInt64.toNat_add]
        omega
      have hpast : ¬ start.toNat + (if length > bufferLength then bufferLength else length).toNat ≤
          leaf.buffer.length := by
        have hsize := leaf.bufferLength.toNat_lt
        simp only [hlen, gt_iff_lt, UInt64.lt_iff_toNat_lt, apply_ite UInt64.toNat]
        split <;> omega
      rw [if_neg hkept, load, if_neg hpast] at hr
      cases hr

/-- A write does not refuse. -/
theorem writeBytes_noError {result : ErrCode} {bytesWritten : UInt64} {leaf' : MemFsLeaf}
    (h : leaf.writeBytes start length buffer bufferLength = some (result, bytesWritten, leaf')) :
    result = .noError := by
  unfold writeBytes at h
  dsimp only at h
  generalize (if bufferLength < length then bufferLength else length) = n at h
  generalize (if start + n > leaf.bufferLength then leaf.setFileSize (start + n) else leaf) = grown at h
  split at h
  next =>
    obtain ⟨stored, -, h⟩ := Option.bind_eq_some_iff.mp h
    exact (Prod.mk.inj (Option.some.inj h)).1.symm
  next => cases h

/-- **Writes, exactly.** -/
theorem writes_iff (hbuffer : buffer.length = bufferLength.toNat) :
    leaf.Writes start length buffer bufferLength ↔ start.toNat + length.toNat < 2 ^ 64 := by
  have hlen := leaf.length_eq
  have hmin : (if bufferLength < length then bufferLength else length).toNat =
      min length.toNat bufferLength.toNat := by
    simp only [UInt64.lt_iff_toNat_lt, apply_ite UInt64.toNat]
    split <;> omega
  unfold Writes
  by_cases h : start.toNat + length.toNat < 2 ^ 64
  · rw [if_pos h]
    refine iff_of_true ?_ h
    unfold writeBytes
    dsimp only
    generalize (if bufferLength < length then bufferLength else length) = n at hmin ⊢
    have htake : (buffer.take n.toNat).length = n.toNat := by
      rw [List.length_take]
      omega
    have hsum : (start + n).toNat = start.toNat + n.toNat := by
      rw [UInt64.toNat_add]
      omega
    rw [← hmin, UInt64.ofNat_toNat]
    by_cases hgrow : start + n > leaf.bufferLength
    · have hext := setFileSize_buffer hgrow
      rw [hsum] at hext
      have hfits : start.toNat + (buffer.take n.toNat).length ≤
          (leaf.setFileSize (start + n)).buffer.length := by
        rw [hext, length_zeroExtended, htake]
        exact Nat.le_max_right _ _
      have hover := @overwritten_zeroExtended leaf.buffer (buffer.take n.toNat) start.toNat
      rw [htake, ← hext] at hover
      have hassert : start + n ≤ (leaf.setFileSize (start + n)).bufferLength := UInt64.le_refl _
      rw [if_pos hgrow, if_pos hassert, store, dif_pos hfits]
      exact ⟨_, rfl, hover⟩
    · have hin := hgrow
      rw [gt_iff_lt, UInt64.lt_iff_toNat_lt, hsum] at hin
      have hfits : start.toNat + (buffer.take n.toNat).length ≤ leaf.buffer.length := by
        rw [hlen, htake]
        omega
      have hassert : start + n ≤ leaf.bufferLength := UInt64.not_lt.mp hgrow
      have hzero : zeroExtended leaf.buffer start.toNat = leaf.buffer := by
        rw [zeroExtended, Nat.sub_eq_zero_of_le (by omega), List.replicate_zero, List.append_nil]
      rw [if_neg hgrow, if_pos hassert, store, dif_pos hfits, hzero]
      exact ⟨_, rfl, rfl⟩
  · rw [if_neg h]
    refine iff_of_false ?_ h
    rintro ⟨result, bytesWritten, hr, hne⟩
    exact hne (writeBytes_noError hr)

/-- **Reads and writes, exactly.** -/
theorem memFile_iff (leaf : MemFsLeaf) (start length : UInt64) (buffer : List UInt8)
    (bufferLength : UInt64) (hbuffer : buffer.length = bufferLength.toNat) :
    (leaf.Reads start length buffer bufferLength ↔
        leaf.bufferLength.toNat < start.toNat ∨ start.toNat + length.toNat < 2 ^ 64 ∨
          bufferLength.toNat ≤ leaf.bufferLength.toNat - start.toNat) ∧
      (leaf.Writes start length buffer bufferLength ↔ start.toNat + length.toNat < 2 ^ 64) :=
  ⟨reads_iff, writes_iff hbuffer⟩

theorem memFile_iff_two :
    (⟨[1, 2], 2, rfl⟩ : MemFsLeaf).Reads 1 5 [0, 0] 2 ∧
      (⟨[1, 2], 2, rfl⟩ : MemFsLeaf).Writes 4 5 [7, 8] 2 :=
  have h := memFile_iff ⟨[1, 2], 2, rfl⟩
  ⟨(h 1 5 [0, 0] 2 rfl).1.mpr (.inr (.inl (by decide))), (h 4 5 [7, 8] 2 rfl).2.mpr (by decide)⟩

/-- The end of the access wraps around to the start of the file. -/
theorem memFile_wraps :
    ¬ (⟨[1, 2], 2, rfl⟩ : MemFsLeaf).Reads 1 0xFFFFFFFFFFFFFFFF [0, 0, 0, 0] 4 ∧
      ¬ (⟨[1, 2], 2, rfl⟩ : MemFsLeaf).Writes 0xFFFFFFFFFFFFFFFE 4 [0, 0, 0, 0] 4 := by
  constructor
  · intro h
    exact absurd (h 0) (by decide +kernel)
  · rintro ⟨result, bytesWritten, h, -⟩
    have hnone : (writeBytes ⟨[1, 2], 2, rfl⟩ 0xFFFFFFFFFFFFFFFE 4 [0, 0, 0, 0] 4).isNone := by
      decide +kernel
    rw [h] at hnone
    cases hnone

end MemFsLeaf

end Azalea.Fs
