import Azalea.Fat.Structures
import Azalea.Support.Bytes

/-!
# Fat — directory entries

`fat_dir_entry` of `fat_structures.h`: 32 bytes, read as a short entry or as a part of a long name.
A field is a little-endian load at its offset, and setting a field a store there.
-/

namespace Azalea.Fat
open Azalea.Memory

/-- `fat_dir_entry`. -/
structure FatDirEntry where
  bytes : List UInt8
  size : bytes.length = 32
  deriving DecidableEq

namespace FatDirEntry

/-- The entry as a memory. -/
def mem (e : FatDirEntry) : Bytes := fun i => e.bytes.getD i 0

/-- The 32 bytes at `off`. -/
def ofMem (m : Bytes) (off : Nat) : FatDirEntry :=
  ⟨(List.range 32).map fun i => m (off + i), by simp⟩

/-- An entry of zero bytes. -/
def zero : FatDirEntry := ofMem (fun _ => 0) 0

theorem mem_ofMem (m : Bytes) (off : Nat) {i : Nat} (hi : i < 32) :
    (ofMem m off).mem i = m (off + i) := by
  simp [mem, ofMem, List.getD_eq_getElem?_getD, hi]

theorem ofMem_mem (e : FatDirEntry) : ofMem e.mem 0 = e := by
  obtain ⟨bs, hb⟩ := e
  simp only [ofMem, mem, mk.injEq]
  refine List.ext_getElem (by simp [hb]) fun i h₁ h₂ => ?_
  simp [List.getD_eq_getElem?_getD, h₂]

/-- Entries are equal when their bytes are. -/
theorem ext_mem {e e' : FatDirEntry} (h : ∀ i, i < 32 → e.mem i = e'.mem i) : e = e' := by
  rw [← ofMem_mem e, ← ofMem_mem e']
  simp only [ofMem, mk.injEq, List.map_inj_left, List.mem_range, Nat.zero_add]
  exact h

/-- The entry with `n` bytes at `off` set to `v`. -/
def set (e : FatDirEntry) (off n v : Nat) : FatDirEntry := ofMem (store e.mem off n v) 0

theorem mem_set (e : FatDirEntry) {off n v i : Nat} (hi : i < 32) :
    (e.set off n v).mem i = store e.mem off n v i := by
  rw [set, mem_ofMem _ _ hi, Nat.zero_add]

/-! ### Fields -/

/-- `name[i]`. -/
def name (e : FatDirEntry) (i : Nat) : UInt8 := e.mem i

/-- `attributes_raw`, which is `lfn_flag` of a part of a long name. -/
def attributesRaw (e : FatDirEntry) : Nat := load e.mem 11 1

/-- `attributes.directory`. -/
def isDirectory (e : FatDirEntry) : Bool := e.attributesRaw.testBit 4

/-- `first_cluster_high`. -/
def firstClusterHigh (e : FatDirEntry) : Nat := load e.mem 20 2

/-- `first_cluster_low`. -/
def firstClusterLow (e : FatDirEntry) : Nat := load e.mem 26 2

/-- `file_size`. -/
def fileSize (e : FatDirEntry) : Nat := load e.mem 28 4

/-- `is_long_fn_entry`. -/
def isLongFnEntry (e : FatDirEntry) : Bool := e.attributesRaw == 0x0F

/-- `long_fn.checksum`. -/
def checksum (e : FatDirEntry) : Nat := load e.mem 13 1

/-- The offset of `long_fn.lfn_char(i)`: five characters, six and two. -/
def lfnCharOffset (i : Nat) : Nat :=
  if i < 5 then 1 + 2 * i else if i < 11 then 14 + 2 * (i - 5) else 28 + 2 * (i - 11)

/-- `long_fn.lfn_char(i)`. -/
def lfnChar (e : FatDirEntry) (i : Nat) : Nat := load e.mem (lfnCharOffset i) 2

/-- `first_cluster_high` and `first_cluster_low` set to the two halves of a cluster number. -/
def setFirstCluster (e : FatDirEntry) (high low : Nat) : FatDirEntry :=
  (e.set 20 2 high).set 26 2 low

/-- `file_size` set. -/
def setFileSize (e : FatDirEntry) (v : Nat) : FatDirEntry := e.set 28 4 v

/-- The first cluster as a 64-bit number built from its halves. -/
def firstCluster (e : FatDirEntry) : Nat := e.firstClusterHigh * 65536 + e.firstClusterLow

/-- A field read after another one is set. -/
theorem load_set_of_disjoint (e : FatDirEntry) {off n v k w : Nat} (hk : k + w ≤ 32)
    (h : off + n ≤ k ∨ k + w ≤ off) : load (e.set off n v).mem k w = load e.mem k w := by
  refine load_congr fun i hi => ?_
  rw [mem_set _ (by omega), store_of_not_mem (by omega)]

theorem load_set (e : FatDirEntry) {off n v : Nat} (hn : off + n ≤ 32) :
    load (e.set off n v).mem off n = v % 256 ^ n := by
  rw [← load_store e.mem off n v]
  exact load_congr fun i hi => mem_set _ (by omega)

theorem firstClusterHigh_lt (e : FatDirEntry) : e.firstClusterHigh < 65536 := load_lt e.mem 20 2

theorem firstClusterLow_lt (e : FatDirEntry) : e.firstClusterLow < 65536 := load_lt e.mem 26 2

theorem fileSize_lt (e : FatDirEntry) : e.fileSize < 2 ^ 32 := load_lt e.mem 28 4

section
variable (e : FatDirEntry) (high low v : Nat)

@[simp] theorem fileSize_setFileSize : (e.setFileSize v).fileSize = v % 2 ^ 32 :=
  load_set e (by decide)

@[simp] theorem firstClusterHigh_setFileSize :
    (e.setFileSize v).firstClusterHigh = e.firstClusterHigh :=
  load_set_of_disjoint e (by decide) (by decide)

@[simp] theorem firstClusterLow_setFileSize :
    (e.setFileSize v).firstClusterLow = e.firstClusterLow :=
  load_set_of_disjoint e (by decide) (by decide)

@[simp] theorem firstClusterHigh_setFirstCluster :
    (e.setFirstCluster high low).firstClusterHigh = high % 65536 := by
  rw [setFirstCluster, firstClusterHigh, load_set_of_disjoint _ (by decide) (by decide),
    load_set _ (by decide)]
  rfl

@[simp] theorem firstClusterLow_setFirstCluster :
    (e.setFirstCluster high low).firstClusterLow = low % 65536 :=
  load_set _ (by decide)

@[simp] theorem attributesRaw_setFileSize : (e.setFileSize v).attributesRaw = e.attributesRaw :=
  load_set_of_disjoint e (by decide) (by decide)

@[simp] theorem attributesRaw_setFirstCluster :
    (e.setFirstCluster high low).attributesRaw = e.attributesRaw := by
  rw [setFirstCluster, attributesRaw, load_set_of_disjoint _ (by decide) (by decide),
    load_set_of_disjoint _ (by decide) (by decide)]
  rfl

@[simp] theorem isDirectory_setFileSize : (e.setFileSize v).isDirectory = e.isDirectory := by
  rw [isDirectory, attributesRaw_setFileSize, isDirectory]

@[simp] theorem isDirectory_setFirstCluster :
    (e.setFirstCluster high low).isDirectory = e.isDirectory := by
  rw [isDirectory, attributesRaw_setFirstCluster, isDirectory]

end

end FatDirEntry

end Azalea.Fat
