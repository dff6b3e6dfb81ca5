import Mathlib.Order.Basic

/-!
# Fat — types and geometry

What `fat_filesystem` keeps of the boot sector (`fat_fs.h`, `fat_structures.h`): the type of the
FAT, and the numbers its constructor works out.  Unsigned values are natural numbers; where a sum
or a product of the source can wrap, the model reduces it explicitly.
-/

namespace Azalea.Fat

/-- The members of `ERR_CODE` that the FAT code returns. -/
inductive ErrCode where
  | noError
  | unknown
  | notFound
  | invalidOp
  | invalidParam
  | invalidName
  | deviceFailed
  | storageError
  | outOfRange
  | outOfResource
  | alreadyExists
  deriving Repr, DecidableEq

/-- `FAT_TYPE`. -/
inductive FatType where
  | fat12
  | fat16
  | fat32
  deriving Repr, DecidableEq

/-- The width of a table entry, in bits. -/
def FatType.entryBits : FatType → Nat
  | .fat12 => 12
  | .fat16 => 16
  | .fat32 => 28

/-- The bytes a table of `k` entries takes up. -/
def FatType.tableBytes : FatType → Nat → Nat
  | .fat12, k => (3 * k + 1) / 2
  | .fat16, k => 2 * k
  | .fat32, k => 4 * k

/-- The largest number `is_normal_cluster_number` accepts. -/
def FatType.lastNormal : FatType → Nat
  | .fat12 => 0x0FEF
  | .fat16 => 0x0FFEF
  | .fat32 => 0x0FFFFFEF

/-- `fat_filesystem::is_normal_cluster_number`. -/
def isNormalClusterNumber (type : FatType) (clusterNum : Nat) : Bool :=
  let isNormal :=
    match type with
    | .fat12 => !(clusterNum > 0x0FEF)
    | .fat16 => !(clusterNum > 0x0FFEF)
    | .fat32 => !(clusterNum > 0x0FFFFFEF)
  if clusterNum == 0 || clusterNum == 1 then false else isNormal

theorem isNormalClusterNumber_iff {type : FatType} {c : Nat} :
    isNormalClusterNumber type c = true ↔ 2 ≤ c ∧ c ≤ type.lastNormal := by
  have h01 : (c == 0 || c == 1) = true ↔ c < 2 := by
    simp only [Bool.or_eq_true, beq_iff_eq]; omega
  unfold isNormalClusterNumber
  dsimp only
  by_cases h : c < 2
  · rw [if_pos (h01.mpr h)]
    simp only [Bool.false_eq_true, false_iff]
    omega
  · rw [if_neg (mt h01.mp h)]
    cases type <;> simp [FatType.lastNormal] <;> omega

/-- What the constructor of `fat_filesystem` keeps of the boot sector.  `fatSize` is the number of
sectors of one FAT, `fat_size_16` or `fat_size_32`. -/
structure FatParams where
  type : FatType
  bytesPerSec : Nat
  secsPerCluster : Nat
  rsvdSecCnt : Nat
  fatSize : Nat
  rootDirStartSector : Nat
  rootDirSectorCount : Nat
  firstDataSector : Nat
  maxSectors : Nat
  numberOfClusters : Nat
  fatLengthBytes : Nat
  rootCluster : Nat
  deriving Repr, DecidableEq

end Azalea.Fat
