import Azalea.Fat.Sectors

/-!
# Fat — mounting a volume

The constructor of `fat_filesystem` and `determine_fat_type` of `fat_fs.cpp`: the numbers of a volume,
worked out from its boot sector, which nothing checks against each other.

* `clustersApart_iff`: for which numbers every data cluster has sectors of its own that lead back to it.
* `nextInData_iff`: from which sectors, and through which entries of the table, `get_next_file_sector`
  stays in the data clusters.
* `mounted_volume_iff`: both, for every volume that can be mounted and whatever its table holds.
-/

namespace Azalea.Fat
open Azalea.Memory

/-! ### The source -/

/-- The fields of `fat32_bpb` and `fat16_bpb` that are read. -/
structure Bpb where
  bytesPerSec : Nat
  secsPerCluster : Nat
  rsvdSecCnt : Nat
  numFats : Nat
  rootEntryCnt : Nat
  totalSecs16 : Nat
  fatSize16 : Nat
  totalSecs32 : Nat
  fatSize32 : Nat
  rootCluster : Nat
  deriving Repr, DecidableEq

/-- The boot sector, at the offsets of the packed structure. -/
def readBpb (sector : Bytes) : Bpb where
  bytesPerSec := load sector 11 2
  secsPerCluster := load sector 13 1
  rsvdSecCnt := load sector 14 2
  numFats := load sector 16 1
  rootEntryCnt := load sector 17 2
  totalSecs16 := load sector 19 2
  fatSize16 := load sector 22 2
  totalSecs32 := load sector 32 4
  fatSize32 := load sector 36 4
  rootCluster := load sector 44 4

/-- `max_sectors`, and `total_sectors` of `determine_fat_type`. -/
def Bpb.totalSectors (b : Bpb) : Nat := if b.totalSecs16 = 0 then b.totalSecs32 else b.totalSecs16

def Bpb.rootDirSectors (b : Bpb) : Nat := (b.rootEntryCnt * 32 + (b.bytesPerSec - 1)) / b.bytesPerSec

/-- `determine_fat_type`: the type, and the number of clusters. -/
def determineFatType (b : Bpb) : FatType × Nat :=
  let fatSize := if b.fatSize16 = 0 then b.fatSize32 else b.fatSize16
  let privateSectors := b.rsvdSecCnt + b.numFats * fatSize + b.rootDirSectors
  let dataSectors := (b.totalSectors + (2 ^ 64 - privateSectors)) % 2 ^ 64
  let clusterCount := dataSectors / b.secsPerCluster
  if clusterCount < 4085 then (.fat12, clusterCount)
  else if clusterCount < 65525 then (.fat16, clusterCount)
  else (.fat32, clusterCount)

/-- An `int`, widened to 64 bits. -/
def widenInt (v : Nat) : Nat :=
  if v % 2 ^ 32 < 2 ^ 31 then v % 2 ^ 32 else v % 2 ^ 32 + (2 ^ 64 - 2 ^ 32)

/-- The numbers the constructor keeps.  On FAT32 the sums are made in 32 bits. -/
def Bpb.params (b : Bpb) : FatParams :=
  let (type, numberOfClusters) := determineFatType b
  match type with
  | .fat12 | .fat16 =>
      { type := type
        bytesPerSec := b.bytesPerSec
        secsPerCluster := b.secsPerCluster
        rsvdSecCnt := b.rsvdSecCnt
        fatSize := b.fatSize16
        rootDirStartSector := b.rsvdSecCnt + b.numFats * b.fatSize16
        rootDirSectorCount := b.rootDirSectors
        firstDataSector := b.rsvdSecCnt + b.numFats * b.fatSize16 + b.rootDirSectors
        maxSectors := b.totalSectors
        numberOfClusters := numberOfClusters
        fatLengthBytes := widenInt (b.bytesPerSec * b.fatSize16)
        rootCluster := b.rootCluster }
  | .fat32 =>
      { type := .fat32
        bytesPerSec := b.bytesPerSec
        secsPerCluster := b.secsPerCluster
        rsvdSecCnt := b.rsvdSecCnt
        fatSize := b.fatSize32
        rootDirStartSector := 0
        rootDirSectorCount := 0
        firstDataSector := (b.rsvdSecCnt + b.numFats * b.fatSize32) % 2 ^ 32
        maxSectors := b.totalSectors
        numberOfClusters := numberOfClusters
        fatLengthBytes := b.fatSize32 * b.bytesPerSec % 2 ^ 32
        rootCluster := b.rootCluster }

/-- The constructor of `fat_filesystem`, on a device that is running: the filesystem, if its status is
fine in the end.  The boot sector's two divisors are asserted not to be zero. -/
def mount (d : BlockDevice) : Option FatFs :=
  if d.numBlocks = 0 then none
  else
    let (r, buffer) := d.readBlocks 0 1 (fun _ => 0) 0 512
    if r ≠ .noError then none
    else
      let b := readBpb buffer
      if b.bytesPerSec = 0 ∨ b.secsPerCluster = 0 then none
      else
        let g := b.params
        let (r, rawFat) := d.readBlocks g.rsvdSecCnt g.fatSize (fun _ => 0) 0 g.fatLengthBytes
        if r ≠ .noError then none
        else some { params := g, storage := d, rawFat := rawFat }

/-! ### Clusters and their sectors -/

/-- Every data cluster's sectors lead back to it, and are no other cluster's. -/
def ClustersApart (g : FatParams) : Prop :=
  ∀ c, g.InTable c → ∀ k, k < g.secsPerCluster →
    convertSectorToClusterNum g ((convertClusterToSectorNum g c + k) % 2 ^ 64) = some (c, k)
      ∧ ∀ d, g.InTable d → d ≠ c → ∀ j, j < g.secsPerCluster →
        convertClusterToSectorNum g c + k ≠ convertClusterToSectorNum g d + j

/-- A sector of one of the data clusters. -/
def InData (g : FatParams) (s : Nat) : Prop :=
  g.firstDataSector ≤ s ∧ s < g.firstDataSector + g.numberOfClusters * g.secsPerCluster

/-- From the sector `cur`, an error or a sector of a data cluster. -/
def NextInData (fs : FatFs) (cur : Nat) : Prop :=
  ∀ s, getNextFileSector fs cur = some s → InData fs.params s

/-- What the widths of the boot sector's fields give. -/
structure Narrow (g : FatParams) : Prop where
  cluster_pos : 0 < g.secsPerCluster
  cluster_lt : g.secsPerCluster < 256
  first_lt : g.firstDataSector < 2 ^ 33
  max_lt : g.maxSectors < 2 ^ 32

section
variable {g : FatParams} {c k : Nat}

theorem lastNormal_lt (type : FatType) : type.lastNormal < 2 ^ 28 := by cases type <;> decide

theorem convertSectorToClusterNum_max (h : Narrow g) :
    convertSectorToClusterNum g ((2 ^ 64 - 1) % 2 ^ 64) = none := by
  have := h.max_lt
  rw [convertSectorToClusterNum, if_pos (by omega)]

/-- The sectors of a cluster whose number is normal. -/
theorem convertClusterToSectorNum_lt (h : Narrow g) (hc : c ≤ g.type.lastNormal)
    (hk : k < g.secsPerCluster) : (c - 2) * g.secsPerCluster + g.firstDataSector + k < 2 ^ 64 := by
  have := lastNormal_lt g.type
  have hle : (c - 2) * g.secsPerCluster ≤ 2 ^ 28 * 256 :=
    Nat.mul_le_mul (by omega) (Nat.le_of_lt h.cluster_lt)
  have := h.first_lt
  have := h.cluster_lt
  omega

/-- Back from a sector of a normal cluster, if it is not beyond the end. -/
theorem convertSectorToClusterNum_of_normal (h : Narrow g) (h2 : 2 ≤ c) (hk : k < g.secsPerCluster)
    (hle : (c - 2) * g.secsPerCluster + g.firstDataSector + k ≤ g.maxSectors) :
    convertSectorToClusterNum g ((c - 2) * g.secsPerCluster + g.firstDataSector + k) = some (c, k) := by
  have hsub : (c - 2) * g.secsPerCluster + g.firstDataSector + k - g.firstDataSector
      = k + g.secsPerCluster * (c - 2) := by
    rw [Nat.mul_comm g.secsPerCluster]
    omega
  rw [convertSectorToClusterNum, if_neg (by omega)]
  simp only [hsub]
  rw [Nat.add_mul_div_left _ _ h.cluster_pos, Nat.div_eq_of_lt hk, Nat.add_mul_mod_self_left,
    Nat.mod_eq_of_lt hk, Nat.zero_add, Nat.sub_add_cancel h2]

/-- Clusters are apart if the last one has a normal number and ends where sectors are still accepted. -/
theorem clustersApart_iff (h : Narrow g) : ClustersApart g ↔ g.numberOfClusters = 0
    ∨ g.numberOfClusters + 1 ≤ g.type.lastNormal
      ∧ g.firstDataSector + g.numberOfClusters * g.secsPerCluster ≤ g.maxSectors + 1 := by
  have hpos := h.cluster_pos
  constructor
  · intro hap
    by_cases h0 : g.numberOfClusters = 0
    · exact .inl h0
    have hlast : g.InTable (g.numberOfClusters + 1) := ⟨by omega, Nat.le_refl _⟩
    have hnormal : g.numberOfClusters + 1 ≤ g.type.lastNormal := by
      by_contra hbig
      have hback := (hap _ hlast 0 hpos).1
      have hsec : convertClusterToSectorNum g (g.numberOfClusters + 1) = 2 ^ 64 - 1 :=
        if_neg (by rw [isNormalClusterNumber_iff]; omega)
      rw [hsec, Nat.add_zero, convertSectorToClusterNum_max h] at hback
      cases hback
    refine .inr ⟨hnormal, ?_⟩
    have hback := (hap _ hlast (g.secsPerCluster - 1) (by omega)).1
    have hsec : convertClusterToSectorNum g (g.numberOfClusters + 1)
        = (g.numberOfClusters + 1 - 2) * g.secsPerCluster + g.firstDataSector :=
      if_pos (isNormalClusterNumber_iff.mpr ⟨by omega, hnormal⟩)
    rw [hsec, Nat.mod_eq_of_lt (convertClusterToSectorNum_lt h hnormal (by omega)),
      convertSectorToClusterNum] at hback
    split at hback
    · cases hback
    next hr =>
      have hsplit : g.numberOfClusters * g.secsPerCluster
          = (g.numberOfClusters + 1 - 2) * g.secsPerCluster + g.secsPerCluster := by
        rw [← Nat.succ_mul]
        congr 1
        omega
      omega
  · rintro hok c hc k hk
    obtain ⟨hc2, hcn⟩ := hc
    obtain ⟨hnormal, hend⟩ := hok.resolve_left (by omega)
    have hsec : ∀ d, g.InTable d → convertClusterToSectorNum g d
        = (d - 2) * g.secsPerCluster + g.firstDataSector :=
      fun d hd => if_pos (isNormalClusterNumber_iff.mpr ⟨hd.1, by have := hd.2; omega⟩)
    have hback : ∀ d, g.InTable d → ∀ j, j < g.secsPerCluster →
        convertSectorToClusterNum g (convertClusterToSectorNum g d + j) = some (d, j) := by
      intro d hd j hj
      rw [hsec d hd]
      refine convertSectorToClusterNum_of_normal h hd.1 hj ?_
      have hsucc : d - 2 + 1 ≤ g.numberOfClusters := by have := hd.1; have := hd.2; omega
      have := Nat.mul_le_mul_right g.secsPerCluster hsucc
      rw [Nat.succ_mul] at this
      omega
    refine ⟨?_, fun d hd hne j hj heq => ?_⟩
    · rw [Nat.mod_eq_of_lt]
      · exact hback c ⟨hc2, hcn⟩ k hk
      · rw [hsec c ⟨hc2, hcn⟩]
        exact convertClusterToSectorNum_lt h (by omega) hk
    · have hcd := hback c ⟨hc2, hcn⟩ k hk
      rw [heq, hback d hd j hj] at hcd
      exact hne (Prod.mk.inj (Option.some.inj hcd)).1

/-! ### The next sector -/

variable {fs : FatFs} {cur : Nat}

/-- The cluster a sector of the data area is taken to lie in. -/
def clusterOf (g : FatParams) (cur : Nat) : Nat := (cur - g.firstDataSector) / g.secsPerCluster + 2

/-- A sector from which `get_next_file_sector` stays in the data clusters: the test of its number refuses
it; or it ends its cluster, whose entry is not normal or names a data cluster; or it does not, and lies
in a data cluster itself. -/
def StaysInData (fs : FatFs) (cur : Nat) : Prop :=
  cur < fs.params.firstDataSector ∨ fs.params.maxSectors < cur
    ∨ if (cur - fs.params.firstDataSector) % fs.params.secsPerCluster = fs.params.secsPerCluster - 1 then
        isNormalClusterNumber fs.params.type
            (readFatEntry fs.params fs.rawFat (clusterOf fs.params cur)) = false
          ∨ fs.params.InTable (readFatEntry fs.params fs.rawFat (clusterOf fs.params cur))
      else fs.params.InTable (clusterOf fs.params cur)

theorem inData_cluster_iff (h : Narrow g) (hc : isNormalClusterNumber g.type c = true) :
    InData g (convertClusterToSectorNum g c) ↔ g.InTable c := by
  have h2 := (isNormalClusterNumber_iff.mp hc).1
  have hlt : (c - 2) * g.secsPerCluster < g.numberOfClusters * g.secsPerCluster
      ↔ c - 2 < g.numberOfClusters := Nat.mul_lt_mul_right h.cluster_pos
  rw [convertClusterToSectorNum, if_pos hc, InData, FatParams.InTable]
  omega

theorem inData_succ_iff (h : Narrow g) (hle : g.firstDataSector ≤ cur)
    (hoff : (cur - g.firstDataSector) % g.secsPerCluster ≠ g.secsPerCluster - 1) :
    InData g (cur + 1) ↔ g.InTable (clusterOf g cur) := by
  have hmod := Nat.mod_lt (cur - g.firstDataSector) h.cluster_pos
  have hdiv := Nat.div_add_mod (cur - g.firstDataSector) g.secsPerCluster
  rw [InData, FatParams.InTable, clusterOf]
  generalize (cur - g.firstDataSector) / g.secsPerCluster = q at hdiv
  rw [Nat.mul_comm] at hdiv
  constructor
  · rintro ⟨-, hlt⟩
    refine ⟨by omega, ?_⟩
    have : q * g.secsPerCluster < g.numberOfClusters * g.secsPerCluster := by omega
    have := (Nat.mul_lt_mul_right h.cluster_pos).mp this
    omega
  · rintro ⟨-, hlt⟩
    have := Nat.mul_le_mul_right g.secsPerCluster (show q + 1 ≤ g.numberOfClusters by omega)
    rw [Nat.succ_mul] at this
    omega

theorem nextInData_iff (h : Narrow fs.params) : NextInData fs cur ↔ StaysInData fs cur := by
  unfold NextInData StaysInData getNextFileSector convertSectorToClusterNum
  by_cases hr : cur < fs.params.firstDataSector ∨ cur > fs.params.maxSectors
  · rw [if_pos hr, ← or_assoc]
    exact iff_of_true (fun s hs => by cases hs) (.inl hr)
  · rw [if_neg hr, ← or_assoc, or_iff_right hr]
    obtain ⟨hle, -⟩ := not_or.mp hr
    dsimp only
    split
    next hoff =>
      cases hn : isNormalClusterNumber fs.params.type
          (readFatEntry fs.params fs.rawFat (clusterOf fs.params cur)) with
      | false =>
          refine iff_of_true (fun s hs => ?_) (.inl rfl)
          rw [if_neg (by rw [← clusterOf, hn]; decide)] at hs
          cases hs
      | true =>
          rw [if_pos (by rw [← clusterOf, hn]), ← clusterOf, ← inData_cluster_iff h hn]
          simp
    next hoff =>
      rw [← inData_succ_iff h (Nat.not_lt.mp hle) hoff]
      simp

end

/-! ### A mounted volume -/

section
variable {d : BlockDevice} {fs : FatFs}

theorem Bpb.params_narrow (sector : Bytes) (h : (readBpb sector).secsPerCluster ≠ 0) :
    Narrow (readBpb sector).params := by
  have hspc : (readBpb sector).secsPerCluster < 256 := load_lt sector 13 1
  have hrsvd : (readBpb sector).rsvdSecCnt < 65536 := load_lt sector 14 2
  have hfats : (readBpb sector).numFats < 256 := load_lt sector 16 1
  have hroot : (readBpb sector).rootEntryCnt < 65536 := load_lt sector 17 2
  have hbytes : (readBpb sector).bytesPerSec < 65536 := load_lt sector 11 2
  have hsize : (readBpb sector).fatSize16 < 65536 := load_lt sector 22 2
  have h16 : (readBpb sector).totalSecs16 < 65536 := load_lt sector 19 2
  have h32 : (readBpb sector).totalSecs32 < 4294967296 := load_lt sector 32 4
  have htotal : (readBpb sector).totalSectors < 2 ^ 32 := by unfold Bpb.totalSectors; split <;> omega
  have hmul : (readBpb sector).numFats * (readBpb sector).fatSize16 ≤ 256 * 65536 :=
    Nat.mul_le_mul (Nat.le_of_lt hfats) (Nat.le_of_lt hsize)
  have hdir : (readBpb sector).rootDirSectors ≤ 65536 * 33 :=
    (Nat.div_le_self _ _).trans (by omega)
  generalize readBpb sector = b at *
  unfold Bpb.params
  rcases determineFatType b with ⟨type, n⟩
  cases type with
  | fat12 => exact ⟨Nat.pos_of_ne_zero h, hspc, by dsimp only; omega, htotal⟩
  | fat16 => exact ⟨Nat.pos_of_ne_zero h, hspc, by dsimp only; omega, htotal⟩
  | fat32 => exact ⟨Nat.pos_of_ne_zero h, hspc, by dsimp only; omega, htotal⟩

theorem mount_narrow (hm : mount d = some fs) : Narrow fs.params := by
  unfold mount at hm
  split at hm
  · cases hm
  · dsimp only at hm
    split at hm
    · cases hm
    · split at hm
      · cases hm
      next hz =>
        split at hm
        · cases hm
        · cases hm
          exact Bpb.params_narrow _ (not_or.mp hz).2

/-- Of a volume that can be mounted, with any table in memory, the clusters are apart and the sector after
`cur` is an error or lies in a data cluster exactly if the volume's numbers, the number of the sector and
the entry that is followed are such. -/
theorem mounted_volume_iff (hm : mount d = some fs) (rawFat : Bytes) (cur : Nat) :
    ClustersApart fs.params ∧ NextInData { fs with rawFat := rawFat } cur ↔
      (fs.params.numberOfClusters = 0 ∨ fs.params.numberOfClusters + 1 ≤ fs.params.type.lastNormal
        ∧ fs.params.firstDataSector + fs.params.numberOfClusters * fs.params.secsPerCluster
          ≤ fs.params.maxSectors + 1)
      ∧ StaysInData { fs with rawFat := rawFat } cur := by
  have h := mount_narrow hm
  rw [clustersApart_iff h, nextInData_iff]
  exact h

end

/-- A floppy disk of 2,880 sectors; the entry of cluster 2 is `0xFEF`. -/
def floppy : BlockDevice where
  blockSize := 512
  numBlocks := 2880
  refusesNone := true
  bytes i :=
    match i with
    | 12 => 0x02
    | 13 => 0x01
    | 14 => 0x01
    | 16 => 0x02
    | 17 => 0xE0
    | 19 => 0x40
    | 20 => 0x0B
    | 22 => 0x09
    | 515 => 0xEF
    | 516 => 0x0F
    | _ => 0x00

/-- The floppy disk's numbers. -/
def floppyParams : FatParams :=
  { type := .fat12, bytesPerSec := 512, secsPerCluster := 1, rsvdSecCnt := 1, fatSize := 9,
    rootDirStartSector := 19, rootDirSectorCount := 14, firstDataSector := 33, maxSectors := 2880,
    numberOfClusters := 2847, fatLengthBytes := 4608, rootCluster := 0 }

theorem mount_floppy : ∃ fs, mount floppy = some fs ∧ fs.params = floppyParams
    ∧ getNextFileSector fs 33 = some 4110 := by
  have hp : ((mount floppy).map fun fs => (fs.params, getNextFileSector fs 33))
      = some (floppyParams, some 4110) := by decide +kernel
  obtain ⟨fs, hfs, heq⟩ := Option.map_eq_some_iff.mp hp
  exact ⟨fs, hfs, congrArg Prod.fst heq, congrArg Prod.snd heq⟩

/-- On the floppy disk with an end marker in every entry, no cluster leads to another. -/
theorem mounted_floppy_stays : ∃ fs, mount floppy = some fs
    ∧ ClustersApart fs.params ∧ NextInData { fs with rawFat := fun _ => 0xFF } 33 := by
  obtain ⟨fs, hm, hp, -⟩ := mount_floppy
  refine ⟨fs, hm, (mounted_volume_iff hm (fun _ => 0xFF) 33).mpr ?_⟩
  rw [StaysInData]
  dsimp only
  rw [hp]
  exact ⟨.inr (by decide), .inr (.inr (by decide +kernel))⟩

/-- The table leads from the first data sector to sector 4,110 of a disk of 2,880. -/
theorem next_sector_beyond_volume : ∃ fs, mount floppy = some fs ∧ ¬ NextInData fs 33 := by
  obtain ⟨fs, hm, hp, hnext⟩ := mount_floppy
  refine ⟨fs, hm, fun h => ?_⟩
  have hin := (h 4110 hnext).2
  rw [hp] at hin
  revert hin
  decide

end Azalea.Fat
