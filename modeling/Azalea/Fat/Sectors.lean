import Azalea.Fat.Chain
import Azalea.Fat.Entry

/-!
# Fat — sectors and clusters

The block device under a volume, and the functions of `fat_fs.cpp` and `fat_file.cpp` that lead
from a file to the sectors it is stored in.  `sectorAt` is the sector a file's `j`th sector is
stored in, from its chain; the source finds it by walking the table:

* `getDiskSectorFromOffset_eq`: from the start of the file;
* `advanceSectorNum_eq`: from the sector before it.
-/

namespace Azalea.Fat
open Azalea.Memory Azalea.Walks

/-! ### The source -/

/-- A block device that stores what it is given.  A RAM disk reads and writes no blocks at all; an ATA disk
refuses to (`refusesNone`). -/
structure BlockDevice where
  blockSize : Nat
  numBlocks : Nat
  bytes : Bytes
  refusesNone : Bool

/-- What `read_blocks` and `write_blocks` check. -/
structure BlockDevice.Serves (d : BlockDevice) (startBlock numBlocks bufferLength : Nat) : Prop where
  inside : startBlock + numBlocks ≤ d.numBlocks
  some : d.refusesNone = true → numBlocks ≠ 0
  room : numBlocks * d.blockSize ≤ bufferLength

instance (d : BlockDevice) (startBlock numBlocks bufferLength : Nat) :
    Decidable (d.Serves startBlock numBlocks bufferLength) :=
  decidable_of_iff (startBlock + numBlocks ≤ d.numBlocks ∧ (d.refusesNone = true → numBlocks ≠ 0) ∧
    numBlocks * d.blockSize ≤ bufferLength) ⟨fun h => ⟨h.1, h.2.1, h.2.2⟩, fun h => ⟨h.inside, h.some, h.room⟩⟩

/-- `read_blocks`: the blocks are copied to `buffer + at` when they exist and fit. -/
def BlockDevice.readBlocks (d : BlockDevice) (startBlock numBlocks : Nat) (buffer : Bytes)
    (off bufferLength : Nat) : ErrCode × Bytes :=
  if d.Serves startBlock numBlocks bufferLength then
    (.noError, blit buffer off d.bytes (startBlock * d.blockSize) (numBlocks * d.blockSize))
  else (.invalidParam, buffer)

/-- `write_blocks`: the blocks are copied from `buffer + at`. -/
def BlockDevice.writeBlocks (d : BlockDevice) (startBlock numBlocks : Nat) (buffer : Bytes)
    (off bufferLength : Nat) : ErrCode × BlockDevice :=
  if d.Serves startBlock numBlocks bufferLength then
    (.noError, { d with
      bytes := blit d.bytes (startBlock * d.blockSize) buffer off (numBlocks * d.blockSize) })
  else (.invalidParam, d)

/-- The device with other bytes on it. -/
def BlockDevice.withBytes (d : BlockDevice) (m : Bytes) : BlockDevice := { d with bytes := m }

/-- `fat_filesystem`: the device, what is known of the boot sector, and the FAT in memory. -/
structure FatFs where
  params : FatParams
  storage : BlockDevice
  rawFat : Bytes

/-- `fat_file`, without the pointers to its parents. -/
structure FatFile where
  record : FatDirEntry
  fileRecordIndex : Nat
  isSmallFatRootDir : Bool

/-- `fat_filesystem::convert_cluster_to_sector_num`, with `~0` for a reserved number. -/
def convertClusterToSectorNum (g : FatParams) (clusterNum : Nat) : Nat :=
  if isNormalClusterNumber g.type clusterNum then
    (clusterNum - 2) * g.secsPerCluster + g.firstDataSector
  else 2 ^ 64 - 1

/-- `fat_filesystem::convert_sector_to_cluster_num`: the cluster and the offset in it. -/
def convertSectorToClusterNum (g : FatParams) (sectorNum : Nat) : Option (Nat × Nat) :=
  if sectorNum < g.firstDataSector ∨ sectorNum > g.maxSectors then none
  else
    let sectorsInToDataRegion := sectorNum - g.firstDataSector
    some (sectorsInToDataRegion / g.secsPerCluster + 2, sectorsInToDataRegion % g.secsPerCluster)

/-- `fat_filesystem::get_next_file_sector`. -/
def getNextFileSector (fs : FatFs) (currentSectorNum : Nat) : Option Nat :=
  match convertSectorToClusterNum fs.params currentSectorNum with
  | none => none
  | some (curCluster, curOffset) =>
      if curOffset = fs.params.secsPerCluster - 1 then
        let curCluster := readFatEntry fs.params fs.rawFat curCluster
        if isNormalClusterNumber fs.params.type curCluster then
          some (convertClusterToSectorNum fs.params curCluster)
        else none
      else some (currentSectorNum + 1)

/-- `(first_cluster_high << 16) + first_cluster_low`, an `int` that is widened to 64 bits. -/
def FatDirEntry.widenedFirstCluster (e : FatDirEntry) : Nat :=
  if e.firstClusterHigh < 0x8000 then e.firstCluster else e.firstCluster + (2 ^ 64 - 2 ^ 32)

/-- The loop of `get_disk_sector_from_offset`. -/
def followChain (fs : FatFs) : Nat → Nat → Option Nat
  | 0, currentCluster => some currentCluster
  | i + 1, currentCluster =>
      let nextCluster := readFatEntry fs.params fs.rawFat currentCluster
      if isNormalClusterNumber fs.params.type nextCluster then followChain fs i nextCluster
      else none

/-- `fat_file::get_disk_sector_from_offset`. -/
def getDiskSectorFromOffset (fs : FatFs) (file : FatFile) (sectorOffset : Nat) : Option Nat :=
  if file.isSmallFatRootDir then some (fs.params.rootDirStartSector + sectorOffset)
  else
    match followChain fs (sectorOffset / fs.params.secsPerCluster)
        file.record.widenedFirstCluster with
    | none => none
    | some currentCluster =>
        let diskSector := convertClusterToSectorNum fs.params currentCluster
        if diskSector = 2 ^ 64 - 1 then none
        else some (diskSector + sectorOffset % fs.params.secsPerCluster)

/-- `fat_file::advance_sector_num`: its result, and the sector number after it. -/
def advanceSectorNum (fs : FatFs) (file : FatFile) (sectorNum : Nat) : ErrCode × Nat :=
  if file.isSmallFatRootDir then
    let sectorNum := sectorNum + 1
    if sectorNum > fs.params.rootDirSectorCount + fs.params.rootDirStartSector then
      (.invalidParam, sectorNum)
    else (.noError, sectorNum)
  else
    match getNextFileSector fs sectorNum with
    | none => (.storageError, sectorNum)
    | some nextSectorNum => (.noError, nextSectorNum)

/-! ### A volume -/

/-- What holds of the numbers of a mounted volume: its regions follow each other on the device,
the FAT has an entry for every cluster, and an entry has room for every cluster's number. -/
structure FatParams.Mounted (g : FatParams) : Prop where
  sectorSize : ∃ k, 5 ≤ k ∧ k ≤ 15 ∧ g.bytesPerSec = 2 ^ k
  cluster_pos : 0 < g.secsPerCluster
  cluster_lt : g.secsPerCluster < 256
  numbered : g.Numbered
  table : g.HasTable
  tableLength : g.fatLengthBytes = g.fatSize * g.bytesPerSec
  reserved_pos : 0 < g.rsvdSecCnt
  fatRegion : g.rsvdSecCnt + g.fatSize ≤ g.firstDataSector
  rootRegion : g.type ≠ .fat32 → g.rsvdSecCnt + g.fatSize ≤ g.rootDirStartSector ∧
    g.rootDirStartSector + g.rootDirSectorCount ≤ g.firstDataSector
  dataRegion : g.firstDataSector + g.numberOfClusters * g.secsPerCluster ≤ g.maxSectors
  sectors_lt : g.maxSectors < 2 ^ 32

/-- A mounted volume: the device has all its sectors, of the size the boot sector gives. -/
structure FatFs.Mounted (fs : FatFs) : Prop where
  params : fs.params.Mounted
  blockSize : fs.storage.blockSize = fs.params.bytesPerSec
  numBlocks : fs.params.maxSectors ≤ fs.storage.numBlocks

/-- The bytes of a cluster. -/
def FatParams.bytesPerCluster (g : FatParams) : Nat := g.bytesPerSec * g.secsPerCluster

/-- The sector the `j`th sector of a file with the clusters `cs` is stored in. -/
def sectorAt (g : FatParams) (cs : List Nat) (j : Nat) : Nat :=
  convertClusterToSectorNum g (cs.getD (j / g.secsPerCluster) 0) + j % g.secsPerCluster

/-- The `i`th byte of a file: byte `i mod bytes_per_cluster` of cluster `i / bytes_per_cluster`
of its chain. -/
def fileByte (fs : FatFs) (cs : List Nat) (i : Nat) : UInt8 :=
  fs.storage.bytes (convertClusterToSectorNum fs.params (cs.getD (i / fs.params.bytesPerCluster) 0)
    * fs.params.bytesPerSec + i % fs.params.bytesPerCluster)

section
variable {g : FatParams} {cs : List Nat} {j c : Nat}

theorem FatParams.Mounted.sector_pos (h : g.Mounted) : 0 < g.bytesPerSec := by
  obtain ⟨k, -, -, hk⟩ := h.sectorSize
  rw [hk]; exact Nat.two_pow_pos k

theorem FatParams.Mounted.sector_lt (h : g.Mounted) : g.bytesPerSec < 65536 := by
  obtain ⟨k, -, h15, hk⟩ := h.sectorSize
  have := Nat.pow_le_pow_right (n := 2) (by decide) h15
  omega

/-- The sectors of a data cluster lie in the data region. -/
theorem clusterSector_bounds (h : g.Mounted) (hc : g.IsData c) :
    convertClusterToSectorNum g c = (c - 2) * g.secsPerCluster + g.firstDataSector ∧
      convertClusterToSectorNum g c + g.secsPerCluster ≤
        g.firstDataSector + g.numberOfClusters * g.secsPerCluster := by
  have he : convertClusterToSectorNum g c =
      (c - 2) * g.secsPerCluster + g.firstDataSector := if_pos hc.2
  refine ⟨he, ?_⟩
  have h2 : c - 2 + 1 ≤ g.numberOfClusters := by have := hc.1.1; have := hc.1.2; omega
  have := Nat.mul_le_mul_right g.secsPerCluster h2
  rw [Nat.add_mul, Nat.one_mul] at this
  omega

/-- The `j`th sector, in a cluster of the chain. -/
theorem sectorAt_eq (hj : j / g.secsPerCluster < cs.length) :
    ∃ c ∈ cs, cs[j / g.secsPerCluster]? = some c ∧
      sectorAt g cs j = convertClusterToSectorNum g c + j % g.secsPerCluster := by
  refine ⟨cs[j / g.secsPerCluster], List.getElem_mem hj, List.getElem?_eq_getElem hj, ?_⟩
  rw [sectorAt, List.getD_eq_getElem?_getD, List.getElem?_eq_getElem hj, Option.getD_some]

theorem sectorAt_bounds (h : g.Mounted) (hcs : ∀ c ∈ cs, g.IsData c)
    (hj : j < cs.length * g.secsPerCluster) :
    g.firstDataSector ≤ sectorAt g cs j ∧
      sectorAt g cs j < g.firstDataSector + g.numberOfClusters * g.secsPerCluster := by
  obtain ⟨c, hc, -, he⟩ := sectorAt_eq ((Nat.div_lt_iff_lt_mul h.cluster_pos).mpr hj)
  obtain ⟨h₁, h₂⟩ := clusterSector_bounds h (hcs c hc)
  have := Nat.mod_lt j h.cluster_pos
  omega

/-- The byte reference, by sectors. -/
theorem fileByte_eq {fs : FatFs} (h : fs.params.Mounted) (i : Nat) :
    fileByte fs cs i = fs.storage.bytes
      (sectorAt fs.params cs (i / fs.params.bytesPerSec) * fs.params.bytesPerSec +
        i % fs.params.bytesPerSec) := by
  rw [fileByte, sectorAt, FatParams.bytesPerCluster, ← Nat.div_div_eq_div_mul, Nat.mod_mul,
    Nat.add_mul]
  congr 1
  rw [Nat.mul_comm fs.params.bytesPerSec]
  omega

/-! ### The walk through the table -/

variable {fs : FatFs} {file : FatFile}

/-- The cluster after one of a chain is normal unless it was the last. -/
theorem IsChain.next_eq {start : Nat} (hch : IsChain fs.params fs.rawFat start cs) {k : Nat}
    (hk : cs[k]? = some c) :
    (k + 1 < cs.length → ∃ d, cs[k + 1]? = some d ∧
      readFatEntry fs.params fs.rawFat c = d ∧ fs.params.IsData d) ∧
    (k + 1 = cs.length →
      isNormalClusterNumber fs.params.type (readFatEntry fs.params fs.rawFat c) = false) := by
  obtain ⟨e, hw, he⟩ := hch.walk
  have hne : cs ≠ [] := by rintro rfl; simp at hk
  rw [if_neg hne] at he
  obtain ⟨h₁, h₂⟩ := hw.next_getElem hk
  refine ⟨fun h => ⟨_, h₁ h, rfl, hch.data _ (List.mem_of_getElem? (h₁ h))⟩, fun h => ?_⟩
  rw [h₂ h]
  exact he.not_normal

/-- The loop of `get_disk_sector_from_offset` finds the `i`th cluster, if there is one. -/
theorem followChain_eq {start : Nat} (hch : IsChain fs.params fs.rawFat start cs) {k : Nat}
    (hk : cs[k]? = some c) : ∀ i, followChain fs i c = cs[k + i]? := by
  intro i
  induction i generalizing k c with
  | zero => exact hk.symm
  | succ i ih =>
      obtain ⟨h₁, h₂⟩ := hch.next_eq hk
      have hlt := (List.getElem?_eq_some_iff.mp hk).1
      rw [followChain]
      by_cases hlast : k + 1 = cs.length
      · rw [h₂ hlast, if_neg (by simp)]
        exact (List.getElem?_eq_none (by omega)).symm
      · obtain ⟨d, hd, he, hdata⟩ := h₁ (by omega)
        rw [he, if_pos hdata.2, ih hd]
        congr 1; omega

theorem widenedFirstCluster_eq {g : FatParams} {fat : Bytes} {e : FatDirEntry}
    (hch : IsChain g fat e.firstCluster cs) : e.widenedFirstCluster = e.firstCluster := by
  refine if_pos ?_
  have hlt : e.firstCluster < 2 ^ 28 := by
    obtain rfl | hne := eq_or_ne cs []
    · rw [hch.start_eq_zero_iff.mpr rfl]; decide
    · refine (hch.data _ (hch.start_mem hne)).lt.2.trans_le (Nat.pow_le_pow_right (by decide) ?_)
      cases g.type <;> decide
  rw [FatDirEntry.firstCluster] at hlt
  omega

/-- **Where a file's `j`th sector is**, by a walk from its first cluster. -/
theorem getDiskSectorFromOffset_eq (h : fs.params.Mounted) (hs : file.isSmallFatRootDir = false)
    (hch : IsChain fs.params fs.rawFat file.record.firstCluster cs) (j : Nat) :
    getDiskSectorFromOffset fs file j =
      if j < cs.length * fs.params.secsPerCluster then some (sectorAt fs.params cs j) else none := by
  rw [getDiskSectorFromOffset, if_neg (by simp [hs]), widenedFirstCluster_eq hch]
  have hdiv := Nat.div_lt_iff_lt_mul (x := j) (y := cs.length) h.cluster_pos
  obtain rfl | hne := eq_or_ne cs []
  · -- an empty file: cluster 0 is reserved, and has no entry
    rw [hch.start_eq_zero_iff.mpr rfl, List.length_nil, Nat.zero_mul, if_neg (by omega)]
    cases j / fs.params.secsPerCluster with
    | zero =>
        have hz : convertClusterToSectorNum fs.params 0 = 2 ^ 64 - 1 :=
          if_neg (by simp [isNormalClusterNumber])
        simp only [followChain]
        rw [if_pos hz]
    | succ i =>
        rw [followChain, readFatEntry_out (by unfold FatParams.InTable; omega)]
        simp [isNormalClusterNumber]
  · have h0 : cs[0]? = some file.record.firstCluster := by
      obtain ⟨e, hw, -⟩ := hch.walk
      cases cs with
      | nil => exact absurd rfl hne
      | cons x xs => rw [List.getElem?_cons_zero, hw.1]
    rw [followChain_eq hch h0, Nat.zero_add]
    by_cases hj : j < cs.length * fs.params.secsPerCluster
    · obtain ⟨c, hc, hk, he⟩ := sectorAt_eq (g := fs.params) (hdiv.mpr hj)
      have hb := clusterSector_bounds h (hch.data c hc)
      have h₁ := h.dataRegion
      have h₂ := h.sectors_lt
      rw [hk, if_pos hj, he]
      dsimp only
      rw [if_neg (by omega)]
    · rw [List.getElem?_eq_none (not_lt.mp (mt hdiv.mp hj)), if_neg hj]

/-- The sector after a sector of the file. -/
theorem getNextFileSector_eq {start : Nat} (h : fs.params.Mounted)
    (hch : IsChain fs.params fs.rawFat start cs) (hj : j < cs.length * fs.params.secsPerCluster) :
    getNextFileSector fs (sectorAt fs.params cs j) =
      if j + 1 < cs.length * fs.params.secsPerCluster then some (sectorAt fs.params cs (j + 1))
      else none := by
  have hpos := h.cluster_pos
  have hdiv := Nat.div_lt_iff_lt_mul (x := j) (y := cs.length) hpos
  obtain ⟨c, hc, hk, he⟩ := sectorAt_eq (g := fs.params) (hdiv.mpr hj)
  obtain ⟨hs, hb⟩ := clusterSector_bounds h (hch.data c hc)
  have hmod := Nat.mod_lt j hpos
  have hc2 := (hch.data c hc).1.1
  have h₁ := h.dataRegion
  have hconv : convertSectorToClusterNum fs.params (sectorAt fs.params cs j) =
      some (c, j % fs.params.secsPerCluster) := by
    have hin : sectorAt fs.params cs j - fs.params.firstDataSector =
        j % fs.params.secsPerCluster + fs.params.secsPerCluster * (c - 2) := by
      rw [he, hs, Nat.mul_comm]; omega
    rw [convertSectorToClusterNum, if_neg (by omega)]
    dsimp only
    rw [hin, Nat.add_mul_div_left _ _ hpos, Nat.add_mul_mod_self_left, Nat.div_eq_of_lt hmod,
      Nat.mod_eq_of_lt hmod, Nat.zero_add, Nat.sub_add_cancel hc2]
  rw [getNextFileSector, hconv]
  dsimp only
  obtain ⟨hnext, hlast⟩ := hch.next_eq hk
  have hdm := Nat.div_add_mod j fs.params.secsPerCluster
  by_cases hoff : j % fs.params.secsPerCluster = fs.params.secsPerCluster - 1
  · -- the last sector of its cluster
    have hj1 : j + 1 = fs.params.secsPerCluster * (j / fs.params.secsPerCluster + 1) := by
      rw [Nat.mul_add, Nat.mul_one]; omega
    have hd1 : (j + 1) / fs.params.secsPerCluster = j / fs.params.secsPerCluster + 1 := by
      rw [hj1]; exact Nat.mul_div_cancel_left _ hpos
    have hm1 : (j + 1) % fs.params.secsPerCluster = 0 := by
      rw [hj1]; exact Nat.mul_mod_right _ _
    have hiff : j + 1 < cs.length * fs.params.secsPerCluster ↔
        j / fs.params.secsPerCluster + 1 < cs.length := by
      rw [← hd1]; exact (Nat.div_lt_iff_lt_mul hpos).symm
    rw [if_pos hoff]
    by_cases hmore : j / fs.params.secsPerCluster + 1 < cs.length
    · obtain ⟨d, hd, hde, hdd⟩ := hnext hmore
      rw [hde, if_pos hdd.2, if_pos (hiff.mpr hmore), sectorAt, hd1, hm1,
        List.getD_eq_getElem?_getD, hd, Option.getD_some, Nat.add_zero]
    · have heq : j / fs.params.secsPerCluster + 1 = cs.length := by
        have := hdiv.mpr hj; omega
      rw [hlast heq, if_neg (by simp), if_neg (mt hiff.mp hmore)]
  · have hj1 : j + 1 = j % fs.params.secsPerCluster + 1 +
        fs.params.secsPerCluster * (j / fs.params.secsPerCluster) := by omega
    have hd1 : (j + 1) / fs.params.secsPerCluster = j / fs.params.secsPerCluster := by
      rw [hj1, Nat.add_mul_div_left _ _ hpos, Nat.div_eq_of_lt (by omega), Nat.zero_add]
    have hm1 : (j + 1) % fs.params.secsPerCluster = j % fs.params.secsPerCluster + 1 := by
      rw [hj1, Nat.add_mul_mod_self_left, Nat.mod_eq_of_lt (by omega)]
    rw [if_neg hoff, if_pos ((Nat.div_lt_iff_lt_mul hpos).mp (by rw [hd1]; exact hdiv.mpr hj)),
      sectorAt, sectorAt, hd1, hm1, Nat.add_assoc]

/-- **Where a file's next sector is**; after the last one the number is left as it was. -/
theorem advanceSectorNum_eq {start : Nat} (h : fs.params.Mounted)
    (hs : file.isSmallFatRootDir = false) (hch : IsChain fs.params fs.rawFat start cs)
    (hj : j < cs.length * fs.params.secsPerCluster) :
    advanceSectorNum fs file (sectorAt fs.params cs j) =
      if j + 1 < cs.length * fs.params.secsPerCluster then
        (.noError, sectorAt fs.params cs (j + 1))
      else (.storageError, sectorAt fs.params cs j) := by
  rw [advanceSectorNum, if_neg (by simp [hs]), getNextFileSector_eq h hch hj]
  by_cases hmore : j + 1 < cs.length * fs.params.secsPerCluster
  · rw [if_pos hmore, if_pos hmore]
  · rw [if_neg hmore, if_neg hmore]

end

theorem fourClusters_mounted : fourClusters.Mounted where
  sectorSize := ⟨9, by decide⟩
  cluster_pos := by decide
  cluster_lt := by decide
  numbered := by unfold FatParams.Numbered; decide
  table := by unfold FatParams.HasTable; decide
  tableLength := by decide
  reserved_pos := by decide
  fatRegion := by decide
  rootRegion := by decide
  dataRegion := by decide
  sectors_lt := by decide

end Azalea.Fat
