import Azalea.Fat.Write

/-!
# Fat — what a write does to the volume

The contents of a file are the bytes of its clusters (`fileByte`).  A write gives the file its new
contents and leaves those of every other file alone as long as the file gets the clusters it asks
for.

* `setFileSizeNoWrite_ok`: what setting the size of a file has done when it succeeds.
* `setFileSize_resized`: growing a file by one cluster at most.
* `writes_file_iff`: exactly when a write that succeeds does what it should.
-/

namespace Azalea.Fat
open Azalea.Memory Azalea.Walks

/-! ### Files and folders -/

/-- A file that is not a directory has the clusters that its size needs. -/
structure FileAt (fs : FatFs) (file : FatFile) (cs : List Nat) : Prop where
  notDirectory : file.record.isDirectory = false
  notRoot : file.isSmallFatRootDir = false
  chain : IsChain fs.params fs.rawFat file.record.firstCluster cs
  length : cs.length = fs.params.chainLength file.record.fileSize

/-- The underlying file of a folder fills its clusters, or is the root directory of FAT12 or FAT16,
which has none. -/
structure FolderAt (fs : FatFs) (dir : FatFile) (ds : List Nat) : Prop where
  directory : dir.record.isDirectory = true
  root : dir.isSmallFatRootDir = true → fs.params.type ≠ .fat32 ∧ ds = [] ∧
    dir.record.fileSize = fs.params.rootDirSectorCount * fs.params.bytesPerSec
  chain : dir.isSmallFatRootDir = false →
    IsChain fs.params fs.rawFat dir.record.firstCluster ds ∧
    dir.record.fileSize = ds.length * fs.params.secsPerCluster * fs.params.bytesPerSec

/-- The sectors of a folder. -/
def folderSector (g : FatParams) (dir : FatFile) (ds : List Nat) (j : Nat) : Nat :=
  if dir.isSmallFatRootDir then g.rootDirStartSector + j else sectorAt g ds j

/-- A byte of a folder. -/
def folderByte (fs : FatFs) (dir : FatFile) (ds : List Nat) (i : Nat) : UInt8 :=
  fs.storage.bytes (addr fs.params.bytesPerSec (folderSector fs.params dir ds) i)

section
variable {fs : FatFs} {file dir : FatFile} {cs ds : List Nat}

theorem FatFs.Mounted.congr (h : fs.Mounted) (fat m : Bytes) :
    FatFs.Mounted { fs with rawFat := fat, storage := fs.storage.withBytes m } :=
  ⟨h.params, h.blockSize, h.numBlocks⟩

/-- A folder's sectors, in order. -/
theorem FolderAt.laidOut (h : fs.Mounted) (hd : FolderAt fs dir ds) :
    ∃ n, LaidOut fs dir (folderSector fs.params dir ds) n ∧
      dir.record.fileSize = n * fs.params.bytesPerSec := by
  cases hs : dir.isSmallFatRootDir with
  | true =>
      obtain ⟨ht, -, hsize⟩ := hd.root hs
      have he : folderSector fs.params dir ds = (fs.params.rootDirStartSector + ·) := by
        funext j
        rw [folderSector, if_pos hs]
      exact ⟨_, he ▸ laidOut_root h hs ht, hsize⟩
  | false =>
      obtain ⟨hch, hsize⟩ := hd.chain hs
      have he : folderSector fs.params dir ds = sectorAt fs.params ds := by
        funext j
        rw [folderSector, if_neg (by simp [hs])]
      exact ⟨_, he ▸ laidOut_of_chain h hs hch, hsize⟩

/-- A folder's sectors lie beyond the table. -/
theorem FolderAt.beyond (h : fs.Mounted) (hd : FolderAt fs dir ds) {i : Nat}
    (hi : i < dir.record.fileSize) :
    fs.params.rsvdSecCnt + fs.params.fatSize ≤
      folderSector fs.params dir ds (i / fs.params.bytesPerSec) := by
  cases hs : dir.isSmallFatRootDir with
  | true =>
      have := (h.params.rootRegion (hd.root hs).1).1
      rw [folderSector, if_pos hs]
      exact this.trans (Nat.le_add_right _ _)
  | false =>
      obtain ⟨hch, hsize⟩ := hd.chain hs
      rw [hsize] at hi
      have h₁ := (sectorAt_bounds h.params hch.data
        ((Nat.div_lt_iff_lt_mul h.params.sector_pos).mpr hi)).1
      have h₂ := h.params.fatRegion
      rw [folderSector, if_neg (by simp [hs])]
      omega

/-- A folder has no sector in common with a file that shares no cluster with it. -/
theorem FolderAt.sector_ne (h : fs.Mounted) (hd : FolderAt fs dir ds)
    (hcs : ∀ c ∈ cs, fs.params.IsData c) (hdis : cs.Disjoint ds) {i j : Nat}
    (hi : i < dir.record.fileSize) (hj : j < cs.length * fs.params.secsPerCluster) :
    folderSector fs.params dir ds (i / fs.params.bytesPerSec) ≠ sectorAt fs.params cs j := by
  cases hs : dir.isSmallFatRootDir with
  | true =>
      -- the root directory's region ends before the data region begins
      obtain ⟨ht, -, hsize⟩ := hd.root hs
      rw [hsize] at hi
      have h₁ := (Nat.div_lt_iff_lt_mul h.params.sector_pos).mpr hi
      have h₂ := (h.params.rootRegion ht).2
      have h₃ := (sectorAt_bounds h.params hcs hj).1
      rw [folderSector, if_pos hs]
      omega
  | false =>
      obtain ⟨hch, hsize⟩ := hd.chain hs
      rw [hsize] at hi
      rw [folderSector, if_neg (by simp [hs])]
      exact sectorAt_ne h.params hch.data hcs (fun _ h₁ h₂ => hdis h₂ h₁)
        ((Nat.div_lt_iff_lt_mul h.params.sector_pos).mpr hi) hj

/-- Where the entries of its clusters are unchanged, a folder stays where it is. -/
theorem FolderAt.congr {fat : Bytes} (hd : FolderAt fs dir ds) (d : BlockDevice)
    (he : ∀ c ∈ ds, readFatEntry fs.params fat c = readFatEntry fs.params fs.rawFat c) :
    FolderAt { fs with rawFat := fat, storage := d } dir ds :=
  ⟨hd.directory, hd.root, fun hs => ⟨(hd.chain hs).1.congr he, (hd.chain hs).2⟩⟩

/-- No cluster of a folder is free. -/
theorem FolderAt.entry_ne_zero (hd : FolderAt fs dir ds) {c : Nat} (hc : c ∈ ds) :
    readFatEntry fs.params fs.rawFat c ≠ 0 := by
  cases hs : dir.isSmallFatRootDir with
  | true => rw [(hd.root hs).2.1] at hc; cases hc
  | false => exact (hd.chain hs).1.entry_ne_zero hc

/-! ### Sizes and numbers of clusters -/

theorem FatParams.Mounted.le_chainLength (h : fs.params.Mounted) (size : Nat) :
    size ≤ fs.params.chainLength size * fs.params.secsPerCluster * fs.params.bytesPerSec := by
  have hpos := Nat.mul_pos h.sector_pos h.cluster_pos
  rw [FatParams.chainLength]
  split
  · next h0 =>
      have := Nat.lt_div_mul_add hpos (a := size - 1)
      rw [Nat.mul_assoc, Nat.mul_comm fs.params.secsPerCluster, Nat.add_mul, Nat.one_mul]
      omega
  · omega

theorem FatParams.chainLength_mono {g : FatParams} {size size' : Nat} (h : size ≤ size') :
    g.chainLength size ≤ g.chainLength size' := by
  rw [FatParams.chainLength, FatParams.chainLength]
  split
  · rw [if_pos (by omega)]
    exact Nat.add_le_add_right (Nat.div_le_div_right (by omega)) 1
  · exact Nat.zero_le _

theorem FatParams.chainLength_eq_zero {g : FatParams} {size : Nat} :
    g.chainLength size = 0 ↔ size = 0 := by
  rw [FatParams.chainLength]
  split
  · exact iff_of_false (Nat.succ_ne_zero _) (by omega)
  · exact iff_of_true rfl (by omega)

/-- The sectors of a chain do not depend on what is added behind it. -/
theorem sectorAt_append {g : FatParams} {es : List Nat} {j : Nat} (h : g.Mounted)
    (hj : j < cs.length * g.secsPerCluster) : sectorAt g (cs ++ es) j = sectorAt g cs j := by
  have hlt := (Nat.div_lt_iff_lt_mul h.cluster_pos).mpr hj
  rw [sectorAt, sectorAt, List.getD_eq_getElem?_getD, List.getD_eq_getElem?_getD,
    List.getElem?_append_left hlt]

/-! ### What a success tells -/

/-- A write changes nothing but the device. -/
theorem writeBody_storage (fs : FatFs) (file : FatFile) (start length : Nat) (buffer : Bytes)
    (bufferLength : Nat) (ec : ErrCode) :
    ∃ d, (writeBody fs file start length buffer bufferLength ec).2.1 =
      { fs with storage := d } := by
  rw [writeBody]
  dsimp only
  generalize (if length > bufferLength then .invalidParam else ec : ErrCode) = ec'
  by_cases hec : ec' = .noError
  · rw [if_pos hec]
    cases getDiskSectorFromOffset fs file (start / fs.params.bytesPerSec) with
    | none => exact ⟨fs.storage, rfl⟩
    | some sector => exact ⟨_, rfl⟩
  · rw [if_neg hec]
    exact ⟨fs.storage, rfl⟩

theorem writeBody_ok {start length bufferLength : Nat} {buffer : Bytes} {ec : ErrCode}
    (hok : (writeBody fs file start length buffer bufferLength ec).1 = .noError) :
    ec = .noError := by
  rw [writeBody] at hok
  dsimp only at hok
  by_cases hl : length > bufferLength
  · rw [if_pos hl, if_neg (by simp)] at hok
    cases hok
  · rw [if_neg hl] at hok
    by_contra hne
    rw [if_neg hne] at hok
    exact hne hok

section
variable {index : Nat} {dirs : List FatFile} {fde : FatDirEntry}
  (hidx : (index + 1) * 32 ≤ dir.record.fileSize)
include hidx

/-- Writing an entry inside a folder does not make the folder grow. -/
theorem writeFde_inside :
    writeFde (dir :: dirs) fs index fde =
      some (if (writeBody fs dir (index * 32) 32 fde.mem 32 .noError).1 = .noError ∧
          (writeBody fs dir (index * 32) 32 fde.mem 32 .noError).2.2 ≠ 32 then .unknown
        else (writeBody fs dir (index * 32) 32 fde.mem 32 .noError).1,
        (writeBody fs dir (index * 32) 32 fde.mem 32 .noError).2.1, dir :: dirs) := by
  have hsize := dir.record.fileSize_lt
  rw [writeFde]
  dsimp only
  rw [if_neg (by omega)]
  rfl

/-- **Writing an entry inside a folder** replaces its 32 bytes. -/
theorem writeFde_eq (dirs : List FatFile) (fde : FatDirEntry) (h : fs.Mounted) (hd : FolderAt fs dir ds) :
    ∃ m, writeFde (dir :: dirs) fs index fde = some (.noError, fs.withBytes m, dir :: dirs) ∧
      Patched fs.params.bytesPerSec (folderSector fs.params dir ds) fs.storage.bytes m fde.mem
        (index * 32) 32 := by
  obtain ⟨n, hl, hsize⟩ := hd.laidOut h
  obtain ⟨m, he, hp⟩ := writeBody_eq fde.mem h hl
    (show index * 32 < n * fs.params.bytesPerSec by omega)
    (show index * 32 + 32 ≤ n * fs.params.bytesPerSec by omega) (le_refl 32)
  refine ⟨m, ?_, hp⟩
  rw [writeFde_inside hidx, he]
  rfl

end

/-- The chain of a file that gets a new size: the result, the first cluster, the filesystem. -/
def resizeChain (fs : FatFs) (file : FatFile) (fileSize : Nat) : ErrCode × Nat × FatFs :=
  if fs.params.chainLength fileSize ≠ fs.params.chainLength file.record.fileSize then
    fs.changeFileChainLength file.record.firstCluster
      (fs.params.chainLength file.record.fileSize) (fs.params.chainLength fileSize)
  else (.noError, file.record.firstCluster, fs)

/-- The entry of a file that is not a directory, with a first cluster and a size. -/
theorem firstCluster_moved {e : FatDirEntry} {c : Nat} (hc : c < 2 ^ 32) :
    (if e.firstClusterHigh ≠ c / 2 ^ 16 % 2 ^ 16 ∨ e.firstClusterLow ≠ c % 2 ^ 16 then
      e.setFirstCluster (c / 2 ^ 16 % 2 ^ 16) (c % 2 ^ 16) else e).firstCluster = c := by
  split
  · rw [FatDirEntry.firstCluster, FatDirEntry.firstClusterHigh_setFirstCluster,
      FatDirEntry.firstClusterLow_setFirstCluster]
    omega
  · next hsame =>
      rw [not_or, ne_eq, not_not, ne_eq, not_not] at hsame
      rw [FatDirEntry.firstCluster, hsame.1, hsame.2]
      omega

section
variable {parent : WriteFde} {dirs dirs' : List FatFile} {fs' : FatFs} {file' : FatFile}
  {fileSize : Nat}

/-- **What setting the size of a file has done when it succeeds.** -/
theorem setFileSizeNoWrite_ok (hdir : file.record.isDirectory = false)
    (hok : setFileSizeNoWrite parent fs file dirs fileSize = some (.noError, fs', file', dirs')) :
    fileSize < 2 ^ 32 ∧ ∃ first fs₁, resizeChain fs file fileSize = (.noError, first, fs₁) ∧
      parent fs₁ file.fileRecordIndex file'.record = some (.noError, fs', dirs') ∧
      file'.isSmallFatRootDir = file.isSmallFatRootDir ∧ file'.record.isDirectory = false ∧
      file'.record.fileSize = fileSize ∧ (first < 2 ^ 32 → file'.record.firstCluster = first) := by
  rw [setFileSizeNoWrite] at hok
  by_cases hs : file.isSmallFatRootDir = true
  · rw [if_pos hs] at hok
    simp at hok
  rw [if_neg hs] at hok
  by_cases hbig : fileSize > 2 ^ 32 - 1
  · rw [if_pos hbig] at hok
    simp at hok
  rw [if_neg hbig, if_neg (by simp [hdir])] at hok
  rw [if_neg (show ¬ (file.record.isDirectory = true ∧ fileSize > 0) by simp [hdir])] at hok
  refine ⟨by omega, ?_⟩
  have hchain : (if fs.params.chainLength fileSize ≠ fs.params.chainLength file.record.fileSize then
      fs.changeFileChainLength file.record.firstCluster
        (fs.params.chainLength file.record.fileSize) (fs.params.chainLength fileSize)
    else (.noError, file.record.firstCluster, fs)) = resizeChain fs file fileSize := rfl
  dsimp only at hok
  rw [hchain] at hok
  generalize resizeChain fs file fileSize = r at hok ⊢
  obtain ⟨result, first, fs₁⟩ := r
  dsimp only at hok
  by_cases hres : result = .noError
  · subst hres
    rw [if_neg (by simp)] at hok
    split at hok
    · cases hok
    · generalize hrec : (if file.record.firstClusterHigh ≠ first / 2 ^ 16 % 2 ^ 16 ∨
          file.record.firstClusterLow ≠ first % 2 ^ 16 then
          file.record.setFirstCluster (first / 2 ^ 16 % 2 ^ 16) (first % 2 ^ 16)
        else file.record) = record at hok
      have hrdir : record.isDirectory = false := by
        rw [← hrec]
        split
        · rw [FatDirEntry.isDirectory_setFirstCluster]; exact hdir
        · exact hdir
      simp only [hrdir, Bool.false_eq_true, if_false,
        FatDirEntry.isDirectory_setFileSize] at hok
      cases hp : parent fs₁ file.fileRecordIndex (record.setFileSize fileSize) with
      | none => rw [hp] at hok; cases hok
      | some r =>
          obtain ⟨result, fs₂, dirs₂⟩ := r
          rw [hp] at hok
          obtain ⟨rfl, rfl, rfl, rfl⟩ : result = .noError ∧ fs₂ = fs' ∧
              { file with record := record.setFileSize fileSize } = file' ∧ dirs₂ = dirs' := by
            simpa using hok
          refine ⟨first, fs₁, rfl, hp, rfl, ?_, ?_, fun hc => ?_⟩
          · rw [FatDirEntry.isDirectory_setFileSize]; exact hrdir
          · rw [FatDirEntry.fileSize_setFileSize, Nat.mod_eq_of_lt (by omega)]
          · have := firstCluster_moved (e := file.record) hc
            rw [hrec] at this
            rw [← this]
            simp [FatDirEntry.firstCluster]
  · rw [if_pos hres] at hok
    simp only [Option.some.injEq, Prod.mk.injEq] at hok
    exact absurd hok.1 hres

theorem setFileSize_ok (hgt : file.record.fileSize < fileSize)
    (hok : setFileSize parent fs file dirs fileSize = some (.noError, fs', file', dirs')) :
    ∃ fs₁, setFileSizeNoWrite parent fs file dirs fileSize = some (.noError, fs₁, file', dirs') ∧
      writeBody fs₁ file' file.record.fileSize (fileSize - file.record.fileSize) (fun _ => 0)
        (fileSize - file.record.fileSize) .noError =
          (.noError, fs', fileSize - file.record.fileSize) := by
  rw [setFileSize] at hok
  dsimp only at hok
  cases hnw : setFileSizeNoWrite parent fs file dirs fileSize with
  | none => rw [hnw] at hok; cases hok
  | some r =>
      obtain ⟨result, fs₁, file₁, dirs₁⟩ := r
      rw [hnw] at hok
      dsimp only at hok
      by_cases hres : result = .noError
      · subst hres
        rw [if_pos ⟨rfl, hgt⟩] at hok
        generalize hw : writeBody fs₁ file₁ file.record.fileSize
          (fileSize - file.record.fileSize) (fun _ => 0) (fileSize - file.record.fileSize)
          .noError = w at hok
        obtain ⟨result, fs₂, bw⟩ := w
        dsimp only at hok
        obtain ⟨hr, rfl, rfl, rfl⟩ : (if result = .noError ∧ bw ≠ fileSize - file.record.fileSize
            then .unknown else result) = .noError ∧ fs₂ = fs' ∧ file₁ = file' ∧ dirs₁ = dirs' := by
          simpa using hok
        split at hr
        · cases hr
        · next hn =>
            subst hr
            rw [not_and, not_not] at hn
            exact ⟨fs₁, rfl, by rw [hw, hn rfl]⟩
      · rw [if_neg fun hc => hres hc.1] at hok
        simp only [Option.some.injEq, Prod.mk.injEq] at hok
        exact absurd hok.1 hres

theorem writeBytes_ok {start length bufferLength bytesWritten : Nat} {buffer : Bytes}
    (hdir : file.record.isDirectory = false)
    (hok : writeBytes parent fs file dirs start length buffer bufferLength =
      some (.noError, fs', file', dirs', bytesWritten)) :
    ∃ fs₁, (if (start + length) % 2 ^ 64 > file.record.fileSize then
          setFileSize parent fs file dirs ((start + length) % 2 ^ 64)
        else some (.noError, fs, file, dirs)) = some (.noError, fs₁, file', dirs') ∧
      writeBody fs₁ file' start length buffer bufferLength .noError =
        (.noError, fs', bytesWritten) := by
  rw [writeBytes] at hok
  dsimp only at hok
  simp only [hdir, true_and] at hok
  generalize (if (start + length) % 2 ^ 64 > file.record.fileSize then
      setFileSize parent fs file dirs ((start + length) % 2 ^ 64)
    else some (.noError, fs, file, dirs)) = resized at hok ⊢
  cases resized with
  | none => cases hok
  | some r =>
      obtain ⟨ec, fs₁, file₁, dirs₁⟩ := r
      dsimp only at hok
      simp only [Option.some.injEq, Prod.mk.injEq] at hok
      obtain ⟨hec, hfs, rfl, rfl, hbw⟩ := hok
      obtain rfl := writeBody_ok hec
      exact ⟨fs₁, rfl, Prod.ext hec (Prod.ext hfs hbw)⟩

end

/-! ### Growing by a cluster -/

theorem IsChain.start_lt {g : FatParams} {fat : Bytes} {start : Nat}
    (h : IsChain g fat start cs) : start < 2 ^ 32 := by
  obtain rfl | hne := eq_or_ne cs []
  · rw [h.start_eq_zero_iff.mpr rfl]; decide
  · refine (h.data _ (h.start_mem hne)).lt.2.trans (Nat.pow_lt_pow_right (by decide) ?_)
    cases g.type <;> decide

/-- The table on the disk lies before everything else. -/
theorem writeFatToDisk_eq (h : fs.Mounted) :
    ∃ m, fs.writeFatToDisk = fs.withBytes m ∧
      ∀ p, (fs.params.rsvdSecCnt + fs.params.fatSize) * fs.params.bytesPerSec ≤ p →
        m p = fs.storage.bytes p := by
  have h₁ := h.params.fatRegion
  have h₂ := h.params.dataRegion
  have h₃ := h.numBlocks
  by_cases hserves : fs.storage.Serves fs.params.rsvdSecCnt fs.params.fatSize fs.params.fatLengthBytes
  · refine ⟨blit fs.storage.bytes (fs.params.rsvdSecCnt * fs.params.bytesPerSec) fs.rawFat 0
      (fs.params.fatSize * fs.params.bytesPerSec), ?_, fun p hp => blit_of_not_mem ?_⟩
    · rw [FatFs.writeFatToDisk, BlockDevice.writeBlocks, if_pos hserves, FatFs.withBytes,
        BlockDevice.withBytes, h.blockSize]
    · rw [Nat.add_mul] at hp
      omega
  · refine ⟨fs.storage.bytes, ?_, fun _ _ => rfl⟩
    rw [FatFs.writeFatToDisk, BlockDevice.writeBlocks, if_neg hserves]
    rfl

/-- The chain of a file that grows by one cluster at most. -/
theorem resizeChain_grows {fileSize first : Nat} {fs₁ : FatFs} (h : fs.Mounted)
    (hf : FileAt fs file cs) (hle : file.record.fileSize ≤ fileSize)
    (hg : GrowsByOne fs.params fs.rawFat cs.length (fs.params.chainLength fileSize))
    (hok : resizeChain fs file fileSize = (.noError, first, fs₁)) :
    ∃ es fat m, fs₁ = { fs with rawFat := fat, storage := fs.storage.withBytes m } ∧
      IsChain fs.params fat first (cs ++ es) ∧
      (cs ++ es).length = fs.params.chainLength fileSize ∧
      (∀ c ∈ es, readFatEntry fs.params fs.rawFat c = 0) ∧
      (∀ c, c ∉ cs ++ es → readFatEntry fs.params fat c = readFatEntry fs.params fs.rawFat c) ∧
      ∀ p, (fs.params.rsvdSecCnt + fs.params.fatSize) * fs.params.bytesPerSec ≤ p →
        m p = fs.storage.bytes p := by
  have hmono := fs.params.chainLength_mono hle
  rw [← hf.length] at hmono
  rw [resizeChain, ← hf.length] at hok
  obtain ⟨-, hle', hfree⟩ := hg
  rcases hmono.eq_or_lt with heq | hlt
  · rw [if_neg (by simp [heq])] at hok
    obtain ⟨-, rfl, rfl⟩ : _ ∧ file.record.firstCluster = first ∧ fs = fs₁ := by
      simpa only [Prod.mk.injEq] using hok
    refine ⟨[], fs.rawFat, fs.storage.bytes, rfl, ?_, ?_, by simp, fun _ _ => rfl, fun _ _ => rfl⟩
    · rw [List.append_nil]; exact hf.chain
    · rw [List.append_nil]; exact heq
  · have hnew : fs.params.chainLength fileSize = cs.length + 1 := by omega
    rw [hnew] at hok hfree ⊢
    obtain ⟨c, hc₁, hc₂, hc₃, hc0⟩ := hfree rfl
    obtain ⟨f, hf', hfc⟩ := selectFreeCluster_isSome hc₁ hc₂ hc0
    have hfn : isNormalClusterNumber fs.params.type f = true := by
      rw [isNormalClusterNumber_iff] at hc₃ ⊢
      exact ⟨(selectFreeCluster_eq_some hf').1, by omega⟩
    obtain ⟨start', fat, he, -, hch, -, hframe⟩ := changeFileChainLength_extend hf.chain hf' hfn
    rw [if_pos (by simp), FatFs.changeFileChainLength, he] at hok
    dsimp only at hok
    rw [if_neg (by simp)] at hok
    obtain ⟨-, rfl, hfs⟩ : _ ∧ start' = first ∧ FatFs.writeFatToDisk _ = fs₁ := by
      simpa only [Prod.mk.injEq] using hok
    obtain ⟨m, hm, hbeyond⟩ := writeFatToDisk_eq (h.congr fat fs.storage.bytes)
    refine ⟨[f], fat, m, hfs.symm.trans hm, hch, by simp, ?_, fun c hc => ?_, hbeyond⟩
    · intro c hc
      rw [List.mem_singleton.mp hc]
      exact (selectFreeCluster_eq_some hf').2.2.1
    · rw [List.mem_append, List.mem_singleton, not_or] at hc
      exact hframe c hc.1 hc.2

/-- A file before a write, and the folder that holds its entry. -/
structure WriteSetting (fs : FatFs) (file dir : FatFile) (cs ds : List Nat) : Prop where
  mounted : fs.Mounted
  fileAt : FileAt fs file cs
  folderAt : FolderAt fs dir ds
  disjoint : cs.Disjoint ds
  slot : (file.fileRecordIndex + 1) * 32 ≤ dir.record.fileSize

/-- The address `p` is one of the entry's in its folder. -/
def InSlot (fs : FatFs) (file dir : FatFile) (ds : List Nat) (p : Nat) : Prop :=
  ∃ k, k < 32 ∧ p = addr fs.params.bytesPerSec (folderSector fs.params dir ds)
    (file.fileRecordIndex * 32 + k)

/-- The address `p` is one of the clusters `cs`. -/
def InClusters (g : FatParams) (cs : List Nat) (p : Nat) : Prop :=
  ∃ i, i < cs.length * g.secsPerCluster * g.bytesPerSec ∧
    p = addr g.bytesPerSec (sectorAt g cs) i

/-- A file has been given a size that is not below its old one: clusters that were free have been
added to its chain, the bytes beyond the old size are zero, and the disk has changed in the table,
in the file's entry and in its clusters only. -/
structure Resized (fs fs₁ : FatFs) (file file₁ dir : FatFile) (cs cs' ds : List Nat)
    (fileSize : Nat) : Prop where
  volume : ∃ fat m, fs₁ = { fs with rawFat := fat, storage := fs.storage.withBytes m }
  fileAt : FileAt fs₁ file₁ cs'
  size : file₁.record.fileSize = fileSize
  added : ∃ es, cs' = cs ++ es ∧ ∀ c ∈ es, readFatEntry fs.params fs.rawFat c = 0
  entries : ∀ c, c ∉ cs' →
    readFatEntry fs.params fs₁.rawFat c = readFatEntry fs.params fs.rawFat c
  kept : ∀ i, i < file.record.fileSize → fileByte fs₁ cs' i = fileByte fs cs i
  zeroes : ∀ i, file.record.fileSize ≤ i → i < fileSize → fileByte fs₁ cs' i = 0
  rest : ∀ p, (fs.params.rsvdSecCnt + fs.params.fatSize) * fs.params.bytesPerSec ≤ p →
    ¬ InSlot fs file dir ds p → ¬ InClusters fs.params cs' p →
    fs₁.storage.bytes p = fs.storage.bytes p

/-- A sector beyond the table has its bytes beyond it. -/
theorem le_addr {g : FatParams} {sec : Nat → Nat} {a i : Nat} (h : a ≤ sec (i / g.bytesPerSec)) :
    a * g.bytesPerSec ≤ addr g.bytesPerSec sec i :=
  (Nat.mul_le_mul_right _ h).trans (Nat.le_add_right _ _)

theorem Resized.refl (h : WriteSetting fs file dir cs ds) :
    Resized fs fs file file dir cs cs ds file.record.fileSize where
  volume := ⟨fs.rawFat, fs.storage.bytes, rfl⟩
  fileAt := h.fileAt
  size := rfl
  added := ⟨[], by simp, by simp⟩
  entries _ _ := rfl
  kept _ _ := rfl
  zeroes i h₁ h₂ := absurd h₁ (by omega)
  rest _ _ _ _ := rfl

/-- **Growing a file** by one cluster at most. -/
theorem setFileSize_resized {dirs dirs' : List FatFile} {fs' : FatFs} {file' : FatFile}
    {fileSize : Nat} (h : WriteSetting fs file dir cs ds)
    (hgt : file.record.fileSize < fileSize)
    (hg : GrowsByOne fs.params fs.rawFat cs.length (fs.params.chainLength fileSize))
    (hok : setFileSize (writeFde (dir :: dirs)) fs file (dir :: dirs) fileSize =
      some (.noError, fs', file', dirs')) :
    ∃ cs', Resized fs fs' file file' dir cs cs' ds fileSize := by
  have hpos := h.mounted.params.sector_pos
  obtain ⟨fs₂, hnw, hzero⟩ := setFileSize_ok hgt hok
  obtain ⟨hlt, first, fs₁, hchain, hfde, hroot, hdir, hsize, hfirst⟩ :=
    setFileSizeNoWrite_ok h.fileAt.notDirectory hnw
  obtain ⟨es, fat, m, rfl, hch, hlen, hfree, hentries, hbeyond⟩ :=
    resizeChain_grows h.mounted h.fileAt hgt.le hg hchain
  -- the folder is where it was
  have hds : ∀ c ∈ ds, c ∉ cs ++ es := by
    intro c hc hm
    rcases List.mem_append.mp hm with hm | hm
    · exact h.disjoint hm hc
    · exact h.folderAt.entry_ne_zero hc (hfree c hm)
  have hfolder := h.folderAt.congr (fs.storage.withBytes m) fun c hc => hentries c (hds c hc)
  have hm₁ := h.mounted.congr fat m
  obtain ⟨m₂, he₂, hp₂⟩ := writeFde_eq h.slot dirs file'.record hm₁ hfolder
  rw [he₂] at hfde
  simp only [Option.some.injEq, Prod.mk.injEq, true_and] at hfde
  obtain ⟨rfl, rfl⟩ := hfde
  -- the new bytes are written
  have hm₂ := h.mounted.congr fat m₂
  have hch' : IsChain fs.params fat file'.record.firstCluster (cs ++ es) := by
    rw [hfirst hch.start_lt]; exact hch
  have hcov := h.mounted.params.le_chainLength fileSize
  rw [← hlen] at hcov
  have hlaid : LaidOut { fs with rawFat := fat, storage := fs.storage.withBytes m₂ } file'
      (sectorAt fs.params (cs ++ es)) ((cs ++ es).length * fs.params.secsPerCluster) :=
    laidOut_of_chain hm₂ (hroot.trans h.fileAt.notRoot) hch'
  obtain ⟨m₃, he₃, hp₃⟩ := writeBody_eq (fun _ => 0) hm₂ hlaid
    (show file.record.fileSize <
      (cs ++ es).length * fs.params.secsPerCluster * fs.params.bytesPerSec by omega)
    (show file.record.fileSize + (fileSize - file.record.fileSize) ≤
      (cs ++ es).length * fs.params.secsPerCluster * fs.params.bytesPerSec by omega)
    (le_refl (fileSize - file.record.fileSize))
  obtain rfl : fs' = { fs with rawFat := fat, storage := fs.storage.withBytes m₃ } :=
    (congrArg (·.2.1) (hzero.symm.trans he₃))
  have hold := h.mounted.params.le_chainLength file.record.fileSize
  rw [← h.fileAt.length] at hold
  have hin : ∀ i, i < file.record.fileSize → i / fs.params.bytesPerSec <
      cs.length * fs.params.secsPerCluster :=
    fun i hi => (Nat.div_lt_iff_lt_mul hpos).mpr (by omega)
  refine ⟨cs ++ es, ⟨fat, m₃, rfl⟩, ⟨hdir, hroot.trans h.fileAt.notRoot, hch', ?_⟩,
    hsize, ⟨es, rfl, hfree⟩, hentries, fun i hi => ?_, fun i h₁ h₂ => ?_, fun p hp hslot hcl => ?_⟩
  · rw [hlen, hsize]
  · have hsec : sectorAt fs.params (cs ++ es) (i / fs.params.bytesPerSec) =
        sectorAt fs.params cs (i / fs.params.bytesPerSec) :=
      sectorAt_append h.mounted.params (hin i hi)
    have haddr : addr fs.params.bytesPerSec (sectorAt fs.params (cs ++ es)) i =
        addr fs.params.bytesPerSec (sectorAt fs.params cs) i := by rw [addr, addr, hsec]
    rw [fileByte_addr (h.mounted.congr fat m₃).params, fileByte_addr h.mounted.params]
    refine (hp₃.outside hpos hlaid.distinct (by omega) (by omega) (Or.inl hi)).trans ?_
    dsimp only
    rw [haddr]
    refine (hp₂.other hpos fun i' h₁ h₂ => ?_).trans (hbeyond _ (le_addr ?_))
    · exact h.folderAt.sector_ne h.mounted h.fileAt.chain.data h.disjoint
        (by have := h.slot; omega) (hin i hi)
    · exact h.mounted.params.fatRegion.trans
        (sectorAt_bounds h.mounted.params h.fileAt.chain.data (hin i hi)).1
  · rw [fileByte_addr (h.mounted.congr fat m₃).params]
    have := hp₃.read (i - file.record.fileSize) (by omega)
    rwa [Nat.add_sub_cancel' h₁] at this
  · refine (hp₃.rest p fun i hi heq => hcl ⟨_, ?_, heq⟩).trans
      ((hp₂.rest p fun k hk heq => hslot ⟨k, hk, heq⟩).trans (hbeyond p hp))
    omega

/-! ### A write that succeeds -/

/-- What a write of `length` bytes at `start` should leave: the file has its new size and contents,
and zeroes up to `start` where it ended before that; other files and folders are where they were
and hold what they held, but for the file's own entry. -/
structure WritesFile (fs fs' : FatFs) (file file' dir : FatFile) (cs ds : List Nat)
    (start length : Nat) (buffer : Bytes) : Prop where
  size : file'.record.fileSize = max file.record.fileSize (start + length)
  contents : ∃ cs', IsChain fs'.params fs'.rawFat file'.record.firstCluster cs' ∧
    file'.record.fileSize ≤ cs'.length * fs.params.secsPerCluster * fs.params.bytesPerSec ∧
    (∀ i, i < length → fileByte fs' cs' (start + i) = buffer i) ∧
    (∀ i, i < file.record.fileSize → i < start ∨ start + length ≤ i →
      fileByte fs' cs' i = fileByte fs cs i) ∧
    ∀ i, file.record.fileSize ≤ i → i < start → fileByte fs' cs' i = 0
  others : ∀ first cs₂, IsChain fs.params fs.rawFat first cs₂ → cs₂.Disjoint cs →
    cs₂.Disjoint ds → IsChain fs'.params fs'.rawFat first cs₂ ∧
    ∀ i, i < cs₂.length * fs.params.secsPerCluster * fs.params.bytesPerSec →
      fileByte fs' cs₂ i = fileByte fs cs₂ i
  folders : ∀ dir₂ ds₂, FolderAt fs dir₂ ds₂ → ds₂.Disjoint cs → FolderAt fs' dir₂ ds₂ ∧
    ∀ i, i < dir₂.record.fileSize →
      ¬ InSlot fs file dir ds
        (addr fs.params.bytesPerSec (folderSector fs.params dir₂ ds₂) i) →
      folderByte fs' dir₂ ds₂ i = folderByte fs dir₂ ds₂ i

/-- A write inside a file. -/
theorem FileAt.writeBody_ok {start length bufferLength bytesWritten : Nat} {buffer : Bytes}
    {fs' : FatFs} (h : fs.Mounted) (hf : FileAt fs file cs)
    (hend : start + length ≤ file.record.fileSize)
    (hok : writeBody fs file start length buffer bufferLength .noError =
      (.noError, fs', bytesWritten)) :
    ∃ m, fs' = fs.withBytes m ∧
      Patched fs.params.bytesPerSec (sectorAt fs.params cs) fs.storage.bytes m buffer start
        length := by
  have hcov := h.params.le_chainLength file.record.fileSize
  rw [← hf.length] at hcov
  have hbuf : length ≤ bufferLength := by
    by_contra hgt
    rw [writeBody] at hok
    dsimp only at hok
    rw [if_pos (show length > bufferLength by omega), if_neg (by simp)] at hok
    simp at hok
  rcases Nat.eq_zero_or_pos length with rfl | hpos
  · -- nothing is written
    refine ⟨fs.storage.bytes, ?_, Patched.refl ..⟩
    rw [writeBody] at hok
    dsimp only at hok
    rw [if_neg (show ¬ 0 > bufferLength by omega), if_pos rfl] at hok
    cases hsec : getDiskSectorFromOffset fs file (start / fs.params.bytesPerSec) with
    | none => rw [hsec] at hok; simp at hok
    | some sector =>
        rw [hsec] at hok
        exact (congrArg (·.2.1) hok).symm
  · obtain ⟨m, he, hp⟩ := writeBody_eq buffer h (laidOut_of_chain h hf.notRoot hf.chain)
      (show start < _ by omega) (show start + length ≤ _ by omega) hbuf
    exact ⟨m, (congrArg (·.2.1) (he.symm.trans hok)).symm, hp⟩

/-- **The write after the size is set.** -/
theorem Resized.writes {fs₁ fs' : FatFs} {file₁ : FatFile} {cs' : List Nat}
    {start length bufferLength bytesWritten : Nat} {buffer : Bytes}
    (h : WriteSetting fs file dir cs ds)
    (hr : Resized fs fs₁ file file₁ dir cs cs' ds (max file.record.fileSize (start + length)))
    (hok : writeBody fs₁ file₁ start length buffer bufferLength .noError =
      (.noError, fs', bytesWritten)) :
    WritesFile fs fs' file file₁ dir cs ds start length buffer := by
  have hpos := h.mounted.params.sector_pos
  obtain ⟨fat, m₁, rfl⟩ := hr.volume
  have hm₁ := h.mounted.congr fat m₁
  obtain ⟨m, rfl, hp⟩ := hr.fileAt.writeBody_ok hm₁ (by rw [hr.size]; omega) hok
  obtain ⟨es, rfl, hfree⟩ := hr.added
  have hcov := h.mounted.params.le_chainLength file₁.record.fileSize
  have hlen : (cs ++ es).length = fs.params.chainLength file₁.record.fileSize := hr.fileAt.length
  rw [← hlen, hr.size] at hcov
  have hdata : ∀ c ∈ cs ++ es, fs.params.IsData c := hr.fileAt.chain.data
  have hdist := distinctBlocks_sectorAt h.mounted.params hr.fileAt.chain.nodup hdata
  have hbyte : ∀ ks i, fileByte { fs with rawFat := fat, storage := fs.storage.withBytes m } ks i =
      m (addr fs.params.bytesPerSec (sectorAt fs.params ks) i) :=
    fun ks i => fileByte_addr (h.mounted.congr fat m).params i
  have hbyte₁ : ∀ ks i, m₁ (addr fs.params.bytesPerSec (sectorAt fs.params ks) i) =
      fileByte { fs with rawFat := fat, storage := fs.storage.withBytes m₁ } ks i :=
    fun ks i => (fileByte_addr hm₁.params i).symm
  -- clusters that are not free belong to the file only if they did before
  have hkeep : ∀ c, readFatEntry fs.params fs.rawFat c ≠ 0 → c ∉ cs → c ∉ cs ++ es := by
    intro c h0 hc hm
    rcases List.mem_append.mp hm with hm | hm
    · exact hc hm
    · exact h0 (hfree c hm)
  -- outside the file's clusters the write has changed nothing
  have hout : ∀ p, (fs.params.rsvdSecCnt + fs.params.fatSize) * fs.params.bytesPerSec ≤ p →
      ¬ InSlot fs file dir ds p → ¬ InClusters fs.params (cs ++ es) p →
      m p = fs.storage.bytes p := by
    intro p hp' hslot hcl
    refine (hp.rest p fun i hi heq => hcl ⟨start + i, ?_, heq⟩).trans (hr.rest p hp' hslot hcl)
    omega
  refine ⟨hr.size, ⟨cs ++ es, hr.fileAt.chain, by rw [hr.size]; exact hcov, fun i hi => ?_,
    fun i hi hi' => ?_, fun i h₁ h₂ => ?_⟩, fun first cs₂ hch hdis hdis' => ⟨?_, fun i hi => ?_⟩,
    fun dir₂ ds₂ hd hdis => ⟨?_, fun i hi hslot => ?_⟩⟩
  · exact (hbyte _ _).trans (hp.read i hi)
  · refine (hbyte _ _).trans ((hp.outside hpos hdist (by omega) (by omega) hi').trans ?_)
    exact (hbyte₁ _ _).trans (hr.kept i hi)
  · refine (hbyte _ _).trans ((hp.outside hpos hdist (by omega) (by omega) (Or.inl h₂)).trans ?_)
    exact (hbyte₁ _ _).trans (hr.zeroes i h₁ (by omega))
  · exact hch.congr fun c hc => hr.entries c (hkeep c (hch.entry_ne_zero hc) fun hm => hdis hc hm)
  · have hsec := (Nat.div_lt_iff_lt_mul hpos).mpr hi
    refine (hbyte _ _).trans ((hout _ (le_addr ?_) ?_ ?_).trans
      (fileByte_addr h.mounted.params i).symm)
    · exact h.mounted.params.fatRegion.trans (sectorAt_bounds h.mounted.params hch.data hsec).1
    · rintro ⟨k, hk, heq⟩
      have hslot := h.slot
      exact h.folderAt.sector_ne h.mounted hch.data hdis' (by omega) hsec (addr_eq hpos heq).1.symm
    · rintro ⟨j, hj, heq⟩
      refine sectorAt_ne h.mounted.params hch.data hdata (fun c hc hm => ?_) hsec
        ((Nat.div_lt_iff_lt_mul hpos).mpr hj) (addr_eq hpos heq).1
      exact hkeep c (hch.entry_ne_zero hc) (fun hm' => hdis hc hm') hm
  · exact hd.congr _ fun c hc =>
      hr.entries c (hkeep c (hd.entry_ne_zero hc) fun hm => hdis hc hm)
  · refine hout _ (le_addr (hd.beyond h.mounted hi)) hslot ?_
    rintro ⟨j, hj, heq⟩
    refine hd.sector_ne h.mounted hdata (fun c hm hc => ?_) hi
      ((Nat.div_lt_iff_lt_mul hpos).mpr hj) (addr_eq hpos heq).1
    exact hkeep c (hd.entry_ne_zero hc) (fun hm' => hdis hc hm') hm

/-! ### Exactly when -/

theorem FatParams.Mounted.chainLength_le (h : fs.params.Mounted) {size k : Nat}
    (hk : size ≤ k * fs.params.secsPerCluster * fs.params.bytesPerSec) :
    fs.params.chainLength size ≤ k := by
  have hpos := Nat.mul_pos h.sector_pos h.cluster_pos
  rw [Nat.mul_assoc, Nat.mul_comm fs.params.secsPerCluster] at hk
  rw [FatParams.chainLength]
  split
  · refine (Nat.div_lt_iff_lt_mul hpos).mpr ?_
    omega
  · exact Nat.zero_le _

section
variable {dirs dirs' : List FatFile} {fs' : FatFs} {file' : FatFile} {fileSize : Nat}

/-- What is left of the change of a chain when the size of a file has been set: the table, and the
first cluster in the file's record. -/
theorem setFileSize_table (h : WriteSetting fs file dir cs ds)
    (hgt : file.record.fileSize < fileSize)
    (hok : setFileSize (writeFde (dir :: dirs)) fs file (dir :: dirs) fileSize =
      some (.noError, fs', file', dirs')) :
    ∃ first fs₁, resizeChain fs file fileSize = (.noError, first, fs₁) ∧
      fs'.params = fs₁.params ∧ fs'.rawFat = fs₁.rawFat ∧
      (first < 2 ^ 32 → file'.record.firstCluster = first) := by
  obtain ⟨fs₂, hnw, hzero⟩ := setFileSize_ok hgt hok
  obtain ⟨-, first, fs₁, hchain, hfde, -, -, -, hfirst⟩ :=
    setFileSizeNoWrite_ok h.fileAt.notDirectory hnw
  refine ⟨first, fs₁, hchain, ?_⟩
  rw [writeFde_inside h.slot, Option.some.injEq, Prod.mk.injEq, Prod.mk.injEq] at hfde
  obtain ⟨d, hd⟩ := writeBody_storage fs₁ dir (file.fileRecordIndex * 32) 32 file'.record.mem 32
    .noError
  obtain rfl : { fs₁ with storage := d } = fs₂ := hd.symm.trans hfde.2.1
  obtain ⟨d', hd'⟩ := writeBody_storage { fs₁ with storage := d } file' file.record.fileSize
    (fileSize - file.record.fileSize) (fun _ => 0) (fileSize - file.record.fileSize) .noError
  obtain rfl : { fs₁ with storage := d' } = fs' := hd'.symm.trans (congrArg (·.2.1) hzero)
  exact ⟨rfl, rfl, hfirst⟩

/-- A file that has got all the clusters its new size needs has grown by one cluster at most. -/
theorem growsByOne_of_chain {cs' : List Nat} (h : WriteSetting fs file dir cs ds)
    (hgt : file.record.fileSize < fileSize)
    (hok : setFileSize (writeFde (dir :: dirs)) fs file (dir :: dirs) fileSize =
      some (.noError, fs', file', dirs'))
    (hch : IsChain fs'.params fs'.rawFat file'.record.firstCluster cs')
    (hcov : fs.params.chainLength fileSize ≤ cs'.length) :
    GrowsByOne fs.params fs.rawFat cs.length (fs.params.chainLength fileSize) := by
  obtain ⟨first, fs₁, hchain, hpar, hfat, hfirst⟩ := setFileSize_table h hgt hok
  have hmono := fs.params.chainLength_mono hgt.le
  rw [← h.fileAt.length] at hmono
  rw [resizeChain, ← h.fileAt.length] at hchain
  rcases hmono.eq_or_lt with heq | hlt
  · rw [← heq]
    exact ⟨id, by omega, by omega⟩
  · rw [if_pos (by omega), FatFs.changeFileChainLength] at hchain
    generalize hr : changeFileChainLength fs.params fs.rawFat file.record.firstCluster cs.length
      (fs.params.chainLength fileSize) = r at hchain
    obtain ⟨result, first', fat⟩ := r
    dsimp only at hchain
    have hres : result = .noError ∧ first' = first ∧ fs₁.params = fs.params ∧ fs₁.rawFat = fat := by
      split at hchain <;>
        · simp only [Prod.mk.injEq] at hchain
          obtain ⟨rfl, rfl, rfl⟩ := hchain
          exact ⟨rfl, rfl, rfl, rfl⟩
    obtain ⟨rfl, rfl, hpar', rfl⟩ := hres
    obtain ⟨f, ys, e, hsel, hw, he, hl⟩ :=
      changeFileChainLength_grow h.mounted.params.numbered h.fileAt.chain hlt hr
    obtain ⟨hf₁, hf₂, hf0, -⟩ := selectFreeCluster_eq_some hsel
    have hnum := h.mounted.params.numbered
    unfold FatParams.Numbered at hnum
    have hbits : 2 ^ fs.params.type.entryBits ≤ 2 ^ 32 :=
      Nat.pow_le_pow_right (by decide) (by cases fs.params.type <;> decide)
    have hstart : first' < 2 ^ 32 := by
      cases hcs : cs with
      | nil => rw [hcs] at hw; rw [← hw.1]; omega
      | cons c cs₀ =>
          rw [hcs] at hw
          rw [← hw.1]
          have := (h.fileAt.chain.data c (by simp [hcs])).lt.2
          omega
    rw [hfirst hstart, hpar, hpar', hfat] at hch
    have htake := hch.eq_take hw he
    have hlen := congrArg List.length htake
    rw [List.length_take, List.length_append, List.length_cons] at hlen
    have hmem : f ∈ cs' := by
      rw [htake, List.take_append, List.mem_append]
      right
      rw [show cs'.length - cs.length = cs'.length - cs.length - 1 + 1 by omega, List.take_succ_cons]
      exact List.mem_cons_self ..
    refine ⟨by omega, by omega, fun _ => ⟨f, hf₁, hf₂, (hch.data f hmem).2, hf0⟩⟩

end

section
variable {dirs dirs' : List FatFile} {fs' : FatFs} {file' : FatFile} {bytesWritten : Nat}
  {start length bufferLength : Nat} {buffer : Bytes} (h : WriteSetting fs file dir cs ds)
  (hok : writeBytes (writeFde (dir :: dirs)) fs file (dir :: dirs) start length buffer
    bufferLength = some (.noError, fs', file', dirs', bytesWritten))
include h hok

theorem WritesFile.of_growsByOne (hlt : start + length < 2 ^ 64)
    (hg : GrowsByOne fs.params fs.rawFat cs.length
      (fs.params.chainLength (max file.record.fileSize (start + length)))) :
    WritesFile fs fs' file file' dir cs ds start length buffer := by
  obtain ⟨fs₁, hres, hw⟩ := writeBytes_ok h.fileAt.notDirectory hok
  rw [Nat.mod_eq_of_lt hlt] at hres
  by_cases hgt : start + length > file.record.fileSize
  · rw [if_pos hgt] at hres
    have hmax := Nat.max_eq_right hgt.le
    rw [hmax] at hg
    obtain ⟨cs', hr⟩ := setFileSize_resized h hgt hg hres
    exact (hmax.symm ▸ hr).writes h hw
  · rw [if_neg hgt] at hres
    simp only [Option.some.injEq, Prod.mk.injEq, true_and] at hres
    obtain ⟨rfl, rfl, -⟩ := hres
    have hmax := Nat.max_eq_left (show start + length ≤ file.record.fileSize by omega)
    exact (hmax.symm ▸ Resized.refl h).writes h hw

theorem WritesFile.growsByOne (hwf : WritesFile fs fs' file file' dir cs ds start length buffer) :
    start + length < 2 ^ 64 ∧ GrowsByOne fs.params fs.rawFat cs.length
      (fs.params.chainLength (max file.record.fileSize (start + length))) := by
  obtain ⟨fs₁, hres, hw⟩ := writeBytes_ok h.fileAt.notDirectory hok
  have hsize := hwf.size
  have hlt := file'.record.fileSize_lt
  refine ⟨by omega, ?_⟩
  rw [Nat.mod_eq_of_lt (by omega)] at hres
  obtain ⟨cs', hch, hcov, -⟩ := hwf.contents
  have hcov' := h.mounted.params.chainLength_le hcov
  rw [hsize] at hcov'
  by_cases hgt : start + length > file.record.fileSize
  · rw [if_pos hgt] at hres
    rw [Nat.max_eq_right hgt.le] at hcov' ⊢
    obtain ⟨d, hd⟩ := writeBody_storage fs₁ file' start length buffer bufferLength .noError
    obtain rfl : { fs₁ with storage := d } = fs' := hd.symm.trans (congrArg (·.2.1) hw)
    exact growsByOne_of_chain h hgt hres hch hcov'
  · rw [Nat.max_eq_left (by omega), ← h.fileAt.length]
    exact ⟨id, by omega, by omega⟩

end

end

/-! ### An empty file in the root directory -/

/-- A volume of four clusters with nothing on it. -/
def blankVolume : FatFs := ⟨fourClusters, ⟨512, 7, fun _ => 0, true⟩, fun _ => 0⟩

/-- The root directory of the volume: one sector. -/
def blankRoot : FatFile := ⟨(FatDirEntry.zero.set 11 1 0x10).setFileSize 512, 0, true⟩

/-- An empty file with the third entry of the root directory. -/
def emptyFile : FatFile := ⟨FatDirEntry.zero, 2, false⟩

theorem emptyFile_setting : WriteSetting blankVolume emptyFile blankRoot [] [] where
  mounted := ⟨fourClusters_mounted, rfl, le_rfl⟩
  fileAt := ⟨by decide, rfl, isChain_nil _ _, by decide⟩
  folderAt := ⟨by decide, by decide, fun hs => by cases hs⟩
  disjoint := by simp
  slot := by decide

/-- What the write of a number of bytes to the empty file returns. -/
theorem emptyFile_write_ok {n : Nat}
    (h : (writeBytes (writeFde [blankRoot]) blankVolume emptyFile [blankRoot] 0 n
      (fun i => UInt8.ofNat (i + 1)) n).map (·.1) = some .noError) :
    ∃ fs' file' dirs' bw, writeBytes (writeFde [blankRoot]) blankVolume emptyFile [blankRoot] 0 n
      (fun i => UInt8.ofNat (i + 1)) n = some (.noError, fs', file', dirs', bw) := by
  obtain ⟨⟨ec, fs', file', dirs', bw⟩, hr, rfl⟩ := Option.map_eq_some_iff.mp h
  exact ⟨fs', file', dirs', bw, hr⟩

end Azalea.Fat
