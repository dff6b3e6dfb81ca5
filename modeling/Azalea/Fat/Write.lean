import Azalea.Fat.Layout

/-!
# Fat — writing a file

`fat_file::write_bytes`, `set_file_size` and `set_file_size_no_write`, and what they use of the
filesystem and of the folder: the change of the chain that goes to the disk, and
`fat_folder::write_fde`, which writes a file's entry and can make the folder grow in the same way.
A panic is `none`.

A file stands in a folder, that folder in another one and so on up to the root directory: `dirs`
is the list of their underlying files.  `folder_parent` of the root directory is a null pointer.

* `writeBody_eq`: a write inside the sectors of a file replaces the bytes written, and nothing
  else on the disk.
* `writeFde_eq`: writing an entry inside a folder.
-/

namespace Azalea.Fat
open Azalea.Memory Azalea.Walks

/-! ### The source -/

/-- `fat_filesystem::write_fat_to_disk`.  Nothing looks at its result. -/
def FatFs.writeFatToDisk (fs : FatFs) : FatFs :=
  { fs with
    storage := (fs.storage.writeBlocks fs.params.rsvdSecCnt fs.params.fatSize fs.rawFat 0
      fs.params.fatLengthBytes).2 }

/-- `fat_filesystem::change_file_chain_length`: its result, the first cluster, and the filesystem.
The table goes to the disk unless the parameters are refused or there is nothing to do. -/
def FatFs.changeFileChainLength (fs : FatFs) (startCluster oldChainLength newChainLength : Nat) :
    ErrCode × Nat × FatFs :=
  let (result, startCluster, rawFat) :=
    Fat.changeFileChainLength fs.params fs.rawFat startCluster oldChainLength newChainLength
  let fs := { fs with rawFat := rawFat }
  if result = .invalidParam ∨ oldChainLength = newChainLength then (result, startCluster, fs)
  else (result, startCluster, fs.writeFatToDisk)

/-- The variables of the loop of `write_bytes`, and the device. -/
structure WriteState where
  ec : ErrCode
  storage : BlockDevice
  bytesWrittenSoFar : Nat
  writeOffset : Nat
  writeSectorNum : Nat
  sectorBuffer : Bytes

/-- Write to one sector.  A part of it is read, changed and written back. -/
def WriteState.put (bytesPerSec bytesFromThisSector : Nat) (buffer : Bytes) (st : WriteState) :
    WriteState :=
  if bytesFromThisSector ≠ bytesPerSec then
    let (ec, sectorBuffer) :=
      st.storage.readBlocks st.writeSectorNum 1 st.sectorBuffer 0 bytesPerSec
    if ec ≠ .noError then { st with ec := ec, sectorBuffer := sectorBuffer }
    else
      let sectorBuffer :=
        blit sectorBuffer st.writeOffset buffer st.bytesWrittenSoFar bytesFromThisSector
      let (ec, storage) := st.storage.writeBlocks st.writeSectorNum 1 sectorBuffer 0 bytesPerSec
      { st with ec := ec, storage := storage, sectorBuffer := sectorBuffer }
  else
    let (ec, storage) := st.storage.writeBlocks st.writeSectorNum 1 buffer st.bytesWrittenSoFar
      bytesFromThisSector
    { st with ec := ec, storage := storage }

/-- One round of the loop of `write_bytes`.  What `advance_sector_num` returns is not looked at. -/
def WriteState.round (fs : FatFs) (file : FatFile) (length : Nat) (buffer : Bytes)
    (st : WriteState) : WriteState :=
  let bytesPerSec := fs.params.bytesPerSec
  let bytesFromThisSector := length - st.bytesWrittenSoFar
  let bytesFromThisSector :=
    if bytesFromThisSector > bytesPerSec then bytesPerSec else bytesFromThisSector
  let bytesFromThisSector :=
    if bytesFromThisSector + st.writeOffset > bytesPerSec then bytesPerSec - st.writeOffset
    else bytesFromThisSector
  let st := st.put bytesPerSec bytesFromThisSector buffer
  if st.ec ≠ .noError then st
  else
    let bytesWrittenSoFar := st.bytesWrittenSoFar + bytesFromThisSector
    { st with
      bytesWrittenSoFar := bytesWrittenSoFar
      writeOffset := 0
      writeSectorNum :=
        if bytesWrittenSoFar < length then (advanceSectorNum fs file st.writeSectorNum).2
        else st.writeSectorNum }

/-- The loop of `write_bytes`.  Every round writes a byte at least, so `length` rounds are enough. -/
def WriteState.loop (fs : FatFs) (file : FatFile) (length : Nat) (buffer : Bytes) :
    Nat → WriteState → WriteState
  | 0, st => st
  | n + 1, st =>
      if st.bytesWrittenSoFar < length ∧ st.ec = .noError then
        loop fs file length buffer n (st.round fs file length buffer)
      else st

/-- The second half of `write_bytes`, after the size of the file is set: the code, the filesystem
and `bytes_written`. -/
def writeBody (fs : FatFs) (file : FatFile) (start length : Nat) (buffer : Bytes)
    (bufferLength : Nat) (ec : ErrCode) : ErrCode × FatFs × Nat :=
  let ec := if length > bufferLength then .invalidParam else ec
  if ec = .noError then
    match getDiskSectorFromOffset fs file (start / fs.params.bytesPerSec) with
    | none => (.storageError, fs, 0)
    | some writeSectorNum =>
        let st := WriteState.loop fs file length buffer length
          ⟨ec, fs.storage, 0, start % fs.params.bytesPerSec, writeSectorNum, fun _ => 0⟩
        (st.ec, { fs with storage := st.storage }, st.bytesWrittenSoFar)
  else (ec, fs, 0)

/-- The number of clusters `set_file_size_no_write` works out for a size. -/
def FatParams.chainLength (g : FatParams) (fileSize : Nat) : Nat :=
  if fileSize > 0 then (fileSize - 1) / (g.bytesPerSec * g.secsPerCluster) + 1 else 0

/-- What `write_fde` of the folder does with an index and an entry: its result, the filesystem,
and the underlying files of the folder and those above it. -/
abbrev WriteFde := FatFs → Nat → FatDirEntry → Option (ErrCode × FatFs × List FatFile)

/-- `fat_file::set_file_size_no_write`, for a file in a folder whose `write_fde` is given. -/
def setFileSizeNoWrite (parent : WriteFde) (fs : FatFs) (file : FatFile) (dirs : List FatFile)
    (fileSize : Nat) : Option (ErrCode × FatFs × FatFile × List FatFile) :=
  if file.isSmallFatRootDir then some (.invalidOp, fs, file, dirs)
  else if fileSize > 2 ^ 32 - 1 then some (.invalidParam, fs, file, dirs)
  else if file.record.isDirectory ∧ fileSize > 65535 * 32 then some (.invalidParam, fs, file, dirs)
  else
    -- directories always fill entire clusters
    let fileSize :=
      if file.record.isDirectory ∧ fileSize > 0 then
        fs.params.chainLength fileSize * (fs.params.bytesPerSec * fs.params.secsPerCluster)
      else fileSize
    let oldChainLength := fs.params.chainLength file.record.fileSize
    let newChainLength := fs.params.chainLength fileSize
    let (result, clusterNumber, fs) :=
      if newChainLength ≠ oldChainLength then
        fs.changeFileChainLength file.record.firstCluster oldChainLength newChainLength
      else (.noError, file.record.firstCluster, fs)
    if result ≠ .noError then some (result, fs, file, dirs)
    else
      let low := clusterNumber % 2 ^ 16
      let high := clusterNumber / 2 ^ 16 % 2 ^ 16
      let moved := file.record.firstClusterHigh ≠ high ∨ file.record.firstClusterLow ≠ low
      if moved ∧ ¬ (fileSize = 0 ∨ file.record.fileSize = 0) then none
      else
        let record := if moved then file.record.setFirstCluster high low else file.record
        -- the entry of a directory has size 0 on the disk
        let record := record.setFileSize (if record.isDirectory then 0 else fileSize)
        match parent fs file.fileRecordIndex record with
        | none => none
        | some (result, fs, dirs) =>
            let record := if record.isDirectory then record.setFileSize fileSize else record
            some (result, fs, { file with record := record }, dirs)

/-- `fat_file::set_file_size`.  The zeroes are written by `write_bytes`, inside the size that has
just been set. -/
def setFileSize (parent : WriteFde) (fs : FatFs) (file : FatFile) (dirs : List FatFile)
    (fileSize : Nat) : Option (ErrCode × FatFs × FatFile × List FatFile) :=
  let oldFileSize := file.record.fileSize
  match setFileSizeNoWrite parent fs file dirs fileSize with
  | none => none
  | some (result, fs, file, dirs) =>
      if result = .noError ∧ fileSize > oldFileSize then
        let newBytes := fileSize - oldFileSize
        let (result, fs, bw) :=
          writeBody fs file oldFileSize newBytes (fun _ => 0) newBytes .noError
        let result := if result = .noError ∧ bw ≠ newBytes then .unknown else result
        some (result, fs, file, dirs)
      else some (result, fs, file, dirs)

/-- `fat_file::write_bytes`, with a buffer that is not null: the code, the filesystem, the file,
the folders, and `bytes_written`. -/
def writeBytes (parent : WriteFde) (fs : FatFs) (file : FatFile) (dirs : List FatFile)
    (start length : Nat) (buffer : Bytes) (bufferLength : Nat) :
    Option (ErrCode × FatFs × FatFile × List FatFile × Nat) :=
  let resized :=
    if file.record.isDirectory = false ∧ (start + length) % 2 ^ 64 > file.record.fileSize then
      setFileSize parent fs file dirs ((start + length) % 2 ^ 64)
    else some (.noError, fs, file, dirs)
  match resized with
  | none => none
  | some (ec, fs, file, dirs) =>
      let (ec, fs, bytesWritten) := writeBody fs file start length buffer bufferLength ec
      some (ec, fs, file, dirs, bytesWritten)

/-- `fat_folder::write_fde`, in the first of `dirs`.  The underlying file of a folder is a directory,
and `write_bytes` does not look at the size of those. -/
def writeFde : List FatFile → WriteFde
  | [], _, _, _ => none
  | dir :: dirs, fs, index, fde =>
      let reqd := (index + 1) % 2 ^ 32 * 32
      let resized :=
        if reqd > dir.record.fileSize then setFileSize (writeFde dirs) fs dir dirs reqd
        else some (.noError, fs, dir, dirs)
      match resized with
      | none => none
      | some (result, fs, dir, dirs') =>
          if result ≠ .noError then some (result, fs, dir :: dirs')
          else
            let (result, fs, br) := writeBody fs dir (index * 32) 32 fde.mem 32 .noError
            let result := if result = .noError ∧ br ≠ 32 then .unknown else result
            some (result, fs, dir :: dirs')

/-! ### One sector -/

section
variable {fs : FatFs} {file : FatFile} {sec : Nat → Nat} {n : Nat}

/-- Writing to a sector of the device replaces the bytes written. -/
theorem WriteState.put_eq {st : WriteState} {k : Nat} (buffer : Bytes)
    (hsec : st.writeSectorNum < st.storage.numBlocks)
    (hk : st.writeOffset + k ≤ st.storage.blockSize) :
    ∃ sectorBuffer, st.put st.storage.blockSize k buffer =
      { st with
        ec := .noError
        storage := st.storage.withBytes (blit st.storage.bytes
          (st.writeSectorNum * st.storage.blockSize + st.writeOffset) buffer
          st.bytesWrittenSoFar k)
        sectorBuffer := sectorBuffer } := by
  have hread : ∀ buf, st.storage.readBlocks st.writeSectorNum 1 buf 0 st.storage.blockSize =
      (.noError, blit buf 0 st.storage.bytes (st.writeSectorNum * st.storage.blockSize)
        st.storage.blockSize) := fun buf => by
    rw [BlockDevice.readBlocks, if_pos ⟨by omega, fun _ => Nat.one_ne_zero, by omega⟩, Nat.one_mul]
  have hwrite : ∀ buf off, st.storage.writeBlocks st.writeSectorNum 1 buf off
      st.storage.blockSize =
      (.noError, st.storage.withBytes (blit st.storage.bytes
        (st.writeSectorNum * st.storage.blockSize) buf off st.storage.blockSize)) := by
    intro buf off
    rw [BlockDevice.writeBlocks, if_pos ⟨by omega, fun _ => Nat.one_ne_zero, by omega⟩, Nat.one_mul]
    rfl
  rw [WriteState.put]
  by_cases hpart : k = st.storage.blockSize
  · subst hpart
    have h0 : st.writeOffset = 0 := by omega
    rw [if_neg (by simp), hwrite]
    exact ⟨_, by rw [h0, Nat.add_zero]⟩
  · rw [if_pos hpart, hread]
    dsimp only
    rw [if_neg (by simp), hwrite]
    dsimp only
    rw [blit_back hk]
    exact ⟨_, rfl⟩

/-! ### The loop -/

/-- The loop of `write_bytes` between two rounds: the bytes written so far are those of the buffer,
and the next sector and the offset in it are known. -/
structure WriteInv (fs : FatFs) (sec : Nat → Nat) (start length : Nat) (buffer : Bytes)
    (st : WriteState) : Prop where
  ec : st.ec = .noError
  le : st.bytesWrittenSoFar ≤ length
  device : st.storage = fs.storage.withBytes st.storage.bytes
  place : st.bytesWrittenSoFar < length →
    st.writeOffset = (start + st.bytesWrittenSoFar) % fs.params.bytesPerSec ∧
    st.writeSectorNum = sec ((start + st.bytesWrittenSoFar) / fs.params.bytesPerSec)
  patched : Patched fs.params.bytesPerSec sec fs.storage.bytes st.storage.bytes buffer start
    st.bytesWrittenSoFar

/-- **One round** goes to the end of the request or of the sector. -/
theorem WriteInv.round {start length : Nat} {buffer : Bytes} {st : WriteState} (h : fs.Mounted)
    (hl : LaidOut fs file sec n) (hend : start + length ≤ n * fs.params.bytesPerSec)
    (hi : WriteInv fs sec start length buffer st) (hlt : st.bytesWrittenSoFar < length) :
    WriteInv fs sec start length buffer (st.round fs file length buffer) ∧
      st.bytesWrittenSoFar < (st.round fs file length buffer).bytesWrittenSoFar := by
  have hpos := h.params.sector_pos
  obtain ⟨hoff, hsec⟩ := hi.place hlt
  have hmod := Nat.mod_lt (start + st.bytesWrittenSoFar) hpos
  have hdm := Nat.div_add_mod (start + st.bytesWrittenSoFar) fs.params.bytesPerSec
  have hj : (start + st.bytesWrittenSoFar) / fs.params.bytesPerSec < n :=
    (Nat.div_lt_iff_lt_mul hpos).mpr (by omega)
  have hbs : st.storage.blockSize = fs.params.bytesPerSec :=
    (show st.storage.blockSize = fs.storage.blockSize by rw [hi.device]; rfl).trans h.blockSize
  -- the number of bytes this round writes
  obtain ⟨k, hk⟩ : ∃ k, k = min (length - st.bytesWrittenSoFar)
      (fs.params.bytesPerSec - st.writeOffset) := ⟨_, rfl⟩
  have hnum : (if (if length - st.bytesWrittenSoFar > fs.params.bytesPerSec then
        fs.params.bytesPerSec else length - st.bytesWrittenSoFar) + st.writeOffset >
        fs.params.bytesPerSec then fs.params.bytesPerSec - st.writeOffset
      else if length - st.bytesWrittenSoFar > fs.params.bytesPerSec then fs.params.bytesPerSec
        else length - st.bytesWrittenSoFar) = k := by
    split <;> split at * <;> omega
  have hstored : st.writeSectorNum < st.storage.numBlocks := by
    have h₁ := hl.stored _ hj
    have h₂ := h.numBlocks
    have h₃ : st.storage.numBlocks = fs.storage.numBlocks := by rw [hi.device]; rfl
    omega
  obtain ⟨sb, hput⟩ := st.put_eq (k := k) buffer hstored (by omega)
  have haddr : st.writeSectorNum * st.storage.blockSize + st.writeOffset =
      addr fs.params.bytesPerSec sec (start + st.bytesWrittenSoFar) := by
    rw [hsec, hoff, hbs, addr]
  rw [WriteState.round]
  dsimp only
  rw [hnum, ← hbs, hput, haddr]
  dsimp only
  rw [if_neg (by simp)]
  refine ⟨⟨rfl, by dsimp only; omega, ?_, fun hmore => ?_, ?_⟩, by dsimp only; omega⟩
  · dsimp only
    conv_lhs => rw [hi.device]
    rfl
  · -- the round ends with its sector
    dsimp only at hmore ⊢
    have hk' : k = fs.params.bytesPerSec - st.writeOffset := by omega
    have hnext : start + (st.bytesWrittenSoFar + k) = fs.params.bytesPerSec *
        ((start + st.bytesWrittenSoFar) / fs.params.bytesPerSec + 1) := by
      rw [Nat.mul_add, Nat.mul_one]; omega
    rw [hnext, Nat.mul_mod_right, Nat.mul_div_cancel_left _ hpos, if_pos hmore]
    refine ⟨rfl, ?_⟩
    rw [hsec]
    refine hl.next _ ((Nat.mul_lt_mul_left hpos).mp ?_)
    rw [← hnext, Nat.mul_comm _ n]
    omega
  · refine hi.patched.append hpos hl.distinct (by omega) ?_
    exact patched_blit hpos _ _ _ _ _ (by omega)

/-- **The loop** writes what is left. -/
theorem WriteInv.loop {start length : Nat} {buffer : Bytes} (h : fs.Mounted)
    (hl : LaidOut fs file sec n) (hend : start + length ≤ n * fs.params.bytesPerSec) (k : Nat) :
    ∀ {st : WriteState}, WriteInv fs sec start length buffer st →
      length - st.bytesWrittenSoFar ≤ k →
      WriteInv fs sec start length buffer (st.loop fs file length buffer k) ∧
        (st.loop fs file length buffer k).bytesWrittenSoFar = length := by
  induction k with
  | zero =>
      intro st hi hk
      have := hi.le
      exact ⟨hi, by rw [WriteState.loop]; omega⟩
  | succ k ih =>
      intro st hi hk
      rw [WriteState.loop]
      by_cases hlt : st.bytesWrittenSoFar < length
      · rw [if_pos ⟨hlt, hi.ec⟩]
        obtain ⟨hi', hgt⟩ := hi.round h hl hend hlt
        exact ih hi' (by omega)
      · rw [if_neg fun hc => hlt hc.1]
        have := hi.le
        exact ⟨hi, by omega⟩

/-- The filesystem with other bytes on its device. -/
def FatFs.withBytes (fs : FatFs) (m : Bytes) : FatFs :=
  { fs with storage := fs.storage.withBytes m }

/-- **A write inside the sectors of a file** replaces the bytes written, and nothing else. -/
theorem writeBody_eq {start length bufferLength : Nat} (buffer : Bytes) (h : fs.Mounted)
    (hl : LaidOut fs file sec n) (hstart : start < n * fs.params.bytesPerSec)
    (hend : start + length ≤ n * fs.params.bytesPerSec) (hbuf : length ≤ bufferLength) :
    ∃ m, writeBody fs file start length buffer bufferLength .noError =
        (.noError, fs.withBytes m, length) ∧
      Patched fs.params.bytesPerSec sec fs.storage.bytes m buffer start length := by
  have hj : start / fs.params.bytesPerSec < n :=
    (Nat.div_lt_iff_lt_mul h.params.sector_pos).mpr hstart
  rw [writeBody]
  dsimp only
  rw [if_neg (show ¬ length > bufferLength by omega), if_pos rfl, hl.found _ hj]
  have h0 : WriteInv fs sec start length buffer
      ⟨.noError, fs.storage, 0, start % fs.params.bytesPerSec,
        sec (start / fs.params.bytesPerSec), fun _ => 0⟩ :=
    ⟨rfl, Nat.zero_le _, rfl, fun _ => ⟨rfl, rfl⟩, Patched.refl ..⟩
  obtain ⟨hi, hso⟩ := WriteInv.loop h hl hend length h0 (by omega)
  refine ⟨_, ?_, hso ▸ hi.patched⟩
  dsimp only
  rw [hi.ec, hso]
  exact congrArg (fun d => (ErrCode.noError, { fs with storage := d }, length)) hi.device

end

end Azalea.Fat
