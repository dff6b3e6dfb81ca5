import Azalea.Fat.ChainFailures
import Azalea.Fat.WriteFile

/-!
# Fat — what a refused write leaves

`fat_file::write_bytes` looks at its buffer first, then makes the file longer, and then looks at the
buffer's length; all three have one result variable.  A call is `Refusable` when one of the two checks or
the change of size should stop it.

* `setFileSize_cases`: a change of size that goes wrong does so before anything has changed, with the
  chain half made, or with the new size in the file's record.
* `refused_write_unchanged_iff`: exactly when a refusable call returns an error and changes nothing.
-/

namespace Azalea.Fat
open Azalea.Memory

/-! ### The source -/

/-- The second half of `write_bytes` with a null buffer.  It is not looked at before a part of a sector
has been read to be changed. -/
def writeBodyNull (fs : FatFs) (file : FatFile) (start length bufferLength : Nat) (ec : ErrCode) :
    Option (ErrCode × FatFs × Nat) :=
  let ec := if length > bufferLength then .invalidParam else ec
  if ec = .noError then
    match getDiskSectorFromOffset fs file (start / fs.params.bytesPerSec) with
    | none => some (.storageError, fs, 0)
    | some writeSectorNum =>
        let bytesPerSec := fs.params.bytesPerSec
        let bytesFromThisSector := if length > bytesPerSec then bytesPerSec else length
        if length = 0 then some (.noError, fs, 0)
        else if bytesFromThisSector + start % bytesPerSec > bytesPerSec
            ∨ bytesFromThisSector ≠ bytesPerSec then
          let (ec, _) := fs.storage.readBlocks writeSectorNum 1 (fun _ => 0) 0 bytesPerSec
          if ec ≠ .noError then some (ec, fs, 0) else none
        else none
  else some (ec, fs, 0)

/-- The file has to become longer before it is written. -/
def Extends (file : FatFile) (start length : Nat) : Prop :=
  file.record.isDirectory = false ∧ (start + length) % 2 ^ 64 > file.record.fileSize

instance (file : FatFile) (start length : Nat) : Decidable (Extends file start length) :=
  inferInstanceAs (Decidable (_ ∧ _))

/-- `fat_file::write_bytes`, with a null pointer for `none`. -/
def writeBytesFrom (parent : WriteFde) (fs : FatFs) (file : FatFile) (dirs : List FatFile)
    (start length : Nat) (buffer : Option Bytes) (bufferLength : Nat) :
    Option (ErrCode × FatFs × FatFile × List FatFile × Nat) :=
  let ec := if buffer.isNone then .invalidParam else .noError
  let resized :=
    if Extends file start length then setFileSize parent fs file dirs ((start + length) % 2 ^ 64)
    else some (ec, fs, file, dirs)
  match resized with
  | none => none
  | some (ec, fs, file, dirs) =>
      match buffer with
      | none =>
          (writeBodyNull fs file start length bufferLength ec).map fun (ec, fs, bytesWritten) =>
            (ec, fs, file, dirs, bytesWritten)
      | some buffer =>
          let (ec, fs, bytesWritten) := writeBody fs file start length buffer bufferLength ec
          some (ec, fs, file, dirs, bytesWritten)

/-! ### The change of size -/

section
variable {parent : WriteFde} {fs fs' : FatFs} {file file' : FatFile} {dirs dirs' : List FatFile}
  {fileSize : Nat} {ec : ErrCode}

/-- Why setting the size stops before the record of the file is touched: with the code it returns and
what it leaves. -/
inductive Stops (fs : FatFs) (file : FatFile) (fileSize : Nat) : ErrCode → FatFs → Prop where
  | root : file.isSmallFatRootDir = true → Stops fs file fileSize .invalidOp fs
  | large : 2 ^ 32 ≤ fileSize → Stops fs file fileSize .invalidParam fs
  | chain : file.isSmallFatRootDir = false → fileSize < 2 ^ 32 →
      (resizeChain fs file fileSize).1 ≠ .noError →
      Stops fs file fileSize (resizeChain fs file fileSize).1 (resizeChain fs file fileSize).2.2

theorem Stops.ne_noError (h : Stops fs file fileSize ec fs') : ec ≠ .noError := by
  cases h with
  | root _ => decide
  | large _ => decide
  | chain _ _ h => exact h

/-- Setting the size stops early, or leaves the new size in the record. -/
theorem setFileSizeNoWrite_cases (hdir : file.record.isDirectory = false) :
    (∃ ec fs', Stops fs file fileSize ec fs' ∧ setFileSizeNoWrite parent fs file dirs fileSize
        = some (ec, fs', file, dirs))
    ∨ (file.isSmallFatRootDir = false ∧ fileSize < 2 ^ 32
        ∧ (resizeChain fs file fileSize).1 = .noError
        ∧ ∀ ec fs' file' dirs', setFileSizeNoWrite parent fs file dirs fileSize
            = some (ec, fs', file', dirs') → file'.record.fileSize = fileSize) := by
  rw [setFileSizeNoWrite]
  by_cases hs : file.isSmallFatRootDir = true
  · rw [if_pos hs]
    exact .inl ⟨_, _, .root hs, rfl⟩
  rw [if_neg hs]
  by_cases hbig : fileSize > 2 ^ 32 - 1
  · rw [if_pos hbig]
    exact .inl ⟨_, _, .large (by omega), rfl⟩
  rw [if_neg hbig, if_neg (by simp [hdir])]
  rw [if_neg (show ¬ (file.record.isDirectory = true ∧ fileSize > 0) by simp [hdir])]
  have hroot : file.isSmallFatRootDir = false := Bool.eq_false_iff.mpr hs
  have hchain : (if fs.params.chainLength fileSize ≠ fs.params.chainLength file.record.fileSize then
      fs.changeFileChainLength file.record.firstCluster
        (fs.params.chainLength file.record.fileSize) (fs.params.chainLength fileSize)
    else (.noError, file.record.firstCluster, fs)) = resizeChain fs file fileSize := rfl
  dsimp only
  rw [hchain]
  have hstop : (resizeChain fs file fileSize).1 ≠ .noError →
      Stops fs file fileSize (resizeChain fs file fileSize).1 (resizeChain fs file fileSize).2.2 :=
    .chain hroot (by omega)
  generalize resizeChain fs file fileSize = r at hstop ⊢
  obtain ⟨result, first, fs₁⟩ := r
  dsimp only at hstop ⊢
  by_cases hres : result = .noError
  · rw [if_neg (not_not.mpr hres)]
    refine .inr ⟨hroot, by omega, hres, fun ec fs' file' dirs' hok => ?_⟩
    have hsize : ∀ e : FatDirEntry, (e.setFileSize fileSize).fileSize = fileSize := by
      intro e
      rw [FatDirEntry.fileSize_setFileSize, Nat.mod_eq_of_lt (by omega)]
    split at hok
    · cases hok
    · generalize (if file.record.firstClusterHigh ≠ first / 2 ^ 16 % 2 ^ 16
          ∨ file.record.firstClusterLow ≠ first % 2 ^ 16 then
          file.record.setFirstCluster (first / 2 ^ 16 % 2 ^ 16) (first % 2 ^ 16)
        else file.record) = record at hok
      cases hp : parent fs₁ file.fileRecordIndex
          (record.setFileSize (if record.isDirectory = true then 0 else fileSize)) with
      | none => rw [hp] at hok; cases hok
      | some r =>
          rw [hp] at hok
          simp only [Option.some.injEq, Prod.mk.injEq, FatDirEntry.isDirectory_setFileSize] at hok
          obtain ⟨-, -, rfl, -⟩ := hok
          cases hd : record.isDirectory with
          | true => simp only [if_true, hsize]
          | false => simp only [Bool.false_eq_true, if_false, hsize]
  · rw [if_pos hres]
    exact .inl ⟨_, _, hstop hres, rfl⟩

theorem setFileSize_cases (hdir : file.record.isDirectory = false) :
    (∃ ec fs', Stops fs file fileSize ec fs' ∧ setFileSize parent fs file dirs fileSize
        = some (ec, fs', file, dirs))
    ∨ (file.isSmallFatRootDir = false ∧ fileSize < 2 ^ 32
        ∧ (resizeChain fs file fileSize).1 = .noError
        ∧ ∀ ec fs' file' dirs', setFileSize parent fs file dirs fileSize
            = some (ec, fs', file', dirs') → file'.record.fileSize = fileSize) := by
  rw [setFileSize]
  dsimp only
  rcases setFileSizeNoWrite_cases hdir with ⟨ec, fs', hstop, hnw⟩ | ⟨hroot, hlt, hres, hnw⟩
  · rw [hnw]
    dsimp only
    rw [if_neg fun h => hstop.ne_noError h.1]
    exact .inl ⟨ec, fs', hstop, rfl⟩
  · refine .inr ⟨hroot, hlt, hres, fun ec fs' file' dirs' hok => ?_⟩
    cases h : setFileSizeNoWrite parent fs file dirs fileSize with
    | none => rw [h] at hok; cases hok
    | some r =>
        obtain ⟨result, fs₁, file₁, dirs₁⟩ := r
        rw [h] at hok
        dsimp only at hok
        have hsize := hnw _ _ _ _ h
        by_cases hfill : result = .noError ∧ fileSize > file.record.fileSize
        · rw [if_pos hfill] at hok
          rw [← (Prod.mk.inj (Prod.mk.inj (Prod.mk.inj (Option.some.inj hok)).2).2).1]
          exact hsize
        · rw [if_neg hfill] at hok
          rw [← (Prod.mk.inj (Prod.mk.inj (Prod.mk.inj (Option.some.inj hok)).2).2).1]
          exact hsize

end

/-! ### The chain -/

section
variable {g : FatParams} {fat : Bytes} {start old new : Nat}

/-- Making a chain longer fails without a change exactly if it is refused, or if a free cluster is needed
and there is none. -/
theorem changeFileChainLength_clean_iff (hlt : old < new) :
    (changeFileChainLength g fat start old new).1 ≠ .noError
      ∧ (changeFileChainLength g fat start old new).2.2 = fat ↔
    (old ≠ 0 ∧ isNormalClusterNumber g.type start = false)
      ∨ selectable g fat = [] ∧ (start = 0 ∨ 1 < new) := by
  by_cases hr : old ≠ 0 ∧ isNormalClusterNumber g.type start = false
  · refine iff_of_true ?_ (.inl hr)
    rw [changeFileChainLength]
    dsimp only
    rw [if_pos (.inl hr)]
    exact ⟨by simp, rfl⟩
  rw [or_iff_right hr]
  by_cases h0 : start = 0
  · subst h0
    obtain rfl : old = 0 := by
      by_contra hold
      exact hr ⟨hold, by cases g.type <;> rfl⟩
    cases hf : selectFreeCluster g fat with
    | none =>
        refine iff_of_true ?_ ⟨?_, .inl rfl⟩
        · simp [changeFileChainLength, show ¬ 0 = new by omega, hf]
        · rwa [selectFreeCluster_eq_head?, List.head?_eq_none_iff] at hf
    | some f =>
        have hne : selectable g fat ≠ [] := by
          intro hnil
          rw [selectFreeCluster_eq_head?, hnil] at hf
          cases hf
        rw [changeFileChainLength_new (by omega) hf]
        exact iff_of_false (fun h => chainLoop_changed hne h.1 h.2) fun h => hne h.1
  · rw [changeFileChainLength_grown hr h0 hlt]
    dsimp only
    by_cases hnil : selectable g fat = []
    · have hnone : selectFreeCluster g fat = none := by rw [selectFreeCluster_eq_head?, hnil]; rfl
      rw [chainLoop_grown hlt]
      by_cases h1 : 1 < new
      · rw [show new - max old 1 + 1 = new - max old 1 - 1 + 1 + 1 by omega,
          chainLoop_add_none (by omega) (by omega) hnone]
        exact iff_of_true ⟨by simp, rfl⟩ ⟨hnil, .inr h1⟩
      · -- the file's one cluster is there already
        rw [show new - max old 1 + 1 = 0 + 1 by omega, chainLoop, if_pos (by omega), chainLoop]
        exact iff_of_false (fun h => h.1 rfl) fun h => (h.2.elim h0 h1)
    · exact iff_of_false (fun h => chainLoop_changed hnil h.1 h.2) fun h => hnil h.1

theorem chainLoop_ne_invalidParam (rounds : Nat) : ∀ {curLen cur : Nat} {fat : Bytes},
    (chainLoop g old new rounds curLen cur fat).1 ≠ .invalidParam := by
  induction rounds with
  | zero => intro curLen cur fat; simp [chainLoop]
  | succ rounds ih =>
      intro curLen cur fat
      unfold chainLoop
      split
      · exact ih
      · split
        · exact ih
        · split
          · cases selectFreeCluster g fat with
            | none => simp
            | some f => exact ih
          · exact ih

theorem changeFileChainLength_ne_invalidParam
    (hr : ¬ (old ≠ 0 ∧ isNormalClusterNumber g.type start = false)) :
    (changeFileChainLength g fat start old new).1 ≠ .invalidParam := by
  have hr' : ¬ ((old ≠ 0 ∧ isNormalClusterNumber g.type start = false) ∨ (start = 0 ∧ old ≠ 0)) := by
    rintro (h | ⟨rfl, h⟩)
    · exact hr h
    · exact hr ⟨h, by cases g.type <;> rfl⟩
  rw [changeFileChainLength]
  dsimp only
  rw [if_neg hr']
  split
  · split
    · split
      · simp
      · exact chainLoop_ne_invalidParam _
    · exact chainLoop_ne_invalidParam _
  · simp

/-- The same on the volume, whose table goes to the disk after a failure too. -/
theorem fsChangeFileChainLength_clean_iff {fs : FatFs} (hlt : old < new) :
    (fs.changeFileChainLength start old new).1 ≠ .noError
      ∧ (fs.changeFileChainLength start old new).2.2 = fs ↔
    (old ≠ 0 ∧ isNormalClusterNumber fs.params.type start = false)
      ∨ selectable fs.params fs.rawFat = [] ∧ (start = 0 ∨ 1 < new) ∧ fs.writeFatToDisk = fs := by
  have hclean := @changeFileChainLength_clean_iff fs.params fs.rawFat start old new hlt
  unfold FatFs.changeFileChainLength
  dsimp only
  by_cases hr : old ≠ 0 ∧ isNormalClusterNumber fs.params.type start = false
  · have hinv : changeFileChainLength fs.params fs.rawFat start old new
        = (.invalidParam, start, fs.rawFat) := by
      rw [changeFileChainLength]
      dsimp only
      rw [if_pos (.inl hr)]
    rw [hinv]
    exact iff_of_true ⟨by simp, by simp⟩ (.inl hr)
  · rw [if_neg (not_or.mpr ⟨changeFileChainLength_ne_invalidParam hr, by omega⟩), or_iff_right hr]
    rw [or_iff_right hr] at hclean
    constructor
    · rintro ⟨hbad, heq⟩
      have hfat : (changeFileChainLength fs.params fs.rawFat start old new).2.2 = fs.rawFat :=
        congrArg FatFs.rawFat heq
      obtain ⟨hnil, hneed⟩ := hclean.mp ⟨hbad, hfat⟩
      rw [hfat] at heq
      exact ⟨hnil, hneed, heq⟩
    · rintro ⟨hnil, hneed, hsync⟩
      obtain ⟨hbad, hfat⟩ := hclean.mpr ⟨hnil, hneed⟩
      refine ⟨hbad, ?_⟩
      dsimp only
      rw [hfat]
      exact hsync

end

/-! ### The whole call -/

section
variable {parent : WriteFde} {fs : FatFs} {file : FatFile} {dirs : List FatFile} {start length : Nat}
  {buffer : Option Bytes} {bufferLength : Nat}

/-- The call is one to refuse, or its change of size fails. -/
def Refusable (parent : WriteFde) (fs : FatFs) (file : FatFile) (dirs : List FatFile)
    (start length : Nat) (buffer : Option Bytes) (bufferLength : Nat) : Prop :=
  buffer = none ∨ bufferLength < length
    ∨ Extends file start length ∧ ∃ r ∈ setFileSize parent fs file dirs ((start + length) % 2 ^ 64),
        r.1 ≠ .noError

/-- The call returns an error, and leaves the disk, the table and the file as they were. -/
def Unchanged (parent : WriteFde) (fs : FatFs) (file : FatFile) (dirs : List FatFile)
    (start length : Nat) (buffer : Option Bytes) (bufferLength : Nat) : Prop :=
  ∃ ec dirs' bytesWritten, ec ≠ .noError ∧
    writeBytesFrom parent fs file dirs start length buffer bufferLength
      = some (ec, fs, file, dirs', bytesWritten)

/-- The change of size is not made, or stops before it has changed anything. -/
def StopsClean (fs : FatFs) (file : FatFile) (start length : Nat) : Prop :=
  ¬ Extends file start length ∨ file.isSmallFatRootDir = true ∨ 2 ^ 32 ≤ (start + length) % 2 ^ 64
    ∨ fs.params.chainLength file.record.fileSize < fs.params.chainLength ((start + length) % 2 ^ 64)
      ∧ (fs.params.chainLength file.record.fileSize ≠ 0
            ∧ isNormalClusterNumber fs.params.type file.record.firstCluster = false
          ∨ selectable fs.params fs.rawFat = []
            ∧ (file.record.firstCluster = 0 ∨ 1 < fs.params.chainLength ((start + length) % 2 ^ 64))
            ∧ fs.writeFatToDisk = fs)

/-- The rest of the call, once there is an error. -/
theorem writeBytesFrom_error {ec : ErrCode} {fs₁ : FatFs} {file₁ : FatFile} {dirs₁ : List FatFile}
    (hres : (if Extends file start length then
        setFileSize parent fs file dirs ((start + length) % 2 ^ 64)
      else some (if buffer.isNone then .invalidParam else .noError, fs, file, dirs))
      = some (ec, fs₁, file₁, dirs₁))
    (hbad : ec ≠ .noError ∨ bufferLength < length) :
    ∃ ec', ec' ≠ .noError ∧ writeBytesFrom parent fs file dirs start length buffer bufferLength
      = some (ec', fs₁, file₁, dirs₁, 0) := by
  have hec : (if length > bufferLength then ErrCode.invalidParam else ec) ≠ .noError := by
    split
    · decide
    next hlen => exact hbad.resolve_right hlen
  refine ⟨_, hec, ?_⟩
  rw [writeBytesFrom]
  dsimp only
  rw [hres]
  cases buffer with
  | none =>
      dsimp only
      rw [writeBodyNull]
      dsimp only
      rw [if_neg hec]
      rfl
  | some buffer =>
      dsimp only
      rw [writeBody]
      dsimp only
      rw [if_neg hec]

/-- The file a call leaves is the one its change of size leaves. -/
theorem writeBytesFrom_file {ec : ErrCode} {fs' : FatFs} {file' : FatFile} {dirs' : List FatFile}
    {bw : Nat} (hext : Extends file start length)
    (h : writeBytesFrom parent fs file dirs start length buffer bufferLength
      = some (ec, fs', file', dirs', bw)) :
    ∃ ec₁ fs₁, setFileSize parent fs file dirs ((start + length) % 2 ^ 64)
      = some (ec₁, fs₁, file', dirs') := by
  rw [writeBytesFrom] at h
  dsimp only at h
  rw [if_pos hext] at h
  cases hs : setFileSize parent fs file dirs ((start + length) % 2 ^ 64) with
  | none => rw [hs] at h; cases h
  | some r =>
      obtain ⟨ec₁, fs₁, file₁, dirs₁⟩ := r
      rw [hs] at h
      cases buffer with
      | none =>
          obtain ⟨r, -, hr⟩ := Option.map_eq_some_iff.mp h
          cases hr
          exact ⟨ec₁, fs₁, rfl⟩
      | some buffer =>
          cases h
          exact ⟨ec₁, fs₁, rfl⟩

/-- **Exactly when a call that is refused or fails to change the size returns an error and changes
nothing.** -/
theorem refused_write_unchanged_iff
    (h : Refusable parent fs file dirs start length buffer bufferLength) :
    Unchanged parent fs file dirs start length buffer bufferLength ↔
      StopsClean fs file start length := by
  by_cases hext : Extends file start length
  · unfold StopsClean
    rw [or_iff_right (not_not.mpr hext)]
    have hmono : fs.params.chainLength file.record.fileSize
        ≤ fs.params.chainLength ((start + length) % 2 ^ 64) :=
      FatParams.chainLength_mono (Nat.le_of_lt hext.2)
    have hcases := @setFileSize_cases parent fs file dirs ((start + length) % 2 ^ 64) hext.1
    rcases hcases with ⟨ec, fs', hstop, hset⟩ | ⟨hroot, hlt, hres, hset⟩
    · obtain ⟨ec', hec', hcall⟩ := @writeBytesFrom_error parent fs file dirs start length buffer
        bufferLength _ _ _ _ ((if_pos hext).trans hset) (.inl hstop.ne_noError)
      have hiff : Unchanged parent fs file dirs start length buffer bufferLength ↔ fs' = fs := by
        constructor
        · rintro ⟨ec₁, dirs₁, bw, -, heq⟩
          rw [hcall] at heq
          cases heq
          rfl
        · rintro rfl
          exact ⟨ec', dirs, 0, hec', hcall⟩
      rw [hiff]
      cases hstop with
      | root hroot => exact iff_of_true rfl (.inl hroot)
      | large hbig => exact iff_of_true rfl (.inr (.inl hbig))
      | chain hroot hlt hbad =>
          rw [or_iff_right (by simp [hroot]), or_iff_right (by omega)]
          by_cases hne : fs.params.chainLength ((start + length) % 2 ^ 64)
              = fs.params.chainLength file.record.fileSize
          · rw [resizeChain, if_neg (not_not.mpr hne)] at hbad
            exact absurd rfl hbad
          · have hgrow := Nat.lt_of_le_of_ne hmono fun e => hne e.symm
            rw [resizeChain, if_pos hne] at hbad ⊢
            rw [and_iff_right hgrow, ← fsChangeFileChainLength_clean_iff hgrow, and_iff_right hbad]
    · -- the record has its new size
      refine iff_of_false ?_ ?_
      · rintro ⟨ec, dirs', bw, -, hcall⟩
        obtain ⟨ec₁, fs₁, hs⟩ := writeBytesFrom_file hext hcall
        have := hset _ _ _ _ hs
        have := hext.2
        omega
      · rintro (hroot' | hbig | ⟨hgrow, hclean⟩)
        · rw [hroot] at hroot'; cases hroot'
        · omega
        · have := ((fsChangeFileChainLength_clean_iff hgrow).mpr hclean).1
          rw [resizeChain, if_pos (by omega)] at hres
          exact this hres
  · refine iff_of_true ?_ (.inl hext)
    have hbad : (if buffer.isNone then ErrCode.invalidParam else .noError) ≠ .noError
        ∨ bufferLength < length := by
      rcases h with rfl | hlen | ⟨hext', -⟩
      · exact .inl (by simp)
      · exact .inr hlen
      · exact absurd hext' hext
    obtain ⟨ec', hec', hcall⟩ := @writeBytesFrom_error parent fs file dirs start length buffer
      bufferLength _ _ _ _ (if_neg hext) hbad
    exact ⟨ec', dirs, 0, hec', hcall⟩

end

/-- A null buffer, and nothing to be written. -/
theorem refused_write_null : Unchanged (writeFde [blankRoot]) blankVolume emptyFile [blankRoot] 0 0
    none 0 :=
  (refused_write_unchanged_iff (.inl rfl)).mpr (.inl (by decide))

/-- One byte, from a buffer of none, to an empty file: the call is refused, and the file has one byte. -/
theorem refused_write_resizes :
    Refusable (writeFde [blankRoot]) blankVolume emptyFile [blankRoot] 0 1 (some fun _ => 7) 0
      ∧ ((writeBytesFrom (writeFde [blankRoot]) blankVolume emptyFile [blankRoot] 0 1
          (some fun _ => 7) 0).map fun r => (r.1, r.2.2.1.record.fileSize)) = some (.invalidParam, 1)
      ∧ ¬ Unchanged (writeFde [blankRoot]) blankVolume emptyFile [blankRoot] 0 1 (some fun _ => 7) 0 := by
  have hcall : ((writeBytesFrom (writeFde [blankRoot]) blankVolume emptyFile [blankRoot] 0 1
      (some fun _ => 7) 0).map fun r => (r.1, r.2.2.1.record.fileSize)) = some (.invalidParam, 1) := by
    decide +kernel
  refine ⟨.inr (.inl (by decide)), hcall, ?_⟩
  rintro ⟨ec, dirs', bw, -, h⟩
  rw [h] at hcall
  have hsize : emptyFile.record.fileSize = 1 := (Prod.mk.inj (Option.some.inj hcall)).2
  revert hsize
  decide

end Azalea.Fat
