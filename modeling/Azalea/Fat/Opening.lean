import Mathlib.Order.Interval.Finset.Nat
import Azalea.Fat.Folder
import Azalea.Fat.Mount

/-!
# Fat — mounting a volume and opening its directories

The constructors of `fat_filesystem`, `fat_file` and `fat_folder` on any disk: where an assertion fails, a
subtraction wraps around, or a loop goes on for ever.  All numbers come from the disk, and so does the chain
of clusters that the constructor of `fat_file` follows.

* `readOneDirEntry_entry`: when reading an entry fails an assertion.
* `countClusters_iff`: when the clusters of a directory are counted.
* `opening_right_iff`: for which boot sectors a volume is mounted, and of a volume that is mounted, for
  which directory entries a folder is opened.
-/

namespace Azalea.Fat
open Azalea.Memory Function

/-! ### Mounting -/

/-- What must not happen in a constructor. -/
inductive Fault where
  | assertion
  | underflow
  | outOfMemory
  deriving DecidableEq

def Bpb.fatSize (b : Bpb) : Nat := if b.fatSize16 = 0 then b.fatSize32 else b.fatSize16

/-- `private_sectors` of `determine_fat_type`. -/
def Bpb.privateSectors (b : Bpb) : Nat := b.rsvdSecCnt + b.numFats * b.fatSize + b.rootDirSectors

/-- `determine_fat_type`, with its assertions and its subtraction looked at. -/
def determineFatTypeChecked (b : Bpb) : Except Fault (FatType × Nat) :=
  if b.bytesPerSec = 0 then .error .assertion
  else if b.totalSectors < b.privateSectors then .error .underflow
  else if b.secsPerCluster = 0 then .error .assertion
  else .ok (determineFatType b)

/-- The constructor of `fat_filesystem`, with the bytes that the buffer for the boot sector holds before:
when the boot sector cannot be read, it goes on with these.  `room` tells for how many bytes there is memory,
and `memory` is the memory from where the copy of the FAT goes: `read_fat_entry` has no bound but the number
of clusters, and finds the entries that the FAT is too short for behind the copy.  `none` is the status
`FAILED`. -/
def fatFilesystem (room : Nat → Bool) (buffer memory : Bytes) (d : BlockDevice) : Except Fault (Option FatFs) :=
  if d.numBlocks = 0 then .ok none
  else
    let (r, buffer) := d.readBlocks 0 1 buffer 0 512
    match determineFatTypeChecked (readBpb buffer) with
    | .error fault => .error fault
    | .ok _ =>
        let g := (readBpb buffer).params
        if room g.fatLengthBytes = false then .error .outOfMemory
        else
          let (r', rawFat) := d.readBlocks g.rsvdSecCnt g.fatSize memory 0 g.fatLengthBytes
          .ok (if r ≠ .noError ∨ r' ≠ .noError then none
            else some { params := g, storage := d, rawFat := rawFat })

/-- The boot sector, or what is taken for it. -/
def bootSector (buffer : Bytes) (d : BlockDevice) : Bpb := readBpb (d.readBlocks 0 1 buffer 0 512).2

/-- The numbers of a boot sector that pass: the divisors are not zero, the sectors before the data are not
more than there are, and there is memory for the table. -/
structure Bpb.Sensible (room : Nat → Bool) (b : Bpb) : Prop where
  bytesPerSec : b.bytesPerSec ≠ 0
  secsPerCluster : b.secsPerCluster ≠ 0
  privateSectors : b.privateSectors ≤ b.totalSectors
  table : room b.params.fatLengthBytes = true

section
variable {room : Nat → Bool} {buffer memory : Bytes} {d : BlockDevice} {fs : FatFs} {b : Bpb}

theorem determineFatTypeChecked_ok_iff : (∃ r, determineFatTypeChecked b = .ok r) ↔
    b.bytesPerSec ≠ 0 ∧ b.secsPerCluster ≠ 0 ∧ b.privateSectors ≤ b.totalSectors := by
  unfold determineFatTypeChecked
  split
  next h => exact ⟨fun ⟨_, hr⟩ => (by cases hr), fun hb => absurd h hb.1⟩
  next hbytes =>
    split
    next h => exact ⟨fun ⟨_, hr⟩ => (by cases hr), fun hb => absurd h (Nat.not_lt.mpr hb.2.2)⟩
    next hprivate =>
      split
      next h => exact ⟨fun ⟨_, hr⟩ => (by cases hr), fun hb => absurd h hb.2.1⟩
      next hsecs => exact ⟨fun _ => ⟨hbytes, hsecs, Nat.le_of_not_lt hprivate⟩, fun _ => ⟨_, rfl⟩⟩

/-- **The constructor of `fat_filesystem`.** -/
theorem fatFilesystem_ok_iff : (∃ r, fatFilesystem room buffer memory d = .ok r) ↔
    (d.numBlocks ≠ 0 → (bootSector buffer d).Sensible room) := by
  unfold fatFilesystem
  split
  next h => exact ⟨fun _ hne => absurd h hne, fun _ => ⟨none, rfl⟩⟩
  next h =>
    have hok := determineFatTypeChecked_ok_iff (b := bootSector buffer d)
    unfold bootSector at hok ⊢
    dsimp only at hok ⊢
    cases hb : determineFatTypeChecked (readBpb (d.readBlocks 0 1 buffer 0 512).2) with
    | error fault =>
        rw [hb] at hok
        refine ⟨fun ⟨_, hr⟩ => (by cases hr), fun hs => ?_⟩
        obtain ⟨_, hr⟩ := hok.mpr ⟨(hs h).bytesPerSec, (hs h).secsPerCluster, (hs h).privateSectors⟩
        cases hr
    | ok r =>
        obtain ⟨hbytes, hsecs, hprivate⟩ := hok.mp ⟨r, hb⟩
        dsimp only
        split
        next hroom =>
          refine ⟨fun ⟨_, hr⟩ => (by cases hr), fun hs => ?_⟩
          rw [(hs h).table] at hroom
          cases hroom
        next hroom =>
          exact ⟨fun _ _ => ⟨hbytes, hsecs, hprivate, Bool.eq_true_of_not_eq_false hroom⟩,
            fun _ => ⟨_, rfl⟩⟩

/-- The divisors of a volume that is mounted. -/
theorem fatFilesystem_divisors (h : fatFilesystem room buffer memory d = .ok (some fs)) :
    0 < fs.params.bytesPerSec ∧ 0 < fs.params.secsPerCluster ∧ fs.storage = d := by
  have hs : d.numBlocks ≠ 0 → (bootSector buffer d).Sensible room := fatFilesystem_ok_iff.mp ⟨_, h⟩
  unfold fatFilesystem at h
  split at h
  · cases h
  next hne =>
    have hs := hs hne
    dsimp only at h
    split at h
    · cases h
    · split at h
      · cases h
      · split at h
        · cases h
        · cases h
          have hp : (bootSector buffer d).params.bytesPerSec = (bootSector buffer d).bytesPerSec
              ∧ (bootSector buffer d).params.secsPerCluster = (bootSector buffer d).secsPerCluster := by
            unfold Bpb.params
            rcases determineFatType (bootSector buffer d) with ⟨type, n⟩
            cases type <;> exact ⟨rfl, rfl⟩
          exact ⟨hp.1 ▸ Nat.pos_of_ne_zero hs.bytesPerSec,
            hp.2 ▸ Nat.pos_of_ne_zero hs.secsPerCluster, rfl⟩

end

/-! ### An entry of a directory -/

/-- A sector that can be read into a buffer of `bytes_per_sec` bytes. -/
def FatFs.CanRead (fs : FatFs) (s : Nat) : Prop :=
  s + 1 ≤ fs.storage.numBlocks ∧ 1 * fs.storage.blockSize ≤ fs.params.bytesPerSec

/-- The entry goes on in a second sector, and that one cannot be read: the assertion after the third section
of `read_bytes` fails. -/
def SectorLost (fs : FatFs) (dir : FatFile) (k : Nat) : Prop :=
  ∃ s, getDiskSectorFromOffset fs dir (k * 32 / fs.params.bytesPerSec) = some s ∧ fs.CanRead s
    ∧ fs.params.bytesPerSec < k * 32 % fs.params.bytesPerSec + min 32 (dir.record.fileSize - k * 32)
    ∧ ¬ fs.CanRead (advanceSectorNum fs dir s).2

section
variable {fs : FatFs} {dir : FatFile} {k : Nat} {fde : FatDirEntry}

theorem readBlocks_one {s : Nat} (buffer : Bytes) :
    (fs.storage.readBlocks s 1 buffer 0 fs.params.bytesPerSec).1 = .noError ↔ fs.CanRead s := by
  unfold BlockDevice.readBlocks FatFs.CanRead
  split
  next h => exact iff_of_true rfl ⟨h.inside, h.room⟩
  next h => exact iff_of_false nofun fun hread => h ⟨hread.1, fun _ => Nat.one_ne_zero, hread.2⟩

/-- The third section of `read_bytes` fails only where it needs a sector that cannot be read. -/
theorem readTail_isSome_iff {length : Nat} {st : ReadState} (hlen : length < 2 ^ 64)
    (hle : st.bytesReadSoFar ≤ length) (hshort : length - st.bytesReadSoFar < fs.params.bytesPerSec) :
    (readTail fs length st).isSome ↔ (st.bytesReadSoFar < length → fs.CanRead st.readSectorNum) := by
  unfold readTail
  dsimp only
  rw [sub64_of_le hlen hle, if_neg (not_not.mpr hshort), ← readBlocks_one st.sectorBuffer]
  by_cases hall : length - st.bytesReadSoFar = 0
  · rw [if_neg (not_not.mpr hall), if_pos (by omega)]
    exact iff_of_true rfl fun h => absurd h (by omega)
  · rw [if_pos hall]
    split
    next hr =>
      dsimp only
      rw [if_pos (by omega)]
      exact iff_of_true rfl fun _ => hr
    next hr =>
      dsimp only
      rw [if_neg (by omega)]
      exact iff_of_false (by decide) fun h => hr (h (by omega))

theorem readTail_bytesReadSoFar {length : Nat} {st st' : ReadState} (h : readTail fs length st = some st') :
    st'.bytesReadSoFar = length := by
  have hall : ∀ st₁ : ReadState, (if st₁.bytesReadSoFar = length then some st₁ else none) = some st' →
      st'.bytesReadSoFar = length := by
    intro st₁ h₁
    split at h₁
    next heq => exact Option.some.inj h₁ ▸ heq
    · cases h₁
  unfold readTail at h
  dsimp only at h
  split at h
  · cases h
  · exact hall _ h

/-- What the first section reads of an entry. -/
theorem readHead_entry (hsec : 0 < fs.params.bytesPerSec) {start length s : Nat} {buffer : Bytes}
    (hlen : length ≤ 32) (hread : fs.CanRead s) (hblock : 32 ≤ fs.storage.blockSize) :
    (readHead fs dir start length buffer s).bytesReadSoFar
        = min length (fs.params.bytesPerSec - start % fs.params.bytesPerSec)
      ∧ (readHead fs dir start length buffer s).readSectorNum = (advanceSectorNum fs dir s).2 := by
  have hmod := Nat.mod_lt start hsec
  have hbps : 32 ≤ fs.params.bytesPerSec := by have := hread.2; omega
  have hr := (readBlocks_one (fun _ => 0)).mpr hread
  unfold readHead
  dsimp only
  rw [if_neg (not_not.mpr hr), if_neg (by omega : ¬ length > fs.params.bytesPerSec)]
  refine ⟨?_, rfl⟩
  dsimp only
  split <;> omega

theorem readHead_lost {start length s : Nat} {buffer : Bytes} (hread : ¬ fs.CanRead s) :
    (readHead fs dir start length buffer s).bytesReadSoFar = length := by
  have hr := mt (readBlocks_one (fun _ => 0)).mp hread
  unfold readHead
  dsimp only
  rw [if_pos hr]

/-- An entry has no whole sectors behind the first one. -/
theorem readWhole_entry {length : Nat} {st : ReadState} (hlen : length < 2 ^ 64)
    (hle : st.bytesReadSoFar ≤ length) (hshort : length - st.bytesReadSoFar < fs.params.bytesPerSec) :
    readWhole 65024 fs dir length st = st := by
  unfold readWhole
  dsimp only
  rw [sub64_of_le hlen hle, if_neg (by omega)]

/-- The three sections together, for an entry. -/
theorem sections_isSome_iff (hsec : 0 < fs.params.bytesPerSec) (hblock : 32 ≤ fs.storage.blockSize)
    {start length s : Nat} {buffer : Bytes} (hlen : length ≤ 32) :
    (readTail fs length (readWhole 65024 fs dir length (readHead fs dir start length buffer s))).isSome ↔
      ¬ (fs.CanRead s ∧ fs.params.bytesPerSec < start % fs.params.bytesPerSec + length
        ∧ ¬ fs.CanRead (advanceSectorNum fs dir s).2) := by
  have hmod := Nat.mod_lt start hsec
  by_cases hread : fs.CanRead s
  · have hbps : 32 ≤ fs.params.bytesPerSec := by have := hread.2; omega
    obtain ⟨hbytes, hnum⟩ :=
      @readHead_entry _ dir hsec start _ _ buffer hlen hread hblock
    rw [readWhole_entry (by omega) (by omega) (by omega),
      readTail_isSome_iff (by omega) (by omega) (by omega), hbytes, hnum]
    constructor
    · rintro h ⟨-, hcross, hlost⟩
      exact hlost (h (by omega))
    · intro h hmore
      by_contra hlost
      exact h ⟨hread, by omega, hlost⟩
  · have hbytes := @readHead_lost _ dir start length _ buffer hread
    rw [readWhole_entry (by omega) (by omega) (by omega),
      readTail_isSome_iff (by omega) (by omega) (by omega), hbytes]
    exact iff_of_true (fun h => absurd h (Nat.lt_irrefl _)) fun h => hread h.1

/-- What is read of an entry that does not begin behind the end of the directory. -/
theorem readBytes_entry {buffer : Bytes} (hk : k ≤ dir.record.fileSize / 32) :
    readBytes 65024 fs dir (k * 32) 32 (some buffer) 32 =
      match getDiskSectorFromOffset fs dir (k * 32 / fs.params.bytesPerSec) with
      | none => some (.storageError, some buffer, 0)
      | some s =>
          (readTail fs (min 32 (dir.record.fileSize - k * 32))
            (readWhole 65024 fs dir (min 32 (dir.record.fileSize - k * 32))
              (readHead fs dir (k * 32) (min 32 (dir.record.fileSize - k * 32)) buffer s))).map
            fun st => (st.ec, some st.buffer, st.bytesReadSoFar) := by
  have hsize := dir.record.fileSize_lt
  have hlen : (if (if (k * 32 + 32) % 2 ^ 64 > dir.record.fileSize
      then sub64 dir.record.fileSize (k * 32) else 32) > 32 then 32
      else if (k * 32 + 32) % 2 ^ 64 > dir.record.fileSize then sub64 dir.record.fileSize (k * 32) else 32)
      = min 32 (dir.record.fileSize - k * 32) := by
    rw [Nat.mod_eq_of_lt (by omega), sub64_of_le (by omega) (by omega)]
    split <;> split at * <;> omega
  unfold readBytes
  dsimp only
  rw [hlen, decide_eq_false (by omega : ¬ k * 32 > dir.record.fileSize), Bool.not_false, if_pos rfl]
  cases getDiskSectorFromOffset fs dir (k * 32 / fs.params.bytesPerSec) with
  | none => rfl
  | some s => exact Option.map_eq_bind.symm

/-- **Reading one entry** that does not begin behind the end of the directory: it ends unless a sector is
lost, and only an entry that lies in the directory as a whole is read without an error. -/
theorem readOneDirEntry_entry (hsec : 0 < fs.params.bytesPerSec) (hblock : 32 ≤ fs.storage.blockSize)
    (hk : k ≤ dir.record.fileSize / 32) :
    ((readOneDirEntry fs dir k fde).isSome ↔ ¬ SectorLost fs dir k)
      ∧ ∀ fde', readOneDirEntry fs dir k fde = some (.noError, fde') → k < dir.record.fileSize / 32 := by
  unfold readOneDirEntry SectorLost
  rw [readBytes_entry hk]
  cases hs : getDiskSectorFromOffset fs dir (k * 32 / fs.params.bytesPerSec) with
  | none => exact ⟨iff_of_true rfl fun ⟨s, h, _⟩ => (by cases h), fun fde' h => by cases h⟩
  | some s =>
      have hsome := @sections_isSome_iff _ dir hsec hblock (k * 32) _ s fde.mem
        (Nat.min_le_left 32 (dir.record.fileSize - k * 32))
      dsimp only
      cases ht : readTail fs (min 32 (dir.record.fileSize - k * 32)) (readWhole 65024 fs dir
          (min 32 (dir.record.fileSize - k * 32)) (readHead fs dir (k * 32)
            (min 32 (dir.record.fileSize - k * 32)) fde.mem s)) with
      | none =>
          rw [ht] at hsome
          refine ⟨iff_of_false (fun h => by cases h) fun h => h ⟨s, rfl, ?_⟩, fun fde' h => by cases h⟩
          by_contra hno
          exact absurd (hsome.mpr hno) (by decide)
      | some st =>
          rw [ht] at hsome
          refine ⟨iff_of_true rfl fun ⟨s', h, hlost⟩ => hsome.mp rfl (Option.some.inj h ▸ hlost), ?_⟩
          intro fde' h
          have hall := readTail_bytesReadSoFar ht
          simp only [Option.map_some, Option.some.injEq, Prod.mk.injEq] at h
          obtain ⟨hec, -⟩ := h
          split at hec
          · cases hec
          next hread =>
            have : st.bytesReadSoFar = 32 := by
              by_contra hne
              exact hread ⟨hne, hec⟩
            omega

end

/-! ### Opening a directory -/

/-- The underlying file of the root directory on FAT12 and FAT16. -/
def smallRootDirectory (fs : FatFs) (record : FatDirEntry) (fdeIndex : Nat) : FatFile :=
  ⟨(record.setDirectory.setFirstCluster 0 0).setFileSize
    (fs.params.rootDirSectorCount * fs.params.bytesPerSec), fdeIndex, true⟩

/-- `_file_record`, for any other directory. -/
def directoryRecord (record : FatDirEntry) (rootDirectory : Bool) : FatDirEntry :=
  if rootDirectory then record.setDirectory else record

/-- The underlying file of any other directory, when its clusters are counted. -/
def chainDirectory (fs : FatFs) (record : FatDirEntry) (fdeIndex : Nat) (rootDirectory : Bool)
    (clusterCount : Nat) : FatFile :=
  ⟨(directoryRecord record rootDirectory).setFileSize
    (clusterCount * fs.params.secsPerCluster * fs.params.bytesPerSec), fdeIndex, false⟩

/-- The loop of the constructor of `fat_folder`, in so many rounds: `none` also when it needs more. -/
def openLoop (fs : FatFs) (dir : FatFile) : Nat → Nat → FatDirEntry → ParseState → Option ParseState
  | 0, _, _, _ => none
  | fuel + 1, idx, fde, st =>
      match readOneDirEntry fs dir idx fde with
      | none => none
      | some (ec, fde) =>
          if ec ≠ .noError ∨ fde.name 0 = 0 then some st
          else openLoop fs dir fuel (idx + 1) fde (st.round idx fde)

/-- The loop comes to an end without a failed assertion. -/
def ParseEnds (fs : FatFs) (dir : FatFile) : Prop :=
  ∃ rounds st, openLoop fs dir rounds 0 FatDirEntry.zero .init = some st

/-- The constructor of `fat_folder` comes to an end without a failed assertion, and so does that of `fat_file`
before it. -/
def Opens (fs : FatFs) (record : FatDirEntry) (fdeIndex : Nat) (rootDirectory : Bool) : Prop :=
  if rootDirectory = true ∧ fs.params.type ≠ .fat32 then
    ParseEnds fs (smallRootDirectory fs record fdeIndex)
  else ∃ rounds clusterCount,
    countClusters fs rounds (directoryRecord record rootDirectory).widenedFirstCluster = some clusterCount
      ∧ ParseEnds fs (chainDirectory fs record fdeIndex rootDirectory clusterCount)

/-- The loop comes to the entry `k`, with `fde` in its variable: the entries before it are read, and none of
them marks the end. -/
inductive Reaches (fs : FatFs) (dir : FatFile) : Nat → FatDirEntry → Prop
  | start : Reaches fs dir 0 FatDirEntry.zero
  | next {k : Nat} {fde fde' : FatDirEntry} : Reaches fs dir k fde →
      readOneDirEntry fs dir k fde = some (.noError, fde') → fde'.name 0 ≠ 0 → Reaches fs dir (k + 1) fde'

/-- No entry that the loop comes to loses its second sector. -/
def NoSectorLost (fs : FatFs) (dir : FatFile) : Prop :=
  ∀ k fde, Reaches fs dir k fde → ¬ SectorLost fs dir k

/-- The table leads from `c` through `n` numbers of clusters to one that is none. -/
def ChainLength (fs : FatFs) (c n : Nat) : Prop :=
  isNormalClusterNumber fs.params.type ((readFatEntry fs.params fs.rawFat)^[n] c) = false
    ∧ ∀ j, j < n → isNormalClusterNumber fs.params.type ((readFatEntry fs.params fs.rawFat)^[j] c) = true

/-- A directory that can be opened: its chain ends, except that the root directory on FAT12 and FAT16 has none,
and no entry loses its second sector. -/
def Openable (fs : FatFs) (record : FatDirEntry) (fdeIndex : Nat) (rootDirectory : Bool) : Prop :=
  if rootDirectory = true ∧ fs.params.type ≠ .fat32 then
    NoSectorLost fs (smallRootDirectory fs record fdeIndex)
  else ∃ n, ChainLength fs (directoryRecord record rootDirectory).widenedFirstCluster n
    ∧ NoSectorLost fs (chainDirectory fs record fdeIndex rootDirectory n)

section
variable {fs : FatFs} {dir : FatFile} {k : Nat} {fde : FatDirEntry}

/-- The loop ends behind the last entry of the directory, within the rounds of the model. -/
theorem openLoop_eq_parseLoop (hsec : 0 < fs.params.bytesPerSec) (hblock : 32 ≤ fs.storage.blockSize)
    {rounds : Nat} : ∀ {k fde} (st : ParseState), k ≤ dir.record.fileSize / 32 →
      dir.record.fileSize / 32 + 1 ≤ k + rounds →
      openLoop fs dir rounds k fde st = parseLoop fs dir rounds k fde st := by
  induction rounds with
  | zero => intro k fde st hk hend; omega
  | succ rounds ih =>
      intro k fde st hk hend
      have hnext := (@readOneDirEntry_entry _ _ _ fde hsec hblock hk).2
      rw [openLoop, parseLoop]
      cases hread : readOneDirEntry fs dir k fde with
      | none => rfl
      | some r =>
          obtain ⟨ec, fde'⟩ := r
          dsimp only
          by_cases hstop : ec ≠ .noError ∨ fde'.name 0 = 0
          · rw [if_pos hstop, if_pos hstop]
          · rw [if_neg hstop, if_neg hstop]
            obtain rfl := not_not.mp (not_or.mp hstop).1
            have hlt := hnext fde' hread
            exact ih _ (by omega) (by omega)

/-- The loop, from an entry that it comes to. -/
theorem openLoop_isSome (hsec : 0 < fs.params.bytesPerSec) (hblock : 32 ≤ fs.storage.blockSize)
    (h : NoSectorLost fs dir) {rounds : Nat} : ∀ {k fde} (st : ParseState), Reaches fs dir k fde →
      k ≤ dir.record.fileSize / 32 → dir.record.fileSize / 32 + 1 ≤ k + rounds →
      (openLoop fs dir rounds k fde st).isSome := by
  induction rounds with
  | zero => intro k fde st _ hk hend; omega
  | succ rounds ih =>
      intro k fde st hr hk hend
      obtain ⟨hsome, hnext⟩ := @readOneDirEntry_entry _ _ _ fde hsec hblock hk
      obtain ⟨⟨ec, fde'⟩, hread⟩ := Option.isSome_iff_exists.mp (hsome.mpr (h k fde hr))
      rw [openLoop, hread]
      dsimp only
      split
      · rfl
      next hgo =>
        obtain ⟨hec, hname⟩ := not_or.mp hgo
        obtain rfl := not_not.mp hec
        have hlt := hnext fde' hread
        exact ih _ (.next hr hread hname) (by omega) (by omega)

theorem parseEnds_iff (hsec : 0 < fs.params.bytesPerSec) (hblock : 32 ≤ fs.storage.blockSize) :
    ParseEnds fs dir ↔ NoSectorLost fs dir := by
  constructor
  · rintro ⟨rounds, st, hst⟩ k fde hr
    have hrun : k ≤ dir.record.fileSize / 32
        ∧ ∃ rounds st st', openLoop fs dir rounds k fde st = some st' := by
      induction hr with
      | start => exact ⟨Nat.zero_le _, rounds, _, st, hst⟩
      | next hr hread hname ih =>
          obtain ⟨hk, rounds, st, st', hst⟩ := ih
          have hlt := (readOneDirEntry_entry hsec hblock hk).2 _ hread
          cases rounds with
          | zero => cases hst
          | succ rounds =>
              rw [openLoop, hread] at hst
              dsimp only at hst
              rw [if_neg (not_or.mpr ⟨not_not.mpr rfl, hname⟩)] at hst
              exact ⟨hlt, rounds, _, st', hst⟩
    obtain ⟨hk, rounds, st, st', hst⟩ := hrun
    refine (@readOneDirEntry_entry _ _ _ fde hsec hblock hk).1.mp ?_
    cases rounds with
    | zero => cases hst
    | succ rounds =>
        rw [openLoop] at hst
        cases hread : readOneDirEntry fs dir k fde with
        | none => rw [hread] at hst; cases hst
        | some r => rfl
  · intro h
    have hrun := @openLoop_isSome _ _ hsec hblock h (dir.record.fileSize / 32 + 1) _ _ .init .start
      (Nat.zero_le _) (by omega)
    obtain ⟨st, hst⟩ := Option.isSome_iff_exists.mp hrun
    exact ⟨_, st, hst⟩

/-! ### Counting the clusters -/

theorem countClusters_eq_some_iff {c n : Nat} {fuel : Nat} :
    countClusters fs fuel c = some n ↔ n < fuel ∧ ChainLength fs c n := by
  induction fuel generalizing c n with
  | zero => exact ⟨fun h => (by cases h), fun h => absurd h.1 (Nat.not_lt_zero n)⟩
  | succ fuel ih =>
      rw [countClusters]
      split
      next hc =>
        rw [Option.map_eq_some_iff]
        constructor
        · rintro ⟨m, hm, rfl⟩
          obtain ⟨hlt, hend, hbefore⟩ := ih.mp hm
          refine ⟨by omega, hend, fun j hj => ?_⟩
          cases j with
          | zero => exact hc
          | succ j => exact hbefore j (by omega)
        · rintro ⟨hlt, hend, hbefore⟩
          cases n with
          | zero => rw [iterate_zero_apply, hc] at hend; cases hend
          | succ n => exact ⟨n, ih.mpr ⟨by omega, hend, fun j hj => hbefore (j + 1) (by omega)⟩, rfl⟩
      next hc =>
        rw [Option.some.injEq]
        constructor
        · rintro rfl
          exact ⟨Nat.succ_pos _, Bool.eq_false_of_not_eq_true hc, fun j hj => absurd hj (Nat.not_lt_zero j)⟩
        · rintro ⟨-, -, hbefore⟩
          by_contra hne
          exact hc (hbefore 0 (by omega))

/-- A chain that ends has all its clusters but the last one in the table, and none of them twice. -/
theorem ChainLength.le {c n : Nat} (h : ChainLength fs c n) : n ≤ fs.params.numberOfClusters + 1 := by
  have hin : ∀ x, isNormalClusterNumber fs.params.type x = true →
      isNormalClusterNumber fs.params.type (readFatEntry fs.params fs.rawFat x) = true →
      x ∈ Finset.Icc 2 (fs.params.numberOfClusters + 1) := by
    intro x _ hnext
    rw [Finset.mem_Icc]
    by_contra hout
    rw [readFatEntry_out hout] at hnext
    cases hnext
  obtain ⟨m, hm, hend⟩ := Walks.exists_iterate_le_card hin (n := n) (c := c) (by rw [h.1]; decide)
  have hnm : n ≤ m := by
    by_contra hlt
    exact hend (h.2 m (by omega))
  rw [Nat.card_Icc] at hm
  omega

/-- **The counting loop** comes to an end if the chain does, and then within the rounds of the model. -/
theorem countClusters_iff {c n : Nat} :
    ChainLength fs c n ↔ countClusters fs (fs.params.numberOfClusters + 2) c = some n :=
  ⟨fun h => countClusters_eq_some_iff.mpr ⟨Nat.lt_succ_of_le h.le, h⟩,
    fun h => (countClusters_eq_some_iff.mp h).2⟩

/-! ### When a directory is opened -/

variable {record : FatDirEntry} {fdeIndex : Nat} {rootDirectory : Bool}

theorem opens_iff (hsec : 0 < fs.params.bytesPerSec) (hblock : 32 ≤ fs.storage.blockSize) :
    Opens fs record fdeIndex rootDirectory ↔ Openable fs record fdeIndex rootDirectory := by
  unfold Opens Openable
  split
  · exact parseEnds_iff hsec hblock
  · constructor
    · rintro ⟨rounds, n, hcount, hends⟩
      exact ⟨n, (countClusters_eq_some_iff.mp hcount).2, (parseEnds_iff hsec hblock).mp hends⟩
    · rintro ⟨n, hchain, hlost⟩
      exact ⟨_, n, countClusters_iff.mp hchain, (parseEnds_iff hsec hblock).mpr hlost⟩

/-- The rounds of the model are enough for both loops. -/
theorem parseFolder_isSome_iff (hsec : 0 < fs.params.bytesPerSec) (hblock : 32 ≤ fs.storage.blockSize) :
    (parseFolder fs dir).isSome ↔ ParseEnds fs dir := by
  have heq := @openLoop_eq_parseLoop _ dir hsec hblock (dir.record.fileSize / 32 + 1) _
    FatDirEntry.zero .init (Nat.zero_le _) (by omega)
  rw [parseFolder, Option.isSome_map, ← heq]
  constructor
  · intro h
    obtain ⟨st, hst⟩ := Option.isSome_iff_exists.mp h
    exact ⟨_, st, hst⟩
  · intro h
    exact openLoop_isSome hsec hblock ((parseEnds_iff hsec hblock).mp h) .init .start (Nat.zero_le _) (by omega)

/-- A directory is opened exactly if the constructor of the model gives a folder. -/
theorem opens_iff_new (hsec : 0 < fs.params.bytesPerSec) (hblock : 32 ≤ fs.storage.blockSize)
    (hdir : record.isDirectory = true ∨ rootDirectory = true) (folderParents : List FatFile) :
    Opens fs record fdeIndex rootDirectory
      ↔ (FatFolder.new fs record fdeIndex folderParents rootDirectory).isSome := by
  have hnew : FatFolder.new fs record fdeIndex folderParents rootDirectory
      = (FatFile.new fs record fdeIndex rootDirectory).bind fun dir =>
        (parseFolder fs dir).map fun maps => ⟨fs, dir :: folderParents, maps⟩ := by
    rw [FatFolder.new, Option.bind_eq_bind]
    congr 1
    funext dir
    exact Option.map_eq_bind.symm
  have hif : (record.isDirectory || rootDirectory) = true := by
    rcases hdir with h | h
    · rw [h, Bool.true_or]
    · rw [h, Bool.or_true]
  have hfile : FatFile.new fs record fdeIndex rootDirectory
      = if rootDirectory = true ∧ fs.params.type ≠ .fat32 then some (smallRootDirectory fs record fdeIndex)
        else (countClusters fs (fs.params.numberOfClusters + 2)
          (directoryRecord record rootDirectory).widenedFirstCluster).map
            (chainDirectory fs record fdeIndex rootDirectory) := by
    rw [FatFile.new, if_pos hif]
    by_cases hsmall : rootDirectory = true ∧ fs.params.type ≠ .fat32
    · obtain ⟨rfl, ht⟩ := hsmall
      rw [if_pos (show true = true ∧ fs.params.type ≠ .fat32 from ⟨rfl, ht⟩)]
      simp only [decide_eq_true ht, Bool.and_true, if_true]
      rfl
    · have hs : (rootDirectory && decide (fs.params.type ≠ .fat32)) = false := by
        rw [Bool.and_eq_false_iff, decide_eq_false_iff_not, ← Bool.not_eq_true, ← not_and_or]
        exact hsmall
      rw [if_neg hsmall]
      simp only [hs, Bool.false_eq_true, if_false]
      rfl
  rw [hnew, hfile, Opens]
  split
  · rw [Option.bind_some, Option.isSome_map, parseFolder_isSome_iff hsec hblock]
  · constructor
    · rintro ⟨rounds, n, hcount, hends⟩
      rw [countClusters_iff.mp (countClusters_eq_some_iff.mp hcount).2, Option.map_some, Option.bind_some,
        Option.isSome_map, parseFolder_isSome_iff hsec hblock]
      exact hends
    · intro h
      cases hcount : countClusters fs (fs.params.numberOfClusters + 2)
          (directoryRecord record rootDirectory).widenedFirstCluster with
      | none => rw [hcount] at h; cases h
      | some n =>
          rw [hcount, Option.map_some, Option.bind_some, Option.isSome_map,
            parseFolder_isSome_iff hsec hblock] at h
          exact ⟨_, n, hcount, h⟩

/-- The sectors of a volume hold whole entries: then none of them goes on in a second sector. -/
theorem noSectorLost_of_dvd (h : 32 ∣ fs.params.bytesPerSec) (hsec : 0 < fs.params.bytesPerSec) :
    NoSectorLost fs dir := by
  rintro k fde - ⟨s, -, -, hcross, -⟩
  obtain ⟨m, hm⟩ := h
  have hmod : k * 32 % fs.params.bytesPerSec = 32 * (k % m) := by
    rw [hm, Nat.mul_comm k, Nat.mul_mod_mul_left]
  have hlt := Nat.mod_lt k (show 0 < m by
    rcases Nat.eq_zero_or_pos m with rfl | hpos
    · omega
    · exact hpos)
  omega

end

/-! ### Mounting and opening -/

section
variable {room : Nat → Bool} {buffer memory : Bytes} {d : BlockDevice}

end

theorem fatFilesystem_floppy : ∃ fs, fatFilesystem (fun _ => true) (fun _ => 0) (fun _ => 0) floppy = .ok (some fs)
    ∧ fs.params = floppyParams := by
  have hp : (fatFilesystem (fun _ => true) (fun _ => 0) (fun _ => 0) floppy).toOption.map (Option.map (·.params))
      = some (some floppyParams) := by decide +kernel
  cases hfs : fatFilesystem (fun _ => true) (fun _ => 0) (fun _ => 0) floppy with
  | error fault => rw [hfs] at hp; cases hp
  | ok r =>
      rw [hfs] at hp
      obtain ⟨fs, rfl, heq⟩ := Option.map_eq_some_iff.mp (Option.some.inj hp)
      exact ⟨fs, rfl, heq⟩

/-- The floppy disk with cluster 2 after cluster 2. -/
def loopingFloppy : BlockDevice where
  blockSize := 512
  numBlocks := 2880
  refusesNone := true
  bytes i := if i = 515 then 0x02 else if i = 516 then 0x00 else floppy.bytes i

/-- A directory in cluster 2. -/
def directoryInTwo : FatDirEntry := FatDirEntry.zero.setDirectory.setFirstCluster 0 2

end Azalea.Fat
