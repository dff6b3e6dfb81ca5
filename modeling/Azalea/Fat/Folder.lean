import Azalea.Fat.Names
import Azalea.Fat.Read
import Azalea.Fat.Write
import Azalea.Support.Maps

/-!
# Fat — folders

`fat_folder.cpp`: the entries of a folder on the disk, and the maps that the folder object keeps of
them.  The constructor fills the maps from the disk; `create_child`, `rename_child` and
`delete_child` change both.  A panic, or a loop without an end, is `none`.

The weak pointers to open children are left out: `getChild` gives the index of the entry that the
child belongs to.
-/

namespace Azalea.Fat
open Azalea.Memory Azalea.Maps

/-- `fat_object_details`. -/
structure FatObjectDetails where
  longFn : Name
  shortFn : Name
  fdeIndex : Nat
  fde : FatDirEntry
  deriving DecidableEq

/-- The maps of a `fat_folder`. -/
structure FolderMaps where
  fdeToChildMap : Finmap fun _ : Nat => FatObjectDetails
  longNameToFdeMap : Finmap fun _ : Name => Nat
  shortNameToFdeMap : Finmap fun _ : Name => Nat
  canonicalNames : Finset Name

/-- A folder object: the filesystem, the folder's underlying file and those of the folders above
it, and the maps. -/
structure FatFolder where
  fs : FatFs
  dirs : List FatFile
  maps : FolderMaps

/-! ### Reading the entries -/

/-- `fat_folder::read_one_dir_entry`, into `fde`. -/
def readOneDirEntry (fs : FatFs) (dir : FatFile) (entryIdx : Nat) (fde : FatDirEntry) :
    Option (ErrCode × FatDirEntry) :=
  match readBytes 65024 fs dir (entryIdx * 32) 32 (some fde.mem) 32 with
  | none => none
  | some (ec, buffer, bytesRead) =>
      let ec := if bytesRead ≠ 32 ∧ ec = .noError then .storageError else ec
      some (ec, FatDirEntry.ofMem (buffer.getD fde.mem) 0)

/-- The variables of the loop of the constructor, and the maps it fills. -/
structure ParseState where
  longName : Name
  curLfnChecksum : Nat
  lastWasLfn : Bool
  obj : FatObjectDetails
  maps : FolderMaps

def FolderMaps.empty : FolderMaps := ⟨∅, ∅, ∅, ∅⟩

def ParseState.init : ParseState := ⟨[], 0, false, ⟨[], [], 0, FatDirEntry.zero⟩, .empty⟩

/-- The characters of a part of a long name that the constructor keeps. -/
def lfnPart (fde : FatDirEntry) : Name :=
  (((List.range 13).map fde.lfnChar).filter fun c =>
    isValidFilenameChar c true && decide (c < 256)).map UInt8.ofNat

/-- A short entry that is not `.` or `..` in the loop of the constructor.  `obj` is the same object
in every round: where there is no long name, it keeps the one set last. -/
def ParseState.addShort (st : ParseState) (idx : Nat) (fde : FatDirEntry) : ParseState :=
  let shortName := shortNameFromFde fde
  let obj := { st.obj with shortFn := shortName, fde := fde, fdeIndex := idx }
  let maps := { st.maps with
    shortNameToFdeMap := insertNew st.maps.shortNameToFdeMap shortName idx }
  if st.longName ≠ [] ∧ st.curLfnChecksum = generateShortNameChecksum fde.nameBytes then
    let obj := { obj with longFn := st.longName }
    { st with
      obj := obj
      maps := { maps with
        longNameToFdeMap := insertNew maps.longNameToFdeMap st.longName idx
        canonicalNames := insert st.longName maps.canonicalNames
        fdeToChildMap := insertNew maps.fdeToChildMap idx obj } }
  else
    { st with
      obj := obj
      maps := { maps with
        canonicalNames := insert shortName maps.canonicalNames
        fdeToChildMap := insertNew maps.fdeToChildMap idx obj } }

/-- One round of the loop of the constructor. -/
def ParseState.round (st : ParseState) (idx : Nat) (fde : FatDirEntry) : ParseState :=
  if fde.name 0 = 0xE5 then { st with longName := [], lastWasLfn := false }
  else if fde.isLongFnEntry then
    if st.lastWasLfn ∧ st.curLfnChecksum ≠ fde.checksum then { st with lastWasLfn := false }
    else
      { st with
        lastWasLfn := true
        curLfnChecksum := fde.checksum
        longName := lfnPart fde ++ st.longName }
  else
    let st :=
      if shortNameFromFde fde ≠ [0x2E] ∧ shortNameFromFde fde ≠ [0x2E, 0x2E] then
        st.addShort idx fde
      else st
    { st with longName := [], lastWasLfn := false }

/-- The loop of the constructor, until an entry is not read or marks the end. -/
def parseLoop (fs : FatFs) (dir : FatFile) : Nat → Nat → FatDirEntry → ParseState → Option ParseState
  | 0, _, _, st => some st
  | fuel + 1, idx, fde, st =>
      match readOneDirEntry fs dir idx fde with
      | none => none
      | some (ec, fde) =>
          if ec ≠ .noError ∨ fde.name 0 = 0 then some st
          else parseLoop fs dir fuel (idx + 1) fde (st.round idx fde)

/-- The maps that the constructor of `fat_folder` fills from the entries of its underlying file. -/
def parseFolder (fs : FatFs) (dir : FatFile) : Option FolderMaps :=
  (parseLoop fs dir (dir.record.fileSize / 32 + 1) 0 FatDirEntry.zero .init).map (·.maps)

/-- `attributes.directory` set. -/
def FatDirEntry.setDirectory (e : FatDirEntry) : FatDirEntry :=
  e.set 11 1 (e.attributesRaw ||| 0x10)

/-- The loop of the constructor of `fat_file` that counts the clusters of a directory.  A chain that
comes to an end has at most `number_of_clusters + 1` of them: all but the last are in the table. -/
def countClusters (fs : FatFs) : Nat → Nat → Option Nat
  | 0, _ => none
  | fuel + 1, clusterNum =>
      if isNormalClusterNumber fs.params.type clusterNum then
        (countClusters fs fuel (readFatEntry fs.params fs.rawFat clusterNum)).map (· + 1)
      else some 0

/-- The constructor of `fat_file`. -/
def FatFile.new (fs : FatFs) (fileDataRecord : FatDirEntry) (fdeIndex : Nat)
    (rootDirectory : Bool) : Option FatFile :=
  let small := rootDirectory && decide (fs.params.type ≠ .fat32)
  if fileDataRecord.isDirectory || rootDirectory then
    let record := if rootDirectory then fileDataRecord.setDirectory else fileDataRecord
    if small then
      some ⟨(record.setFirstCluster 0 0).setFileSize
        (fs.params.rootDirSectorCount * fs.params.bytesPerSec), fdeIndex, small⟩
    else
      (countClusters fs (fs.params.numberOfClusters + 2) record.widenedFirstCluster).map
        fun clusterCount =>
          ⟨record.setFileSize (clusterCount * fs.params.secsPerCluster * fs.params.bytesPerSec),
            fdeIndex, small⟩
  else some ⟨fileDataRecord, fdeIndex, small⟩

/-- The constructor of `fat_folder`. -/
def FatFolder.new (fs : FatFs) (fileDataRecord : FatDirEntry) (fdeIndex : Nat)
    (folderParents : List FatFile) (rootDirectory : Bool) : Option FatFolder := do
  let dir ← FatFile.new fs fileDataRecord fdeIndex rootDirectory
  let maps ← parseFolder fs dir
  some ⟨fs, dir :: folderParents, maps⟩

/-- `fat_folder::get_dir_entry`: the entry and its index, and the maps.  Where the index has no
object, `operator[]` adds one. -/
def FolderMaps.getDirEntry (maps : FolderMaps) (name : Name) :
    Option (FatDirEntry × Nat) × FolderMaps :=
  let found :=
    match maps.longNameToFdeMap.lookup name with
    | some idx => some idx
    | none => maps.shortNameToFdeMap.lookup name
  match found with
  | none => (none, maps)
  | some foundIdx =>
      let fdeToChildMap :=
        insertNew maps.fdeToChildMap foundIdx ⟨[], [], 0, FatDirEntry.zero⟩
      (some (((fdeToChildMap.lookup foundIdx).map (·.fde)).getD FatDirEntry.zero, foundIdx),
        { maps with fdeToChildMap := fdeToChildMap })

/-- `fat_folder::get_child`, for a name without a path in it: the code and the index of the
child's entry. -/
def FolderMaps.getChild (maps : FolderMaps) (name : Name) : ErrCode × Option Nat :=
  match (maps.getDirEntry name).1 with
  | some (_, foundFdeIndex) => (.noError, some foundFdeIndex)
  | none => (.notFound, none)

/-- `fat_folder::num_children`. -/
def FolderMaps.numChildren (maps : FolderMaps) : Nat := maps.fdeToChildMap.keys.card

/-! ### Changing the entries -/

/-- The variables of the search for space in `add_directory_entries`. -/
structure SpaceState where
  foundFirstIdx : Nat
  foundSpaces : Nat
  midMatchGroup : Bool
  moveEodMarker : Bool

/-- One round of the search. -/
def SpaceState.round (numEntries i : Nat) (fde : FatDirEntry) (st : SpaceState) : SpaceState :=
  if fde.name 0 = 0xE5 then
    if st.midMatchGroup then { st with foundSpaces := st.foundSpaces + 1 }
    else { st with midMatchGroup := true, foundSpaces := 1, foundFirstIdx := i }
  else if fde.name 0 = 0 then
    { st with
      foundFirstIdx := if st.midMatchGroup then st.foundFirstIdx else i
      moveEodMarker := true
      foundSpaces := numEntries }
  else { st with midMatchGroup := false, foundSpaces := 0 }

/-- The search for space in `add_directory_entries`: the last code, and the variables. -/
def findSpace (fs : FatFs) (dir : FatFile) (numEntries : Nat) :
    Nat → Nat → FatDirEntry → SpaceState → Option (ErrCode × SpaceState)
  | 0, _, _, st => some (.noError, st)
  | fuel + 1, i, fde, st =>
      match readOneDirEntry fs dir i fde with
      | none => none
      | some (ec, fde) =>
          if ec ≠ .noError then some (ec, st)
          else
            let st := st.round numEntries i fde
            if st.foundSpaces = numEntries then some (.noError, st)
            else findSpace fs dir numEntries fuel (i + 1) fde st

/-- The loop that writes the new entries. -/
def writeEntries : List FatDirEntry → Nat → FatFs → List FatFile →
    Option (ErrCode × FatFs × List FatFile)
  | [], _, fs, dirs => some (.noError, fs, dirs)
  | fde :: fdes, index, fs, dirs =>
      match writeFde dirs fs index fde with
      | none => none
      | some (ec, fs, dirs) =>
          if ec ≠ .noError then some (ec, fs, dirs) else writeEntries fdes (index + 1) fs dirs

/-- `fat_folder::add_directory_entries`: the code, the filesystem, the underlying files, and the
index of the short entry. -/
def addDirectoryEntries (fs : FatFs) (dirs : List FatFile) (newFdes : List FatDirEntry) :
    Option (ErrCode × FatFs × List FatFile × Nat) :=
  match dirs with
  | [] => none
  | dir :: _ =>
      match findSpace fs dir newFdes.length 65535 0 FatDirEntry.zero ⟨0, 0, false, false⟩ with
      | none => none
      | some (ec, st) =>
          if ec ≠ .noError then some (ec, fs, dirs, 0)
          else
            match writeEntries newFdes st.foundFirstIdx fs dirs with
            | none => none
            | some (ec, fs, dirs) =>
                let newIdx := st.foundFirstIdx + newFdes.length - 1
                if st.moveEodMarker then
                  match writeFde dirs fs (st.foundFirstIdx + newFdes.length) FatDirEntry.zero with
                  | none => none
                  | some (ec, fs, dirs) => some (ec, fs, dirs, newIdx)
                else some (ec, fs, dirs, newIdx)

/-- The loop of `unlink_fdes` over the entries before the short one.  The result of writing is not
looked at. -/
def unlinkLoop : Nat → ErrCode → FatDirEntry → FatFs → List FatFile →
    Option (ErrCode × FatFs × List FatFile)
  | 0, result, _, fs, dirs => some (result, fs, dirs)
  | idx + 1, _, fde, fs, dirs =>
      match dirs with
      | [] => none
      | dir :: _ =>
          match readOneDirEntry fs dir idx fde with
          | none => none
          | some (result, fde) =>
              if result = .noError ∧ fde.attributesRaw = 0x0F then
                let fde := fde.set 0 1 0xE5
                match writeFde dirs fs idx fde with
                | none => none
                | some (_, fs, dirs) => unlinkLoop idx result fde fs dirs
              else if result = .noError then some (result, fs, dirs)
              else unlinkLoop idx result fde fs dirs

/-- `fat_folder::unlink_fdes`. -/
def unlinkFdes (fs : FatFs) (dirs : List FatFile) (shortNameFdeIdx : Nat) :
    Option (ErrCode × FatFs × List FatFile) :=
  match dirs with
  | [] => none
  | dir :: _ =>
      match readOneDirEntry fs dir shortNameFdeIdx FatDirEntry.zero with
      | none => none
      | some (result, fde) =>
          if result = .noError ∧ fde.attributesRaw ≠ 0x0F then
            let fde := fde.set 0 1 0xE5
            match writeFde dirs fs shortNameFdeIdx fde with
            | none => none
            | some (result, fs, dirs) =>
                if result = .noError then unlinkLoop shortNameFdeIdx result fde fs dirs
                else some (result, fs, dirs)
          else if fde.attributesRaw ≠ 0x0F then some (.invalidOp, fs, dirs)
          else some (result, fs, dirs)

/-! ### The children -/

/-- The maps without the child at an index, which `rename_child` and `delete_child` take out. -/
def FolderMaps.eraseChild (maps : FolderMaps) (idx : Nat) (obj : FatObjectDetails) : FolderMaps :=
  let maps :=
    if obj.longFn ∈ maps.longNameToFdeMap then
      { maps with
        longNameToFdeMap := maps.longNameToFdeMap.erase obj.longFn
        canonicalNames := maps.canonicalNames.erase obj.longFn }
    else { maps with canonicalNames := maps.canonicalNames.erase obj.shortFn }
  { maps with
    shortNameToFdeMap := maps.shortNameToFdeMap.erase obj.shortFn
    fdeToChildMap := maps.fdeToChildMap.erase idx }

/-- The maps with a child that `create_child` and `rename_child` put in. -/
def FolderMaps.insertChild (maps : FolderMaps) (idx : Nat) (obj : FatObjectDetails) : FolderMaps :=
  let maps := { maps with
    fdeToChildMap := insertNew maps.fdeToChildMap idx obj
    shortNameToFdeMap := insertNew maps.shortNameToFdeMap obj.shortFn idx }
  if obj.longFn ≠ [] then
    { maps with
      longNameToFdeMap := insertNew maps.longNameToFdeMap obj.longFn idx
      canonicalNames := insert obj.longFn maps.canonicalNames }
  else { maps with canonicalNames := insert obj.shortFn maps.canonicalNames }

/-- Whether `get_dir_entry` finds a name, as `generate_basis_name_entry` asks it. -/
def FolderMaps.isInUse (maps : FolderMaps) (name : Name) : Bool × FolderMaps :=
  ((maps.getDirEntry name).1.isSome, (maps.getDirEntry name).2)

/-- The entries with a change to the last one, the short entry. -/
def mapLast (f : FatDirEntry → FatDirEntry) (fdes : List FatDirEntry) : List FatDirEntry :=
  fdes.dropLast ++ fdes.getLast?.toList.map f

/-- `fat_folder::create_child`. -/
def createChild (st : FatFolder) (name : Name) : Option (ErrCode × FatFolder) :=
  match st.maps.getDirEntry name with
  | (some _, maps) => some (.alreadyExists, { st with maps := maps })
  | (none, maps) =>
      match populateFdesFromName FolderMaps.isInUse maps name with
      | none => none
      | some (none, maps) => some (.invalidParam, { st with maps := maps })
      | some (some p, maps) =>
          let fdes := mapLast FatDirEntry.setArchive p.fdes
          match addDirectoryEntries st.fs st.dirs fdes with
          | none => none
          | some (result, fs, dirs, newIdx) =>
              if result ≠ .noError then some (result, ⟨fs, dirs, maps⟩)
              else
                let newObj : FatObjectDetails :=
                  ⟨p.longName, p.shortName, newIdx, fdes.getLast?.getD FatDirEntry.zero⟩
                let maps := maps.insertChild newIdx newObj
                some ((maps.getChild name).1, ⟨fs, dirs, (maps.getDirEntry name).2⟩)

/-- `fat_folder::rename_child`. -/
def renameChild (st : FatFolder) (oldName newName : Name) : Option (ErrCode × FatFolder) :=
  match st.maps.getDirEntry newName with
  | (some _, maps) => some (.alreadyExists, { st with maps := maps })
  | (none, maps) =>
      match maps.getDirEntry oldName with
      | (none, maps) => some (.notFound, { st with maps := maps })
      | (some (fde, oldFdeIndex), maps) =>
          match populateFdesFromName FolderMaps.isInUse maps newName with
          | none => none
          | some (none, maps) => some (.invalidName, { st with maps := maps })
          | some (some p, maps) =>
              -- everything except the name part is copied
              let fdes := mapLast (fun e => fde.setName e.nameBytes) p.fdes
              match addDirectoryEntries st.fs st.dirs fdes with
              | none => none
              | some (result, fs, dirs, newFdeIndex) =>
                  if result ≠ .noError then some (result, ⟨fs, dirs, maps⟩)
                  else
                    match maps.fdeToChildMap.lookup oldFdeIndex with
                    | none => none
                    | some oldObj =>
                        let newObj : FatObjectDetails :=
                          ⟨p.longName, p.shortName, newFdeIndex,
                            fdes.getLast?.getD FatDirEntry.zero⟩
                        let maps :=
                          (maps.eraseChild oldFdeIndex oldObj).insertChild newFdeIndex newObj
                        match unlinkFdes fs dirs oldFdeIndex with
                        | none => none
                        | some (result, fs, dirs) => some (result, ⟨fs, dirs, maps⟩)

/-- `fat_folder::delete_child`. -/
def deleteChild (st : FatFolder) (name : Name) : Option (ErrCode × FatFolder) :=
  match st.maps.getDirEntry name with
  | (none, maps) => some (.notFound, { st with maps := maps })
  | (some (_, location), maps) =>
      let maps :=
        match maps.fdeToChildMap.lookup location with
        | some obj => maps.eraseChild location obj
        | none => maps
      match unlinkFdes st.fs st.dirs location with
      | none => none
      | some (result, fs, dirs) => some (result, ⟨fs, dirs, maps⟩)

end Azalea.Fat
