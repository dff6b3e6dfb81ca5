import Azalea.Fat.WriteFile
import Azalea.Fat.Folder

/-!
# Fat — the slots of a folder

A folder is a list of entries of 32 bytes.  Reading and writing one entry is reading and setting a
member of the list.

* `readOneDirEntry_eq`, `readOneDirEntry_beyond`: reading a slot.
* `writeFde_slots`: writing a slot.
* `writeFde_grow`, `writeFde_reserved`: writing the slot after the last one adds a cluster of slots, or one
  that nothing can be written to.
-/

namespace Azalea.Fat
open Azalea.Memory Azalea.Walks

/-- The entry in a slot of a folder. -/
def slotAt (fs : FatFs) (dir : FatFile) (ds : List Nat) (i : Nat) : FatDirEntry :=
  FatDirEntry.ofMem (folderByte fs dir ds) (i * 32)

/-- The slots of a folder. -/
def slots (fs : FatFs) (dir : FatFile) (ds : List Nat) : List FatDirEntry :=
  (List.range (dir.record.fileSize / 32)).map (slotAt fs dir ds)

section
variable {fs : FatFs} {dir file : FatFile} {ds : List Nat} {sec : Nat → Nat} {n i : Nat}

@[simp] theorem length_slots : (slots fs dir ds).length = dir.record.fileSize / 32 := by
  rw [slots, List.length_map, List.length_range]

theorem getElem?_slots (fs : FatFs) (ds : List Nat) (hi : i < dir.record.fileSize / 32) :
    (slots fs dir ds)[i]? = some (slotAt fs dir ds i) := by
  rw [slots, List.getElem?_map, List.getElem?_range hi]
  rfl

/-- Folders with the same bytes have the same slots. -/
theorem slots_congr {fs' : FatFs} {dir' : FatFile} {ds' : List Nat}
    (hsize : dir'.record.fileSize = dir.record.fileSize)
    (h : ∀ i, i < dir.record.fileSize → folderByte fs' dir' ds' i = folderByte fs dir ds i) :
    slots fs' dir' ds' = slots fs dir ds := by
  rw [slots, slots, hsize]
  refine List.map_congr_left fun i hi => FatDirEntry.ext_mem fun k hk => ?_
  rw [List.mem_range] at hi
  rw [slotAt, slotAt, FatDirEntry.mem_ofMem _ _ hk, FatDirEntry.mem_ofMem _ _ hk]
  exact h _ (by omega)

/-! ### Reading -/

/-- A read of `k` bytes inside one sector. -/
theorem readSections_inside (limit : Nat) {start k : Nat} (buffer : Bytes) (h : fs.Mounted)
    (hl : LaidOut fs file sec n) (hj : start / fs.params.bytesPerSec < n)
    (hk : start % fs.params.bytesPerSec + k ≤ fs.params.bytesPerSec) :
    ∃ st, readSections limit fs file start k buffer (sec (start / fs.params.bytesPerSec)) = some st ∧
      st.ec = .noError ∧ st.bytesReadSoFar = k ∧
      ∀ p, p < k → st.buffer p =
        fs.storage.bytes (addr fs.params.bytesPerSec sec (start + p)) := by
  have hpos := h.params.sector_pos
  have hlt := h.params.sector_lt
  have hread : fs.storage.readBlocks (sec (start / fs.params.bytesPerSec)) 1 (fun _ => 0) 0
      fs.params.bytesPerSec = (.noError, blit (fun _ => 0) 0 fs.storage.bytes
        (sec (start / fs.params.bytesPerSec) * fs.params.bytesPerSec) fs.params.bytesPerSec) := by
    have := hl.stored _ hj
    have := h.numBlocks
    rw [BlockDevice.readBlocks, if_pos ⟨by omega, fun _ => Nat.one_ne_zero, by rw [h.blockSize]; omega⟩,
      h.blockSize, Nat.one_mul]
  have hnum : (if (if k > fs.params.bytesPerSec then fs.params.bytesPerSec else k) +
        start % fs.params.bytesPerSec > fs.params.bytesPerSec
      then fs.params.bytesPerSec - start % fs.params.bytesPerSec
      else if k > fs.params.bytesPerSec then fs.params.bytesPerSec else k) = k := by
    split <;> split at * <;> omega
  have hsub : sub64 k k = 0 := by rw [sub64_of_le (by omega) le_rfl, Nat.sub_self]
  rw [readSections, readHead]
  dsimp only
  rw [hread]
  dsimp only
  rw [if_neg (by simp), hnum, readWhole]
  dsimp only
  rw [hsub, if_neg (by omega), readTail]
  dsimp only
  rw [hsub, if_neg (not_not.mpr hpos), if_neg (show ¬ 0 ≠ 0 by simp), if_pos rfl]
  refine ⟨_, rfl, rfl, rfl, fun p hp => ?_⟩
  have hin : start % fs.params.bytesPerSec + p < fs.params.bytesPerSec := by omega
  have hdm := Nat.div_add_mod start fs.params.bytesPerSec
  have haddr : addr fs.params.bytesPerSec sec (start + p) =
      sec (start / fs.params.bytesPerSec) * fs.params.bytesPerSec +
        (start % fs.params.bytesPerSec + p) := by
    rw [addr, ← hdm, Nat.add_assoc, Nat.mul_add_div hpos, Nat.mul_add_mod, Nat.div_eq_of_lt hin,
      Nat.mod_eq_of_lt hin, Nat.add_zero, hdm]
  rw [haddr]
  exact (blit_start hp).trans (blit_start hin)

/-- A slot lies in one sector. -/
theorem slot_mod_le (h : fs.params.Mounted) (i : Nat) :
    i * 32 % fs.params.bytesPerSec + 32 ≤ fs.params.bytesPerSec := by
  obtain ⟨k, hk, -, he⟩ := h.sectorSize
  obtain ⟨c, hc⟩ : 32 ∣ fs.params.bytesPerSec := by
    rw [he]
    exact pow_dvd_pow 2 hk
  have hpos := h.sector_pos
  rw [hc] at hpos ⊢
  rw [Nat.mul_comm i, Nat.mul_mod_mul_left, ← Nat.mul_succ]
  exact Nat.mul_le_mul_left _ (Nat.mod_lt _ (Nat.pos_of_mul_pos_left hpos))

/-- **Reading a slot.** -/
theorem readOneDirEntry_eq (h : fs.Mounted) (hd : FolderAt fs dir ds)
    (hi : i < dir.record.fileSize / 32) (fde : FatDirEntry) :
    readOneDirEntry fs dir i fde = some (.noError, slotAt fs dir ds i) := by
  have hsize := dir.record.fileSize_lt
  obtain ⟨n, hl, hn⟩ := hd.laidOut h
  have hj : i * 32 / fs.params.bytesPerSec < n :=
    (Nat.div_lt_iff_lt_mul h.params.sector_pos).mpr (by omega)
  have hlen : checkedLength dir.record.fileSize (i * 32) 32 32 = 32 := by
    rw [checkedLength, Nat.mod_eq_of_lt (by omega),
      if_neg (show ¬ i * 32 + 32 > dir.record.fileSize by omega)]
    rfl
  obtain ⟨st, hst, hec, hso, hbuf⟩ := readSections_inside 65024 fde.mem h hl hj
    (slot_mod_le h.params i)
  rw [readOneDirEntry, readBytes_eq (by omega), hl.found _ hj, hlen]
  dsimp only
  rw [hst, Option.map_some]
  dsimp only
  rw [hec, hso, if_neg (by simp), Option.getD_some]
  refine congrArg (fun e => some (ErrCode.noError, e)) (FatDirEntry.ext_mem fun k hk => ?_)
  rw [slotAt, FatDirEntry.mem_ofMem _ _ hk, FatDirEntry.mem_ofMem _ _ hk, Nat.zero_add]
  exact hbuf k hk

/-- The slots of a folder, as `read_one_dir_entry` reads them. -/
def diskSlots (fs : FatFs) (dir : FatFile) : List FatDirEntry :=
  (List.range (dir.record.fileSize / 32)).map fun i =>
    ((readOneDirEntry fs dir i FatDirEntry.zero).map (·.2)).getD FatDirEntry.zero

theorem diskSlots_eq (h : fs.Mounted) (hd : FolderAt fs dir ds) :
    diskSlots fs dir = slots fs dir ds := by
  refine List.map_congr_left fun i hi => ?_
  rw [readOneDirEntry_eq h hd (List.mem_range.mp hi)]
  rfl

/-- Reading beyond the last slot is an error, and gives nothing. -/
theorem readOneDirEntry_beyond (h : fs.Mounted) (hi : dir.record.fileSize ≤ i * 32)
    (h64 : i * 32 + 32 < 2 ^ 64) (fde : FatDirEntry) :
    ∃ ec, ec ≠ .noError ∧ readOneDirEntry fs dir i fde = some (ec, fde) := by
  have hpos := h.params.sector_pos
  have hsize := dir.record.fileSize_lt
  -- no byte is read
  have hzero : ∃ ec, readBytes 65024 fs dir (i * 32) 32 (some fde.mem) 32 =
      some (ec, some fde.mem, 0) := by
    rcases hi.eq_or_lt with heq | hlt
    · have hlen : checkedLength dir.record.fileSize (i * 32) 32 32 = 0 := by
        rw [checkedLength, Nat.mod_eq_of_lt (by omega),
          if_pos (show i * 32 + 32 > dir.record.fileSize by omega), heq,
          sub64_of_le (by omega) le_rfl, Nat.sub_self]
        rfl
      rw [readBytes_eq (by omega), hlen]
      cases getDiskSectorFromOffset fs dir (i * 32 / fs.params.bytesPerSec) with
      | none => exact ⟨_, rfl⟩
      | some sector =>
          have hempty : ∀ st : ReadState, st.bytesReadSoFar = 0 →
              readTail fs 0 (readWhole 65024 fs dir 0 st) = some st := by
            intro st hst
            have hsub : sub64 0 st.bytesReadSoFar = 0 := by rw [hst]; rfl
            rw [readWhole]
            dsimp only
            rw [hsub, if_neg (by omega), readTail]
            dsimp only
            rw [hsub, if_neg (not_not.mpr hpos), if_neg (show ¬ 0 ≠ 0 by simp), if_pos hst]
          have hhead : ∃ ec sn sb,
              readHead fs dir (i * 32) 0 fde.mem sector = ⟨ec, fde.mem, 0, sn, sb⟩ := by
            have hmod := Nat.mod_lt (i * 32) hpos
            rw [readHead]
            dsimp only
            rw [if_neg (show ¬ 0 > fs.params.bytesPerSec by omega),
              if_neg (show ¬ 0 + i * 32 % fs.params.bytesPerSec > fs.params.bytesPerSec by omega)]
            split
            · exact ⟨_, _, _, rfl⟩
            · rw [blit_zero]
              exact ⟨_, _, _, rfl⟩
          obtain ⟨ec, sn, sb, hh⟩ := hhead
          refine ⟨ec, ?_⟩
          dsimp only
          rw [readSections, hh, hempty _ rfl]
          rfl
    · refine ⟨.noError, ?_⟩
      rw [readBytes]
      dsimp only
      rw [if_neg (by simpa using hlt)]
  obtain ⟨ec, hec⟩ := hzero
  rw [readOneDirEntry, hec]
  dsimp only
  rw [Option.getD_some, FatDirEntry.ofMem_mem]
  refine ⟨_, ?_, rfl⟩
  split
  · simp
  · next hne => exact fun he => hne ⟨by simp, he⟩

/-! ### Writing -/

/-- The slots of a folder after one of them has been replaced. -/
theorem slots_patched {m : Bytes} {e : FatDirEntry} (h : fs.Mounted) (hd : FolderAt fs dir ds)
    (hi : i < dir.record.fileSize / 32)
    (hp : Patched fs.params.bytesPerSec (folderSector fs.params dir ds) fs.storage.bytes m e.mem
      (i * 32) 32) :
    slots (fs.withBytes m) dir ds = (slots fs dir ds).set i e := by
  obtain ⟨n, hl, hn⟩ := hd.laidOut h
  refine List.ext_getElem? fun j => ?_
  rw [List.getElem?_set, length_slots]
  by_cases hj : j < dir.record.fileSize / 32
  · rw [getElem?_slots _ _ hj, getElem?_slots _ _ hj]
    by_cases hij : i = j
    · subst hij
      rw [if_pos rfl, if_pos hj]
      refine congrArg some (FatDirEntry.ext_mem fun k hk => ?_)
      rw [slotAt, FatDirEntry.mem_ofMem _ _ hk]
      exact hp.read k hk
    · rw [if_neg hij]
      refine congrArg some (FatDirEntry.ext_mem fun k hk => ?_)
      rw [slotAt, slotAt, FatDirEntry.mem_ofMem _ _ hk, FatDirEntry.mem_ofMem _ _ hk]
      exact hp.outside h.params.sector_pos hl.distinct
        (show i * 32 + 32 ≤ n * fs.params.bytesPerSec by omega)
        (show j * 32 + k < n * fs.params.bytesPerSec by omega) (by omega)
  · have hlen : ∀ fs' : FatFs, (slots fs' dir ds)[j]? = none := fun fs' => by
      rw [List.getElem?_eq_none_iff, length_slots]
      omega
    rw [hlen, hlen, if_neg (by omega)]

/-- **Writing a slot.** -/
theorem writeFde_slots (h : fs.Mounted) (hd : FolderAt fs dir ds) (rest : List FatFile)
    (hi : i < dir.record.fileSize / 32) (e : FatDirEntry) :
    ∃ m, writeFde (dir :: rest) fs i e = some (.noError, fs.withBytes m, dir :: rest) ∧
      slots (fs.withBytes m) dir ds = (slots fs dir ds).set i e ∧
      Patched fs.params.bytesPerSec (folderSector fs.params dir ds) fs.storage.bytes m e.mem
        (i * 32) 32 := by
  obtain ⟨m, he, hp⟩ := writeFde_eq (show (i + 1) * 32 ≤ dir.record.fileSize by omega) rest e h hd
  exact ⟨m, he, slots_patched h hd hi hp, hp⟩

end

/-! ### The slot after the last one -/

/-- A folder of a volume and the folder above it, if any, which holds its entry. -/
structure FolderSetting (fs : FatFs) (dir : FatFile) (rest : List FatFile) (ds : List Nat) :
    Prop where
  mounted : fs.Mounted
  folderAt : FolderAt fs dir ds
  parent : ∀ p ps, rest = p :: ps → ∃ es, FolderAt fs p es ∧ ds.Disjoint es ∧
    (dir.fileRecordIndex + 1) * 32 ≤ p.record.fileSize

/-- A folder of a volume, with its clusters. -/
structure VolumeFolder where
  fs : FatFs
  dir : FatFile
  rest : List FatFile
  clusters : List Nat
  setting : FolderSetting fs dir rest clusters

/-- The slots of a folder of a volume. -/
def VolumeFolder.slots (folder : VolumeFolder) : List FatDirEntry :=
  Fat.slots folder.fs folder.dir folder.clusters

/-- A folder can get one more slot: it is not the root directory of FAT12 or FAT16, it does not have
the most slots a folder can have, and the first free cluster has a normal number. -/
def CanGrow (fs : FatFs) (dir : FatFile) : Prop :=
  dir.isSmallFatRootDir = false ∧ dir.record.fileSize / 32 < 65535 ∧
    ∃ f, selectFreeCluster fs.params fs.rawFat = some f ∧
      isNormalClusterNumber fs.params.type f = true

section
variable {fs : FatFs} {dir : FatFile} {rest : List FatFile} {ds : List Nat}

/-- The setting does not depend on the bytes of the disk. -/
theorem FolderSetting.withBytes (h : FolderSetting fs dir rest ds) (m : Bytes) :
    FolderSetting (fs.withBytes m) dir rest ds where
  mounted := h.mounted.congr fs.rawFat m
  folderAt := h.folderAt.congr _ fun _ _ => rfl
  parent p ps hp := by
    obtain ⟨es, hf, hdis, hslot⟩ := h.parent p ps hp
    exact ⟨es, hf.congr _ fun _ _ => rfl, hdis, hslot⟩

/-- A folder's size is a number of slots. -/
theorem FolderAt.size_mod (h : fs.Mounted) (hd : FolderAt fs dir ds) :
    dir.record.fileSize % 32 = 0 := by
  obtain ⟨n, -, hn⟩ := hd.laidOut h
  obtain ⟨k, hk, -, he⟩ := h.params.sectorSize
  have hdvd : 32 ∣ fs.params.bytesPerSec := by
    rw [he]
    exact pow_dvd_pow 2 hk
  rw [hn]
  exact Nat.mod_eq_zero_of_dvd (hdvd.mul_left n)

theorem FatParams.Mounted.sector_dvd {g : FatParams} (h : g.Mounted) : 32 ∣ g.bytesPerSec := by
  obtain ⟨k, hk, -, he⟩ := h.sectorSize
  rw [he]
  exact pow_dvd_pow 2 hk

/-- The clusters of a size between two numbers of clusters. -/
theorem chainLength_eq {k size : Nat} (h : fs.params.Mounted)
    (hlo : k * fs.params.secsPerCluster * fs.params.bytesPerSec < size)
    (hhi : size ≤ (k + 1) * fs.params.secsPerCluster * fs.params.bytesPerSec) :
    fs.params.chainLength size = k + 1 := by
  refine Nat.le_antisymm (h.chainLength_le hhi) (Nat.succ_le_of_lt ?_)
  have hlt := hlo.trans_le (h.le_chainLength size)
  rw [Nat.mul_assoc, Nat.mul_assoc] at hlt
  exact Nat.lt_of_mul_lt_mul_right hlt

/-- The clusters of a folder. -/
theorem chainLength_mul (h : fs.params.Mounted) (k : Nat) :
    fs.params.chainLength (k * fs.params.secsPerCluster * fs.params.bytesPerSec) = k := by
  have hpos := Nat.mul_pos h.cluster_pos h.sector_pos
  cases k with
  | zero => rw [Nat.zero_mul, Nat.zero_mul]; exact FatParams.chainLength_eq_zero.mpr rfl
  | succ k =>
      refine chainLength_eq h ?_ le_rfl
      rw [Nat.mul_assoc, Nat.mul_assoc]
      exact Nat.mul_lt_mul_of_pos_right (Nat.lt_succ_self k) hpos

/-- A folder's clusters, before and after it gets one more slot. -/
theorem FolderAt.grow_size (h : fs.Mounted) (hd : FolderAt fs dir ds)
    (hs : dir.isSmallFatRootDir = false) :
    fs.params.chainLength dir.record.fileSize = ds.length ∧
    fs.params.chainLength (dir.record.fileSize + 32) = ds.length + 1 ∧
    fs.params.chainLength
      ((ds.length + 1) * (fs.params.bytesPerSec * fs.params.secsPerCluster)) = ds.length + 1 := by
  have hsize := (hd.chain hs).2
  have h32 := Nat.le_of_dvd h.params.sector_pos h.params.sector_dvd
  have hcl : fs.params.bytesPerSec ≤ fs.params.secsPerCluster * fs.params.bytesPerSec :=
    Nat.le_mul_of_pos_left _ h.params.cluster_pos
  rw [hsize]
  refine ⟨chainLength_mul h.params _, chainLength_eq h.params (by omega) ?_, ?_⟩
  · rw [Nat.add_mul, Nat.add_mul, Nat.one_mul]
    omega
  · rw [Nat.mul_comm fs.params.bytesPerSec, ← Nat.mul_assoc]
    exact chainLength_mul h.params _

/-- The record of a folder that has got a cluster. -/
def grownRecord (g : FatParams) (dir : FatFile) (clusters : Nat) : FatDirEntry :=
  (dir.record.setFileSize 0).setFileSize (clusters * (g.bytesPerSec * g.secsPerCluster))

/-- The object of a folder that has got a cluster. -/
def grownDir (g : FatParams) (dir : FatFile) (clusters : Nat) : FatFile :=
  { dir with record := grownRecord g dir clusters }

theorem firstCluster_grownDir (g : FatParams) (dir : FatFile) (clusters : Nat) :
    (grownDir g dir clusters).record.firstCluster = dir.record.firstCluster := by
  rw [grownDir, grownRecord, FatDirEntry.firstCluster, FatDirEntry.firstCluster]
  simp

/-- A folder that has got a cluster is larger by that. -/
theorem FolderAt.fileSize_grownDir (h : fs.Mounted) (hd : FolderAt fs dir ds)
    (hs : dir.isSmallFatRootDir = false) (hlt : dir.record.fileSize / 32 < 65535) :
    (grownDir fs.params dir (ds.length + 1)).record.fileSize =
        dir.record.fileSize + fs.params.secsPerCluster * fs.params.bytesPerSec ∧
      (ds.length + 1) * fs.params.secsPerCluster * fs.params.bytesPerSec =
        dir.record.fileSize + fs.params.secsPerCluster * fs.params.bytesPerSec := by
  have hsize := (hd.chain hs).2
  have hcl : fs.params.secsPerCluster * fs.params.bytesPerSec ≤ 256 * 65536 :=
    Nat.mul_le_mul h.params.cluster_lt.le h.params.sector_lt.le
  have hgrown : (ds.length + 1) * fs.params.secsPerCluster * fs.params.bytesPerSec =
      dir.record.fileSize + fs.params.secsPerCluster * fs.params.bytesPerSec := by
    rw [Nat.add_mul, Nat.add_mul, Nat.one_mul, ← hsize]
  refine ⟨?_, hgrown⟩
  rw [grownDir, grownRecord, FatDirEntry.fileSize_setFileSize, Nat.mul_comm fs.params.bytesPerSec,
    ← Nat.mul_assoc, hgrown, Nat.mod_eq_of_lt (by omega)]

/-- The folder after it has got a cluster. -/
theorem FolderAt.grown {fat : Bytes} {f : Nat} (h : fs.Mounted) (hd : FolderAt fs dir ds)
    (hs : dir.isSmallFatRootDir = false) (hlt : dir.record.fileSize / 32 < 65535)
    (hch : IsChain fs.params fat dir.record.firstCluster (ds ++ [f])) (m : Bytes) :
    FolderAt { fs with rawFat := fat, storage := fs.storage.withBytes m }
      (grownDir fs.params dir (ds.length + 1)) (ds ++ [f]) := by
  obtain ⟨hsize, hgrown⟩ := hd.fileSize_grownDir h hs hlt
  refine ⟨?_, fun hr => ?_, fun _ => ⟨?_, ?_⟩⟩
  · rw [grownDir, grownRecord]
    simpa using hd.directory
  · exact absurd (hs.symm.trans hr) (by decide)
  · rw [firstCluster_grownDir]
    exact hch
  · rw [hsize, List.length_append, List.length_singleton]
    exact hgrown.symm

/-- **A folder gets a cluster**: the first free one, behind its last one.  Its entry goes to the
folder above it with a size of zero. -/
theorem setFileSizeNoWrite_grow (parent : WriteFde) (dirs : List FatFile) {f : Nat}
    (h : fs.Mounted) (hd : FolderAt fs dir ds) (hne : ds ≠ []) (hs : dir.isSmallFatRootDir = false)
    (hlt : dir.record.fileSize / 32 < 65535)
    (hsel : selectFreeCluster fs.params fs.rawFat = some f) :
    ∃ fat m, setFileSizeNoWrite parent fs dir dirs (dir.record.fileSize + 32) =
        (parent { fs with rawFat := fat, storage := fs.storage.withBytes m } dir.fileRecordIndex
          (dir.record.setFileSize 0)).map (fun r => (r.1, r.2.1,
            grownDir fs.params dir (ds.length + 1), r.2.2)) ∧
      Walk (readFatEntry fs.params fat) dir.record.firstCluster ds f ∧
      (isNormalClusterNumber fs.params.type f = true →
        IsChain fs.params fat dir.record.firstCluster (ds ++ [f])) ∧
      (∀ c, c ∉ ds ++ [f] → readFatEntry fs.params fat c = readFatEntry fs.params fs.rawFat c) ∧
      ∀ q, (fs.params.rsvdSecCnt + fs.params.fatSize) * fs.params.bytesPerSec ≤ q →
        m q = fs.storage.bytes q := by
  have hmod := hd.size_mod h
  obtain ⟨hch, -⟩ := hd.chain hs
  obtain ⟨hold, hnew, hround⟩ := hd.grow_size h hs
  obtain ⟨hf₁, hf₂, hf0, -⟩ := selectFreeCluster_eq_some hsel
  obtain ⟨fat, he, hwalk, hend, hframe⟩ := changeFileChainLength_link hch hne hsel
    (by have := h.params.numbered; unfold FatParams.Numbered at this; omega)
  obtain ⟨m, hm, hbeyond⟩ := writeFatToDisk_eq (h.congr fat fs.storage.bytes)
  refine ⟨fat, m, ?_, hwalk, fun hn => ?_, fun c hc => ?_, hbeyond⟩
  · rw [setFileSizeNoWrite, if_neg (by simp [hs]), if_neg (by omega),
      if_neg (show ¬ (dir.record.isDirectory = true ∧ _) by omega)]
    dsimp only
    rw [if_pos (show dir.record.isDirectory = true ∧ dir.record.fileSize + 32 > 0 from
        ⟨hd.directory, by omega⟩), hold, hnew, hround]
    generalize hr : (if ds.length + 1 ≠ ds.length then
        fs.changeFileChainLength dir.record.firstCluster ds.length (ds.length + 1)
      else (.noError, dir.record.firstCluster, fs)) = r
    rw [if_pos (by omega), FatFs.changeFileChainLength, he] at hr
    dsimp only at hr
    rw [if_neg (by simp)] at hr
    subst hr
    dsimp only
    rw [if_neg (show ¬ (ErrCode.noError ≠ .noError) by simp)]
    -- the first cluster stays
    have hlow := dir.record.firstClusterLow_lt
    have hhigh := dir.record.firstClusterHigh_lt
    have hhigh' : dir.record.firstCluster / 2 ^ 16 % 2 ^ 16 = dir.record.firstClusterHigh := by
      rw [FatDirEntry.firstCluster]
      omega
    have hlow' : dir.record.firstCluster % 2 ^ 16 = dir.record.firstClusterLow := by
      rw [FatDirEntry.firstCluster]
      omega
    rw [hhigh', hlow']
    simp only [ne_eq, not_true_eq_false, or_self, false_and, if_false, hd.directory, if_true,
      FatDirEntry.isDirectory_setFileSize]
    have hm' : FatFs.writeFatToDisk { fs with rawFat := fat } =
        { fs with rawFat := fat, storage := fs.storage.withBytes m } := hm
    rw [hm']
    cases parent { fs with rawFat := fat, storage := fs.storage.withBytes m } dir.fileRecordIndex
      (dir.record.setFileSize 0) <;> rfl
  · exact hch.append ⟨⟨hf₁, by omega⟩, hn⟩ (fun hm => hch.entry_ne_zero hm hf0) hwalk hend
  · rw [List.mem_append, List.mem_singleton, not_or] at hc
    exact hframe c hc.1 hc.2

/-- The folder's entry is written to the folder above it. -/
theorem FolderSetting.writeEntry {p : FatFile} {ps : List FatFile} {f : Nat} {es : List Nat}
    {fat m : Bytes} (h : FolderSetting fs dir (p :: ps) ds) (hp : FolderAt fs p es)
    (hdis : ds.Disjoint es) (hslot : (dir.fileRecordIndex + 1) * 32 ≤ p.record.fileSize)
    (hf0 : readFatEntry fs.params fs.rawFat f = 0)
    (hentries : ∀ c, c ∉ ds ++ [f] →
      readFatEntry fs.params fat c = readFatEntry fs.params fs.rawFat c)
    (record : FatDirEntry) :
    ∃ m', writeFde (p :: ps) { fs with rawFat := fat, storage := fs.storage.withBytes m }
        dir.fileRecordIndex record =
        some (.noError, { fs with rawFat := fat, storage := fs.storage.withBytes m' }, p :: ps) ∧
      ∀ q, ¬ InSlot fs dir p es q → m' q = m q := by
  have hp' : FolderAt { fs with rawFat := fat, storage := fs.storage.withBytes m } p es :=
    hp.congr _ fun c hc => hentries c fun hm => by
      rcases List.mem_append.mp hm with hm | hm
      · exact hdis hm hc
      · rw [List.mem_singleton.mp hm] at hc
        exact hp.entry_ne_zero hc hf0
  obtain ⟨m', hw, hpat⟩ := writeFde_eq hslot ps record (h.mounted.congr fat m) hp'
  exact ⟨m', hw, fun q hq => hpat.rest q fun k hk heq => hq ⟨k, hk, heq⟩⟩

/-- The slots of a folder are the first ones of another that begins with its bytes. -/
theorem slots_take {fs' : FatFs} {dir' : FatFile} {ds' : List Nat}
    (hsize : dir.record.fileSize / 32 ≤ dir'.record.fileSize / 32)
    (h : ∀ i, i < dir.record.fileSize → folderByte fs' dir' ds' i = folderByte fs dir ds i) :
    (slots fs' dir' ds').take (dir.record.fileSize / 32) = slots fs dir ds := by
  rw [slots, slots, ← List.map_take, List.take_range, Nat.min_eq_left hsize]
  refine List.map_congr_left fun i hi => FatDirEntry.ext_mem fun k hk => ?_
  rw [List.mem_range] at hi
  rw [slotAt, slotAt, FatDirEntry.mem_ofMem _ _ hk, FatDirEntry.mem_ofMem _ _ hk]
  exact h _ (by omega)

/-- A folder has got a cluster that was free, with an entry in its first slot.  The disk has changed
in the table, in that slot and in the folder's own entry only. -/
structure FolderGrown (fs fs' : FatFs) (dir dir' p : FatFile) (ds es : List Nat) (f : Nat)
    (e : FatDirEntry) : Prop where
  volume : ∃ fat m, fs' = { fs with rawFat := fat, storage := fs.storage.withBytes m }
  folderAt : FolderAt fs' dir' (ds ++ [f])
  index : dir'.fileRecordIndex = dir.fileRecordIndex
  free : readFatEntry fs.params fs.rawFat f = 0
  entries : ∀ c, c ∉ ds ++ [f] →
    readFatEntry fs.params fs'.rawFat c = readFatEntry fs.params fs.rawFat c
  slots : ∃ more, slots fs' dir' (ds ++ [f]) = slots fs dir ds ++ e :: more
  rest : ∀ q, (fs.params.rsvdSecCnt + fs.params.fatSize) * fs.params.bytesPerSec ≤ q →
    ¬ InSlot fs dir p es q → ¬ InClusters fs.params [f] q → fs'.storage.bytes q = fs.storage.bytes q

/-- The sectors behind those of a chain are those of the cluster added to it. -/
theorem sectorAt_added {g : FatParams} {f j : Nat} (h : g.Mounted)
    (hlo : ds.length * g.secsPerCluster ≤ j) (hhi : j < (ds.length + 1) * g.secsPerCluster) :
    sectorAt g (ds ++ [f]) j = sectorAt g [f] (j - ds.length * g.secsPerCluster) := by
  rw [Nat.add_mul, Nat.one_mul] at hhi
  obtain ⟨k, rfl⟩ := Nat.exists_eq_add_of_le hlo
  have hk : k < g.secsPerCluster := by omega
  have hdiv : (ds.length * g.secsPerCluster + k) / g.secsPerCluster = ds.length := by
    rw [Nat.mul_comm, Nat.mul_add_div h.cluster_pos, Nat.div_eq_of_lt hk, Nat.add_zero]
  have hmod : (ds.length * g.secsPerCluster + k) % g.secsPerCluster = k := by
    rw [Nat.mul_comm, Nat.mul_add_mod, Nat.mod_eq_of_lt hk]
  rw [sectorAt, sectorAt, hdiv, hmod, Nat.add_sub_cancel_left, Nat.div_eq_of_lt hk,
    Nat.mod_eq_of_lt hk]
  simp

/-- Writing the slot after the last one asks for 32 bytes more. -/
theorem writeFde_beyond (h : fs.Mounted) (hd : FolderAt fs dir ds) (e : FatDirEntry) :
    writeFde (dir :: rest) fs (dir.record.fileSize / 32) e =
      match setFileSize (writeFde rest) fs dir rest (dir.record.fileSize + 32) with
      | none => none
      | some (result, fs, dir', dirs) =>
          if result ≠ .noError then some (result, fs, dir' :: dirs)
          else
            let (result, fs, br) :=
              writeBody fs dir' (dir.record.fileSize / 32 * 32) 32 e.mem 32 .noError
            let result := if result = .noError ∧ br ≠ 32 then .unknown else result
            some (result, fs, dir' :: dirs) := by
  have hsize := dir.record.fileSize_lt
  have hmod := hd.size_mod h
  have hreq : (dir.record.fileSize / 32 + 1) % 2 ^ 32 * 32 = dir.record.fileSize + 32 := by omega
  rw [writeFde]
  dsimp only
  have hgrow : dir.record.fileSize + 32 > dir.record.fileSize := by omega
  cases hset : setFileSize (writeFde rest) fs dir rest (dir.record.fileSize + 32) with
  | none => simp only [hreq, if_pos hgrow, hset]
  | some r => simp only [hreq, if_pos hgrow, hset]

/-- The first slot of the cluster that a folder has got is filled with zeroes, and then with an entry. -/
theorem writeFde_of_grown {fat m : Bytes} {f : Nat} (h : fs.Mounted) (hd : FolderAt fs dir ds)
    (hs : dir.isSmallFatRootDir = false) (hlt : dir.record.fileSize / 32 < 65535)
    (hch : IsChain fs.params fat dir.record.firstCluster (ds ++ [f]))
    (hnw : setFileSizeNoWrite (writeFde rest) fs dir rest (dir.record.fileSize + 32) =
      some (.noError, { fs with rawFat := fat, storage := fs.storage.withBytes m },
        grownDir fs.params dir (ds.length + 1), rest)) (e : FatDirEntry) :
    ∃ m₁ m₂, writeFde (dir :: rest) fs (dir.record.fileSize / 32) e =
        some (.noError, { fs with rawFat := fat, storage := fs.storage.withBytes m₂ },
          grownDir fs.params dir (ds.length + 1) :: rest) ∧
      Patched fs.params.bytesPerSec (sectorAt fs.params (ds ++ [f])) m m₁ (fun _ => 0)
        dir.record.fileSize 32 ∧
      Patched fs.params.bytesPerSec (sectorAt fs.params (ds ++ [f])) m₁ m₂ e.mem
        dir.record.fileSize 32 := by
  have hsize := dir.record.fileSize_lt
  have hmod := hd.size_mod h
  have hgrown := (hd.fileSize_grownDir h hs hlt).2
  have hlaid : ∀ m', LaidOut { fs with rawFat := fat, storage := fs.storage.withBytes m' }
      (grownDir fs.params dir (ds.length + 1)) (sectorAt fs.params (ds ++ [f]))
      ((ds ++ [f]).length * fs.params.secsPerCluster) :=
    fun m' => laidOut_of_chain (h.congr fat m') hs ((hd.grown h hs hlt hch m').chain hs).1
  have hroom : dir.record.fileSize + 32 ≤
      (ds ++ [f]).length * fs.params.secsPerCluster * fs.params.bytesPerSec := by
    have h32 := Nat.le_of_dvd h.params.sector_pos h.params.sector_dvd
    have hcl : fs.params.bytesPerSec ≤ fs.params.secsPerCluster * fs.params.bytesPerSec :=
      Nat.le_mul_of_pos_left _ h.params.cluster_pos
    rw [List.length_append, List.length_singleton, hgrown]
    omega
  have hinside := Nat.lt_of_lt_of_le (show dir.record.fileSize < dir.record.fileSize + 32 by omega) hroom
  obtain ⟨m₁, hw₁, hp₁⟩ := writeBody_eq (fun _ => 0) (h.congr fat m) (hlaid m) hinside hroom
    (le_refl 32)
  obtain ⟨m₂, hw₂, hp₂⟩ := writeBody_eq e.mem (h.congr fat m₁) (hlaid m₁) hinside hroom (le_refl 32)
  refine ⟨m₁, m₂, ?_, hp₁, hp₂⟩
  have hset : setFileSize (writeFde rest) fs dir rest (dir.record.fileSize + 32) =
      some (.noError, { fs with rawFat := fat, storage := fs.storage.withBytes m₁ },
        grownDir fs.params dir (ds.length + 1), rest) := by
    rw [setFileSize]
    dsimp only
    rw [hnw]
    dsimp only
    rw [if_pos ⟨rfl, by omega⟩, Nat.add_sub_cancel_left, hw₁]
    rfl
  have hat : dir.record.fileSize / 32 * 32 = dir.record.fileSize := by omega
  rw [writeFde_beyond h hd, hset]
  dsimp only
  rw [if_neg (by simp), hat]
  have hw₂' : writeBody { fs with rawFat := fat, storage := fs.storage.withBytes m₁ }
      (grownDir fs.params dir (ds.length + 1)) dir.record.fileSize 32 e.mem 32 .noError =
      (.noError, { fs with rawFat := fat, storage := fs.storage.withBytes m₂ }, 32) := hw₂
  rw [hw₂']
  rfl

/-- The slots of a folder with one more cluster, of whose bytes the first 32 are those of an entry. -/
theorem slots_grownDir {fs' : FatFs} {f : Nat} {e : FatDirEntry} (h : fs.Mounted) (hd : FolderAt fs dir ds)
    (hs : dir.isSmallFatRootDir = false) (hlt : dir.record.fileSize / 32 < 65535)
    (hold : ∀ i, i < dir.record.fileSize →
      folderByte fs' (grownDir fs.params dir (ds.length + 1)) (ds ++ [f]) i = folderByte fs dir ds i)
    (hnew : ∀ k, k < 32 → folderByte fs' (grownDir fs.params dir (ds.length + 1)) (ds ++ [f])
      (dir.record.fileSize + k) = e.mem k) :
    ∃ more, slots fs' (grownDir fs.params dir (ds.length + 1)) (ds ++ [f]) =
      slots fs dir ds ++ e :: more := by
  have hmod := hd.size_mod h
  have hsize := (hd.fileSize_grownDir h hs hlt).1
  have h32 := Nat.le_of_dvd h.params.sector_pos h.params.sector_dvd
  have hcl : fs.params.bytesPerSec ≤ fs.params.secsPerCluster * fs.params.bytesPerSec :=
    Nat.le_mul_of_pos_left _ h.params.cluster_pos
  have htake := slots_take (show dir.record.fileSize / 32 ≤
    (grownDir fs.params dir (ds.length + 1)).record.fileSize / 32 by omega) hold
  have hlast : slotAt fs' (grownDir fs.params dir (ds.length + 1)) (ds ++ [f])
      (dir.record.fileSize / 32) = e := by
    refine FatDirEntry.ext_mem fun k hk => ?_
    rw [slotAt, FatDirEntry.mem_ofMem _ _ hk,
      show dir.record.fileSize / 32 * 32 = dir.record.fileSize by omega]
    exact hnew k hk
  have hget : (slots fs' (grownDir fs.params dir (ds.length + 1)) (ds ++ [f]))[dir.record.fileSize / 32]? =
      some _ := getElem?_slots _ _ (by omega)
  obtain ⟨hi, hget⟩ := List.getElem?_eq_some_iff.mp hget
  refine ⟨(slots fs' (grownDir fs.params dir (ds.length + 1)) (ds ++ [f])).drop
    (dir.record.fileSize / 32 + 1), ?_⟩
  conv_lhs => rw [← List.take_append_drop (dir.record.fileSize / 32)
    (slots _ (grownDir fs.params dir (ds.length + 1)) (ds ++ [f])), htake, List.drop_eq_getElem_cons hi,
    hget, hlast]

/-- The bytes of a folder with one more cluster, in front of it, are stored where they were. -/
theorem addr_grownDir {f i : Nat} (h : fs.Mounted) (hd : FolderAt fs dir ds)
    (hs : dir.isSmallFatRootDir = false) (hi : i < dir.record.fileSize) :
    addr fs.params.bytesPerSec (sectorAt fs.params (ds ++ [f])) i =
      addr fs.params.bytesPerSec (folderSector fs.params dir ds) i := by
  have hsize := (hd.chain hs).2
  have hin : i / fs.params.bytesPerSec < ds.length * fs.params.secsPerCluster :=
    (Nat.div_lt_iff_lt_mul h.params.sector_pos).mpr (by omega)
  rw [addr, addr, sectorAt_append h.params hin, folderSector, if_neg (by simp [hs])]

/-- The first bytes behind the end of a folder are those of the cluster it has got. -/
theorem inClusters_grownDir {f k : Nat} (h : fs.Mounted) (hd : FolderAt fs dir ds)
    (hs : dir.isSmallFatRootDir = false) (hk : k < 32) :
    InClusters fs.params [f] (addr fs.params.bytesPerSec (sectorAt fs.params (ds ++ [f]))
      (dir.record.fileSize + k)) := by
  have hpos := h.params.sector_pos
  have hsize := (hd.chain hs).2
  have h32 := Nat.le_of_dvd hpos h.params.sector_dvd
  have hcl : fs.params.bytesPerSec ≤ fs.params.secsPerCluster * fs.params.bytesPerSec :=
    Nat.le_mul_of_pos_left _ h.params.cluster_pos
  have hdiv : (dir.record.fileSize + k) / fs.params.bytesPerSec =
      ds.length * fs.params.secsPerCluster + k / fs.params.bytesPerSec := by
    rw [hsize, Nat.mul_comm _ fs.params.bytesPerSec, Nat.mul_add_div hpos]
  have hk0 : k / fs.params.bytesPerSec = 0 := Nat.div_eq_of_lt (by omega)
  have hmod : (dir.record.fileSize + k) % fs.params.bytesPerSec = k % fs.params.bytesPerSec := by
    rw [hsize, Nat.mul_comm _ fs.params.bytesPerSec, Nat.mul_add_mod]
  refine ⟨k, ?_, ?_⟩
  · rw [List.length_singleton, Nat.one_mul]; omega
  · rw [addr, addr, hdiv, hmod, hk0, Nat.add_zero, sectorAt_added h.params le_rfl (by
      rw [Nat.add_mul, Nat.one_mul]
      exact Nat.lt_add_of_pos_right h.params.cluster_pos), Nat.sub_self]

/-- **The slot after the last one**, where the folder can grow. -/
theorem writeFde_grow {p : FatFile} {ps : List FatFile} {f : Nat} {es : List Nat}
    (h : FolderSetting fs dir (p :: ps) ds) (hp : FolderAt fs p es) (hdis : ds.Disjoint es)
    (hslot : (dir.fileRecordIndex + 1) * 32 ≤ p.record.fileSize) (hne : ds ≠ [])
    (hs : dir.isSmallFatRootDir = false) (hlt : dir.record.fileSize / 32 < 65535)
    (hsel : selectFreeCluster fs.params fs.rawFat = some f)
    (hnormal : isNormalClusterNumber fs.params.type f = true) (e : FatDirEntry) :
    ∃ fs' dir', writeFde (dir :: p :: ps) fs (dir.record.fileSize / 32) e =
        some (.noError, fs', dir' :: p :: ps) ∧
      FolderGrown fs fs' dir dir' p ds es f e := by
  have hpos := h.mounted.params.sector_pos
  have hf0 := (selectFreeCluster_eq_some hsel).2.2.1
  have hd := h.folderAt
  obtain ⟨hch₀, hsize₀⟩ := hd.chain hs
  obtain ⟨fat, m₀, hnw, -, hchain, hentries, hbeyond⟩ :=
    setFileSizeNoWrite_grow (writeFde (p :: ps)) (p :: ps) h.mounted hd hne hs hlt hsel
  have hch := hchain hnormal
  obtain ⟨m, hfde, hrest⟩ := h.writeEntry hp hdis hslot hf0 hentries (dir.record.setFileSize 0)
  rw [hfde, Option.map_some] at hnw
  obtain ⟨m₁, m₂, hw, hp₁, hp₂⟩ := writeFde_of_grown h.mounted hd hs hlt hch hnw e
  have hat := hd.grown h.mounted hs hlt hch m₂
  have hdistinct := distinctBlocks_sectorAt h.mounted.params hch.nodup hch.data
  have hroom : dir.record.fileSize + 32 ≤
      (ds ++ [f]).length * fs.params.secsPerCluster * fs.params.bytesPerSec := by
    have h32 := Nat.le_of_dvd hpos h.mounted.params.sector_dvd
    have hcl : fs.params.bytesPerSec ≤ fs.params.secsPerCluster * fs.params.bytesPerSec :=
      Nat.le_mul_of_pos_left _ h.mounted.params.cluster_pos
    rw [List.length_append, List.length_singleton, (hd.fileSize_grownDir h.mounted hs hlt).2]
    omega
  have hsector : ∀ i, folderByte { fs with rawFat := fat, storage := fs.storage.withBytes m₂ }
      (grownDir fs.params dir (ds.length + 1)) (ds ++ [f]) i =
      m₂ (addr fs.params.bytesPerSec (sectorAt fs.params (ds ++ [f])) i) := by
    intro i
    have hsec : folderSector fs.params (grownDir fs.params dir (ds.length + 1)) (ds ++ [f]) =
        sectorAt fs.params (ds ++ [f]) := by
      funext j
      rw [folderSector, if_neg (by rw [grownDir]; simp [hs])]
    rw [folderByte, hsec]
    rfl
  refine ⟨_, _, hw, ⟨fat, m₂, rfl⟩, hat, rfl, hf0, hentries, ?_, fun q hq hslot' hcl => ?_⟩
  · -- the old slots are what they were, and the new one is the first of the cluster
    refine slots_grownDir h.mounted hd hs hlt (fun i hi => ?_) fun k hk => ?_
    · have hin : i / fs.params.bytesPerSec < ds.length * fs.params.secsPerCluster :=
        (Nat.div_lt_iff_lt_mul hpos).mpr (by omega)
      have haddr := addr_grownDir (f := f) h.mounted hd hs hi
      rw [hsector]
      refine (hp₂.outside hpos hdistinct hroom (show i < _ by omega) (Or.inl hi)).trans
        ((hp₁.outside hpos hdistinct hroom (show i < _ by omega) (Or.inl hi)).trans ?_)
      rw [haddr, folderByte, hrest _ ?_, hbeyond _ (le_addr (hd.beyond h.mounted hi))]
      rintro ⟨k, hk, heq⟩
      rw [← addr_grownDir (f := f) h.mounted hd hs hi, addr, addr, sectorAt_append h.mounted.params hin] at heq
      exact hp.sector_ne h.mounted hch₀.data hdis (by omega) hin (addr_eq hpos heq).1.symm
    · rw [hsector]
      exact hp₂.read k hk
  · have hin : ∀ k, k < 32 → q ≠ addr fs.params.bytesPerSec (sectorAt fs.params (ds ++ [f]))
        (dir.record.fileSize + k) := by
      rintro k hk rfl
      exact hcl (inClusters_grownDir h.mounted hd hs hk)
    exact (hp₂.rest q hin).trans ((hp₁.rest q hin).trans
      ((hrest q hslot').trans (hbeyond q hq)))

/-- A folder with slots has clusters. -/
theorem FolderAt.clusters_ne_nil (hd : FolderAt fs dir ds) (hs : dir.isSmallFatRootDir = false)
    (hpos : 0 < dir.record.fileSize / 32) : ds ≠ [] := by
  rintro rfl
  have hsize := (hd.chain hs).2
  rw [List.length_nil, Nat.zero_mul, Nat.zero_mul] at hsize
  omega

/-- A folder with no folder above it does not grow: there is no place for its entry. -/
theorem writeFde_of_root {f : Nat} {e : FatDirEntry} (h : FolderSetting fs dir [] ds) (hne : ds ≠ [])
    (hs : dir.isSmallFatRootDir = false) (hlt : dir.record.fileSize / 32 < 65535)
    (hsel : selectFreeCluster fs.params fs.rawFat = some f) :
    writeFde [dir] fs (dir.record.fileSize / 32) e = none := by
  obtain ⟨fat, m, hnw, -⟩ := setFileSizeNoWrite_grow (writeFde []) [] h.mounted h.folderAt hne hs hlt
    hsel
  rw [writeFde_beyond h.mounted h.folderAt, setFileSize]
  dsimp only
  rw [hnw, writeFde]
  rfl

theorem writeBody_of_none {fs : FatFs} {start length bufferLength : Nat} {buffer : Bytes}
    (hsector : getDiskSectorFromOffset fs dir (start / fs.params.bytesPerSec) = none)
    (hlen : length ≤ bufferLength) :
    writeBody fs dir start length buffer bufferLength .noError = (.storageError, fs, 0) := by
  rw [writeBody]
  dsimp only
  rw [if_neg (show ¬ length > bufferLength by omega), if_pos rfl, hsector]

/-- The sectors behind those of a chain are not found if its last cluster leads to a reserved number. -/
theorem followChain_reserved {fs : FatFs} {f : Nat} (hf : isNormalClusterNumber fs.params.type f = false) :
    ∀ {c : Nat} {cs : List Nat}, cs ≠ [] → Walk (readFatEntry fs.params fs.rawFat) c cs f →
      followChain fs cs.length c = none := by
  intro c cs
  induction cs generalizing c with
  | nil => exact fun hne => absurd rfl hne
  | cons x xs ih =>
      rintro - ⟨rfl, hw⟩
      rw [List.length_cons, followChain]
      by_cases hn : isNormalClusterNumber fs.params.type (readFatEntry fs.params fs.rawFat x) = true
      · rw [if_pos hn]
        refine ih ?_ hw
        rintro rfl
        rw [walk_nil] at hw
        rw [hw, hf] at hn
        cases hn
      · rw [if_neg hn]

/-- **A cluster with a reserved number** is put behind the last one of the folder, and nothing can be
written to it. -/
theorem writeFde_reserved {p : FatFile} {ps : List FatFile} {f : Nat} {es : List Nat}
    (h : FolderSetting fs dir (p :: ps) ds) (hp : FolderAt fs p es) (hdis : ds.Disjoint es)
    (hslot : (dir.fileRecordIndex + 1) * 32 ≤ p.record.fileSize) (hne : ds ≠ [])
    (hs : dir.isSmallFatRootDir = false) (hlt : dir.record.fileSize / 32 < 65535)
    (hsel : selectFreeCluster fs.params fs.rawFat = some f)
    (hreserved : isNormalClusterNumber fs.params.type f = false) (e : FatDirEntry) :
    ∃ fs', writeFde (dir :: p :: ps) fs (dir.record.fileSize / 32) e =
        some (.storageError, fs', grownDir fs.params dir (ds.length + 1) :: p :: ps) ∧ fs'.Mounted := by
  have hd := h.folderAt
  have hf0 := (selectFreeCluster_eq_some hsel).2.2.1
  obtain ⟨hch₀, hsize₀⟩ := hd.chain hs
  obtain ⟨fat, m₀, hnw, hwalk, -, hentries, -⟩ :=
    setFileSizeNoWrite_grow (writeFde (p :: ps)) (p :: ps) h.mounted hd hne hs hlt hsel
  obtain ⟨m, hfde, -⟩ := h.writeEntry hp hdis hslot hf0 hentries (dir.record.setFileSize 0)
  rw [hfde, Option.map_some] at hnw
  refine ⟨{ fs with rawFat := fat, storage := fs.storage.withBytes m }, ?_, h.mounted.congr fat m⟩
  -- the search for the sector ends at the reserved number
  have hsector : getDiskSectorFromOffset { fs with rawFat := fat, storage := fs.storage.withBytes m }
      (grownDir fs.params dir (ds.length + 1)) (dir.record.fileSize / fs.params.bytesPerSec) = none := by
    have hcluster : dir.record.fileSize / fs.params.bytesPerSec / fs.params.secsPerCluster = ds.length := by
      rw [hsize₀, Nat.mul_div_cancel _ h.mounted.params.sector_pos,
        Nat.mul_div_cancel _ h.mounted.params.cluster_pos]
    have hfirst : (grownDir fs.params dir (ds.length + 1)).record.widenedFirstCluster =
        dir.record.firstCluster := by
      rw [← widenedFirstCluster_eq hch₀, FatDirEntry.widenedFirstCluster, FatDirEntry.widenedFirstCluster,
        firstCluster_grownDir]
      rw [grownDir, grownRecord]
      simp
    rw [getDiskSectorFromOffset, if_neg (by rw [grownDir]; simp [hs])]
    dsimp only
    rw [hcluster, hfirst,
      @followChain_reserved { fs with rawFat := fat, storage := fs.storage.withBytes m } _ hreserved _ _ hne hwalk]
  rw [writeFde_beyond h.mounted hd, setFileSize]
  dsimp only
  rw [hnw]
  dsimp only
  rw [if_pos ⟨rfl, by omega⟩, Nat.add_sub_cancel_left, writeBody_of_none hsector le_rfl]
  rfl

/-- A folder that has grown, with the folder above it. -/
theorem FolderGrown.setting {fs' : FatFs} {dir' p : FatFile} {ps : List FatFile} {es : List Nat}
    {f : Nat} {e : FatDirEntry} (h : FolderSetting fs dir (p :: ps) ds) (hp : FolderAt fs p es)
    (hdis : ds.Disjoint es) (hslot : (dir.fileRecordIndex + 1) * 32 ≤ p.record.fileSize)
    (hg : FolderGrown fs fs' dir dir' p ds es f e) :
    FolderSetting fs' dir' (p :: ps) (ds ++ [f]) := by
  obtain ⟨fat, m, rfl⟩ := hg.volume
  have hes : ∀ c ∈ es, c ∉ ds ++ [f] := by
    intro c hc hm
    rcases List.mem_append.mp hm with hm | hm
    · exact hdis hm hc
    · rw [List.mem_singleton.mp hm] at hc
      exact hp.entry_ne_zero hc hg.free
  refine ⟨h.mounted.congr fat m, hg.folderAt, ?_⟩
  rintro p' ps' he
  obtain ⟨rfl, rfl⟩ := List.cons.inj he
  exact ⟨es, hp.congr _ fun c hc => hg.entries c (hes c hc), fun c h₁ h₂ => hes c h₂ h₁,
    hg.index ▸ hslot⟩

/-- **The slot after the last one** of a folder that can grow holds the entry. -/
theorem FolderSetting.writeFde_last (h : FolderSetting fs dir rest ds)
    (hpos : 0 < dir.record.fileSize / 32) (hgrow : CanGrow fs dir) {e : FatDirEntry} {ec : ErrCode}
    {fs' : FatFs} {dirs' : List FatFile}
    (hok : writeFde (dir :: rest) fs (dir.record.fileSize / 32) e = some (ec, fs', dirs')) :
    ∃ dir' ds', dirs' = dir' :: rest ∧ FolderSetting fs' dir' rest ds' ∧ ec = .noError ∧
      ∃ more, slots fs' dir' ds' = slots fs dir ds ++ e :: more := by
  obtain ⟨hs, hlt, f, hsel, hnormal⟩ := hgrow
  have hne := h.folderAt.clusters_ne_nil hs hpos
  cases rest with
  | nil =>
      -- the root directory of FAT32 has no folder above it
      rw [writeFde_of_root h hne hs hlt hsel] at hok
      cases hok
  | cons p ps =>
      obtain ⟨es, hp, hdis, hslot⟩ := h.parent p ps rfl
      obtain ⟨fs₁, dir₁, hw, hg⟩ := writeFde_grow h hp hdis hslot hne hs hlt hsel hnormal e
      rw [hw] at hok
      simp only [Option.some.injEq, Prod.mk.injEq] at hok
      obtain ⟨rfl, rfl, rfl⟩ := hok
      exact ⟨dir₁, ds ++ [f], rfl, hg.setting h hp hdis hslot, rfl, hg.slots⟩

end

end Azalea.Fat
