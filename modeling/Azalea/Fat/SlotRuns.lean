import Azalea.Fat.ChainFailures
import Azalea.Fat.Slots

/-!
# Fat — slots written one after the other

`add_directory_entries` writes to slots that follow each other.  Where they go beyond the end of the folder, it
grows by a cluster at a time.

* `VolumeFolder.writeFde_inside`, `VolumeFolder.writeFde_behind`: a write to a slot, or to the one behind the
  last.
* `VolumeFolder.writeFde_refused`: a folder that gets no cluster refuses every slot beyond its end.
* `VolumeFolder.writeFde_beyond`: a write beyond the end changes the size, or fails and leaves the slots.
* `VolumeFolder.writeFde_kept_iff`: exactly when it fails and the folder keeps its clusters.
-/

namespace Azalea.Fat
open Azalea.Memory

/-! ### Lists of slots -/

/-- The entries `xs` have been written over those from `i` on, or behind the last. -/
structure Overwrites (es es' : List FatDirEntry) (i : Nat) (xs : List FatDirEntry) : Prop where
  before : ∀ j < i, es'[j]? = es[j]?
  written : ∀ j < xs.length, es'[i + j]? = xs[j]?
  after : ∀ j, i + xs.length ≤ j → j < es.length → es'[j]? = es[j]?
  length : es.length ≤ es'.length

section
variable {es es' es₁ es₂ xs : List FatDirEntry} {x : FatDirEntry} {i : Nat}

theorem Overwrites.nil (es : List FatDirEntry) (i : Nat) : Overwrites es es i [] :=
  ⟨fun _ _ => rfl, fun _ hj => absurd hj (Nat.not_lt_zero _), fun _ _ _ => rfl, le_rfl⟩

/-- One entry, and then others behind it. -/
theorem Overwrites.cons (h : Overwrites es es₁ i [x]) (h' : Overwrites es₁ es₂ (i + 1) xs) :
    Overwrites es es₂ i (x :: xs) := by
  refine ⟨fun j hj => (h'.before j (by omega)).trans (h.before j hj), fun j hj => ?_, fun j hj hlt => ?_,
    h.length.trans h'.length⟩
  · rcases j with _ | j
    · exact (h'.before i (Nat.lt_succ_self i)).trans (h.written 0 Nat.zero_lt_one)
    · rw [List.length_cons] at hj
      rw [Nat.add_comm j 1, ← Nat.add_assoc, h'.written j (by omega), Nat.add_comm 1 j,
        List.getElem?_cons_succ]
  · rw [List.length_cons] at hj
    exact (h'.after j (by omega) (hlt.trans_le h.length)).trans
      (h.after j (by rw [List.length_singleton]; omega) hlt)

/-- A slot is replaced. -/
theorem Overwrites.set (hi : i < es.length) : Overwrites es (es.set i x) i [x] := by
  refine ⟨fun j hj => List.getElem?_set_ne (by omega), fun j hj => ?_, fun j hj _ => ?_, ?_⟩
  · rw [List.length_singleton, Nat.lt_one_iff] at hj
    subst hj
    rw [Nat.add_zero, List.getElem?_set_self hi, List.getElem?_cons_zero]
  · rw [List.length_singleton] at hj
    exact List.getElem?_set_ne (by omega)
  · rw [List.length_set]

/-- A slot is added, and perhaps others behind it. -/
theorem Overwrites.append (more : List FatDirEntry) : Overwrites es (es ++ x :: more) es.length [x] := by
  refine ⟨fun j hj => List.getElem?_append_left hj, fun j hj => ?_, fun j hj hlt => ?_, ?_⟩
  · rw [List.length_singleton, Nat.lt_one_iff] at hj
    subst hj
    rw [Nat.add_zero, List.getElem?_append_right le_rfl, Nat.sub_self]
    rfl
  · omega
  · rw [List.length_append]
    omega

end

/-! ### Folders that grow -/

/-- The underlying files of a folder and of those above it. -/
def VolumeFolder.dirs (folder : VolumeFolder) : List FatFile := folder.dir :: folder.rest

/-- The folder, with other bytes on the disk. -/
def VolumeFolder.withBytes (folder : VolumeFolder) (m : Bytes) : VolumeFolder :=
  ⟨folder.fs.withBytes m, folder.dir, folder.rest, folder.clusters, folder.setting.withBytes m⟩

/-- The slots of a cluster. -/
def slotsPerCluster (g : FatParams) : Nat := g.secsPerCluster * g.bytesPerSec / 32

/-- The folder can be made to have `m` slots, a cluster at a time: the free clusters that are taken for it, the
first ones, have normal numbers. -/
def VolumeFolder.CanHold (folder : VolumeFolder) (m : Nat) : Prop :=
  ∀ t, folder.slots.length + t * slotsPerCluster folder.fs.params < m →
    folder.dir.isSmallFatRootDir = false ∧ folder.rest ≠ [] ∧
      folder.slots.length + t * slotsPerCluster folder.fs.params < 65535 ∧
      ∃ c, (selectable folder.fs.params folder.fs.rawFat)[t]? = some c ∧
        isNormalClusterNumber folder.fs.params.type c = true

/-- The entries `xs` have been written to the slots from `i` on. -/
structure Wrote (folder folder' : VolumeFolder) (i : Nat) (xs : List FatDirEntry) : Prop where
  rest : folder'.rest = folder.rest
  slots : Overwrites folder.slots folder'.slots i xs
  room : ∀ m, folder'.CanHold m ↔ folder.CanHold m
  same : folder'.dir = folder.dir ∧ folder'.clusters = folder.clusters ∨
    folder.slots.length < folder'.slots.length
  inside : i + xs.length ≤ folder.slots.length → folder'.slots.length = folder.slots.length
  unchanged : (∀ j < xs.length, folder.slots[i + j]? = xs[j]?) → folder' = folder

section
variable {folder folder' folder₁ folder₂ : VolumeFolder} {xs : List FatDirEntry} {x e : FatDirEntry}
  {i m : Nat}

theorem Wrote.nil (folder : VolumeFolder) (i : Nat) : Wrote folder folder i [] :=
  ⟨rfl, .nil _ _, fun _ => Iff.rfl, .inl ⟨rfl, rfl⟩, fun _ => rfl, fun _ => rfl⟩

theorem Wrote.cons (h : Wrote folder folder₁ i [x]) (h' : Wrote folder₁ folder₂ (i + 1) xs) :
    Wrote folder folder₂ i (x :: xs) := by
  refine ⟨h'.rest.trans h.rest, h.slots.cons h'.slots, fun m => (h'.room m).trans (h.room m), ?_,
    fun hle => ?_, fun heq => ?_⟩
  · rcases h.same with ⟨hdir, hclusters⟩ | hlt
    · rcases h'.same with ⟨hdir', hclusters'⟩ | hlt'
      · exact .inl ⟨hdir'.trans hdir, hclusters'.trans hclusters⟩
      · exact .inr (h.slots.length.trans_lt hlt')
    · exact .inr (hlt.trans_le h'.slots.length)
  · rw [List.length_cons] at hle
    have hfirst := h.inside (by rw [List.length_singleton]; omega)
    rw [h'.inside (by omega), hfirst]
  · obtain rfl : folder₁ = folder := by
      refine h.unchanged fun j hj => ?_
      rw [List.length_singleton, Nat.lt_one_iff] at hj
      subst hj
      exact heq 0 (Nat.zero_lt_succ _)
    refine h'.unchanged fun j hj => ?_
    have hnext := heq (j + 1) (by rw [List.length_cons]; omega)
    rwa [List.getElem?_cons_succ, Nat.add_comm j 1, ← Nat.add_assoc] at hnext

theorem VolumeFolder.length_slots (folder : VolumeFolder) :
    folder.slots.length = folder.dir.record.fileSize / 32 := Fat.length_slots

theorem VolumeFolder.canHold_of_le (h : m ≤ folder.slots.length) : folder.CanHold m := by
  intro t ht
  omega

theorem VolumeFolder.CanHold.mono {n : Nat} (h : folder.CanHold m) (hle : n ≤ m) : folder.CanHold n :=
  fun t ht => h t (by omega)

/-- A folder that can hold more than it has can get a cluster. -/
theorem VolumeFolder.CanHold.canGrow (h : folder.CanHold m) (hm : folder.slots.length < m) :
    CanGrow folder.fs folder.dir ∧ folder.rest ≠ [] := by
  obtain ⟨hsmall, hrest, hlt, c, hc, hnormal⟩ := h 0 (by rwa [Nat.zero_mul, Nat.add_zero])
  rw [Nat.zero_mul, Nat.add_zero, folder.length_slots] at hlt
  exact ⟨⟨hsmall, hlt, c, by rw [selectFreeCluster_eq_head?, List.head?_eq_getElem?, hc], hnormal⟩, hrest⟩

/-- The free clusters after a folder has got the first of them. -/
theorem FolderGrown.selectable {fs fs' : FatFs} {dir dir' p : FatFile} {ds es free : List Nat} {f : Nat}
    (hg : FolderGrown fs fs' dir dir' p ds es f e) (hd : FolderAt fs dir ds)
    (hf : selectable fs.params fs.rawFat = f :: free) :
    Fat.selectable fs'.params fs'.rawFat = free := by
  obtain ⟨fat, m, hfs⟩ := hg.volume
  have hparams : fs'.params = fs.params := by rw [hfs]
  have hentry : ∀ c, (readFatEntry fs.params fs'.rawFat c == 0) =
      ((readFatEntry fs.params fs.rawFat c == 0) && decide (c ≠ f)) := by
    intro c
    by_cases hc : c ∈ ds ++ [f]
    · have hne := hg.folderAt.entry_ne_zero hc
      rw [hparams] at hne
      rw [beq_eq_false_iff_ne.mpr hne]
      rcases List.mem_append.mp hc with hds | hcf
      · rw [beq_eq_false_iff_ne.mpr (hd.entry_ne_zero hds)]
        rfl
      · rw [List.mem_singleton.mp hcf, decide_eq_false (not_not.mpr rfl), Bool.and_false]
    · have hcf : c ≠ f := fun heq => hc (List.mem_append_right _ (List.mem_singleton.mpr heq))
      rw [hg.entries c hc, decide_eq_true hcf, Bool.and_true]
  have herase : Fat.selectable fs'.params fs'.rawFat = (Fat.selectable fs.params fs.rawFat).erase f := by
    rw [selectable_nodup.erase_eq_filter, hparams, Fat.selectable, Fat.selectable, List.filter_filter]
    refine List.filter_congr fun c _ => ?_
    rw [hentry, Bool.and_comm]
    by_cases hcf : c = f
    · simp [hcf]
    · simp [hcf]
  rw [herase, hf, List.erase_cons_head]

/-- What a folder can hold does not change when it gets a cluster. -/
theorem canHold_grown {p : FatFile} {ps : List FatFile} {es : List Nat} {f : Nat} (hrest : folder.rest = p :: ps)
    (hrest' : folder'.rest = p :: ps) (hsel : selectFreeCluster folder.fs.params folder.fs.rawFat = some f)
    (hnormal : isNormalClusterNumber folder.fs.params.type f = true)
    (hsmall₀ : folder.dir.isSmallFatRootDir = false) (hlt₀ : folder.dir.record.fileSize / 32 < 65535)
    (hg : FolderGrown folder.fs folder'.fs folder.dir folder'.dir p folder.clusters es f e) :
    folder'.CanHold m ↔ folder.CanHold m := by
  rw [selectFreeCluster_eq_head?] at hsel
  obtain ⟨free, hfree⟩ := List.head?_eq_some_iff.mp hsel
  have hfree' := hg.selectable folder.setting.folderAt hfree
  obtain ⟨fat, b, hfs⟩ := hg.volume
  have hparams : folder'.fs.params = folder.fs.params := by rw [hfs]
  rw [hparams] at hfree'
  have hsmall : folder'.dir.isSmallFatRootDir = false := by
    rw [Bool.eq_false_iff]
    intro hs
    have hnil := (hg.folderAt.root hs).2.1
    simp at hnil
  -- a cluster has a whole number of slots
  have hlen : folder'.slots.length = folder.slots.length + slotsPerCluster folder.fs.params := by
    have hdvd := folder.setting.mounted.params.sector_dvd
    have hsize := (folder.setting.folderAt.chain hsmall₀).2
    have hsize' := (hg.folderAt.chain hsmall).2
    rw [hparams, List.length_append, List.length_singleton] at hsize'
    rw [folder'.length_slots, folder.length_slots, slotsPerCluster, hsize, hsize', Nat.mul_div_assoc _ hdvd,
      Nat.mul_div_assoc _ hdvd, Nat.mul_div_assoc _ hdvd, Nat.add_mul, Nat.add_mul, Nat.one_mul]
  constructor
  · intro h t ht
    rcases t with _ | t
    · refine ⟨hsmall₀, by rw [hrest]; exact List.cons_ne_nil _ _, ?_, f, by rw [hfree]; rfl, hnormal⟩
      rw [Nat.zero_mul, Nat.add_zero, folder.length_slots]
      exact hlt₀
    · have hnext := h t
      rw [hlen, hparams, hfree', Nat.add_assoc, Nat.add_comm (slotsPerCluster _), ← Nat.succ_mul] at hnext
      obtain ⟨-, -, hlt, c, hc, hn⟩ := hnext ht
      exact ⟨hsmall₀, by rw [hrest]; exact List.cons_ne_nil _ _, hlt, c,
        by rw [hfree, List.getElem?_cons_succ, hc], hn⟩
  · intro h t ht
    rw [hlen, hparams, Nat.add_assoc, Nat.add_comm (slotsPerCluster _), ← Nat.succ_mul] at ht
    obtain ⟨-, -, hlt, c, hc, hn⟩ := h (t + 1) ht
    rw [hfree, List.getElem?_cons_succ] at hc
    rw [hlen, hparams, hfree', Nat.add_assoc, Nat.add_comm (slotsPerCluster _), ← Nat.succ_mul]
    exact ⟨hsmall, by rw [hrest']; exact List.cons_ne_nil _ _, hlt, c, hc, hn⟩

/-- What is left of a folder that has got a cluster with a reserved number. -/
structure VolumeFolder.Overgrown (folder : VolumeFolder) (fs' : FatFs) (dir' : FatFile) : Prop where
  mounted : fs'.Mounted
  directory : dir'.record.isDirectory = true
  larger : folder.dir.record.fileSize < dir'.record.fileSize

/-- The folder is refused one more slot before anything changes. -/
def VolumeFolder.NoMore (folder : VolumeFolder) : Prop :=
  folder.dir.isSmallFatRootDir = true ∨ 65535 ≤ folder.slots.length ∨
    selectFreeCluster folder.fs.params folder.fs.rawFat = none

theorem VolumeFolder.NoMore.not_canHold (h : folder.NoMore) : ¬ folder.CanHold (folder.slots.length + 1) := by
  intro hhold
  obtain ⟨⟨hsmall, hlt, c, hc, -⟩, -⟩ := hhold.canGrow (Nat.lt_succ_self _)
  rw [← folder.length_slots] at hlt
  rcases h with hs | hge | hnone
  · rw [hs] at hsmall
    cases hsmall
  · omega
  · rw [hnone] at hc
    cases hc

theorem VolumeFolder.lt_of_not_noMore (h : ¬ folder.NoMore) : folder.slots.length < 65535 := by
  rw [VolumeFolder.NoMore, not_or, not_or, not_le] at h
  exact h.2.1

/-- **A write to a slot.** -/
theorem VolumeFolder.writeFde_inside (folder : VolumeFolder) (hlt : i < folder.slots.length) (e : FatDirEntry) :
    ∃ folder', writeFde folder.dirs folder.fs i e = some (.noError, folder'.fs, folder'.dirs) ∧
      Wrote folder folder' i [e] := by
  rw [folder.length_slots] at hlt
  obtain ⟨m, hw, hslots, hpatched⟩ := writeFde_slots folder.setting.mounted folder.setting.folderAt
    folder.rest hlt e
  have hslots' : (folder.withBytes m).slots = folder.slots.set i e := hslots
  refine ⟨folder.withBytes m, hw, rfl, ?_, fun n => ?_, .inl ⟨rfl, rfl⟩, fun _ => ?_, fun hsame => ?_⟩
  · rw [hslots']
    exact .set (by rwa [folder.length_slots])
  · have hlen : (folder.withBytes m).slots.length = folder.slots.length := by rw [hslots', List.length_set]
    rw [VolumeFolder.CanHold, VolumeFolder.CanHold, hlen]
    exact Iff.rfl
  · rw [hslots', List.length_set]
  · -- the bytes written are those that are there
    have hold : slotAt folder.fs folder.dir folder.clusters i = e := by
      have hget := hsame 0 Nat.zero_lt_one
      rw [Nat.add_zero, List.getElem?_cons_zero] at hget
      exact Option.some.inj ((getElem?_slots folder.fs folder.clusters hlt).symm.trans hget)
    have hbytes : m = folder.fs.storage.bytes := by
      funext q
      by_cases hq : ∃ k < 32, q = addr folder.fs.params.bytesPerSec
          (folderSector folder.fs.params folder.dir folder.clusters) (i * 32 + k)
      · obtain ⟨k, hk, rfl⟩ := hq
        rw [hpatched.read k hk, ← hold, slotAt, FatDirEntry.mem_ofMem _ _ hk]
        rfl
      · exact hpatched.rest q fun k hk hqk => hq ⟨k, hk, hqk⟩
    rw [hbytes]
    rfl

/-- **A write to the slot behind the last one**, of a folder that gets a cluster for it. -/
theorem VolumeFolder.writeFde_behind (folder : VolumeFolder) (hpos : 0 < folder.slots.length)
    (hmore : ¬ folder.NoMore) (e : FatDirEntry) :
    (∃ folder', writeFde folder.dirs folder.fs folder.slots.length e =
          some (.noError, folder'.fs, folder'.dirs) ∧
        Wrote folder folder' folder.slots.length [e] ∧ folder.CanHold (folder.slots.length + 1)) ∨
      ¬ folder.CanHold (folder.slots.length + 1) ∧
        (writeFde folder.dirs folder.fs folder.slots.length e = none ∨
          ∃ fs' dir', folder.Overgrown fs' dir' ∧ writeFde folder.dirs folder.fs folder.slots.length e =
            some (.storageError, fs', dir' :: folder.rest)) := by
  rw [VolumeFolder.NoMore, not_or, not_or, Bool.not_eq_true, not_le] at hmore
  obtain ⟨hs, hlt, hfree⟩ := hmore
  obtain ⟨f, hsel⟩ := Option.ne_none_iff_exists'.mp hfree
  obtain ⟨fs, dir, rest, clusters, setting⟩ := folder
  rw [VolumeFolder.length_slots] at hpos hlt
  dsimp only at hs hlt hsel hpos
  have hne := setting.folderAt.clusters_ne_nil hs hpos
  cases rest with
  | nil =>
      refine .inr ⟨fun h => (h.canGrow (Nat.lt_succ_self _)).2 rfl, .inl ?_⟩
      rw [VolumeFolder.length_slots]
      exact writeFde_of_root setting hne hs hlt hsel
  | cons p ps =>
      obtain ⟨es, hp, hdis, hslot⟩ := setting.parent p ps rfl
      by_cases hnormal : isNormalClusterNumber fs.params.type f = true
      swap
      · rw [Bool.not_eq_true] at hnormal
        obtain ⟨fs', hw, hmounted⟩ := writeFde_reserved setting hp hdis hslot hne hs hlt hsel hnormal e
        refine .inr ⟨fun h => ?_, .inr ⟨fs', grownDir fs.params dir (clusters.length + 1),
          ⟨hmounted, ?_, ?_⟩, ?_⟩⟩
        · obtain ⟨-, -, f', hsel', hnormal'⟩ := (h.canGrow (Nat.lt_succ_self _)).1
          dsimp only at hsel' hnormal'
          rw [hsel, Option.some.injEq] at hsel'
          rw [← hsel', hnormal] at hnormal'
          cases hnormal'
        · rw [grownDir, grownRecord]
          simpa using setting.folderAt.directory
        · have hcl := Nat.mul_pos setting.mounted.params.cluster_pos setting.mounted.params.sector_pos
          rw [(setting.folderAt.fileSize_grownDir setting.mounted hs hlt).1]
          exact Nat.lt_add_of_pos_right hcl
        · rw [VolumeFolder.length_slots]
          exact hw
      left
      obtain ⟨fs', dir', hw, hg⟩ := writeFde_grow setting hp hdis hslot hne hs hlt hsel hnormal e
      obtain ⟨more, hmore⟩ := hg.slots
      have hroom : ∀ n, (VolumeFolder.mk fs' dir' (p :: ps) (clusters ++ [f])
          (hg.setting setting hp hdis hslot)).CanHold n ↔
          (VolumeFolder.mk fs dir (p :: ps) clusters setting).CanHold n :=
        fun n => canHold_grown rfl rfl hsel hnormal hs hlt hg
      refine ⟨⟨fs', dir', p :: ps, clusters ++ [f], hg.setting setting hp hdis hslot⟩, ?_,
        ⟨rfl, ?_, hroom, .inr ?_, fun hle => absurd hle (Nat.not_succ_le_self _), fun hsame => ?_⟩, ?_⟩
      · rw [VolumeFolder.length_slots]
        exact hw
      · dsimp only [VolumeFolder.slots]
        rw [hmore]
        exact .append more
      · dsimp only [VolumeFolder.slots]
        rw [hmore, List.length_append]
        exact Nat.lt_add_of_pos_right (Nat.succ_pos _)
      · have hnone := hsame 0 Nat.zero_lt_one
        rw [Nat.add_zero, List.getElem?_eq_none le_rfl] at hnone
        cases hnone
      · refine (hroom _).mp (VolumeFolder.canHold_of_le ?_)
        dsimp only [VolumeFolder.slots]
        rw [hmore, List.length_append, List.length_cons]
        omega

end

/-! ### Slots beyond the end -/

section
variable {fs fs' : FatFs} {dir dir' : FatFile} {dirs dirs' : List FatFile} {ds : List Nat} {parent : WriteFde}
  {size : Nat} {ec : ErrCode}

/-- The table of a volume and the sectors it is written to may have changed, and nothing else. -/
structure TableOnly (fs fs' : FatFs) : Prop where
  params : fs'.params = fs.params
  mounted : fs'.Mounted
  bytes : ∀ q, (fs.params.rsvdSecCnt + fs.params.fatSize) * fs.params.bytesPerSec ≤ q →
    fs'.storage.bytes q = fs.storage.bytes q

theorem TableOnly.refl (h : fs.Mounted) : TableOnly fs fs := ⟨rfl, h, fun _ _ => rfl⟩

theorem FatFs.changeFileChainLength_fst (fs : FatFs) (start old new : Nat) :
    (fs.changeFileChainLength start old new).1 =
      (Fat.changeFileChainLength fs.params fs.rawFat start old new).1 := by
  rw [FatFs.changeFileChainLength]
  dsimp only
  split <;> rfl

theorem FatFs.changeFileChainLength_rawFat (fs : FatFs) (start old new : Nat) :
    (fs.changeFileChainLength start old new).2.2.rawFat =
      (Fat.changeFileChainLength fs.params fs.rawFat start old new).2.2 := by
  rw [FatFs.changeFileChainLength]
  dsimp only
  split <;> rfl

theorem changeFileChainLength_table (h : fs.Mounted) (start old new : Nat) :
    TableOnly fs (fs.changeFileChainLength start old new).2.2 := by
  rw [FatFs.changeFileChainLength]
  generalize Fat.changeFileChainLength fs.params fs.rawFat start old new = r
  obtain ⟨result, first, fat⟩ := r
  dsimp only
  have hfat : FatFs.Mounted { fs with rawFat := fat } := ⟨h.params, h.blockSize, h.numBlocks⟩
  split
  · exact ⟨rfl, hfat, fun _ _ => rfl⟩
  · obtain ⟨m, hm, hbytes⟩ := writeFatToDisk_eq hfat
    dsimp only
    rw [hm]
    exact ⟨rfl, ⟨h.params, h.blockSize, h.numBlocks⟩, hbytes⟩

/-- The slots lie behind the table. -/
theorem TableOnly.slots (ht : TableOnly fs fs') (h : fs.Mounted) (hd : FolderAt fs dir ds) :
    slots fs' dir ds = slots fs dir ds := by
  refine slots_congr rfl fun i hi => ?_
  rw [folderByte, folderByte, ht.params]
  exact ht.bytes _ (le_addr (hd.beyond h hi))

/-- The size of a folder is rounded up to whole clusters. -/
theorem chainLength_rounded (h : fs.params.Mounted) (size : Nat) :
    fs.params.chainLength
      (fs.params.chainLength size * (fs.params.bytesPerSec * fs.params.secsPerCluster)) =
      fs.params.chainLength size := by
  rw [Nat.mul_comm fs.params.bytesPerSec, ← Nat.mul_assoc]
  exact chainLength_mul h _

/-- Setting a larger size of a folder fails and keeps the folder, its clusters having run out if it was not
refused at once; or it makes the folder larger. -/
theorem setFileSizeNoWrite_folder (h : fs.Mounted) (hdir : dir.record.isDirectory = true)
    (hgt : dir.record.fileSize < size)
    (hok : setFileSizeNoWrite parent fs dir dirs size = some (ec, fs', dir', dirs')) :
    (ec ≠ .noError ∧ dir' = dir ∧ dirs' = dirs ∧ TableOnly fs fs' ∧
        (dir.isSmallFatRootDir = false → size ≤ 65535 * 32 →
          (fs.changeFileChainLength dir.record.firstCluster (fs.params.chainLength dir.record.fileSize)
            (fs.params.chainLength size)).1 ≠ .noError)) ∨
      dir.record.fileSize < dir'.record.fileSize := by
  have hrefused : ∀ ec', ec' ≠ .noError → some (ec', fs, dir, dirs) = some (ec, fs', dir', dirs') →
      ec ≠ .noError ∧ dir' = dir ∧ dirs' = dirs ∧ TableOnly fs fs' := by
    intro ec' hec heq
    simp only [Option.some.injEq, Prod.mk.injEq] at heq
    obtain ⟨rfl, rfl, rfl, rfl⟩ := heq
    exact ⟨hec, rfl, rfl, .refl h⟩
  rw [setFileSizeNoWrite] at hok
  split at hok
  next hsmall =>
    obtain ⟨hec, hdir', hdirs, htable⟩ := hrefused _ (by simp) hok
    exact .inl ⟨hec, hdir', hdirs, htable, fun hs => absurd (hs.symm.trans hsmall) (by decide)⟩
  split at hok
  next hbig =>
    obtain ⟨hec, hdir', hdirs, htable⟩ := hrefused _ (by simp) hok
    exact .inl ⟨hec, hdir', hdirs, htable, fun _ hle => absurd hle (by omega)⟩
  split at hok
  next hbig =>
    obtain ⟨hec, hdir', hdirs, htable⟩ := hrefused _ (by simp) hok
    exact .inl ⟨hec, hdir', hdirs, htable, fun _ hle => absurd hle (not_le.mpr hbig.2)⟩
  next hlimit =>
    dsimp only at hok
    rw [if_pos (show dir.record.isDirectory = true ∧ size > 0 from ⟨hdir, by omega⟩)] at hok
    rw [chainLength_rounded h.params] at hok
    generalize hround : fs.params.chainLength size * (fs.params.bytesPerSec * fs.params.secsPerCluster) =
      rounded at hok
    have hle : size ≤ rounded := by
      have hle := h.params.le_chainLength size
      rwa [Nat.mul_assoc, Nat.mul_comm fs.params.secsPerCluster, hround] at hle
    have hlt : rounded < 2 ^ 32 := by
      have hcl : fs.params.bytesPerSec * fs.params.secsPerCluster ≤ 65536 * 256 :=
        Nat.mul_le_mul h.params.sector_lt.le h.params.cluster_lt.le
      have hdiv := Nat.div_mul_le_self (size - 1) (fs.params.bytesPerSec * fs.params.secsPerCluster)
      rw [FatParams.chainLength, if_pos (by omega), Nat.add_mul, Nat.one_mul] at hround
      have hsize : size ≤ 65535 * 32 := not_lt.mp fun hbig => hlimit ⟨hdir, hbig⟩
      omega
    generalize hchange : (if fs.params.chainLength size ≠ fs.params.chainLength dir.record.fileSize then
        fs.changeFileChainLength dir.record.firstCluster (fs.params.chainLength dir.record.fileSize)
          (fs.params.chainLength size)
      else (.noError, dir.record.firstCluster, fs)) = r at hok
    have htable : TableOnly fs r.2.2 := by
      rw [← hchange]
      split
      · exact changeFileChainLength_table h ..
      · exact .refl h
    have hfailed : r.1 ≠ .noError →
        (fs.changeFileChainLength dir.record.firstCluster (fs.params.chainLength dir.record.fileSize)
          (fs.params.chainLength size)).1 ≠ .noError := by
      intro hres
      rw [← hchange] at hres
      split at hres
      · exact hres
      · exact absurd rfl hres
    obtain ⟨result, first, fs₁⟩ := r
    dsimp only at hok htable hfailed
    split at hok
    next hres =>
      simp only [Option.some.injEq, Prod.mk.injEq] at hok
      obtain ⟨rfl, rfl, rfl, rfl⟩ := hok
      exact .inl ⟨hres, rfl, rfl, htable, fun _ _ => hfailed hres⟩
    next =>
      split at hok
      next => cases hok
      next =>
        split at hok
        next => cases hok
        next =>
          simp only [Option.some.injEq, Prod.mk.injEq] at hok
          obtain ⟨-, -, rfl, -⟩ := hok
          right
          have hsize : ∀ e : FatDirEntry, e.isDirectory = true →
              (if (e.setFileSize (if e.isDirectory then 0 else rounded)).isDirectory then
                (e.setFileSize (if e.isDirectory then 0 else rounded)).setFileSize rounded
              else e.setFileSize (if e.isDirectory then 0 else rounded)).fileSize = rounded := by
            intro e he
            simp only [FatDirEntry.isDirectory_setFileSize, he, if_true, FatDirEntry.fileSize_setFileSize]
            exact Nat.mod_eq_of_lt hlt
          dsimp only
          rw [hsize _ (by split <;> simp [hdir])]
          omega

/-- The clusters that a folder of a larger size has. -/
theorem FolderAt.lt_chainLength (h : fs.Mounted) (hd : FolderAt fs dir ds) (hs : dir.isSmallFatRootDir = false)
    (hgt : dir.record.fileSize < size) :
    fs.params.chainLength dir.record.fileSize = ds.length ∧ ds.length < fs.params.chainLength size := by
  have hsize := (hd.chain hs).2
  refine ⟨?_, ?_⟩
  · rw [hsize]
    exact chainLength_mul h.params _
  · by_contra hnot
    have hle := (h.params.le_chainLength size).trans
      (Nat.mul_le_mul_right _ (Nat.mul_le_mul_right _ (not_lt.mp hnot)))
    omega

/-- Where its clusters run out, a folder keeps its size. -/
theorem setFileSizeNoWrite_failed (parent : WriteFde) (dirs : List FatFile) (h : fs.Mounted)
    (hd : FolderAt fs dir ds) (hs : dir.isSmallFatRootDir = false) (hgt : dir.record.fileSize < size)
    (hle : size ≤ 65535 * 32) (hfail : (fs.changeFileChainLength dir.record.firstCluster ds.length
      (fs.params.chainLength size)).1 ≠ .noError) :
    setFileSizeNoWrite parent fs dir dirs size =
      some ((fs.changeFileChainLength dir.record.firstCluster ds.length (fs.params.chainLength size)).1,
        (fs.changeFileChainLength dir.record.firstCluster ds.length (fs.params.chainLength size)).2.2,
        dir, dirs) := by
  obtain ⟨hold, hnew⟩ := hd.lt_chainLength h hs hgt
  rw [setFileSizeNoWrite, if_neg (by simp [hs]), if_neg (by omega),
    if_neg (show ¬ (dir.record.isDirectory = true ∧ _) by omega)]
  dsimp only
  rw [if_pos (show dir.record.isDirectory = true ∧ size > 0 from ⟨hd.directory, by omega⟩), hold,
    chainLength_rounded h.params, if_pos (show fs.params.chainLength size ≠ ds.length by omega)]
  generalize fs.changeFileChainLength dir.record.firstCluster ds.length (fs.params.chainLength size) = r
    at hfail ⊢
  rw [if_pos hfail]

/-- Where no cluster is free, a folder does not grow to any size. -/
theorem setFileSizeNoWrite_none (parent : WriteFde) (dirs : List FatFile) (h : fs.Mounted)
    (hd : FolderAt fs dir ds) (hs : dir.isSmallFatRootDir = false) (hgt : dir.record.fileSize < size)
    (hle : size ≤ 65535 * 32) (hsel : selectFreeCluster fs.params fs.rawFat = none) :
    ∃ m, setFileSizeNoWrite parent fs dir dirs size = some (.outOfResource, fs.withBytes m, dir, dirs) ∧
      ∀ q, (fs.params.rsvdSecCnt + fs.params.fatSize) * fs.params.bytesPerSec ≤ q →
        m q = fs.storage.bytes q := by
  have hnew := (hd.lt_chainLength h hs hgt).2
  obtain ⟨m, hm, hbeyond⟩ := writeFatToDisk_eq h
  have hchange : fs.changeFileChainLength dir.record.firstCluster ds.length (fs.params.chainLength size) =
      (.outOfResource, dir.record.firstCluster, fs.withBytes m) := by
    rw [FatFs.changeFileChainLength, changeFileChainLength_full (hd.chain hs).1 hnew hsel]
    dsimp only
    rw [if_neg (by simp; omega), hm]
  refine ⟨m, ?_, hbeyond⟩
  rw [setFileSizeNoWrite_failed parent dirs h hd hs hgt hle (by rw [hchange]; simp), hchange]

/-- A write beyond the end asks for the slots up to its own. -/
theorem writeFde_grows {i : Nat} {e : FatDirEntry} (hi : dir.record.fileSize < (i + 1) * 32)
    (hlt : i + 1 < 2 ^ 32) : writeFde (dir :: dirs) fs i e =
      match setFileSize (writeFde dirs) fs dir dirs ((i + 1) * 32) with
      | none => none
      | some (result, fs, dir', dirs) =>
          if result ≠ .noError then some (result, fs, dir' :: dirs)
          else
            let (result, fs, br) := writeBody fs dir' (i * 32) 32 e.mem 32 .noError
            let result := if result = .noError ∧ br ≠ 32 then .unknown else result
            some (result, fs, dir' :: dirs) := by
  have hreq : (i + 1) % 2 ^ 32 * 32 = (i + 1) * 32 := by rw [Nat.mod_eq_of_lt hlt]
  rw [writeFde]
  dsimp only
  rw [hreq]
  have hgt : (i + 1) * 32 > dir.record.fileSize := hi
  cases hset : setFileSize (writeFde dirs) fs dir dirs ((i + 1) * 32) with
  | none => simp only [if_pos hgt]
  | some r => simp only [if_pos hgt]

/-- An error in setting the size is that of the write. -/
theorem writeFde_of_error {i : Nat} {e : FatDirEntry} (hi : dir.record.fileSize < (i + 1) * 32)
    (hlt : i + 1 < 2 ^ 32) (hec : ec ≠ .noError)
    (hnw : setFileSizeNoWrite (writeFde dirs) fs dir dirs ((i + 1) * 32) = some (ec, fs', dir', dirs')) :
    writeFde (dir :: dirs) fs i e = some (ec, fs', dir' :: dirs') := by
  rw [writeFde_grows hi hlt, setFileSize]
  dsimp only
  rw [hnw]
  dsimp only
  rw [if_neg fun hc => hec hc.1]
  dsimp only
  rw [if_pos hec]

/-- The folders after a write beyond the end are those after setting the size. -/
theorem writeFde_dirs {i : Nat} {e : FatDirEntry} (hi : dir.record.fileSize < (i + 1) * 32)
    (hlt : i + 1 < 2 ^ 32) {all : List FatFile} (hok : writeFde (dir :: dirs) fs i e = some (ec, fs', all)) :
    ∃ ec₁ fs₁ dir₁ dirs₁, all = dir₁ :: dirs₁ ∧
      setFileSizeNoWrite (writeFde dirs) fs dir dirs ((i + 1) * 32) = some (ec₁, fs₁, dir₁, dirs₁) := by
  rw [writeFde_grows hi hlt] at hok
  cases hnw : setFileSizeNoWrite (writeFde dirs) fs dir dirs ((i + 1) * 32) with
  | none =>
      rw [setFileSize] at hok
      dsimp only at hok
      rw [hnw] at hok
      cases hok
  | some r =>
      obtain ⟨ec₁, fs₁, dir₁, dirs₁⟩ := r
      refine ⟨ec₁, fs₁, dir₁, dirs₁, ?_, rfl⟩
      obtain ⟨ec₂, fs₂, hset⟩ : ∃ ec₂ fs₂,
          setFileSize (writeFde dirs) fs dir dirs ((i + 1) * 32) = some (ec₂, fs₂, dir₁, dirs₁) := by
        rw [setFileSize]
        dsimp only
        rw [hnw]
        dsimp only
        split
        · exact ⟨_, _, rfl⟩
        · exact ⟨_, _, rfl⟩
      rw [hset] at hok
      dsimp only at hok
      by_cases hec : ec₂ = .noError
      · rw [if_neg (not_not.mpr hec)] at hok
        exact ((Prod.mk.inj (Prod.mk.inj (Option.some.inj hok)).2).2).symm
      · rw [if_pos hec] at hok
        exact ((Prod.mk.inj (Prod.mk.inj (Option.some.inj hok)).2).2).symm

/-- A write never makes a folder smaller. -/
theorem fileSize_le_of_writeFde {i : Nat} {e : FatDirEntry} {all : List FatFile} (h : fs.Mounted)
    (hdir : dir.record.isDirectory = true) (hlt : i + 1 < 2 ^ 32)
    (hok : writeFde (dir :: dirs) fs i e = some (ec, fs', all)) :
    ∃ dir₁ dirs₁, all = dir₁ :: dirs₁ ∧ dir.record.fileSize ≤ dir₁.record.fileSize := by
  by_cases hi : dir.record.fileSize < (i + 1) * 32
  · obtain ⟨ec₁, fs₁, dir₁, dirs₁, hall, hnw⟩ := writeFde_dirs hi hlt hok
    refine ⟨dir₁, dirs₁, hall, ?_⟩
    rcases setFileSizeNoWrite_folder h hdir hi hnw with ⟨-, rfl, -⟩ | hlarger
    · exact le_rfl
    · exact hlarger.le
  · rw [writeFde] at hok
    dsimp only at hok
    rw [Nat.mod_eq_of_lt hlt, if_neg (show ¬ (i + 1) * 32 > dir.record.fileSize from hi)] at hok
    dsimp only at hok
    rw [if_neg (by simp)] at hok
    exact ⟨dir, dirs, ((Prod.mk.inj (Prod.mk.inj (Option.some.inj hok)).2).2).symm, le_rfl⟩

end

/-- The folder has no slot `i`, beyond its end, and keeps its clusters when it is asked for one: it is the root
directory of FAT12 or FAT16, or would have too many slots, or there are not enough free clusters (each is taken
twice) and no link to one, but to the number of an end marker, has been made. -/
def VolumeFolder.Refuses (folder : VolumeFolder) (i : Nat) : Prop :=
  folder.slots.length ≤ i ∧ (folder.dir.isSmallFatRootDir = true ∨ 65535 ≤ i ∨
    2 * (selectable folder.fs.params folder.fs.rawFat).length <
        folder.fs.params.chainLength ((i + 1) * 32) - folder.clusters.length ∧
      ∀ f, selectFreeCluster folder.fs.params folder.fs.rawFat = some f →
        folder.fs.params.type.IsEndOfChain f)

section
variable {folder : VolumeFolder} {e : FatDirEntry} {ec : ErrCode} {fs' : FatFs} {dirs' : List FatFile} {i : Nat}

theorem VolumeFolder.fileSize_lt (hi : folder.slots.length ≤ i) :
    folder.dir.record.fileSize < (i + 1) * 32 := by
  have hmod := folder.setting.folderAt.size_mod folder.setting.mounted
  rw [folder.length_slots] at hi
  omega

/-- **A write beyond the end** fails and leaves the slots, or changes the size of the folder. -/
theorem VolumeFolder.writeFde_beyond (hi : folder.slots.length ≤ i) (hlt : i + 1 < 2 ^ 32)
    (hok : writeFde folder.dirs folder.fs i e = some (ec, fs', dirs')) :
    (ec ≠ .noError ∧ dirs' = folder.dirs ∧ fs'.Mounted ∧
        Fat.slots fs' folder.dir folder.clusters = folder.slots) ∨
      ∃ dir' rest', dirs' = dir' :: rest' ∧ folder.dir.record.fileSize < dir'.record.fileSize := by
  have hgt := folder.fileSize_lt hi
  have hmounted := folder.setting.mounted
  have hd := folder.setting.folderAt
  obtain ⟨ec₁, fs₁, dir₁, dirs₁, rfl, hnw⟩ := writeFde_dirs hgt hlt hok
  rcases setFileSizeNoWrite_folder hmounted hd.directory hgt hnw with ⟨hec, hdir, hdirs, htable, -⟩ | hlarger
  · left
    have hw := (writeFde_of_error (e := e) hgt hlt hec hnw).symm.trans hok
    simp only [Option.some.injEq, Prod.mk.injEq] at hw
    obtain ⟨rfl, rfl, -⟩ := hw
    exact ⟨hec, by rw [hdir, hdirs]; rfl, htable.mounted, htable.slots hmounted hd⟩
  · exact .inr ⟨dir₁, dirs₁, rfl, hlarger⟩

/-- **Exactly when a write beyond the end fails and the folder keeps its clusters.** -/
theorem VolumeFolder.writeFde_kept_iff (hpos : 0 < folder.slots.length) (hi : folder.slots.length ≤ i)
    (hlt : i + 1 < 2 ^ 32) (e : FatDirEntry) :
    (∃ ec fs', ec ≠ .noError ∧ writeFde folder.dirs folder.fs i e = some (ec, fs', folder.dirs) ∧
        FolderAt fs' folder.dir folder.clusters) ↔ folder.Refuses i := by
  have hgt := folder.fileSize_lt hi
  have hd := folder.setting.folderAt
  have hmounted := folder.setting.mounted
  rw [VolumeFolder.Refuses, and_iff_right hi]
  by_cases hsmall : folder.dir.isSmallFatRootDir = true
  · refine iff_of_true ⟨.invalidOp, folder.fs, by simp, writeFde_of_error hgt hlt (by simp) ?_, hd⟩ (.inl hsmall)
    rw [setFileSizeNoWrite, if_pos hsmall]
  by_cases hlimit : 65535 ≤ i
  · refine iff_of_true ⟨.invalidParam, folder.fs, by simp, writeFde_of_error hgt hlt (by simp) ?_, hd⟩
      (.inr (.inl hlimit))
    rw [setFileSizeNoWrite, if_neg hsmall]
    by_cases hbig : (i + 1) * 32 > 2 ^ 32 - 1
    · rw [if_pos hbig]
    · rw [if_neg hbig, if_pos ⟨hd.directory, by omega⟩]
  rw [Bool.not_eq_true] at hsmall
  have hle : (i + 1) * 32 ≤ 65535 * 32 := by omega
  rw [or_iff_right (by simp [hsmall]), or_iff_right hlimit]
  obtain ⟨hold, hnew⟩ := hd.lt_chainLength hmounted hsmall hgt
  have hch := (hd.chain hsmall).1
  have hne : folder.clusters ≠ [] :=
    hd.clusters_ne_nil hsmall (by rwa [folder.length_slots] at hpos)
  have henough := changeFileChainLength_noError_iff hmounted.params.numbered hch hne hnew
  rw [← FatFs.changeFileChainLength_fst] at henough
  by_cases hfail : (folder.fs.changeFileChainLength folder.dir.record.firstCluster folder.clusters.length
      (folder.fs.params.chainLength ((i + 1) * 32))).1 = .noError
  · -- the folder gets its clusters
    refine iff_of_false ?_ fun hfew => absurd (henough.mp hfail) (not_le.mpr hfew.1)
    rintro ⟨ec, fs', -, hok, -⟩
    obtain ⟨ec₁, fs₁, dir₁, dirs₁, hall, hnw⟩ := writeFde_dirs hgt hlt hok
    obtain ⟨rfl, -⟩ := List.cons.inj hall
    rcases setFileSizeNoWrite_folder hmounted hd.directory hgt hnw with ⟨-, -, -, -, hfailed⟩ | hlarger
    · rw [hold] at hfailed
      exact hfailed hsmall hle hfail
    · exact lt_irrefl _ hlarger
  · have hfew := mt henough.mpr hfail
    rw [and_iff_right (not_le.mp hfew)]
    have hw := writeFde_of_error (e := e) hgt hlt hfail
      (setFileSizeNoWrite_failed (writeFde folder.rest) folder.rest hmounted hd hsmall hgt hle hfail)
    have htable := changeFileChainLength_table hmounted folder.dir.record.firstCluster folder.clusters.length
      (folder.fs.params.chainLength ((i + 1) * 32))
    have hchain := isChain_of_failed_iff hmounted.params.numbered hch hne hnew
      (by rwa [← FatFs.changeFileChainLength_fst])
    rw [← FatFs.changeFileChainLength_rawFat] at hchain
    rw [← hchain]
    constructor
    · rintro ⟨ec, fs', -, hok, hat⟩
      have hsame := hw.symm.trans hok
      simp only [Option.some.injEq, Prod.mk.injEq] at hsame
      obtain ⟨-, rfl, -⟩ := hsame
      have hat' := (hat.chain hsmall).1
      rwa [htable.params] at hat'
    · intro hat
      refine ⟨_, _, hfail, hw, hd.directory, fun hr => ?_, fun _ => ?_⟩
      · exact absurd (hsmall.symm.trans hr) (by decide)
      · rw [htable.params]
        exact ⟨hat, (hd.chain hsmall).2⟩

theorem VolumeFolder.fileSize_le_of_slots {folder' : VolumeFolder}
    (h : folder.slots.length ≤ folder'.slots.length) :
    folder.dir.record.fileSize ≤ folder'.dir.record.fileSize := by
  have hmod := folder.setting.folderAt.size_mod folder.setting.mounted
  have hmod' := folder'.setting.folderAt.size_mod folder'.setting.mounted
  rw [folder.length_slots, folder'.length_slots] at h
  omega

/-- **A folder that gets no cluster refuses** every slot beyond its end. -/
theorem VolumeFolder.writeFde_refused (hno : folder.NoMore) (hi : folder.slots.length ≤ i) (hlt : i + 1 < 2 ^ 32) :
    ∃ ec m, ec ≠ .noError ∧
      writeFde folder.dirs folder.fs i e = some (ec, folder.fs.withBytes m, folder.dirs) ∧
      (folder.withBytes m).slots = folder.slots := by
  have hgt := folder.fileSize_lt hi
  have hd := folder.setting.folderAt
  have hrefused : ∀ ec m, ec ≠ .noError →
      setFileSizeNoWrite (writeFde folder.rest) folder.fs folder.dir folder.rest ((i + 1) * 32) =
        some (ec, folder.fs.withBytes m, folder.dir, folder.rest) →
      (folder.withBytes m).slots = folder.slots →
      ∃ ec m, ec ≠ .noError ∧
        writeFde folder.dirs folder.fs i e = some (ec, folder.fs.withBytes m, folder.dirs) ∧
        (folder.withBytes m).slots = folder.slots :=
    fun ec m hec hnw hslots => ⟨ec, m, hec, writeFde_of_error hgt hlt hec hnw, hslots⟩
  by_cases hsmall : folder.dir.isSmallFatRootDir = true
  · refine hrefused .invalidOp folder.fs.storage.bytes (by simp) ?_ rfl
    rw [setFileSizeNoWrite, if_pos hsmall]
    rfl
  by_cases hlimit : 65535 ≤ i
  · refine hrefused .invalidParam folder.fs.storage.bytes (by simp) ?_ rfl
    rw [setFileSizeNoWrite, if_neg hsmall]
    by_cases hbig : (i + 1) * 32 > 2 ^ 32 - 1
    · rw [if_pos hbig]
      rfl
    · rw [if_neg hbig, if_pos ⟨hd.directory, by omega⟩]
      rfl
  have hsel := (hno.resolve_left hsmall).resolve_left (by omega)
  rw [Bool.not_eq_true] at hsmall
  obtain ⟨m, hnw, hbytes⟩ := setFileSizeNoWrite_none (writeFde folder.rest) folder.rest folder.setting.mounted hd
    hsmall hgt (by omega) hsel
  refine hrefused .outOfResource m (by simp) hnw (slots_congr rfl fun j hj => ?_)
  exact hbytes _ (le_addr (hd.beyond folder.setting.mounted hj))

end

end Azalea.Fat
