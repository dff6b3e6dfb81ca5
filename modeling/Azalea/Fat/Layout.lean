import Azalea.Fat.Sectors
import Azalea.Support.Blocks

/-!
# Fat — where a file is stored

A file or a folder lies in sectors that the walk of `get_disk_sector_from_offset` and
`advance_sector_num` meets in order (`LaidOut`): those of its clusters, or those of the root
directory's region on FAT12 and FAT16.

* `laidOut_of_chain`, `laidOut_root`: the two kinds.
* `sectorAt_ne`: files without a common cluster have no common sector.
-/

namespace Azalea.Fat
open Azalea.Memory Azalea.Walks

/-- The first `n` sectors of a file are `sec 0`, `sec 1` and so on, all different. -/
structure LaidOut (fs : FatFs) (file : FatFile) (sec : Nat → Nat) (n : Nat) : Prop where
  found : ∀ j, j < n → getDiskSectorFromOffset fs file j = some (sec j)
  next : ∀ j, j + 1 < n → (advanceSectorNum fs file (sec j)).2 = sec (j + 1)
  distinct : DistinctBlocks sec n
  stored : ∀ j, j < n → sec j < fs.params.maxSectors

section
variable {g : FatParams} {cs ds : List Nat} {i j : Nat}

/-- Two clusters have a sector in common only if they are one. -/
theorem cluster_eq_of_sector {c d r s : Nat} (h : g.Mounted) (hc : g.IsData c) (hd : g.IsData d)
    (hr : r < g.secsPerCluster) (hs : s < g.secsPerCluster)
    (he : convertClusterToSectorNum g c + r = convertClusterToSectorNum g d + s) :
    c = d ∧ r = s := by
  rw [(clusterSector_bounds h hc).1, (clusterSector_bounds h hd).1] at he
  have he' : r + g.secsPerCluster * (c - 2) = s + g.secsPerCluster * (d - 2) := by
    rw [Nat.mul_comm _ (c - 2), Nat.mul_comm _ (d - 2)]
    omega
  have hdiv := congrArg (· / g.secsPerCluster) he'
  have hmod := congrArg (· % g.secsPerCluster) he'
  simp only [Nat.add_mul_div_left _ _ h.cluster_pos, Nat.add_mul_mod_self_left,
    Nat.div_eq_of_lt hr, Nat.div_eq_of_lt hs, Nat.mod_eq_of_lt hr, Nat.mod_eq_of_lt hs] at hdiv hmod
  have := hc.1.1
  have := hd.1.1
  exact ⟨by omega, hmod⟩

/-- Files without a common cluster have no common sector. -/
theorem sectorAt_ne (h : g.Mounted) (hcs : ∀ c ∈ cs, g.IsData c) (hds : ∀ c ∈ ds, g.IsData c)
    (hdis : cs.Disjoint ds) (hi : i < cs.length * g.secsPerCluster)
    (hj : j < ds.length * g.secsPerCluster) : sectorAt g cs i ≠ sectorAt g ds j := by
  obtain ⟨c, hc, -, hce⟩ := sectorAt_eq ((Nat.div_lt_iff_lt_mul h.cluster_pos).mpr hi)
  obtain ⟨d, hd, -, hde⟩ := sectorAt_eq ((Nat.div_lt_iff_lt_mul h.cluster_pos).mpr hj)
  intro heq
  rw [hce, hde] at heq
  obtain ⟨rfl, -⟩ := cluster_eq_of_sector h (hcs c hc) (hds d hd) (Nat.mod_lt _ h.cluster_pos)
    (Nat.mod_lt _ h.cluster_pos) heq
  exact hdis hc hd

/-- The sectors of a chain are different. -/
theorem distinctBlocks_sectorAt (h : g.Mounted) (hnd : cs.Nodup) (hcs : ∀ c ∈ cs, g.IsData c) :
    DistinctBlocks (sectorAt g cs) (cs.length * g.secsPerCluster) := by
  intro i j hi hj heq
  obtain ⟨c, hc, hci, hce⟩ := sectorAt_eq ((Nat.div_lt_iff_lt_mul h.cluster_pos).mpr hi)
  obtain ⟨d, hd, hdj, hde⟩ := sectorAt_eq ((Nat.div_lt_iff_lt_mul h.cluster_pos).mpr hj)
  rw [hce, hde] at heq
  obtain ⟨rfl, hmod⟩ := cluster_eq_of_sector h (hcs c hc) (hcs d hd) (Nat.mod_lt _ h.cluster_pos)
    (Nat.mod_lt _ h.cluster_pos) heq
  obtain ⟨hi', hie⟩ := List.getElem?_eq_some_iff.mp hci
  obtain ⟨hj', hje⟩ := List.getElem?_eq_some_iff.mp hdj
  have hdiv := (List.Nodup.getElem_inj_iff hnd).mp (hie.trans hje.symm)
  rw [← Nat.div_add_mod i g.secsPerCluster, hdiv, hmod, Nat.div_add_mod]

variable {fs : FatFs} {file : FatFile}

/-- A file in the data region. -/
theorem laidOut_of_chain (h : fs.Mounted) (hs : file.isSmallFatRootDir = false)
    (hch : IsChain fs.params fs.rawFat file.record.firstCluster cs) :
    LaidOut fs file (sectorAt fs.params cs) (cs.length * fs.params.secsPerCluster) where
  found j hj := by rw [getDiskSectorFromOffset_eq h.params hs hch, if_pos hj]
  next j hj := by rw [advanceSectorNum_eq h.params hs hch (by omega), if_pos hj]
  distinct := distinctBlocks_sectorAt h.params hch.nodup hch.data
  stored j hj := by
    have h₁ := (sectorAt_bounds h.params hch.data hj).2
    have h₂ := h.params.dataRegion
    omega

/-- The root directory of FAT12 and FAT16. -/
theorem laidOut_root (h : fs.Mounted) (hs : file.isSmallFatRootDir = true)
    (ht : fs.params.type ≠ .fat32) :
    LaidOut fs file (fs.params.rootDirStartSector + ·) fs.params.rootDirSectorCount where
  found j _ := by rw [getDiskSectorFromOffset, if_pos hs]
  next j hj := by
    rw [advanceSectorNum, if_pos hs]
    dsimp only
    rw [if_neg (by omega)]
    exact Nat.add_assoc ..
  distinct i j _ _ he := Nat.add_left_cancel he
  stored j hj := by
    have h₁ := (h.params.rootRegion ht).2
    have h₂ := h.params.dataRegion
    omega

/-- The byte reference, as an address. -/
theorem fileByte_addr (h : fs.params.Mounted) (i : Nat) :
    fileByte fs cs i =
      fs.storage.bytes (addr fs.params.bytesPerSec (sectorAt fs.params cs) i) :=
  fileByte_eq h i

end

end Azalea.Fat
