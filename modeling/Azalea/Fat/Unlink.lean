import Azalea.Fat.LongNameCodec
import Azalea.Fat.ShortNames

/-!
# Fat — an entry that is unlinked

`unlink_fdes` marks a short entry, and then goes back over the entries that have the attributes of a
part of a long name.  It does not ask whether these are in use, or whether they carry the checksum of the
short entry, as the constructor does.

* `Belongs`: the parts of the long name of a short entry.
* `unlink_right_iff`: exactly when these and the entry are marked, and nothing else.
-/

namespace Azalea.Fat
open Azalea.Memory

theorem isPart_iff {checksum : Nat} {x : FatDirEntry} :
    IsPart checksum x ↔ ¬ x.IsFree ∧ x.attributesRaw = 0x0F ∧ x.checksum = checksum :=
  ⟨fun h => ⟨h.not_free, h.lfn, h.sum⟩, fun ⟨h₁, h₂, h₃⟩ => ⟨h₁, h₂, h₃⟩⟩

instance (checksum : Nat) (x : FatDirEntry) : Decidable (IsPart checksum x) :=
  decidable_of_iff _ isPart_iff.symm

/-- The entry `j` is of the unbroken run of parts directly before `i` that belong to the short entry
`x`. -/
def Belongs (es : List FatDirEntry) (i : Nat) (x : FatDirEntry) (j : Nat) : Prop :=
  j < i ∧ ∀ y ∈ (es.take i).drop j, IsPart (generateShortNameChecksum x.nameBytes) y

instance (es : List FatDirEntry) (i : Nat) (x : FatDirEntry) (j : Nat) : Decidable (Belongs es i x j) :=
  inferInstanceAs (Decidable (_ ∧ _))

/-- The slots with an entry and what belongs to it marked. -/
def unlinked (es : List FatDirEntry) (i : Nat) (x : FatDirEntry) : List FatDirEntry :=
  es.mapIdx fun j e => if j = i ∨ Belongs es i x j then e.mark else e

/-- The entry `j` is in use and does not belong to `x`, with nothing but entries with the attributes of a
part between them. -/
structure Stray (es : List FatDirEntry) (i : Nat) (x : FatDirEntry) (j : Nat) : Prop where
  before : j < i
  lfns : ∀ y ∈ (es.take i).drop j, y.attributesRaw = 0x0F
  other : ¬ Belongs es i x j
  inUse : ∃ e, es[j]? = some e ∧ ¬ e.IsFree

/-- A short entry of a folder that is in use. -/
structure ShortEntry (folder : VolumeFolder) where
  index : Nat
  entry : FatDirEntry
  found : (live folder.slots)[index]? = some entry
  inUse : ¬ entry.IsFree
  short : entry.attributesRaw ≠ 0x0F

/-- `unlink_fdes` comes to its end, and marks what it should. -/
def UnlinkRight (folder : VolumeFolder) (short : ShortEntry folder) : Prop :=
  ∃ fs', unlinkFdes folder.fs (folder.dir :: folder.rest) short.index =
      some (.noError, fs', folder.dir :: folder.rest) ∧
    diskSlots fs' folder.dir = unlinked folder.slots short.index short.entry

section
variable {es : List FatDirEntry} {e x : FatDirEntry} {i j lo : Nat}

/-- The entries between two places. -/
theorem mem_drop_take {y : FatDirEntry} :
    y ∈ (es.take i).drop j ↔ ∃ k, j ≤ k ∧ k < i ∧ es[k]? = some y := by
  rw [List.mem_iff_getElem?]
  constructor
  · rintro ⟨k, hk⟩
    rw [List.getElem?_drop, List.getElem?_take] at hk
    split at hk
    next hlt => exact ⟨j + k, Nat.le_add_right .., hlt, hk⟩
    · cases hk
  · rintro ⟨k, hj, hk, hy⟩
    refine ⟨k - j, ?_⟩
    rw [List.getElem?_drop, List.getElem?_take, Nat.add_sub_cancel' hj, if_pos hk, hy]

/-- A place from which on there are only parts is in the run that `unlink_fdes` goes over. -/
theorem IsLfnRun.le_of_lfns (h : IsLfnRun es lo i) (hi : i ≤ es.length)
    (hlfns : ∀ y ∈ (es.take i).drop j, y.attributesRaw = 0x0F) : lo ≤ j := by
  obtain ⟨hlo, -, hstop⟩ := h
  by_contra hlt
  have hget := List.getElem?_eq_getElem (show lo - 1 < es.length by omega)
  exact hstop _ (by omega) hget (hlfns _ (mem_drop_take.mpr ⟨lo - 1, by omega, by omega, hget⟩))

theorem FatDirEntry.mark_of_isFree (h : e.IsFree) : e.mark = e := by
  refine FatDirEntry.ext_mem fun k hk => ?_
  rw [FatDirEntry.mark, FatDirEntry.mem_set _ hk]
  by_cases h0 : k = 0
  · subst h0
    exact (@store_of_mem _ 0 1 0 Nat.zero_lt_one 0xE5).trans h.symm
  · rw [store_of_not_mem (by omega)]

theorem FatDirEntry.mark_eq_iff : e.mark = e ↔ e.IsFree :=
  ⟨fun h => h ▸ e.isFree_mark, FatDirEntry.mark_of_isFree⟩

theorem getElem?_unlinked : (unlinked es i x)[j]? =
    es[j]?.map fun e => if j = i ∨ Belongs es i x j then e.mark else e :=
  List.getElem?_mapIdx ..

/-- **The marked run is right** if no entry in it is in use and does not belong to the name. -/
theorem markFree_eq_unlinked_iff (h : IsLfnRun es lo i) (hi : i < es.length) :
    markFree es lo (i + 1) = unlinked es i x ↔ ∀ j, ¬ Stray es i x j := by
  constructor
  · rintro heq j ⟨hji, hlfns, hother, e, he, hused⟩
    have hlo := h.le_of_lfns hi.le hlfns
    have hget : (markFree es lo (i + 1))[j]? = (unlinked es i x)[j]? := by rw [heq]
    rw [getElem?_markFree (by omega), getElem?_unlinked, he, Option.map_some, Option.map_some,
      if_neg (by rintro (rfl | hb); exacts [absurd hji (by omega), hother hb])] at hget
    exact hused (FatDirEntry.mark_eq_iff.mp (Option.some.inj hget))
  · intro hstray
    refine List.ext_getElem? fun j => ?_
    rw [getElem?_unlinked]
    by_cases hmark : lo ≤ j ∧ j < i + 1
    · rw [getElem?_markFree hmark]
      cases he : es[j]? with
      | none => rfl
      | some e =>
        rw [Option.map_some, Option.map_some]
        split
        · rfl
        next hnot =>
          -- an entry of the run that should stay is free
          rw [not_or] at hnot
          have hji : j < i := by omega
          have hlfns : ∀ y ∈ (es.take i).drop j, y.attributesRaw = 0x0F := by
            intro y hy
            obtain ⟨k, hjk, hki, hget⟩ := mem_drop_take.mp hy
            exact h.2.1 k y (by omega) hki hget
          by_cases hfree : e.IsFree
          · rw [FatDirEntry.mark_of_isFree hfree]
          · exact absurd ⟨hji, hlfns, hnot.2, e, he, hfree⟩ (hstray j)
    · rw [getElem?_markFree_of_not hmark]
      have hnot : ¬ (j = i ∨ Belongs es i x j) := by
        rintro (rfl | ⟨hji, hparts⟩)
        · exact hmark ⟨h.1, Nat.lt_succ_self j⟩
        · have hlo := h.le_of_lfns hi.le fun y hy => (hparts y hy).lfn
          exact hmark ⟨hlo, by omega⟩
      simp only [if_neg hnot, Option.map_id']

end

/-- **Unlinking an entry** marks it and what belongs to it, and nothing else, if there is no entry in use
that does not belong to it in the run of parts before it. -/
theorem unlink_right_iff (folder : VolumeFolder) (short : ShortEntry folder) :
    UnlinkRight folder short ↔ ∀ j, ¬ Stray folder.slots short.index short.entry j := by
  obtain ⟨hlt, -⟩ := List.getElem?_eq_some_iff.mp short.found
  have hget : folder.slots[short.index]? = some short.entry := by
    rw [← getElem?_live hlt]
    exact short.found
  obtain ⟨m, lo, hok, hrun, hslots⟩ := unlinkFdes_slots folder.setting hget short.short
  have hdisk : diskSlots (folder.fs.withBytes m) folder.dir =
      markFree folder.slots lo (short.index + 1) :=
    (diskSlots_eq (folder.setting.withBytes m).mounted (folder.setting.withBytes m).folderAt).trans
      hslots
  have hiff := markFree_eq_unlinked_iff (x := short.entry) hrun (List.getElem?_eq_some_iff.mp hget).1
  refine Iff.trans ?_ hiff
  rw [UnlinkRight, hok]
  constructor
  · rintro ⟨fs', hfs, heq⟩
    rw [← (Prod.mk.inj (Prod.mk.inj (Option.some.inj hfs)).2).1, hdisk] at heq
    exact heq
  · exact fun heq => ⟨_, rfl, hdisk.trans heq⟩

/-- An entry that is in use and does not belong to the name, in the root directory of a small volume. -/
def strayFolder : VolumeFolder where
  fs := blankVolume.withBytes fun i =>
    if 1024 ≤ i then
      ([lfnEntry 0x41 (lfnChars [0x61, 0x20, 0x62] 0) 7,
        FatDirEntry.zero.setName (shortBytes [0x41] [])].getD ((i - 1024) / 32) .zero).mem ((i - 1024) % 32)
    else 0
  dir := blankRoot
  rest := []
  clusters := []
  setting :=
    { mounted := ⟨fourClusters_mounted, rfl, le_rfl⟩
      folderAt := ⟨by decide, by decide, fun hs => by cases hs⟩
      parent := nofun }

/-- The part of another name before the entry `A` is marked with it. -/
theorem stray_part_unlinked :
    ¬ ∀ (folder : VolumeFolder) (short : ShortEntry folder), UnlinkRight folder short := by
  intro h
  obtain ⟨fs', hok, hslots⟩ := h strayFolder
    ⟨1, FatDirEntry.zero.setName (shortBytes [0x41] []), by decide +kernel, by decide +kernel,
      by decide +kernel⟩
  have hmarked : ((unlinkFdes strayFolder.fs [blankRoot] 1).map fun r =>
      (diskSlots r.2.1 blankRoot).head?.map (·.name 0)) = some (some 0xE5) := by decide +kernel
  have hkept : (unlinked strayFolder.slots 1 (FatDirEntry.zero.setName (shortBytes [0x41] []))).head?.map
      (·.name 0) = some 0x41 := by decide +kernel
  have hfolder : unlinkFdes strayFolder.fs [blankRoot] 1 =
      some (.noError, fs', strayFolder.dir :: strayFolder.rest) := hok
  have hdisk : diskSlots fs' blankRoot =
      unlinked strayFolder.slots 1 (FatDirEntry.zero.setName (shortBytes [0x41] [])) := hslots
  rw [hfolder, Option.map_some, hdisk, hkept] at hmarked
  exact absurd hmarked (by decide)

end Azalea.Fat
