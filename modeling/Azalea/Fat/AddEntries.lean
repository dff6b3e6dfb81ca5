import Azalea.Fat.Directory
import Azalea.Fat.SlotRuns

/-!
# Fat — adding entries to a folder

`add_directory_entries` searches for a run of free slots or for the end marker, writes its entries there one
after the other and then, if it has found the marker, a new one behind them.  The code of writing the marker
takes the place of the one of writing the entries, and what has been written before an error stays.

* `EntryFaults.addDirectoryEntries`: the function, where reads and writes of entries can fail.
* `add_right_iff`: exactly when the entries are added, or an error is reported and nothing has changed.
-/

namespace Azalea.Fat
open Azalea.Memory

/-! ### Reads and writes that fail -/

/-- The entries that the device does not read or write, and the codes; nothing changes then. -/
structure EntryFaults where
  read : Nat → Option { ec : ErrCode // ec ≠ .noError }
  write : Nat → Option { ec : ErrCode // ec ≠ .noError }

/-- Nothing fails. -/
def EntryFaults.none : EntryFaults := ⟨fun _ => .none, fun _ => .none⟩

/-- `fat_folder::read_one_dir_entry`. -/
def EntryFaults.readOneDirEntry (f : EntryFaults) (fs : FatFs) (dir : FatFile) (entryIdx : Nat)
    (fde : FatDirEntry) : Option (ErrCode × FatDirEntry) :=
  match f.read entryIdx with
  | some ec => some (ec.val, fde)
  | .none => Fat.readOneDirEntry fs dir entryIdx fde

/-- `fat_folder::write_fde`. -/
def EntryFaults.writeFde (f : EntryFaults) (dirs : List FatFile) (fs : FatFs) (index : Nat)
    (fde : FatDirEntry) : Option (ErrCode × FatFs × List FatFile) :=
  match f.write index with
  | some ec => some (ec.val, fs, dirs)
  | .none => Fat.writeFde dirs fs index fde

/-- The search for space in `add_directory_entries`. -/
def EntryFaults.findSpace (f : EntryFaults) (fs : FatFs) (dir : FatFile) (numEntries : Nat) :
    Nat → Nat → FatDirEntry → SpaceState → Option (ErrCode × SpaceState)
  | 0, _, _, st => some (.noError, st)
  | fuel + 1, i, fde, st =>
      match f.readOneDirEntry fs dir i fde with
      | .none => .none
      | some (ec, fde) =>
          if ec ≠ .noError then some (ec, st)
          else
            let st := st.round numEntries i fde
            if st.foundSpaces = numEntries then some (.noError, st)
            else f.findSpace fs dir numEntries fuel (i + 1) fde st

/-- The loop that writes the new entries. -/
def EntryFaults.writeEntries (f : EntryFaults) : List FatDirEntry → Nat → FatFs → List FatFile →
    Option (ErrCode × FatFs × List FatFile)
  | [], _, fs, dirs => some (.noError, fs, dirs)
  | fde :: fdes, index, fs, dirs =>
      match f.writeFde dirs fs index fde with
      | .none => .none
      | some (ec, fs, dirs) =>
          if ec ≠ .noError then some (ec, fs, dirs) else f.writeEntries fdes (index + 1) fs dirs

/-- `fat_folder::add_directory_entries`. -/
def EntryFaults.addDirectoryEntries (f : EntryFaults) (fs : FatFs) (dirs : List FatFile)
    (newFdes : List FatDirEntry) : Option (ErrCode × FatFs × List FatFile × Nat) :=
  match dirs with
  | [] => .none
  | dir :: _ =>
      match f.findSpace fs dir newFdes.length 65535 0 FatDirEntry.zero ⟨0, 0, false, false⟩ with
      | .none => .none
      | some (ec, st) =>
          if ec ≠ .noError then some (ec, fs, dirs, 0)
          else
            match f.writeEntries newFdes st.foundFirstIdx fs dirs with
            | .none => .none
            | some (ec, fs, dirs) =>
                let newIdx := st.foundFirstIdx + newFdes.length - 1
                if st.moveEodMarker then
                  match f.writeFde dirs fs (st.foundFirstIdx + newFdes.length) FatDirEntry.zero with
                  | .none => .none
                  | some (ec, fs, dirs) => some (ec, fs, dirs, newIdx)
                else some (ec, fs, dirs, newIdx)

section
variable {fs : FatFs} {dir : FatFile} {dirs : List FatFile}

theorem findSpace_noFaults (k fuel : Nat) : ∀ (i : Nat) (fde : FatDirEntry) (st : SpaceState),
    EntryFaults.none.findSpace fs dir k fuel i fde st = findSpace fs dir k fuel i fde st := by
  induction fuel with
  | zero => exact fun _ _ _ => rfl
  | succ fuel ih =>
      intro i fde st
      rw [EntryFaults.findSpace, findSpace]
      change (match Fat.readOneDirEntry fs dir i fde with | .none => _ | some (ec, fde) => _) = _
      cases Fat.readOneDirEntry fs dir i fde with
      | none => rfl
      | some r =>
          dsimp only
          rw [ih]

theorem writeEntries_noFaults (fdes : List FatDirEntry) : ∀ (i : Nat) (fs : FatFs) (dirs : List FatFile),
    EntryFaults.none.writeEntries fdes i fs dirs = writeEntries fdes i fs dirs := by
  induction fdes with
  | nil => exact fun _ _ _ => rfl
  | cons fde fdes ih =>
      intro i fs dirs
      rw [EntryFaults.writeEntries, writeEntries]
      change (match Fat.writeFde dirs fs i fde with | .none => _ | some (ec, fs, dirs) => _) = _
      cases Fat.writeFde dirs fs i fde with
      | none => rfl
      | some r =>
          dsimp only
          rw [ih]

/-- **Where nothing fails**, this is `add_directory_entries` on a device that stores what it is given. -/
theorem addDirectoryEntries_noFaults (newFdes : List FatDirEntry) :
    EntryFaults.none.addDirectoryEntries fs dirs newFdes = addDirectoryEntries fs dirs newFdes := by
  cases dirs with
  | nil => rfl
  | cons dir rest =>
      rw [EntryFaults.addDirectoryEntries, addDirectoryEntries]
      dsimp only
      rw [findSpace_noFaults]
      cases findSpace fs dir newFdes.length 65535 0 FatDirEntry.zero ⟨0, 0, false, false⟩ with
      | none => rfl
      | some r =>
          dsimp only
          rw [writeEntries_noFaults]
          rfl

end

/-! ### What is to be shown -/

/-- Entries that can be added: not too many, and none of them an end marker. -/
structure NewEntries where
  fdes : List FatDirEntry
  pos : 1 ≤ fdes.length
  le : fdes.length ≤ 21
  entries : ∀ e ∈ fdes, e.name 0 ≠ 0

/-- The new entries are in slots that were free or past the end, each entry in use is where it was and still
reached, and the entries end behind the last one. -/
structure Placed (es es' new : List FatDirEntry) (lo : Nat) : Prop where
  placed : ∀ j < new.length, es'[lo + j]? = new[j]?
  free : ∀ j < new.length, ∀ e, (live es)[lo + j]? = some e → e.IsFree
  kept : ∀ (j : Nat) (e : FatDirEntry), (live es)[j]? = some e → ¬ e.IsFree → (live es')[j]? = some e
  ends : (live es').length = max (live es).length (lo + new.length)

/-- The folder has the clusters and the slots that it had. -/
structure VolumeFolder.Untouched (folder : VolumeFolder) (fs' : FatFs) (dirs' : List FatFile) : Prop where
  dirs : dirs' = folder.dirs
  folderAt : FolderAt fs' folder.dir folder.clusters
  slots : diskSlots fs' folder.dir = folder.slots

/-- `add_directory_entries` comes to its end.  If it succeeds the entries have been added, the writing of none
of them having failed; if not, the folder is what it was. -/
def AddRight (f : EntryFaults) (folder : VolumeFolder) (new : NewEntries) : Prop :=
  ∃ ec fs' dir' idx, f.addDirectoryEntries folder.fs folder.dirs new.fdes =
      some (ec, fs', dir' :: folder.rest, idx) ∧
    (ec = .noError → ∃ lo, idx = lo + new.fdes.length - 1 ∧
      Placed folder.slots (diskSlots fs' dir') new.fdes lo ∧
      (f.writeEntries new.fdes lo folder.fs folder.dirs).map (·.1) = some .noError) ∧
    (ec ≠ .noError → folder.Untouched fs' (dir' :: folder.rest))

/-! ### The search -/

/-- The search, over the slots; none where one cannot be read. -/
def EntryFaults.search (f : EntryFaults) (es : List FatDirEntry) (k : Nat) :
    Nat → Nat → SpaceState → Option SpaceState
  | 0, _, st => some st
  | fuel + 1, i, st =>
      match f.read i, es[i]? with
      | .none, some fde =>
          if (st.round k i fde).foundSpaces = k then some (st.round k i fde)
          else f.search es k fuel (i + 1) (st.round k i fde)
      | _, _ => .none

/-- What the search has found in the slots before `i`. -/
structure SearchInv (es : List FatDirEntry) (k i : Nat) (st : SpaceState) : Prop where
  marker : st.moveEodMarker = false
  le : i ≤ es.length
  used : ∀ j < i, ∀ e, es[j]? = some e → e.name 0 ≠ 0
  first : st.foundFirstIdx ≤ i
  spaces : st.foundSpaces < k
  run : st.midMatchGroup = true → st.foundFirstIdx + st.foundSpaces = i ∧
    ∀ j, st.foundFirstIdx ≤ j → j < i → ∀ e, es[j]? = some e → e.IsFree
  noRun : st.midMatchGroup = false → st.foundSpaces = 0

/-- The search has come to the end marker, with nothing but free slots between. -/
structure FoundMarker (es : List FatDirEntry) (k lo p : Nat) : Prop where
  marker : ∃ e, es[p]? = some e ∧ e.name 0 = 0
  used : ∀ j < p, ∀ e, es[j]? = some e → e.name 0 ≠ 0
  le : lo ≤ p
  lt : p < lo + k
  limit : p < 65535
  free : ∀ j, lo ≤ j → j < p → ∀ e, es[j]? = some e → e.IsFree

/-- The search has found as many free slots as are needed, or has given up. -/
structure FoundSlots (es : List FatDirEntry) (k lo : Nat) : Prop where
  le : lo ≤ (live es).length
  limit : lo ≤ 65535
  room : lo + k ≤ es.length ∨ 65535 ≤ es.length

section
variable {f : EntryFaults} {es : List FatDirEntry} {e : FatDirEntry} {k i fuel : Nat} {st st' : SpaceState}

theorem SearchInv.init (hk : 0 < k) : SearchInv es k 0 ⟨0, 0, false, false⟩ :=
  ⟨rfl, Nat.zero_le _, fun _ hj => absurd hj (Nat.not_lt_zero _), le_rfl, hk, fun h => absurd h (by decide),
    fun _ => rfl⟩

/-- The slots before `i` are of the live ones. -/
theorem SearchInv.le_live (hi : SearchInv es k i st) : i ≤ (live es).length := by
  rcases Nat.eq_zero_or_pos i with rfl | hpos
  · exact Nat.zero_le _
  · have hle := hi.le
    have hlt := lt_length_live (i := i - 1) (show i - 1 < es.length by omega) fun j y hj hy =>
      hi.used j (by omega) y hy
    omega

/-- **One round**: a run that is long enough, the end marker, or the search goes on. -/
theorem SearchInv.round (hi : SearchInv es k i st) (hget : es[i]? = some e) (hlim : i < 65535) :
    (st.round k i e).foundSpaces = k ∧
        ((st.round k i e).moveEodMarker = true ∧ FoundMarker es k (st.round k i e).foundFirstIdx i ∨
          (st.round k i e).moveEodMarker = false ∧ FoundSlots es k (st.round k i e).foundFirstIdx) ∨
      (st.round k i e).foundSpaces ≠ k ∧ SearchInv es k (i + 1) (st.round k i e) := by
  have hlt := (List.getElem?_eq_some_iff.mp hget).1
  have hlive := hi.le_live
  have hfirst := hi.first
  have hspaces := hi.spaces
  have hused : e.name 0 ≠ 0 → ∀ j < i + 1, ∀ y, es[j]? = some y → y.name 0 ≠ 0 := by
    intro hne j hj y hy
    rcases Nat.lt_succ_iff_lt_or_eq.mp hj with hj | rfl
    · exact hi.used j hj y hy
    · rw [hget, Option.some.injEq] at hy
      exact hy ▸ hne
  rw [SpaceState.round]
  by_cases hfree : e.name 0 = 0xE5
  · have hne : e.name 0 ≠ 0 := by
      rw [hfree]
      decide
    rw [if_pos hfree]
    cases hmid : st.midMatchGroup with
    | true =>
        -- the run goes on
        obtain ⟨hrun, hfrees⟩ := hi.run hmid
        rw [if_pos rfl]
        dsimp only
        by_cases henough : st.foundSpaces + 1 = k
        · exact .inl ⟨henough, .inr ⟨hi.marker, by omega, by omega, .inl (by omega)⟩⟩
        · refine .inr ⟨henough, hi.marker, hlt, hused hne, by dsimp only; omega, by dsimp only; omega,
            fun _ => ⟨by dsimp only; omega, fun j hlo hj y hy => ?_⟩, fun hno => ?_⟩
          · rcases Nat.lt_succ_iff_lt_or_eq.mp hj with hj | rfl
            · exact hfrees j hlo hj y hy
            · rw [hget, Option.some.injEq] at hy
              exact hy ▸ hfree
          · cases hno
    | false =>
        rw [if_neg (by decide)]
        dsimp only
        by_cases henough : 1 = k
        · exact .inl ⟨henough, .inr ⟨hi.marker, hlive, by omega, .inl (by omega)⟩⟩
        · refine .inr ⟨henough, hi.marker, hlt, hused hne, Nat.le_succ i, by dsimp only; omega,
            fun _ => ⟨rfl, fun j hlo hj y hy => ?_⟩, fun hno => by cases hno⟩
          dsimp only at hlo
          obtain rfl : j = i := by omega
          rw [hget, Option.some.injEq] at hy
          exact hy ▸ hfree
  rw [if_neg hfree]
  by_cases hend : e.name 0 = 0
  · rw [if_pos hend]
    dsimp only
    refine .inl ⟨rfl, .inl ⟨rfl, ?_⟩⟩
    cases hmid : st.midMatchGroup with
    | true =>
        obtain ⟨hrun, hfrees⟩ := hi.run hmid
        rw [if_pos rfl]
        exact ⟨⟨e, hget, hend⟩, hi.used, by omega, by omega, hlim, hfrees⟩
    | false =>
        rw [if_neg (by decide)]
        exact ⟨⟨e, hget, hend⟩, hi.used, le_rfl, by omega, hlim, fun j hlo hj => absurd hj (by omega)⟩
  · rw [if_neg hend]
    exact .inr ⟨by dsimp only; omega, hi.marker, hlt, hused hend, by dsimp only; omega, by dsimp only; omega,
      fun hyes => (by cases hyes), fun _ => rfl⟩

/-- **What the search finds.** -/
theorem SearchInv.search : ∀ {fuel i st}, SearchInv es k i st → i + fuel = 65535 →
    f.search es k fuel i st = some st' →
    (st'.moveEodMarker = true ∧ ∃ p, FoundMarker es k st'.foundFirstIdx p) ∨
      st'.moveEodMarker = false ∧ FoundSlots es k st'.foundFirstIdx := by
  intro fuel
  induction fuel with
  | zero =>
      intro i st hi hfuel hok
      obtain rfl := Option.some.inj hok
      have hle := hi.le
      exact .inr ⟨hi.marker, hi.first.trans hi.le_live, hi.first.trans (by omega), .inr (by omega)⟩
  | succ fuel ih =>
      intro i st hi hfuel hok
      rw [EntryFaults.search] at hok
      cases hread : f.read i with
      | some ec =>
          rw [hread] at hok
          cases hok
      | none =>
          cases hget : es[i]? with
          | none =>
              rw [hread, hget] at hok
              cases hok
          | some e =>
              rw [hread, hget] at hok
              dsimp only at hok
              rcases hi.round hget (by omega) with ⟨henough, hfound⟩ | ⟨hmore, hi'⟩
              · rw [if_pos henough] at hok
                obtain rfl := Option.some.inj hok
                exact hfound.imp_left fun ⟨hmarker, hp⟩ => ⟨hmarker, i, hp⟩
              · rw [if_neg hmore] at hok
                exact ih hi' (by omega) hok

/-- The search on the disk is that over the slots. -/
theorem findSpace_search (folder : VolumeFolder) :
    ∀ {fuel i : Nat} (fde : FatDirEntry) {st : SpaceState}, i + fuel ≤ 65535 →
      match f.search folder.slots k fuel i st with
      | some st' => f.findSpace folder.fs folder.dir k fuel i fde st = some (.noError, st')
      | .none => ∃ ec st', ec ≠ .noError ∧
          f.findSpace folder.fs folder.dir k fuel i fde st = some (ec, st') := by
  intro fuel
  induction fuel with
  | zero =>
      intro i fde st _
      rfl
  | succ fuel ih =>
      intro i fde st hfuel
      rw [EntryFaults.search]
      cases hread : f.read i with
      | some ec =>
          dsimp only
          refine ⟨ec.val, st, ec.property, ?_⟩
          rw [EntryFaults.findSpace, EntryFaults.readOneDirEntry, hread]
          dsimp only
          rw [if_pos ec.property]
      | none =>
          have hstep : f.readOneDirEntry folder.fs folder.dir i fde =
              Fat.readOneDirEntry folder.fs folder.dir i fde := by
            rw [EntryFaults.readOneDirEntry, hread]
          rcases Nat.lt_or_ge i folder.slots.length with hlt | hge
          · have hlt' : i < folder.dir.record.fileSize / 32 := by rwa [← folder.length_slots]
            have hget : folder.slots[i]? = some (slotAt folder.fs folder.dir folder.clusters i) :=
              getElem?_slots folder.fs folder.clusters hlt'
            have hslot := readOneDirEntry_eq folder.setting.mounted folder.setting.folderAt hlt' fde
            rw [hget, EntryFaults.findSpace, hstep, hslot]
            dsimp only
            rw [if_neg (show ¬ ErrCode.noError ≠ .noError by simp)]
            by_cases henough : (st.round k i (slotAt folder.fs folder.dir folder.clusters i)).foundSpaces = k
            · rw [if_pos henough, if_pos henough]
            · rw [if_neg henough, if_neg henough]
              exact ih (slotAt folder.fs folder.dir folder.clusters i) (by omega)
          · have hmod := folder.setting.folderAt.size_mod folder.setting.mounted
            rw [folder.length_slots] at hge
            obtain ⟨ec, hec, hbeyond⟩ := readOneDirEntry_beyond folder.setting.mounted (i := i)
              (show folder.dir.record.fileSize ≤ i * 32 by omega) (by omega) fde
            rw [List.getElem?_eq_none (by rwa [folder.length_slots])]
            dsimp only
            refine ⟨ec, st, hec, ?_⟩
            rw [EntryFaults.findSpace, hstep, hbeyond]
            dsimp only
            rw [if_pos hec]

end

/-! ### The writes -/

/-- How the write to a slot, or to the one behind the last, does not succeed. -/
inductive EntryFaults.Stops (f : EntryFaults) (folder : VolumeFolder) (i : Nat) :
    Option (ErrCode × FatFs × List FatFile) → Prop where
  | faulted (ec : { ec : ErrCode // ec ≠ .noError }) (fault : f.write i = some ec) :
      f.Stops folder i (some (ec.val, folder.fs, folder.dirs))
  | panics (write : f.write i = .none) (last : folder.slots.length = i) (room : ¬ folder.CanHold (i + 1))
      (more : ¬ folder.NoMore) : f.Stops folder i .none
  | overgrown (write : f.write i = .none) (last : folder.slots.length = i) (room : ¬ folder.CanHold (i + 1))
      (more : ¬ folder.NoMore) (fs' : FatFs) (dir' : FatFile) (left : folder.Overgrown fs' dir') :
      f.Stops folder i (some (.storageError, fs', dir' :: folder.rest))
  | refused (write : f.write i = .none) (last : folder.slots.length = i) (room : ¬ folder.CanHold (i + 1))
      (full : folder.NoMore) (ec : ErrCode) (m : Bytes) (error : ec ≠ .noError)
      (slots : (folder.withBytes m).slots = folder.slots) :
      f.Stops folder i (some (ec, folder.fs.withBytes m, folder.dirs))

section
variable {f : EntryFaults} {folder folder' : VolumeFolder} {xs : List FatDirEntry} {i lo : Nat}

theorem Wrote.length_le (h : Wrote folder folder' i xs) (hpos : 0 < xs.length) :
    i + xs.length ≤ folder'.slots.length := by
  have hget := h.slots.written (xs.length - 1) (by omega)
  rw [List.getElem?_eq_getElem (show xs.length - 1 < xs.length by omega)] at hget
  have hlt := (List.getElem?_eq_some_iff.mp hget).1
  omega

/-- **One write.** -/
theorem EntryFaults.writeFde_cases (f : EntryFaults) (folder : VolumeFolder) (hpos : 0 < folder.slots.length)
    (hi : i ≤ folder.slots.length) (hlt : i + 1 < 2 ^ 32) (e : FatDirEntry) :
    (∃ folder', f.writeFde folder.dirs folder.fs i e = some (.noError, folder'.fs, folder'.dirs) ∧
        Wrote folder folder' i [e] ∧ f.write i = .none ∧ folder.CanHold (i + 1)) ∨
      f.Stops folder i (f.writeFde folder.dirs folder.fs i e) := by
  rw [EntryFaults.writeFde]
  cases hwrite : f.write i with
  | some ec => exact .inr (.faulted ec hwrite)
  | none =>
      dsimp only
      rcases hi.lt_or_eq with hin | rfl
      · obtain ⟨folder', hok, hwrote⟩ := folder.writeFde_inside hin e
        exact .inl ⟨folder', hok, hwrote, rfl, folder.canHold_of_le hin⟩
      by_cases hno : folder.NoMore
      · obtain ⟨ec, m, hec, hrefused, hslots⟩ := folder.writeFde_refused (e := e) hno le_rfl hlt
        rw [hrefused]
        exact .inr (.refused hwrite rfl hno.not_canHold hno ec m hec hslots)
      · rcases folder.writeFde_behind hpos hno e with
          ⟨folder', hok, hwrote, hroom⟩ | ⟨hroom, hnone | ⟨fs', dir', hleft, hok⟩⟩
        · exact .inl ⟨folder', hok, hwrote, rfl, hroom⟩
        · rw [hnone]
          exact .inr (.panics hwrite rfl hroom hno)
        · rw [hok]
          exact .inr (.overgrown hwrite rfl hroom hno fs' dir' hleft)

/-- **The loop that writes the entries**: it comes to its end, or stops at the entry `w`. -/
theorem EntryFaults.writeEntries_cases (f : EntryFaults) (xs : List FatDirEntry) :
    ∀ (folder : VolumeFolder) {i : Nat}, 0 < folder.slots.length → i ≤ folder.slots.length →
      i + xs.length < 2 ^ 32 →
      (∃ folder', f.writeEntries xs i folder.fs folder.dirs = some (.noError, folder'.fs, folder'.dirs) ∧
          Wrote folder folder' i xs ∧ (∀ j < xs.length, f.write (i + j) = .none) ∧
          folder.CanHold (i + xs.length)) ∨
        ∃ w folder', w < xs.length ∧ Wrote folder folder' i (xs.take w) ∧
          (∀ j < w, f.write (i + j) = .none) ∧ folder.CanHold (i + w) ∧
          f.Stops folder' (i + w) (f.writeEntries xs i folder.fs folder.dirs) := by
  induction xs with
  | nil =>
      intro folder i _ hi _
      exact .inl ⟨folder, rfl, .nil folder i, fun j hj => absurd hj (Nat.not_lt_zero j),
        folder.canHold_of_le hi⟩
  | cons x xs ih =>
      intro folder i hpos hi hlt
      rw [List.length_cons] at hlt
      rw [EntryFaults.writeEntries]
      rcases f.writeFde_cases folder hpos hi (by omega) x with ⟨folder₁, hok, hwrote, hnone, hroom⟩ | hstops
      · rw [hok]
        dsimp only
        rw [if_neg (show ¬ ErrCode.noError ≠ .noError by simp)]
        have hlen := hwrote.length_le Nat.zero_lt_one
        rw [List.length_singleton] at hlen
        have hfirst : ∀ n, (∀ j < n, f.write (i + 1 + j) = .none) → ∀ j < n + 1, f.write (i + j) = .none := by
          intro n hrest j hj
          rcases j with _ | j
          · exact hnone
          · rw [Nat.add_comm j 1, ← Nat.add_assoc]
            exact hrest j (by omega)
        rcases ih folder₁ (show 0 < folder₁.slots.length by omega) hlen (by omega) with
          ⟨folder', hok', hwrote', hnone', hroom'⟩ | ⟨w, folder', hw, hwrote', hnone', hroom', hstops⟩
        · refine .inl ⟨folder', hok', hwrote.cons hwrote', hfirst _ hnone', ?_⟩
          rw [List.length_cons, Nat.add_comm xs.length 1, ← Nat.add_assoc]
          exact (hwrote.room _).mp hroom'
        · refine .inr ⟨w + 1, folder', by rw [List.length_cons]; omega, hwrote.cons hwrote', hfirst w hnone',
            ?_, ?_⟩
          · rw [Nat.add_comm w 1, ← Nat.add_assoc]
            exact (hwrote.room _).mp hroom'
          · rw [Nat.add_comm w 1, ← Nat.add_assoc]
            exact hstops
      · refine .inr ⟨0, folder, Nat.succ_pos _, .nil folder i, fun j hj => absurd hj (Nat.not_lt_zero j),
          folder.canHold_of_le hi, ?_⟩
        rw [Nat.add_zero]
        -- an error ends the loop, and is its result
        generalize f.writeFde folder.dirs folder.fs i x = r at hstops ⊢
        cases hstops with
        | faulted ec fault =>
            dsimp only
            rw [if_pos ec.property]
            exact .faulted ec fault
        | panics write last room more => exact .panics write last room more
        | overgrown write last room more fs' dir' left => exact .overgrown write last room more fs' dir' left
        | refused write last room full ec m error slots =>
            dsimp only
            rw [if_pos error]
            exact .refused write last room full ec m error slots

/-- A folder in which entries have been written is what it was if they were there already. -/
theorem Wrote.untouched_iff {m : Bytes} (h : Wrote folder folder' i xs)
    (hslots : (folder'.withBytes m).slots = folder'.slots) :
    folder.Untouched (folder'.fs.withBytes m) folder'.dirs ↔
      ∀ j < xs.length, folder.slots[i + j]? = xs[j]? := by
  have hdisk : diskSlots (folder'.fs.withBytes m) folder'.dir = folder'.slots :=
    (diskSlots_eq (folder'.withBytes m).setting.mounted (folder'.withBytes m).setting.folderAt).trans hslots
  constructor
  · rintro ⟨hdirs, -, hsame⟩ j hj
    have hdir : folder'.dir = folder.dir := (List.cons.inj hdirs).1
    rw [← hdir, hdisk] at hsame
    rw [← hsame]
    exact h.slots.written j hj
  · intro hsame
    obtain rfl := h.unchanged hsame
    exact ⟨rfl, (folder'.withBytes m).setting.folderAt, hdisk⟩

end

/-! ### Where the entries fit -/

/-- The `k` slots from `lo` on are free or past the end, and so is what follows them, or they are before the end
as a whole. -/
structure FitsAt (es : List FatDirEntry) (k lo : Nat) : Prop where
  free : ∀ j < k, ∀ e, (live es)[lo + j]? = some e → e.IsFree
  ends : lo + k ≤ (live es).length ∨ ∀ e, es[lo + k]? = some e → e.name 0 = 0

section
variable {es es₁ es' new : List FatDirEntry} {m lo p : Nat}

/-- The entries end where the first slot is that begins with a zero. -/
theorem length_live_of (hm : m ≤ es.length) (hused : ∀ j < m, ∀ e, es[j]? = some e → e.name 0 ≠ 0)
    (hend : ∀ e, es[m]? = some e → e.name 0 = 0) : (live es).length = m := by
  rcases hm.lt_or_eq with hlt | rfl
  · have hget := List.getElem?_eq_getElem hlt
    exact (length_live_eq hget (hend _ hget) fun j y hj hy => hused j hj y hy).1
  · rw [live_of_forall fun x hx => ?_]
    obtain ⟨j, hj, rfl⟩ := List.mem_iff_getElem.mp hx
    exact hused j hj _ (List.getElem?_eq_getElem hj)

theorem name_of_getElem?_live {j : Nat} {e : FatDirEntry} (hj : j < (live es).length) (hget : es[j]? = some e) :
    e.name 0 ≠ 0 := by
  rw [← getElem?_live hj] at hget
  exact name_of_mem_live (List.mem_of_getElem? hget)

/-- The end of the entries is no entry. -/
theorem end_of_live {e : FatDirEntry} (hget : es[(live es).length]? = some e) : e.name 0 = 0 := by
  by_contra hne
  refine absurd (lt_length_live (List.getElem?_eq_some_iff.mp hget).1 fun j y hj hy => ?_) (lt_irrefl _)
  rcases hj.lt_or_eq with hj | rfl
  · exact name_of_getElem?_live hj hy
  · rw [hget, Option.some.injEq] at hy
    exact hy ▸ hne

theorem Overwrites.used (hw : Overwrites es es' lo new) (hlo : lo ≤ (live es).length)
    (hnew : ∀ e ∈ new, e.name 0 ≠ 0) {j : Nat} {e : FatDirEntry} (hj : j < lo + new.length)
    (hget : es'[j]? = some e) : e.name 0 ≠ 0 := by
  rcases Nat.lt_or_ge j lo with hlt | hge
  · rw [hw.before j hlt] at hget
    exact name_of_getElem?_live (by omega) hget
  · obtain ⟨k, rfl⟩ := Nat.exists_eq_add_of_le hge
    rw [hw.written k (by omega)] at hget
    exact hnew e (List.mem_of_getElem? hget)

/-- What is left to show where the entries end is known. -/
theorem Overwrites.placed (hw : Overwrites es es' lo new) (hfree : ∀ j < new.length, ∀ e,
    (live es)[lo + j]? = some e → e.IsFree)
    (hends : (live es').length = max (live es).length (lo + new.length)) : Placed es es' new lo := by
  refine ⟨hw.written, hfree, fun j e he hinUse => ?_, hends⟩
  have hj := (List.getElem?_eq_some_iff.mp he).1
  have hsame : es'[j]? = es[j]? := by
    rcases Nat.lt_or_ge j lo with hlt | hge
    · exact hw.before j hlt
    · obtain ⟨k, rfl⟩ := Nat.exists_eq_add_of_le hge
      refine hw.after _ ?_ (hj.trans_le (length_live_le es))
      by_contra hin
      exact hinUse (hfree k (by omega) e he)
  rw [getElem?_live (by omega), hsame, ← getElem?_live hj]
  exact he

/-- **Entries written inside the folder** are added if and only if they fit. -/
theorem placed_iff_fitsAt (hw : Overwrites es es' lo new) (hlen : es'.length = es.length)
    (hk : lo + new.length ≤ es.length) (hlo : lo ≤ (live es).length) (hnew : ∀ e ∈ new, e.name 0 ≠ 0) :
    Placed es es' new lo ↔ FitsAt es new.length lo := by
  constructor
  · rintro ⟨-, hfree, -, hends⟩
    refine ⟨hfree, ?_⟩
    by_cases hle : lo + new.length ≤ (live es).length
    · exact .inl hle
    · refine .inr fun e he => ?_
      rw [Nat.max_eq_right (by omega)] at hends
      refine @end_of_live es' _ ?_
      rw [hends, hw.after _ le_rfl (List.getElem?_eq_some_iff.mp he).1]
      exact he
  · rintro ⟨hfree, hends⟩
    refine hw.placed hfree (length_live_of ?_ (fun j hj e he => ?_) fun e he => ?_)
    · have hle := length_live_le es
      omega
    · by_cases hin : j < lo + new.length
      · exact hw.used hlo hnew hin he
      · have hj' : j < (live es).length := by omega
        rw [hw.after j (by omega) (hj'.trans_le (length_live_le es))] at he
        exact name_of_getElem?_live hj' he
    · have hlt := (List.getElem?_eq_some_iff.mp he).1
      rw [hw.after _ (Nat.le_max_right ..) (by omega)] at he
      by_cases hle : lo + new.length ≤ (live es).length
      · rw [Nat.max_eq_left hle] at he
        exact end_of_live he
      · rw [Nat.max_eq_right (by omega)] at he
        exact (hends.resolve_left hle) e he

theorem FoundMarker.length_live {k : Nat} (hf : FoundMarker es k lo p) : (live es).length = p := by
  obtain ⟨e, hget, hend⟩ := hf.marker
  exact (length_live_eq hget hend fun j y hj hy => hf.used j hj y hy).1

/-- **Entries written over the end marker**, and a new one behind them, are added. -/
theorem FoundMarker.placed (hf : FoundMarker es new.length lo p) (hw : Overwrites es es₁ lo new)
    (hw' : Overwrites es₁ es' (lo + new.length) [FatDirEntry.zero]) (hnew : ∀ e ∈ new, e.name 0 ≠ 0) :
    Placed es es' new lo := by
  have hlive := hf.length_live
  have hlo := hf.le
  have hlt := hf.lt
  have hsame : ∀ j < lo + new.length, es'[j]? = es₁[j]? := hw'.before
  have hmarker : es'[lo + new.length]? = some FatDirEntry.zero := hw'.written 0 Nat.zero_lt_one
  have hfree : ∀ j < new.length, ∀ e, (live es)[lo + j]? = some e → e.IsFree := by
    intro j _ e he
    have hj := (List.getElem?_eq_some_iff.mp he).1
    rw [getElem?_live hj] at he
    exact hf.free _ (Nat.le_add_right ..) (hlive ▸ hj) e he
  have hends : (live es').length = lo + new.length := by
    refine length_live_of ?_ (fun j hj e he => ?_) fun e he => ?_
    · exact (List.getElem?_eq_some_iff.mp hmarker).1.le
    · rw [hsame j hj] at he
      exact hw.used (hlive ▸ hlo) hnew hj he
    · rw [hmarker, Option.some.injEq] at he
      rw [← he]
      decide
  refine ⟨fun j hj => (hsame _ (by omega)).trans (hw.written j hj), hfree, fun j e he hinUse => ?_, ?_⟩
  · have hj := (List.getElem?_eq_some_iff.mp he).1
    have hbefore : j < lo := by
      by_contra hge
      rw [getElem?_live hj] at he
      exact hinUse (hf.free j (by omega) (hlive ▸ hj) e he)
    rw [getElem?_live (by omega), hsame j (by omega), hw.before j hbefore, ← getElem?_live hj]
    exact he
  · rw [hends, hlive]
    exact (Nat.max_eq_right hlt.le).symm

/-- The slot of the marker is one of those that an entry is written to. -/
theorem FoundMarker.not_same {w : Nat} (hf : FoundMarker es new.length lo p) (hnew : ∀ e ∈ new, e.name 0 ≠ 0)
    (hw : p < lo + w) : ¬ ∀ j < w, es[lo + j]? = new[j]? := by
  intro hsame
  obtain ⟨e, hget, hend⟩ := hf.marker
  have hle := hf.le
  have hat := hsame (p - lo) (by omega)
  rw [Nat.add_sub_cancel' hle, hget] at hat
  exact hnew e (List.mem_of_getElem? hat.symm) hend

end

/-! ### Exactly when -/

/-- The write of the end marker fails, or there is no slot for it and the folder keeps its clusters. -/
def EntryFaults.MarkerRefused (f : EntryFaults) (folder : VolumeFolder) (i : Nat) : Prop :=
  (f.write i).isSome ∨ folder.Refuses i

/-- The first entry that cannot be written is `n`: the write fails, or there is no slot for it.  Those before
it were in their slots already. -/
structure EntryFaults.FirstFailure (f : EntryFaults) (folder : VolumeFolder) (new : NewEntries) (lo n : Nat) :
    Prop where
  lt : n < new.fdes.length
  fails : (f.write (lo + n)).isSome ∨ lo + n = folder.slots.length
  writes : ∀ j < n, f.write (lo + j) = .none
  same : ∀ j < n, folder.slots[lo + j]? = new.fdes[j]?

/-- What is needed, where the search has found the end marker. -/
def EntryFaults.MarkerFits (f : EntryFaults) (folder : VolumeFolder) (new : NewEntries) (lo : Nat) : Prop :=
  (∃ n, f.FirstFailure folder new lo n ∧ f.MarkerRefused folder (lo + new.fdes.length)) ∨
    (∀ j ≤ new.fdes.length, f.write (lo + j) = .none) ∧ folder.CanHold (lo + new.fdes.length + 1)

/-- What is needed, where it has found slots or has given up. -/
def EntryFaults.SlotsFit (f : EntryFaults) (folder : VolumeFolder) (new : NewEntries) (lo : Nat) : Prop :=
  (∃ n, f.FirstFailure folder new lo n) ∨
    (∀ j < new.fdes.length, f.write (lo + j) = .none) ∧ lo + new.fdes.length ≤ folder.slots.length ∧
      FitsAt folder.slots new.fdes.length lo

/-- The entries can be added, or an error comes before anything has changed. -/
def EntryFaults.Adds (f : EntryFaults) (folder : VolumeFolder) (new : NewEntries) : Prop :=
  match f.search folder.slots new.fdes.length 65535 0 ⟨0, 0, false, false⟩ with
  | .none => True
  | some st =>
      if st.moveEodMarker then f.MarkerFits folder new st.foundFirstIdx
      else f.SlotsFit folder new st.foundFirstIdx

section
variable {f : EntryFaults} {folder folder' : VolumeFolder} {new : NewEntries} {lo p w : Nat}

/-- What has to be true of the result of the writes. -/
def EntryFaults.RightAt (f : EntryFaults) (folder : VolumeFolder) (new : NewEntries) (lo : Nat)
    (r : Option (ErrCode × FatFs × List FatFile)) : Prop :=
  ∃ ec fs' dir', r = some (ec, fs', dir' :: folder.rest) ∧
    (ec = .noError → Placed folder.slots (diskSlots fs' dir') new.fdes lo ∧
      (f.writeEntries new.fdes lo folder.fs folder.dirs).map (·.1) = some .noError) ∧
    (ec ≠ .noError → folder.Untouched fs' (dir' :: folder.rest))

theorem rightAt_none : ¬ f.RightAt folder new lo .none := by
  rintro ⟨_, _, _, hr, -⟩
  cases hr

/-- An error has to leave the folder alone. -/
theorem rightAt_error {ec : ErrCode} {fs' : FatFs} {dirs' : List FatFile} (hec : ec ≠ .noError) :
    f.RightAt folder new lo (some (ec, fs', dirs')) ↔ folder.Untouched fs' dirs' := by
  constructor
  · rintro ⟨ec', fs'', dir', hr, -, huntouched⟩
    obtain ⟨rfl, rfl, rfl⟩ := Option.some.inj hr
    exact huntouched hec
  · intro h
    obtain rfl := h.dirs
    exact ⟨ec, fs', folder.dir, rfl, fun heq => absurd heq hec, fun _ => h⟩

/-- A folder that has become larger is not what it was. -/
theorem not_untouched_of_larger {fs' : FatFs} {dir' : FatFile} {rest' : List FatFile}
    (hlt : folder.dir.record.fileSize < dir'.record.fileSize) : ¬ folder.Untouched fs' (dir' :: rest') := by
  rintro ⟨hdirs, -, -⟩
  rw [(List.cons.inj hdirs).1] at hlt
  exact lt_irrefl _ hlt

theorem rightAt_ok {fs' : FatFs} {dirs' : List FatFile}
    (hloop : (f.writeEntries new.fdes lo folder.fs folder.dirs).map (·.1) ≠ some .noError) :
    ¬ f.RightAt folder new lo (some (.noError, fs', dirs')) := by
  rintro ⟨ec, fs'', dir', hr, hok, -⟩
  obtain ⟨rfl, -, -⟩ := Option.some.inj hr
  exact hloop (hok rfl).2

/-- The entries are all written, and the code is none. -/
theorem rightAt_done {folder₁ : VolumeFolder} (hrest : folder'.rest = folder.rest)
    (hloop : f.writeEntries new.fdes lo folder.fs folder.dirs = some (.noError, folder₁.fs, folder₁.dirs)) :
    f.RightAt folder new lo (some (.noError, folder'.fs, folder'.dirs)) ↔
      Placed folder.slots folder'.slots new.fdes lo := by
  have hdisk : diskSlots folder'.fs folder'.dir = folder'.slots :=
    diskSlots_eq folder'.setting.mounted folder'.setting.folderAt
  constructor
  · rintro ⟨ec, fs', dir', hr, hok, -⟩
    simp only [Option.some.injEq, Prod.mk.injEq] at hr
    obtain ⟨rfl, rfl, hdirs⟩ := hr
    have hdir : folder'.dir = dir' := (List.cons.inj hdirs).1
    rw [← hdisk, hdir]
    exact (hok rfl).1
  · intro h
    refine ⟨.noError, folder'.fs, folder'.dir, by rw [VolumeFolder.dirs, hrest], fun _ => ⟨hdisk.symm ▸ h, ?_⟩,
      fun hcase => absurd rfl hcase⟩
    rw [hloop]
    rfl

theorem untouched_iff (h : Wrote folder folder' lo (new.fdes.take w)) (hw : w ≤ new.fdes.length) :
    folder.Untouched folder'.fs folder'.dirs ↔ ∀ j < w, folder.slots[lo + j]? = new.fdes[j]? := by
  have hiff := h.untouched_iff (m := folder'.fs.storage.bytes) rfl
  rw [List.length_take, Nat.min_eq_left hw] at hiff
  refine hiff.trans (forall₂_congr fun j hj => ?_)
  rw [List.getElem?_take_of_lt hj]

/-- An error after which a write was refused. -/
theorem untouched_refused_iff {m : Bytes} (h : Wrote folder folder' lo (new.fdes.take w))
    (hw : w ≤ new.fdes.length) (hslots : (folder'.withBytes m).slots = folder'.slots) :
    folder.Untouched (folder'.fs.withBytes m) folder'.dirs ↔
      ∀ j < w, folder.slots[lo + j]? = new.fdes[j]? := by
  have hiff := h.untouched_iff hslots
  rw [List.length_take, Nat.min_eq_left hw] at hiff
  refine hiff.trans (forall₂_congr fun j hj => ?_)
  rw [List.getElem?_take_of_lt hj]

/-- In front of the end marker only a fault stops the writing. -/
theorem FirstFailure.le_marker {n : Nat} (hf : FoundMarker folder.slots new.fdes.length lo p)
    (hn : f.FirstFailure folder new lo n) : lo + n ≤ p ∧ (f.write (lo + n)).isSome := by
  have hle : lo + n ≤ p := by
    by_contra hgt
    exact hf.not_same new.entries (not_le.mp hgt) hn.same
  refine ⟨hle, hn.fails.resolve_right fun hend => ?_⟩
  obtain ⟨e, hget, -⟩ := hf.marker
  have hlt := (List.getElem?_eq_some_iff.mp hget).1
  omega

/-- The failure is where the loop stops. -/
theorem FirstFailure.eq_fault {n : Nat} (hn : f.FirstFailure folder new lo n) (hfault : (f.write (lo + w)).isSome)
    (hwrites : ∀ j < w, f.write (lo + j) = .none) (hlen : lo + w ≤ folder.slots.length) : n = w := by
  rcases Nat.lt_trichotomy n w with hlt | heq | hgt
  · rcases hn.fails with hn' | hend
    · rw [hwrites n hlt] at hn'
      cases hn'
    · omega
  · exact heq
  · rw [hn.writes w hgt] at hfault
    cases hfault

end

/-! ### Where no marker was found -/

section
variable {f : EntryFaults} {folder : VolumeFolder} {new : NewEntries} {lo p : Nat}

/-- Without the end marker there is room, or the folder cannot grow. -/
theorem FoundSlots.inside {m : Nat} (hf : FoundSlots folder.slots new.fdes.length lo)
    (hm : m ≤ lo + new.fdes.length) (hroom : folder.CanHold m) : m ≤ folder.slots.length := by
  by_contra hgt
  have hlimit := (hroom.canGrow (not_le.mp hgt)).1.2.1
  rw [← folder.length_slots] at hlimit
  have hor := hf.room
  omega

theorem rightAt_slots_iff (hf : FoundSlots folder.slots new.fdes.length lo) :
    f.RightAt folder new lo (f.writeEntries new.fdes lo folder.fs folder.dirs) ↔
      f.SlotsFit folder new lo := by
  have hlive := length_live_le folder.slots
  have hlo := hf.le
  have hlimit := hf.limit
  have hmax := new.le
  have hpos : 0 < folder.slots.length := by
    have hroom := hf.room
    have hnew := new.pos
    omega
  rcases f.writeEntries_cases new.fdes folder hpos (hlo.trans hlive) (by omega) with
    ⟨folder', hok, hwrote, hnone, hroom⟩ | ⟨w, folder', hw, hwrote, hnone, hroom, hstops⟩
  · have hinside := hf.inside le_rfl hroom
    rw [hok, rightAt_done hwrote.rest hok,
      placed_iff_fitsAt hwrote.slots (hwrote.inside hinside) hinside hlo new.entries]
    constructor
    · exact fun hfits => .inr ⟨hnone, hinside, hfits⟩
    · rintro (⟨n, hn⟩ | ⟨-, -, hfits⟩)
      · have hlt := hn.lt
        rcases hn.fails with hfault | hend
        · rw [hnone n hlt] at hfault
          cases hfault
        · omega
      · exact hfits
  · have hinside := hf.inside (by omega) hroom
    have hlen : folder'.slots.length = folder.slots.length :=
      hwrote.inside (by rw [List.length_take]; omega)
    have hsame : (∀ j < w, folder.slots[lo + j]? = new.fdes[j]?) → (f.write (lo + w)).isSome ∨
        lo + w = folder.slots.length → f.SlotsFit folder new lo :=
      fun hsame hfails => .inl ⟨w, hw, hfails, hnone, hsame⟩
    generalize f.writeEntries new.fdes lo folder.fs folder.dirs = r at hstops ⊢
    cases hstops with
    | faulted ec fault =>
        have hsome : (f.write (lo + w)).isSome := by rw [fault]; rfl
        rw [rightAt_error ec.property, untouched_iff hwrote hw.le]
        refine ⟨fun h => hsame h (.inl hsome), ?_⟩
        rintro (⟨n, hn⟩ | ⟨hall, -⟩)
        · exact FirstFailure.eq_fault hn hsome hnone hinside ▸ hn.same
        · rw [hall w hw] at hsome
          cases hsome
    | panics write last room more =>
        -- the folder has no room for one more cluster
        have hgrow := VolumeFolder.lt_of_not_noMore more
        have hor := hf.room
        omega
    | overgrown write last room more fs' dir' left =>
        have hgrow := VolumeFolder.lt_of_not_noMore more
        have hor := hf.room
        omega
    | refused write last room full ec m error slots =>
        rw [rightAt_error error, untouched_refused_iff hwrote hw.le slots]
        refine ⟨fun h => hsame h (.inr (by omega)), ?_⟩
        rintro (⟨n, hn⟩ | ⟨-, hle, -⟩)
        · intro j hj
          rcases Nat.lt_or_ge j n with hlt | hge
          · exact hn.same j hlt
          · rcases hn.fails with hfault | hend
            · rw [hnone n (by omega)] at hfault
              cases hfault
            · omega
        · omega

end

/-! ### Where the marker was found -/

/-- The end of the function: where the search has found the marker, a new one is written after the entries. -/
def EntryFaults.writeMarker (f : EntryFaults) (i : Nat) (r : Option (ErrCode × FatFs × List FatFile)) :
    Option (ErrCode × FatFs × List FatFile) :=
  r.bind fun r => f.writeFde r.2.2 r.2.1 i FatDirEntry.zero

section
variable {f : EntryFaults} {folder folder' : VolumeFolder} {new : NewEntries} {lo p w : Nat}

/-- After the write of an entry has failed, the one of the marker has to fail as well. -/
theorem rightAt_faulted_iff (hf : FoundMarker folder.slots new.fdes.length lo p)
    (hlim : lo + new.fdes.length + 1 < 2 ^ 32) (hw : w < new.fdes.length)
    (hwrote : Wrote folder folder' lo (new.fdes.take w))
    (hloop : (f.writeEntries new.fdes lo folder.fs folder.dirs).map (·.1) ≠ some .noError) :
    f.RightAt folder new lo (f.writeFde folder'.dirs folder'.fs (lo + new.fdes.length) FatDirEntry.zero) ↔
      (∀ j < w, folder.slots[lo + j]? = new.fdes[j]?) ∧ f.MarkerRefused folder (lo + new.fdes.length) := by
  obtain ⟨e, hget, -⟩ := hf.marker
  have hlt := (List.getElem?_eq_some_iff.mp hget).1
  have hgrown := hwrote.slots.length
  -- the folder is the old one, if the entries were there
  have hfolder : (∀ j < w, folder.slots[lo + j]? = new.fdes[j]?) → folder' = folder := by
    intro hsame
    refine hwrote.unchanged fun j hj => ?_
    rw [List.length_take, Nat.min_eq_left hw.le] at hj
    rw [List.getElem?_take_of_lt hj]
    exact hsame j hj
  rw [EntryFaults.writeFde]
  cases hwrite : f.write (lo + new.fdes.length) with
  | some ec =>
      dsimp only
      rw [rightAt_error ec.property, untouched_iff hwrote hw.le]
      exact ⟨fun h => ⟨h, .inl (by rw [hwrite]; rfl)⟩, fun h => h.1⟩
  | none =>
      dsimp only
      have hkept : folder.Refuses (lo + new.fdes.length) ↔ ∃ ec fs', ec ≠ .noError ∧
          Fat.writeFde folder.dirs folder.fs (lo + new.fdes.length) FatDirEntry.zero =
            some (ec, fs', folder.dirs) ∧ FolderAt fs' folder.dir folder.clusters := by
        constructor
        · exact fun h => (folder.writeFde_kept_iff (by omega) h.1 hlim FatDirEntry.zero).mpr h
        · intro h
          refine (folder.writeFde_kept_iff (by omega) ?_ hlim FatDirEntry.zero).mp h
          by_contra hin
          obtain ⟨folder₂, hok, -⟩ := folder.writeFde_inside (not_le.mp hin) FatDirEntry.zero
          obtain ⟨ec, fs', hec, hres, -⟩ := h
          rw [hok, Option.some.injEq] at hres
          exact hec (Prod.mk.inj hres).1.symm
      have hrefused : f.MarkerRefused folder (lo + new.fdes.length) → ∃ ec fs', ec ≠ .noError ∧
          Fat.writeFde folder.dirs folder.fs (lo + new.fdes.length) FatDirEntry.zero =
            some (ec, fs', folder.dirs) ∧ FolderAt fs' folder.dir folder.clusters :=
        fun h => hkept.mp (h.resolve_left fun hsome => by rw [hwrite] at hsome; cases hsome)
      cases hres : Fat.writeFde folder'.dirs folder'.fs (lo + new.fdes.length) FatDirEntry.zero with
      | none =>
          refine iff_of_false rightAt_none fun ⟨hsame, hmarker⟩ => ?_
          obtain ⟨ec, fs', -, hres', -⟩ := hrefused hmarker
          rw [hfolder hsame, hres'] at hres
          cases hres
      | some r =>
          obtain ⟨ec, fs', dirs'⟩ := r
          by_cases hec : ec = .noError
          · subst hec
            refine iff_of_false (rightAt_ok hloop) fun ⟨hsame, hmarker⟩ => ?_
            obtain ⟨ec, fs', hec, hres', -⟩ := hrefused hmarker
            rw [hfolder hsame, hres', Option.some.injEq] at hres
            exact hec (Prod.mk.inj hres).1
          rw [rightAt_error hec]
          -- an error is one beyond the end
          have hbeyond : folder'.slots.length ≤ lo + new.fdes.length := by
            by_contra hin
            obtain ⟨folder₂, hok, -⟩ := folder'.writeFde_inside (not_le.mp hin) FatDirEntry.zero
            rw [hres, Option.some.injEq] at hok
            exact hec (Prod.mk.inj hok).1
          rcases VolumeFolder.writeFde_beyond hbeyond hlim hres with
            ⟨-, rfl, hmounted, hslots⟩ | ⟨dir₂, rest₂, rfl, hlarger⟩
          · constructor
            · rintro ⟨hdirs, hat, hdisk⟩
              have hdir : folder'.dir = folder.dir := (List.cons.inj hdirs).1
              have hclusters : folder'.clusters = folder.clusters := by
                rcases hwrote.same with ⟨-, hclusters⟩ | hmore
                · exact hclusters
                · rw [folder'.length_slots, folder.length_slots, hdir] at hmore
                  exact absurd hmore (lt_irrefl _)
              rw [diskSlots_eq hmounted hat, ← hdir, ← hclusters, hslots] at hdisk
              have hsame : ∀ j < w, folder.slots[lo + j]? = new.fdes[j]? := by
                intro j hj
                have hat := hwrote.slots.written j (by rw [List.length_take]; omega)
                rw [hdisk, List.getElem?_take_of_lt hj] at hat
                exact hat
              refine ⟨hsame, .inr (hkept.mpr ⟨ec, fs', hec, ?_, hat⟩)⟩
              rw [← hfolder hsame]
              exact hres
            · rintro ⟨hsame, hmarker⟩
              obtain ⟨ec', fs'', -, hres', hat⟩ := hrefused hmarker
              obtain rfl := hfolder hsame
              rw [hres', Option.some.injEq] at hres
              obtain rfl : fs'' = fs' := (Prod.mk.inj (Prod.mk.inj hres).2).1
              exact ⟨rfl, hat, (diskSlots_eq hmounted hat).trans hslots⟩
          · refine iff_of_false (fun ⟨hdirs, _, _⟩ => ?_) fun ⟨hsame, hmarker⟩ => ?_
            · have hmod := folder.setting.folderAt.size_mod folder.setting.mounted
              rw [(List.cons.inj hdirs).1] at hlarger
              rw [folder'.length_slots, folder.length_slots] at hgrown
              omega
            · obtain ⟨ec', fs'', -, hres', -⟩ := hrefused hmarker
              obtain rfl := hfolder hsame
              rw [hres', Option.some.injEq] at hres
              have hdir := (List.cons.inj (Prod.mk.inj (Prod.mk.inj hres).2).2).1
              rw [hdir] at hlarger
              exact lt_irrefl _ hlarger

/-- After an entry was written to a cluster with a reserved number, the folder is not what it was. -/
theorem not_rightAt_overgrown {fs' : FatFs} {dir' : FatFile} (hlim : lo + new.fdes.length + 1 < 2 ^ 32)
    (hgrown : folder.slots.length ≤ folder'.slots.length) (hleft : folder'.Overgrown fs' dir')
    (hloop : (f.writeEntries new.fdes lo folder.fs folder.dirs).map (·.1) ≠ some .noError) :
    ¬ f.RightAt folder new lo
      (f.writeFde (dir' :: folder'.rest) fs' (lo + new.fdes.length) FatDirEntry.zero) := by
  have hlarger := (VolumeFolder.fileSize_le_of_slots hgrown).trans_lt hleft.larger
  rw [EntryFaults.writeFde]
  cases f.write (lo + new.fdes.length) with
  | some ec =>
      dsimp only
      rw [rightAt_error ec.property]
      exact not_untouched_of_larger hlarger
  | none =>
      dsimp only
      cases hw : Fat.writeFde (dir' :: folder'.rest) fs' (lo + new.fdes.length) FatDirEntry.zero with
      | none => exact rightAt_none
      | some r =>
          obtain ⟨ec, fs₂, dirs₂⟩ := r
          obtain ⟨dir₂, rest₂, rfl, hle⟩ := fileSize_le_of_writeFde hleft.mounted hleft.directory hlim hw
          by_cases hec : ec = .noError
          · subst hec
            exact rightAt_ok hloop
          · rw [rightAt_error hec]
            exact not_untouched_of_larger (hlarger.trans_le hle)

/-- **The entries are all written**, and then the marker. -/
theorem rightAt_written_iff (hf : FoundMarker folder.slots new.fdes.length lo p)
    (hlim : lo + new.fdes.length + 1 < 2 ^ 32)
    (hok : f.writeEntries new.fdes lo folder.fs folder.dirs = some (.noError, folder'.fs, folder'.dirs))
    (hwrote : Wrote folder folder' lo new.fdes) (hnone : ∀ j < new.fdes.length, f.write (lo + j) = .none) :
    f.RightAt folder new lo (f.writeFde folder'.dirs folder'.fs (lo + new.fdes.length) FatDirEntry.zero) ↔
      f.MarkerFits folder new lo := by
  have hfirst : ∀ n, ¬ f.FirstFailure folder new lo n := by
    intro n hn
    have hfault := (FirstFailure.le_marker hf hn).2
    rw [hnone n hn.lt] at hfault
    cases hfault
  have hall := hwrote
  rw [← List.take_length (l := new.fdes)] at hall
  have hlen := hwrote.length_le new.pos
  have hpos := new.pos
  -- the marker has been written over
  have hchanged := hf.not_same new.entries hf.lt
  have hfull : ¬ folder'.CanHold (lo + new.fdes.length + 1) → ¬ f.MarkerFits folder new lo := by
    rintro hroom (⟨n, hn, -⟩ | ⟨-, hhold⟩)
    · exact hfirst n hn
    · exact hroom ((hwrote.room _).mpr hhold)
  rcases f.writeFde_cases folder' (by omega) hlen hlim FatDirEntry.zero with
    ⟨folder₂, hok₂, hwrote₂, hnone₂, hroom₂⟩ | hstops
  · rw [hok₂, rightAt_done (hwrote₂.rest.trans hwrote.rest) hok]
    refine iff_of_true (hf.placed hwrote.slots hwrote₂.slots new.entries) (.inr ⟨fun j hj => ?_, ?_⟩)
    · rcases hj.lt_or_eq with hj | rfl
      · exact hnone j hj
      · exact hnone₂
    · exact (hwrote.room _).mp hroom₂
  · generalize f.writeFde folder'.dirs folder'.fs (lo + new.fdes.length) FatDirEntry.zero = r at hstops ⊢
    cases hstops with
    | faulted ec fault =>
        rw [rightAt_error ec.property, untouched_iff hall le_rfl]
        refine iff_of_false hchanged ?_
        rintro (⟨n, hn, -⟩ | ⟨hwrites, -⟩)
        · exact hfirst n hn
        · rw [hwrites _ le_rfl] at fault
          cases fault
    | panics write last room more => exact iff_of_false rightAt_none (hfull room)
    | overgrown write last room more fs' dir' left =>
        rw [rightAt_error (by simp)]
        refine iff_of_false (not_untouched_of_larger ?_) (hfull room)
        exact (VolumeFolder.fileSize_le_of_slots hwrote.slots.length).trans_lt left.larger
    | refused write last room full ec m error slots =>
        rw [rightAt_error error, untouched_refused_iff hall le_rfl slots]
        exact iff_of_false hchanged (hfull room)

/-- **An entry was not written**, and then comes the marker. -/
theorem rightAt_stopped_iff (hf : FoundMarker folder.slots new.fdes.length lo p)
    (hlim : lo + new.fdes.length + 1 < 2 ^ 32) (hw : w < new.fdes.length)
    (hwrote : Wrote folder folder' lo (new.fdes.take w)) (hnone : ∀ j < w, f.write (lo + j) = .none)
    (hstops : f.Stops folder' (lo + w) (f.writeEntries new.fdes lo folder.fs folder.dirs)) :
    f.RightAt folder new lo (f.writeMarker (lo + new.fdes.length)
        (f.writeEntries new.fdes lo folder.fs folder.dirs)) ↔ f.MarkerFits folder new lo := by
  obtain ⟨e, hget, -⟩ := hf.marker
  have hp := (List.getElem?_eq_some_iff.mp hget).1
  have hgrown := hwrote.slots.length
  -- behind the last slot there is no room, and no fault
  have hfull : folder'.slots.length = lo + w → f.write (lo + w) = .none →
      ¬ folder'.CanHold (lo + w + 1) → ¬ f.MarkerFits folder new lo := by
    rintro last write room (⟨n, hn, -⟩ | ⟨-, hhold⟩)
    · obtain ⟨hle, hfault⟩ := FirstFailure.le_marker hf hn
      rw [hnone n (by omega)] at hfault
      cases hfault
    · exact room ((hwrote.room _).mpr (hhold.mono (by omega)))
  have hchanged : folder'.slots.length = lo + w → ¬ ∀ j < w, folder.slots[lo + j]? = new.fdes[j]? :=
    fun last => hf.not_same new.entries (by omega)
  generalize hr : f.writeEntries new.fdes lo folder.fs folder.dirs = r at hstops
  cases hstops with
  | faulted ec fault =>
      have hsome : (f.write (lo + w)).isSome := by rw [fault]; rfl
      rw [EntryFaults.writeMarker, Option.bind_some]
      dsimp only
      rw [rightAt_faulted_iff hf hlim hw hwrote (by rw [hr]; exact fun heq => ec.property (Option.some.inj heq))]
      constructor
      · exact fun ⟨hsame, hmarker⟩ => .inl ⟨w, ⟨hw, .inl hsome, hnone, hsame⟩, hmarker⟩
      · rintro (⟨n, hn, hmarker⟩ | ⟨hwrites, -⟩)
        · have heq : n = w := by
            rcases Nat.lt_trichotomy n w with hnw | heq | hwn
            · have hfault := (FirstFailure.le_marker hf hn).2
              rw [hnone n hnw] at hfault
              cases hfault
            · exact heq
            · rw [hn.writes w hwn] at hsome
              cases hsome
          exact ⟨heq ▸ hn.same, hmarker⟩
        · rw [hwrites w hw.le] at hsome
          cases hsome
  | panics write last room more =>
      rw [EntryFaults.writeMarker, Option.bind_none]
      exact iff_of_false rightAt_none (hfull last write room)
  | overgrown write last room more fs' dir' left =>
      rw [EntryFaults.writeMarker, Option.bind_some]
      exact iff_of_false (not_rightAt_overgrown hlim hgrown left (by rw [hr]; simp)) (hfull last write room)
  | refused write last room full ec m error slots =>
      rw [EntryFaults.writeMarker, Option.bind_some]
      refine iff_of_false ?_ (hfull last write room)
      dsimp only
      rw [EntryFaults.writeFde]
      cases f.write (lo + new.fdes.length) with
      | some ec₂ =>
          dsimp only
          rw [rightAt_error ec₂.property, untouched_refused_iff hwrote hw.le slots]
          exact hchanged last
      | none =>
          dsimp only
          -- it is refused again
          have hfull₂ : (folder'.withBytes m).NoMore := by
            rw [VolumeFolder.NoMore, slots]
            exact full
          obtain ⟨ec₂, m₂, hec₂, hrefused, hslots₂⟩ := (folder'.withBytes m).writeFde_refused
            (i := lo + new.fdes.length) (e := FatDirEntry.zero) hfull₂ (by rw [slots]; omega) hlim
          have hrefused' : Fat.writeFde folder'.dirs (folder'.fs.withBytes m) (lo + new.fdes.length)
              FatDirEntry.zero = some (ec₂, folder'.fs.withBytes m₂, folder'.dirs) := hrefused
          rw [hrefused', rightAt_error hec₂, untouched_refused_iff hwrote hw.le (hslots₂.trans slots)]
          exact hchanged last

theorem rightAt_marker_iff (hf : FoundMarker folder.slots new.fdes.length lo p) :
    f.RightAt folder new lo (f.writeMarker (lo + new.fdes.length)
        (f.writeEntries new.fdes lo folder.fs folder.dirs)) ↔ f.MarkerFits folder new lo := by
  obtain ⟨e, hget, -⟩ := hf.marker
  have hp := (List.getElem?_eq_some_iff.mp hget).1
  have hle := hf.le
  have hlimit := hf.limit
  have hmax := new.le
  have hlim : lo + new.fdes.length + 1 < 2 ^ 32 := by omega
  rcases f.writeEntries_cases new.fdes folder (i := lo) (by omega) (by omega) (by omega) with
    ⟨folder₁, hok, hwrote, hnone, -⟩ | ⟨w, folder₁, hw, hwrote, hnone, -, hstops⟩
  · rw [hok, EntryFaults.writeMarker, Option.bind_some]
    exact rightAt_written_iff hf hlim hok hwrote hnone
  · exact rightAt_stopped_iff hf hlim hw hwrote hnone hstops

end

/-! ### All together -/

/-- **Entries are added, or an error is reported and nothing has changed**, exactly if the search stops at an
entry that is not read, or the entries fit and are all written, or nothing has changed when a write fails and
the error is not lost. -/
theorem add_right_iff (f : EntryFaults) (folder : VolumeFolder) (new : NewEntries) :
    AddRight f folder new ↔ f.Adds folder new := by
  have hsearch := @findSpace_search f new.fdes.length folder 65535 0 FatDirEntry.zero
    ⟨0, 0, false, false⟩ (by omega)
  rw [EntryFaults.Adds]
  cases hs : f.search folder.slots new.fdes.length 65535 0 ⟨0, 0, false, false⟩ with
  | none =>
      rw [hs] at hsearch
      obtain ⟨ec, st, hec, hfind⟩ := hsearch
      refine iff_of_true ⟨ec, folder.fs, folder.dir, 0, ?_, fun heq => absurd heq hec, fun _ => ?_⟩ trivial
      · rw [VolumeFolder.dirs, EntryFaults.addDirectoryEntries]
        dsimp only
        rw [hfind]
        dsimp only
        rw [if_pos hec]
      · exact ⟨rfl, folder.setting.folderAt, diskSlots_eq folder.setting.mounted folder.setting.folderAt⟩
  | some st =>
      rw [hs] at hsearch
      dsimp only at hsearch ⊢
      have hfound := (SearchInv.init new.pos).search (by omega) hs
      -- the index is that of the last entry
      have hindex : ∀ lo', st.foundFirstIdx + new.fdes.length - 1 = lo' + new.fdes.length - 1 →
          lo' = st.foundFirstIdx := by
        have hpos := new.pos
        intro lo' heq
        omega
      have hiff : AddRight f folder new ↔ f.RightAt folder new st.foundFirstIdx
          (if st.moveEodMarker then f.writeMarker (st.foundFirstIdx + new.fdes.length)
            (f.writeEntries new.fdes st.foundFirstIdx folder.fs folder.dirs)
          else f.writeEntries new.fdes st.foundFirstIdx folder.fs folder.dirs) := by
        have hadd : f.addDirectoryEntries folder.fs folder.dirs new.fdes =
            (if st.moveEodMarker then f.writeMarker (st.foundFirstIdx + new.fdes.length)
              (f.writeEntries new.fdes st.foundFirstIdx folder.fs folder.dirs)
            else f.writeEntries new.fdes st.foundFirstIdx folder.fs folder.dirs).map fun r =>
              (r.1, r.2.1, r.2.2, st.foundFirstIdx + new.fdes.length - 1) := by
          rw [VolumeFolder.dirs, EntryFaults.addDirectoryEntries]
          dsimp only
          rw [hsearch]
          dsimp only
          rw [if_neg (show ¬ ErrCode.noError ≠ .noError by simp)]
          cases f.writeEntries new.fdes st.foundFirstIdx folder.fs (folder.dir :: folder.rest) with
          | none => cases st.moveEodMarker <;> rfl
          | some r =>
              cases st.moveEodMarker with
              | false => rfl
              | true =>
                  simp only [if_true, EntryFaults.writeMarker, Option.bind_some]
                  cases f.writeFde r.2.2 r.2.1 (st.foundFirstIdx + new.fdes.length) FatDirEntry.zero <;> rfl
        generalize (if st.moveEodMarker then f.writeMarker (st.foundFirstIdx + new.fdes.length)
            (f.writeEntries new.fdes st.foundFirstIdx folder.fs folder.dirs)
          else f.writeEntries new.fdes st.foundFirstIdx folder.fs folder.dirs) = r at hadd
        rw [AddRight, hadd]
        constructor
        · rintro ⟨ec, fs', dir', idx, hr, hok, herror⟩
          obtain ⟨r', rfl, hr'⟩ := Option.map_eq_some_iff.mp hr
          simp only [Prod.mk.injEq] at hr'
          obtain ⟨rfl, rfl, hdirs, rfl⟩ := hr'
          refine ⟨r'.1, r'.2.1, dir', by rw [← hdirs], fun hec => ?_, herror⟩
          obtain ⟨lo', hlo', hplaced, hloop⟩ := hok hec
          obtain rfl := hindex lo' hlo'
          exact ⟨hplaced, hloop⟩
        · rintro ⟨ec, fs', dir', rfl, hok, herror⟩
          exact ⟨ec, fs', dir', _, rfl, fun hec => ⟨_, rfl, (hok hec).1, (hok hec).2⟩, herror⟩
      rw [hiff]
      rcases hfound with ⟨hmarker, p, hp⟩ | ⟨hmarker, hslots⟩
      · rw [if_pos hmarker, if_pos hmarker]
        exact rightAt_marker_iff hp
      · rw [hmarker, if_neg (by decide), if_neg (by decide)]
        exact rightAt_slots_iff hslots

/-- A root directory of sixteen slots, the last of them the end marker. -/
def almostFull : VolumeFolder where
  fs := blankVolume.withBytes fun i => if 1024 ≤ i ∧ i < 1504 then 0x41 else 0
  dir := blankRoot
  rest := []
  clusters := []
  setting :=
    { mounted := ⟨fourClusters_mounted, rfl, le_rfl⟩
      folderAt := ⟨by decide, by decide, fun hs => by cases hs⟩
      parent := nofun }

/-- The entry takes the place of the end marker, and then there is no slot for a new one: the error is
reported, and the entry stays. -/
theorem entry_kept_after_error :
    ¬ ∀ (f : EntryFaults) (folder : VolumeFolder) (new : NewEntries), AddRight f folder new := by
  intro h
  obtain ⟨ec, fs', dir', idx, hok, -, herror⟩ := h .none almostFull
    ⟨[FatDirEntry.zero.set 0 1 0x42], by decide, by decide, by decide⟩
  have hadd : EntryFaults.none.addDirectoryEntries almostFull.fs almostFull.dirs
      [FatDirEntry.zero.set 0 1 0x42] = some (ec, fs', dir' :: almostFull.rest, idx) := hok
  have hcode : (EntryFaults.none.addDirectoryEntries almostFull.fs almostFull.dirs
      [FatDirEntry.zero.set 0 1 0x42]).map (·.1) = some .invalidOp := by decide +kernel
  have hnew : (EntryFaults.none.addDirectoryEntries almostFull.fs almostFull.dirs
      [FatDirEntry.zero.set 0 1 0x42]).map (fun r => (diskSlots r.2.1 blankRoot).getLast?.map (·.name 0)) =
      some (some 0x42) := by decide +kernel
  have hold : almostFull.slots.getLast?.map (·.name 0) = some 0 := by decide +kernel
  rw [hadd, Option.map_some, Option.some.injEq] at hcode hnew
  have hslots : diskSlots fs' blankRoot = almostFull.slots := (herror fun heq => by cases hcode.symm.trans heq).slots
  rw [hslots, hold] at hnew
  exact absurd hnew (by decide)

end Azalea.Fat
