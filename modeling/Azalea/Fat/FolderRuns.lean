import Azalea.Fat.AddEntries
import Azalea.Fat.LongNames
import Azalea.Support.Runs

/-!
# Fat — runs of folder operations

A folder object is made by its constructor, and then files are created, renamed and deleted in it.
Its maps and the entries on the disk are changed by different pieces of code.

* `createChild_cases`, `renameChild_cases`, `deleteChild_cases`: what a step can do.
* `perform_changed`: what a step changes, on the disk and in the maps.
* `maps_match_disk`: the maps are those that the constructor would fill from the disk.
* `short_names_unique`: no two entries get the same short name.

Both hold as long as names in 8.3 form are given whose upper-case form, in which they are stored, is
not in use (`StoredFree`): `create_child` looks for the name as it is given, and a child with a long
name gets the short name of an entry that has been cleared.
-/

namespace Azalea.Fat
open Azalea.Memory Azalea.Maps Azalea.Runs Function

/-- The operations on the children of a folder. -/
inductive FolderOp where
  | create (name : Name)
  | rename (oldName newName : Name)
  | delete (name : Name)

/-- One operation: its result, and the folder. -/
def FatFolder.perform (st : FatFolder) : FolderOp → Option (ErrCode × FatFolder)
  | .create name => createChild st name
  | .rename oldName newName => renameChild st oldName newName
  | .delete name => deleteChild st name

/-- The folder after an operation. -/
def FatFolder.step (st : FatFolder) (op : FolderOp) : Option FatFolder :=
  (st.perform op).map (·.2)

/-- The slots of a folder object, on the disk. -/
def FatFolder.slots (st : FatFolder) : List FatDirEntry :=
  match st.dirs with
  | [] => []
  | dir :: _ => diskSlots st.fs dir

/-- The entries of a folder object, on the disk. -/
def FatFolder.entries (st : FatFolder) : List FatDirEntry := live st.slots

/-! ### Names -/

/-- The name under which 11 bytes are found. -/
def storedName (sn : Name) : Name := shortNameFromFde (FatDirEntry.zero.setName sn)

/-- A call with the name is refused: the name is found, or has a character that no name may have. -/
def Refused (maps : FolderMaps) (name : Name) : Prop :=
  (maps.getDirEntry name).1.isSome = true ∨
    populateShortName name = none ∧ populateLongName name = some none

/-- The name has 8.3 form, the form in which it is stored is not in use, and its first byte is not
that of a free entry. -/
def StoredFree (maps : FolderMaps) (name : Name) : Prop :=
  ∃ sn, populateShortName name = some sn ∧ sn.head? ≠ some 0xE5 ∧
    (maps.getDirEntry (storedName sn)).1 = none

section
variable {name sn : Name} {e : FatDirEntry} {maps : FolderMaps} {s : FolderMaps}

/-- The entries for a name in 8.3 form. -/
theorem populateFdesFromName_short (h : populateShortName name = some sn) :
    populateFdesFromName FolderMaps.isInUse s name =
      some (some ⟨[(FatDirEntry.zero.setName sn).setArchive], [], storedName sn⟩, s) := by
  rw [populateFdesFromName, h]
  exact congrArg (fun n => some (some (PopulatedFdes.mk _ [] n), s))
    (shortNameFromFde_congr nameBytes_setArchive)

/-- The name of a call that is refused has no entries, if it is not found. -/
theorem populateFdesFromName_refused (h₁ : populateShortName name = none)
    (h₂ : populateLongName name = some none) :
    populateFdesFromName FolderMaps.isInUse s name = some (none, s) := by
  rw [populateFdesFromName, h₁, h₂]

/-- An entry with a stored name is one of a child. -/
theorem isChild_of_stored (h : populateShortName name = some sn) (h5 : sn.head? ≠ some 0xE5)
    (he : e.nameBytes = sn) (ha : e.attributesRaw ≠ 0x0F) :
    e.name 0 ≠ 0 ∧ e.IsChild ∧ shortNameFromFde e = storedName sn := by
  obtain ⟨hlen, hbytes⟩ := populateShortName_bytes h
  have hhead := name_zero e
  rw [he] at hhead
  refine ⟨(hbytes _ (List.mem_of_mem_head? hhead)).1, ⟨⟨fun hf => h5 ?_, ha⟩, ?_⟩, ?_⟩
  · rw [hhead]
    exact congrArg some hf
  · exact shortNameFromFde_ne_dots fun b hb => (hbytes b (he ▸ hb)).2
  · exact shortNameFromFde_congr (he.trans (nameBytes_setName hlen).symm)

/-- The entry that `create_child` writes. -/
def createdEntry (sn : Name) : FatDirEntry :=
  (FatDirEntry.zero.setName sn).setArchive.setArchive

theorem nameBytes_createdEntry (h : sn.length = 11) : (createdEntry sn).nameBytes = sn := by
  rw [createdEntry, nameBytes_setArchive, nameBytes_setArchive, nameBytes_setName h]

theorem attributesRaw_createdEntry : (createdEntry sn).attributesRaw ≠ 0x0F := by
  rw [createdEntry, attributesRaw_setArchive, attributesRaw_setArchive, attributesRaw_setName]
  decide

end

/-! ### What a step can do -/

section
variable {st st' : FatFolder} {name oldName newName : Name} {ec : ErrCode}

/-- **`create_child`**, for a name that is refused or in 8.3 form. -/
theorem createChild_cases (hf : st.maps.Found)
    (hname : Refused st.maps name ∨ StoredFree st.maps name)
    (hok : createChild st name = some (ec, st')) :
    st' = st ∨ ∃ sn result fs dirs idx, populateShortName name = some sn ∧
      sn.head? ≠ some 0xE5 ∧ (st.maps.getDirEntry (storedName sn)).1 = none ∧
      addDirectoryEntries st.fs st.dirs [createdEntry sn] = some (result, fs, dirs, idx) ∧
      (result ≠ .noError ∧ st' = ⟨fs, dirs, st.maps⟩ ∨
        result = .noError ∧ st' = ⟨fs, dirs, ((st.maps.insertChild idx
          ⟨[], storedName sn, idx, createdEntry sn⟩).getDirEntry name).2⟩ ∧
          ec = ((st.maps.insertChild idx
            ⟨[], storedName sn, idx, createdEntry sn⟩).getChild name).1) := by
  rw [createChild] at hok
  obtain ⟨hsame, -⟩ := hf.getDirEntry name
  cases hg : st.maps.getDirEntry name with
  | mk found maps =>
      rw [hg] at hok hsame
      obtain rfl : maps = st.maps := hsame
      cases found with
      | some r =>
          simp only [Option.some.injEq, Prod.mk.injEq] at hok
          exact Or.inl hok.2.symm
      | none =>
          rcases hname with (hfound | ⟨h₁, h₂⟩) | ⟨sn, hsn, h5, hfree⟩
          · rw [hg] at hfound; cases hfound
          · dsimp only at hok
            rw [populateFdesFromName_refused h₁ h₂] at hok
            simp only [Option.some.injEq, Prod.mk.injEq] at hok
            exact Or.inl hok.2.symm
          · dsimp only at hok
            rw [populateFdesFromName_short hsn] at hok
            dsimp only at hok
            rw [show mapLast FatDirEntry.setArchive [(FatDirEntry.zero.setName sn).setArchive] =
              [createdEntry sn] from rfl] at hok
            refine Or.inr ?_
            cases hadd : addDirectoryEntries st.fs st.dirs [createdEntry sn] with
            | none => rw [hadd] at hok; cases hok
            | some r =>
                obtain ⟨result, fs, dirs, idx⟩ := r
                rw [hadd] at hok
                dsimp only at hok
                refine ⟨sn, result, fs, dirs, idx, hsn, h5, hfree, hadd, ?_⟩
                by_cases hr : result = .noError
                · rw [if_neg (by simpa using hr)] at hok
                  simp only [Option.some.injEq, Prod.mk.injEq] at hok
                  exact Or.inr ⟨hr, hok.2.symm, hok.1.symm⟩
                · rw [if_pos hr] at hok
                  simp only [Option.some.injEq, Prod.mk.injEq] at hok
                  exact Or.inl ⟨hr, hok.2.symm⟩

/-- **`rename_child`**, for a new name that is refused or in 8.3 form. -/
theorem renameChild_cases (hf : st.maps.Found)
    (hname : Refused st.maps newName ∨ StoredFree st.maps newName)
    (hok : renameChild st oldName newName = some (ec, st')) :
    st' = st ∨ ∃ sn result fs dirs idx oldIdx o, populateShortName newName = some sn ∧
      sn.head? ≠ some 0xE5 ∧ (st.maps.getDirEntry (storedName sn)).1 = none ∧
      (st.maps.getDirEntry oldName).1 = some (o.fde, oldIdx) ∧
      st.maps.fdeToChildMap.lookup oldIdx = some o ∧
      addDirectoryEntries st.fs st.dirs [o.fde.setName sn] = some (result, fs, dirs, idx) ∧
      (result ≠ .noError ∧ st' = ⟨fs, dirs, st.maps⟩ ∨
        result = .noError ∧ ∃ ec fs' dirs', unlinkFdes fs dirs oldIdx = some (ec, fs', dirs') ∧
          st' = ⟨fs', dirs', (st.maps.eraseChild oldIdx o).insertChild idx
            ⟨[], storedName sn, idx, o.fde.setName sn⟩⟩) := by
  rw [renameChild] at hok
  obtain ⟨hsame, -⟩ := hf.getDirEntry newName
  obtain ⟨hsame', hobj⟩ := hf.getDirEntry oldName
  cases hg : st.maps.getDirEntry newName with
  | mk found maps =>
      rw [hg] at hok hsame
      obtain rfl : maps = st.maps := hsame
      cases found with
      | some r =>
          simp only [Option.some.injEq, Prod.mk.injEq] at hok
          exact Or.inl hok.2.symm
      | none =>
          dsimp only at hok
          cases hg' : st.maps.getDirEntry oldName with
          | mk found' maps' =>
              rw [hg'] at hok hsame' hobj
              obtain rfl : maps' = st.maps := hsame'
              cases found' with
              | none =>
                  simp only [Option.some.injEq, Prod.mk.injEq] at hok
                  exact Or.inl hok.2.symm
              | some r =>
                  obtain ⟨fde, oldIdx⟩ := r
                  obtain ⟨-, o, ho, rfl⟩ := hobj fde oldIdx rfl
                  dsimp only at hok
                  rcases hname with (hfound | ⟨h₁, h₂⟩) | ⟨sn, hsn, h5, hfree⟩
                  · rw [hg] at hfound; cases hfound
                  · rw [populateFdesFromName_refused h₁ h₂] at hok
                    simp only [Option.some.injEq, Prod.mk.injEq] at hok
                    exact Or.inl hok.2.symm
                  · have hlen := (populateShortName_bytes hsn).1
                    rw [populateFdesFromName_short hsn] at hok
                    dsimp only at hok
                    rw [show mapLast (fun e => o.fde.setName e.nameBytes)
                        [(FatDirEntry.zero.setName sn).setArchive] = [o.fde.setName sn] by
                      rw [mapLast, List.getLast?_singleton, Option.toList_some, List.map_singleton,
                        nameBytes_setArchive, nameBytes_setName hlen]
                      rfl] at hok
                    refine Or.inr ?_
                    cases hadd : addDirectoryEntries st.fs st.dirs [o.fde.setName sn] with
                    | none => rw [hadd] at hok; cases hok
                    | some r =>
                        obtain ⟨result, fs, dirs, idx⟩ := r
                        rw [hadd] at hok
                        dsimp only at hok
                        refine ⟨sn, result, fs, dirs, idx, oldIdx, o, hsn, h5, hfree, rfl, ho, hadd, ?_⟩
                        by_cases hr : result = .noError
                        · rw [if_neg (by simpa using hr), ho] at hok
                          dsimp only [List.getLast?_singleton, Option.getD_some] at hok
                          refine Or.inr ⟨hr, ?_⟩
                          cases hun : unlinkFdes fs dirs oldIdx with
                          | none => rw [hun] at hok; cases hok
                          | some r =>
                              obtain ⟨ec', fs', dirs'⟩ := r
                              rw [hun] at hok
                              simp only [Option.some.injEq, Prod.mk.injEq] at hok
                              exact ⟨ec', fs', dirs', rfl, hok.2.symm⟩
                        · rw [if_pos hr] at hok
                          simp only [Option.some.injEq, Prod.mk.injEq] at hok
                          exact Or.inl ⟨hr, hok.2.symm⟩

/-- **`delete_child`.** -/
theorem deleteChild_cases (hf : st.maps.Found) (hok : deleteChild st name = some (ec, st')) :
    st' = st ∨ ∃ idx o fs dirs, (st.maps.longNameToFdeMap.lookup name = some idx ∨
        st.maps.shortNameToFdeMap.lookup name = some idx) ∧
      st.maps.fdeToChildMap.lookup idx = some o ∧
      unlinkFdes st.fs st.dirs idx = some (ec, fs, dirs) ∧
      st' = ⟨fs, dirs, st.maps.eraseChild idx o⟩ := by
  rw [deleteChild] at hok
  obtain ⟨hsame, hobj⟩ := hf.getDirEntry name
  cases hg : st.maps.getDirEntry name with
  | mk found maps =>
      rw [hg] at hok hsame hobj
      obtain rfl : maps = st.maps := hsame
      cases found with
      | none =>
          simp only [Option.some.injEq, Prod.mk.injEq] at hok
          exact Or.inl hok.2.symm
      | some r =>
          obtain ⟨fde, idx⟩ := r
          obtain ⟨hname, o, ho, -⟩ := hobj fde idx rfl
          dsimp only at hok
          rw [ho] at hok
          dsimp only at hok
          cases hun : unlinkFdes st.fs st.dirs idx with
          | none => rw [hun] at hok; cases hok
          | some r =>
              obtain ⟨ec', fs', dirs'⟩ := r
              rw [hun] at hok
              simp only [Option.some.injEq, Prod.mk.injEq] at hok
              obtain ⟨rfl, hst⟩ := hok
              exact Or.inr ⟨idx, o, fs', dirs', hname, ho, hun, hst.symm⟩

end

/-! ### The maps of a folder object -/

/-- Every object of the maps is the child on the disk in its place, but for the long name. -/
def Backed (maps : FolderMaps) (es : List FatDirEntry) : Prop :=
  ∀ i, (maps.fdeToChildMap.lookup i).map FatObjectDetails.clearLong = entryAt es i

/-- A child without a long name, under a short name that is not in use. -/
structure NewChild (maps : FolderMaps) (o : FatObjectDetails) : Prop where
  child : o.fde.IsChild
  name : o.fde.name 0 ≠ 0
  short : shortNameFromFde o.fde = o.shortFn
  long : o.longFn = []
  free : (maps.getDirEntry o.shortFn).1 = none

/-- What is changed by an operation, on the disk and in the maps. -/
inductive Changed (es es' : List FatDirEntry) (maps maps' : FolderMaps) : Prop
  | same (entries : es' = es) (maps_eq : maps' = maps)
  | created (o : FatObjectDetails) (new : NewChild maps o) (added : Added es es' o.fde o.fdeIndex)
      (maps_eq : maps' = maps.insertChild o.fdeIndex o)
  | renamed (o old : FatObjectDetails) (i lo : Nat) (es₁ : List FatDirEntry) (new : NewChild maps o)
      (added : Added es es₁ o.fde o.fdeIndex) (found : maps.fdeToChildMap.lookup i = some old)
      (parts : IsLfnRun es₁ lo i) (entries : es' = markFree es₁ lo (i + 1))
      (maps_eq : maps' = (maps.eraseChild i old).insertChild o.fdeIndex o)
  | deleted (old : FatObjectDetails) (i lo : Nat) (found : maps.fdeToChildMap.lookup i = some old)
      (parts : IsLfnRun es lo i) (entries : es' = markFree es lo (i + 1))
      (maps_eq : maps' = maps.eraseChild i old)

section
variable {maps maps' : FolderMaps} {es es' : List FatDirEntry} {e x : FatDirEntry}
  {o c : FatObjectDetails} {i : Nat} {f : Nat → Option FatObjectDetails}
  {key : FatObjectDetails → Option Name}

theorem clearLong_childAt (es : List FatDirEntry) (i : Nat) :
    (childAt es i).map FatObjectDetails.clearLong = entryAt es i := by
  rw [childAt, entryAt]
  cases es[i]? with
  | none => rfl
  | some x =>
      rw [Option.bind_some]
      cases hc : childOf i x with
      | none => rfl
      | some c =>
          rw [fde_of_childOf hc]
          rfl

theorem Tracks.backed (h : Tracks maps (entryAt es)) : Backed maps es := h.objects

theorem Agrees.backed (h : Agrees maps (childAt es)) : Backed maps es := fun i => by
  rw [h.objects i, clearLong_childAt]

theorem Backed.entry (h : Backed maps es) (ho : maps.fdeToChildMap.lookup i = some o) :
    es[i]? = some o.fde ∧ o.fde.IsChild := by
  have hi := h i
  rw [ho, Option.map_some, entryAt] at hi
  obtain ⟨x, hx, hc⟩ := Option.bind_eq_some_iff.mp hi.symm
  have hchild : x.IsChild := by
    rw [childOf] at hc
    split at hc
    · assumption
    · cases hc
  have hfde : o.fde = x := congrArg FatObjectDetails.fde (fde_of_childOf hc)
  rw [hfde]
  exact ⟨hx, hchild⟩

/-- Where an object is added, every name leads to one. -/
theorem FolderMaps.Found.insertChild (h : maps.Found) (hi : maps.fdeToChildMap.lookup i = none) :
    (maps.insertChild i o).Found := by
  have hobj : (maps.insertChild i o).fdeToChildMap = insertNew maps.fdeToChildMap i o := by
    rw [FolderMaps.insertChild]
    split <;> rfl
  have hkept : ∀ {j o'}, maps.fdeToChildMap.lookup j = some o' →
      ∃ o', (maps.insertChild i o).fdeToChildMap.lookup j = some o' := by
    intro j o' ho'
    rw [hobj, lookup_insertNew hi]
    split
    · exact ⟨o, rfl⟩
    · exact ⟨o', ho'⟩
  -- a map to which a name is added leads to the new object or to one that was there
  have hindex : ∀ {m : Finmap fun _ : Name => Nat} {k name : Name} {j : Nat},
      (insertNew m k i).lookup name = some j → j = i ∨ m.lookup name = some j := by
    intro m k name j hj
    cases hk : m.lookup k with
    | some _ =>
        rw [insertNew_of_lookup hk] at hj
        exact Or.inr hj
    | none =>
        rw [lookup_insertNew hk] at hj
        split at hj
        · exact Or.inl (Option.some.inj hj).symm
        · exact Or.inr hj
  have hnew : ∃ o', (maps.insertChild i o).fdeToChildMap.lookup i = some o' :=
    ⟨o, by rw [hobj, lookup_insertNew hi, if_pos rfl]⟩
  have hwas : ∀ {name j}, maps.longNameToFdeMap.lookup name = some j ∨
      maps.shortNameToFdeMap.lookup name = some j →
      ∃ o', (maps.insertChild i o).fdeToChildMap.lookup j = some o' := by
    intro name j hj
    obtain ⟨o', ho'⟩ := h name j hj
    exact hkept ho'
  rintro name j (hl | hs)
  · have hl' : maps.longNameToFdeMap.lookup name = some j ∨ j = i := by
      rw [FolderMaps.insertChild] at hl
      split at hl
      · exact (hindex hl).symm
      · exact Or.inl hl
    rcases hl' with hl' | rfl
    · exact hwas (Or.inl hl')
    · exact hnew
  · have hs' : (insertNew maps.shortNameToFdeMap o.shortFn i).lookup name = some j := by
      rw [FolderMaps.insertChild] at hs
      split at hs <;> exact hs
    rcases hindex hs' with rfl | hs'
    · exact hnew
    · exact hwas (Or.inr hs')

theorem Distinct.erase (h : Distinct f key) (i : Nat) : Distinct (update f i none) key := by
  have hne : ∀ {j d}, update f i none j = some d → f j = some d := by
    intro j d hd
    rw [update_apply] at hd
    split at hd
    · cases hd
    · exact hd
  exact fun j j' d d' k hj hj' => h j j' d d' k (hne hj) (hne hj')

theorem Distinct.insert (h : Distinct f key)
    (hnew : ∀ j d k, f j = some d → key d = some k → key c ≠ some k) :
    Distinct (update f i (some c)) key := by
  intro j j' d d' k hj hj' hk hk'
  rw [update_apply] at hj hj'
  split at hj <;> split at hj'
  · next he he' => rw [he, he']
  · exact absurd (Option.some.inj hj ▸ hk) (hnew j' d' k hj' hk')
  · exact absurd (Option.some.inj hj' ▸ hk') (hnew j d k hj hk)
  · exact h j j' d d' k hj hj' hk hk'

theorem Agrees.long_nil (h : Agrees maps f) : maps.longNameToFdeMap.lookup [] = none := by
  cases hl : maps.longNameToFdeMap.lookup [] with
  | none => rfl
  | some j =>
      obtain ⟨d, -, hk⟩ := (h.long _ j).mp hl
      rw [FatObjectDetails.longKey] at hk
      split at hk
      · cases hk
      · next hne => exact absurd (Option.some.inj hk) hne

/-- A name that is not found is the canonical name of no child. -/
theorem Agrees.canonical_free (h : Agrees maps f) {name : Name} (hfree : (maps.getDirEntry name).1 = none)
    (hi : f i = some c) : c.canonicalName ≠ name := by
  obtain ⟨hl, hs⟩ := getDirEntry_eq_none_iff.mp hfree
  rintro rfl
  rw [FatObjectDetails.canonicalName] at hl hs
  by_cases hlong : c.longFn = []
  · rw [if_pos hlong] at hs
    exact Option.some_ne_none i (((h.short _ i).mpr ⟨c, hi, rfl⟩).symm.trans hs)
  · rw [if_neg hlong] at hl
    exact Option.some_ne_none i (((h.long _ i).mpr ⟨c, hi, if_neg hlong⟩).symm.trans hl)

/-! ### A new entry among the others -/

theorem Added.place (h : Added es es' e i) : entryAt es i = none := by
  rcases h with ⟨x, hx, hfree, -, -⟩ | ⟨rfl, -, -⟩
  · rw [entryAt, hx, Option.bind_some, childOf, if_neg fun hc => hc.1.1 hfree]
  · exact entryAt_of_le le_rfl

theorem NewChild.childOf (h : NewChild maps o) : childOf o.fdeIndex o.fde = some o := by
  obtain ⟨hchild, -, hshort, hlong, -⟩ := h
  obtain ⟨longFn, shortFn, idx, fde⟩ := o
  obtain rfl : shortNameFromFde fde = shortFn := hshort
  obtain rfl : longFn = [] := hlong
  exact if_pos hchild

theorem NewChild.clearLong (h : NewChild maps o) : o.clearLong = o := by
  obtain ⟨longFn, shortFn, idx, fde⟩ := o
  obtain rfl : longFn = [] := h.long
  rfl

theorem Added.entryAt_eq (h : Added es es' o.fde o.fdeIndex) (hnew : NewChild maps o) :
    entryAt es' = update (entryAt es) o.fdeIndex (some o) := by
  rw [← hnew.childOf]
  rcases h with ⟨x, hx, -, -, rfl⟩ | ⟨hi, -, rfl⟩
  · exact entryAt_set (List.getElem?_eq_some_iff.mp hx).1
  · rw [hi]
    exact entryAt_concat es o.fde

theorem Added.childAt_eq (h : Added es es' o.fde o.fdeIndex) (hnew : NewChild maps o)
    (hl : LfnsAttached es) :
    childAt es o.fdeIndex = none ∧ childAt es' = update (childAt es) o.fdeIndex (some o) ∧
      LfnsAttached es' := by
  have hresets : o.fde.Resets := Or.inr hnew.child.1.2
  have hsome : ∀ n : Name, n = [] →
      (Fat.childOf o.fdeIndex o.fde).map (fun c => { c with longFn := n }) = some o := by
    rintro n rfl
    rw [hnew.childOf]
    exact congrArg some hnew.clearLong
  refine ⟨by rw [childAt, h.place]; rfl, ?_⟩
  rcases h with ⟨x, hx, hfree, -, rfl⟩ | ⟨hi, hused, rfl⟩
  · refine ⟨?_, hl.set hnew.child.1.1 hresets⟩
    have hlt := (List.getElem?_eq_some_iff.mp hx).1
    rw [childAt_set hx (Or.inl hfree) hresets, childIn, hsome _ (hl.nameOf hlt.le fun y hy => ?_)]
    rw [hx] at hy
    exact Option.some.inj hy ▸ hfree
  · refine ⟨?_, hl.concat hresets⟩
    have hname := @LfnsAttached.nameOf es o.fde es.length hl le_rfl fun y hy => by
      rw [List.getElem?_eq_none le_rfl] at hy
      cases hy
    rw [List.take_length] at hname
    rw [childAt_concat, childAfter, ← hi, hsome _ hname]

/-- An entry in use stays where it is. -/
theorem Added.kept (h : Added es es' e i) {j : Nat} (hx : es[j]? = some x) (hused : ¬ x.IsFree) :
    es'[j]? = some x := by
  rcases h with ⟨y, hy, hfree, -, rfl⟩ | ⟨-, -, rfl⟩
  · rw [List.getElem?_set_ne, hx]
    rintro rfl
    exact hused (Option.some.inj (hy.symm.trans hx) ▸ hfree)
  · rw [List.getElem?_append_left (List.getElem?_eq_some_iff.mp hx).1, hx]

/-! ### What the maps say after a change -/

theorem NewChild.erase {old : FatObjectDetails} (h : NewChild maps o) (i : Nat) :
    (maps.eraseChild i old).longNameToFdeMap.lookup o.shortFn = none ∧
      (maps.eraseChild i old).shortNameToFdeMap.lookup o.shortFn = none := by
  obtain ⟨hl, hs⟩ := getDirEntry_eq_none_iff.mp h.free
  have herase : ∀ {m : Finmap fun _ : Name => Nat} {k : Name}, m.lookup o.shortFn = none →
      (m.erase k).lookup o.shortFn = none := by
    intro m k hm
    rw [lookup_erase_eq]
    split
    · rfl
    · exact hm
  rw [FolderMaps.eraseChild]
  split
  · exact ⟨herase hl, herase hs⟩
  · exact ⟨hl, herase hs⟩

theorem Tracks.add (h : Tracks maps f) (hnew : NewChild maps' o) (hi : f o.fdeIndex = none)
    (hs : maps.shortNameToFdeMap.lookup o.shortFn = none) :
    Tracks (maps.insertChild o.fdeIndex o) (update f o.fdeIndex (some o)) := by
  rw [FolderMaps.insertChild, if_neg (not_not_intro hnew.long)]
  refine (congrArg (fun c => Tracks _ (update f o.fdeIndex (some c))) hnew.clearLong).mp ?_
  exact h.insert hi hs rfl rfl (Or.inl rfl)

theorem Changed.tracks (h : Changed es es' maps maps') (ht : Tracks maps (entryAt es)) :
    Tracks maps' (entryAt es') := by
  cases h with
  | same entries maps_eq => rwa [entries, maps_eq]
  | created o new added maps_eq =>
      rw [maps_eq, added.entryAt_eq new]
      exact ht.add new added.place (getDirEntry_eq_none_iff.mp new.free).2
  | renamed o old i lo es₁ new added found parts entries maps_eq =>
      have hne : o.fdeIndex ≠ i := by
        rintro rfl
        have hi := ht.backed o.fdeIndex
        rw [found, added.place] at hi
        cases hi
      rw [maps_eq, entries, entryAt_markFree parts, added.entryAt_eq new, update_comm hne]
      refine (ht.erase found).add new ?_ (new.erase i).2
      rw [update_of_ne hne, added.place]
  | deleted old i lo found parts entries maps_eq =>
      rw [maps_eq, entries, entryAt_markFree parts]
      exact ht.erase found

/-- The maps hold the children, no two of them are listed with the same name, and every part of a long
name is followed by an entry in use. -/
structure Mirrors (maps : FolderMaps) (es : List FatDirEntry) : Prop where
  agrees : Agrees maps (childAt es)
  canonical : Distinct (childAt es) (some ·.canonicalName)
  attached : LfnsAttached es

theorem Mirrors.distinct (h : Mirrors maps es) : DistinctNames (childAt es) :=
  ⟨fun _ _ _ _ _ hi hj hc hd => h.agrees.short.inj hi hj hc hd,
    fun _ _ _ _ _ hi hj hc hd => h.agrees.long.inj hi hj hc hd, h.canonical⟩

theorem Changed.mirrors (h : Changed es es' maps maps') (hm : Mirrors maps es) : Mirrors maps' es' := by
  cases h with
  | same entries maps_eq => rwa [entries, maps_eq]
  | created o new added maps_eq =>
      obtain ⟨hnone, hchildren, hattached⟩ := added.childAt_eq new hm.attached
      have hlong : maps.longNameToFdeMap.lookup o.longFn = none := by
        rw [new.long]
        exact hm.agrees.long_nil
      rw [maps_eq]
      refine ⟨?_, ?_, hattached⟩
      · rw [hchildren]
        exact hm.agrees.insert hnone (getDirEntry_eq_none_iff.mp new.free).2 hlong
      · rw [hchildren]
        refine hm.canonical.insert fun j d k hd hk hc => ?_
        rw [FatObjectDetails.canonicalName, if_pos new.long] at hc
        exact hm.agrees.canonical_free new.free hd (Option.some.inj (hk.trans hc.symm))
  | renamed o old i lo es₁ new added found parts entries maps_eq =>
      obtain ⟨hnone, hchildren, hattached⟩ := added.childAt_eq new hm.attached
      have hold : childAt es i = some old := (hm.agrees.objects i).symm.trans found
      have hne : o.fdeIndex ≠ i := by
        rintro rfl
        exact Option.some_ne_none old (hold.symm.trans hnone)
      obtain ⟨hentry, hchild⟩ := hm.agrees.backed.entry found
      have hchildren' : childAt es' =
          update (update (childAt es) i none) o.fdeIndex (some o) := by
        rw [entries, childAt_markFree (added.kept hentry hchild.1.1) hchild.1.2 parts, hchildren,
          update_comm hne]
      have herased := hm.agrees.erase hm.distinct hold
      have hlong : (maps.eraseChild i old).longNameToFdeMap.lookup o.longFn = none := by
        rw [new.long]
        exact herased.long_nil
      rw [maps_eq]
      refine ⟨?_, ?_, ?_⟩
      · rw [hchildren']
        exact herased.insert (by rw [update_of_ne hne, hnone]) (new.erase i).2 hlong
      · rw [hchildren']
        refine (hm.canonical.erase i).insert fun j d k hd hk hc => ?_
        rw [FatObjectDetails.canonicalName, if_pos new.long] at hc
        refine herased.canonical_free (getDirEntry_eq_none_iff.mpr (new.erase i)) hd ?_
        exact Option.some.inj (hk.trans hc.symm)
      · rw [entries]
        exact hattached.markFree parts
  | deleted old i lo found parts entries maps_eq =>
      have hold : childAt es i = some old := (hm.agrees.objects i).symm.trans found
      obtain ⟨hentry, hchild⟩ := hm.agrees.backed.entry found
      have hchildren : childAt es' = update (childAt es) i none := by
        rw [entries, childAt_markFree hentry hchild.1.2 parts]
      rw [maps_eq]
      refine ⟨?_, ?_, ?_⟩
      · rw [hchildren]
        exact hm.agrees.erase hm.distinct hold
      · rw [hchildren]
        exact hm.canonical.erase i
      · rw [entries]
        exact hm.attached.markFree parts

end

/-! ### Operations on a folder of a volume -/

/-- The entries of a folder of a volume. -/
def VolumeFolder.entries (folder : VolumeFolder) : List FatDirEntry := live folder.slots

/-- The object of a folder, with its maps. -/
def VolumeFolder.object (folder : VolumeFolder) (maps : FolderMaps) : FatFolder :=
  ⟨folder.fs, folder.dirs, maps⟩

/-- The search for a place for one more entry comes to its end, and if the end marker has to move, there is
room for it. -/
def FatFolder.HasSpace (st : FatFolder) : Prop :=
  SearchEnds st.slots ∧ ∀ dir, st.dirs.head? = some dir → HasRoom st.fs dir st.slots

/-- A name that is given is refused or in 8.3 form, with a stored form that is not in use, and there is
space for an entry. -/
def FatFolder.Fits (st : FatFolder) : FolderOp → Prop
  | .create name => (Refused st.maps name ∨ StoredFree st.maps name) ∧ st.HasSpace
  | .rename _ newName => (Refused st.maps newName ∨ StoredFree st.maps newName) ∧ st.HasSpace
  | .delete _ => True

section
variable {folder : VolumeFolder} {maps : FolderMaps} {e x : FatDirEntry} {ec : ErrCode} {fs' : FatFs}
  {dirs' : List FatFile} {idx : Nat} {st st' : FatFolder} {op : FolderOp} {name sn : Name}

theorem VolumeFolder.slots_object (folder : VolumeFolder) (maps : FolderMaps) :
    (folder.object maps).slots = folder.slots :=
  diskSlots_eq folder.setting.mounted folder.setting.folderAt

theorem VolumeFolder.entries_object (folder : VolumeFolder) (maps : FolderMaps) :
    (folder.object maps).entries = folder.entries :=
  congrArg live (folder.slots_object maps)

/-- One more entry is added to a folder that has space for it, or nothing changes. -/
theorem VolumeFolder.addOne (folder : VolumeFolder) (h0 : e.name 0 ≠ 0)
    (hspace : (folder.object maps).HasSpace)
    (hok : addDirectoryEntries folder.fs folder.dirs [e] = some (ec, fs', dirs', idx)) :
    ∃ folder' : VolumeFolder, fs' = folder'.fs ∧ dirs' = folder'.dirs ∧ folder'.rest = folder.rest ∧
      (ec ≠ .noError → folder'.entries = folder.entries) ∧
      (ec = .noError → Added folder.entries folder'.entries e idx) := by
  have hends := hspace.1
  have hroom := hspace.2 folder.dir rfl
  rw [folder.slots_object] at hends hroom
  obtain ⟨dir', ds', hdirs, hset, hcases⟩ := addDirectoryEntries_one folder.setting h0 hends hroom hok
  refine ⟨⟨fs', dir', folder.rest, ds', hset⟩, rfl, hdirs, rfl, ?_⟩
  rcases hcases with ⟨hec, rfl, rfl, rfl⟩ | ⟨hec, hadded⟩
  · exact ⟨fun _ => rfl, fun h => absurd h hec⟩
  · exact ⟨fun h => absurd hec h, fun _ => hadded⟩

/-- A short entry and the parts of a long name before it become free. -/
theorem VolumeFolder.unlinkOne (folder : VolumeFolder) (hx : folder.entries[idx]? = some x)
    (hattr : x.attributesRaw ≠ 0x0F) :
    ∃ (folder' : VolumeFolder) (lo : Nat),
      unlinkFdes folder.fs folder.dirs idx = some (.noError, folder'.fs, folder'.dirs) ∧
      folder'.rest = folder.rest ∧ IsLfnRun folder.entries lo idx ∧
      folder'.entries = markFree folder.entries lo (idx + 1) := by
  obtain ⟨m, lo, hok, hparts, hentries⟩ := unlinkFdes_eq folder.setting hx hattr
  exact ⟨folder.withBytes m, lo, hok, rfl, hparts, hentries⟩

/-- The child that a name in 8.3 form gets. -/
theorem newChild_of_stored (h : populateShortName name = some sn) (h5 : sn.head? ≠ some 0xE5)
    (hfree : (maps.getDirEntry (storedName sn)).1 = none) (he : e.nameBytes = sn)
    (ha : e.attributesRaw ≠ 0x0F) : NewChild maps ⟨[], storedName sn, idx, e⟩ := by
  obtain ⟨h0, hchild, hshort⟩ := isChild_of_stored h h5 he ha
  exact ⟨hchild, h0, hshort, rfl, hfree⟩

/-- **A step.** -/
theorem perform_changed (hb : Backed maps folder.entries) (hf : maps.Found)
    (hfits : (folder.object maps).Fits op) (hok : (folder.object maps).perform op = some (ec, st')) :
    ∃ (folder' : VolumeFolder) (maps' : FolderMaps), st' = folder'.object maps' ∧
      folder'.rest = folder.rest ∧ Changed folder.entries folder'.entries maps maps' := by
  cases op with
  | create name =>
      rcases @createChild_cases (folder.object maps) st' name ec hf hfits.1 hok with
        rfl | ⟨sn, result, fs, dirs, idx, hsn, h5, hfree, hadd, hcases⟩
      · exact ⟨folder, maps, rfl, rfl, .same rfl rfl⟩
      · have hnew : NewChild maps ⟨[], storedName sn, idx, createdEntry sn⟩ :=
          newChild_of_stored hsn h5 hfree (nameBytes_createdEntry (populateShortName_bytes hsn).1)
            attributesRaw_createdEntry
        obtain ⟨folder', rfl, rfl, hrest, hfail, hadded⟩ := folder.addOne hnew.name hfits.2 hadd
        rcases hcases with ⟨hec, rfl⟩ | ⟨hec, rfl, -⟩
        · exact ⟨folder', maps, rfl, hrest, .same (hfail hec) rfl⟩
        · have hplace := hb idx
          rw [(hadded hec).place, Option.map_eq_none_iff] at hplace
          refine ⟨folder', maps.insertChild idx ⟨[], storedName sn, idx, createdEntry sn⟩, ?_, hrest,
            .created _ hnew (hadded hec) rfl⟩
          exact congrArg (FatFolder.mk _ _) ((hf.insertChild hplace).getDirEntry name).1
  | rename oldName newName =>
      rcases @renameChild_cases (folder.object maps) st' oldName newName ec hf hfits.1 hok with
        rfl | ⟨sn, result, fs, dirs, idx, oldIdx, o, hsn, h5, hfree, -, ho, hadd, hcases⟩
      · exact ⟨folder, maps, rfl, rfl, .same rfl rfl⟩
      · obtain ⟨hentry, hchild⟩ := hb.entry ho
        have hlen := (populateShortName_bytes hsn).1
        have hnew : NewChild maps ⟨[], storedName sn, idx, o.fde.setName sn⟩ :=
          newChild_of_stored hsn h5 hfree (nameBytes_setName hlen)
            (attributesRaw_setName.trans_ne hchild.1.2)
        obtain ⟨folder', rfl, rfl, hrest, hfail, hadded⟩ := folder.addOne hnew.name hfits.2 hadd
        rcases hcases with ⟨hec, rfl⟩ | ⟨hec, ec', fs', dirs', hunlink, rfl⟩
        · exact ⟨folder', maps, rfl, hrest, .same (hfail hec) rfl⟩
        · obtain ⟨folder'', lo, hunlink', hrest', hparts, hentries⟩ :=
            folder'.unlinkOne ((hadded hec).kept hentry hchild.1.1) hchild.1.2
          rw [hunlink', Option.some.injEq, Prod.mk.injEq, Prod.mk.injEq] at hunlink
          obtain ⟨-, rfl, rfl⟩ := hunlink
          exact ⟨folder'', _, rfl, hrest'.trans hrest,
            .renamed _ o oldIdx lo folder'.entries hnew (hadded hec) ho hparts hentries rfl⟩
  | delete name =>
      rcases @deleteChild_cases (folder.object maps) st' name ec hf hok with
        rfl | ⟨idx, o, fs, dirs, -, ho, hunlink, rfl⟩
      · exact ⟨folder, maps, rfl, rfl, .same rfl rfl⟩
      · obtain ⟨hentry, hchild⟩ := hb.entry ho
        obtain ⟨folder', lo, hunlink', hrest, hparts, hentries⟩ := folder.unlinkOne hentry hchild.1.2
        have heq := hunlink'.symm.trans hunlink
        rw [Option.some.injEq, Prod.mk.injEq, Prod.mk.injEq] at heq
        obtain ⟨-, rfl, rfl⟩ := heq
        exact ⟨folder', _, rfl, hrest, .deleted o idx lo ho hparts hentries rfl⟩

/-! ### Runs -/

/-- The object is one of the folder of a volume with given folders above it, and `P` holds of its maps and
the entries on the disk. -/
def ObjectOf (rest : List FatFile) (P : FolderMaps → List FatDirEntry → Prop) (st : FatFolder) : Prop :=
  ∃ (folder : VolumeFolder) (maps : FolderMaps), st = folder.object maps ∧ folder.rest = rest ∧
    P maps folder.entries

/-- What every change keeps holds in a whole run. -/
theorem objectOf_reach {P : FolderMaps → List FatDirEntry → Prop} (hback : ∀ maps es, P maps es → Backed maps es)
    (hfound : ∀ maps es, P maps es → maps.Found)
    (hkeep : ∀ es es' maps maps', Changed es es' maps maps' → P maps es → P maps' es')
    (h0 : P maps folder.entries) (h : Reach FatFolder.step FatFolder.Fits (folder.object maps) st) :
    ObjectOf folder.rest P st := by
  refine h.invariant ⟨folder, maps, rfl, rfl, h0⟩ ?_
  rintro s op s' ⟨folder₁, maps₁, rfl, hrest, hP⟩ hfits hstep
  obtain ⟨⟨ec, s''⟩, hok, rfl⟩ := Option.map_eq_some_iff.mp hstep
  obtain ⟨folder₂, maps₂, rfl, hrest', hchanged⟩ :=
    perform_changed (hback _ _ hP) (hfound _ _ hP) hfits hok
  exact ⟨folder₂, maps₂, rfl, hrest'.trans hrest, hkeep _ _ _ _ hchanged hP⟩

theorem parsed_of_parse (hparse : parseFolder folder.fs folder.dir = some maps) :
    maps = (parsed folder.entries).maps := by
  rw [parseFolder_eq folder.setting.mounted folder.setting.folderAt] at hparse
  exact (Option.some.inj hparse).symm

end

/-! ### The constructor, and children without a long name -/

section
variable {es : List FatDirEntry} {e : FatDirEntry} {i j : Nat} {c d : FatObjectDetails}

/-- Behind a child with a long name, the object of the constructor has one. -/
theorem parsed_longFn_ne (hi : childAt es i = some c) (hc : c.longFn ≠ []) : (parsed es).obj.longFn ≠ [] := by
  induction es using List.reverseRecOn generalizing i c with
  | nil => exact absurd ((childAt_of_le (Nat.zero_le i)).symm.trans hi).symm (Option.some_ne_none c)
  | append_singleton es e ih =>
      rw [childAt_concat, update_apply] at hi
      rw [parsed_concat]
      by_cases he : e.IsChild
      · rw [(ParseState.round_of_child he).2, ParseState.addShort_eq.1, ParseState.objectOf]
        dsimp only
        split
        · next hno =>
            split at hi
            · rw [childAfter, childOf, if_pos he] at hi
              obtain rfl := Option.some.inj hi
              rw [lfn_parsed] at hno
              exact absurd hno hc
            · exact ih hi hc
        · next hlong => exact hlong
      · rw [(ParseState.round_of_not he).2]
        split at hi
        · rw [childAfter, childOf, if_neg he] at hi
          cases hi
        · exact ih hi hc

/-- The constructor puts the object of a child in its map in the round of the child, and no later. -/
theorem parsed_lookup (es : List FatDirEntry) (j : Nat) :
    (parsed es).maps.fdeToChildMap.lookup j = es[j]?.bind fun e =>
      if e.IsChild then some ((parsed (es.take j)).objectOf j e) else none := by
  induction es using List.reverseRecOn generalizing j with
  | nil => rfl
  | append_singleton es e ih =>
      have hnone : (parsed es).maps.fdeToChildMap.lookup es.length = none := by
        rw [ih, List.getElem?_eq_none le_rfl]
        rfl
      have hround : (parsed (es ++ [e])).maps.fdeToChildMap.lookup j =
          if j = es.length then if e.IsChild then some ((parsed es).objectOf es.length e) else none
          else (parsed es).maps.fdeToChildMap.lookup j := by
        rw [parsed_concat]
        by_cases he : e.IsChild
        · rw [(ParseState.round_of_child he).1, ParseState.addShort_eq.2, if_pos he]
          exact lookup_insertNew hnone
        · rw [(ParseState.round_of_not he).1, if_neg he]
          split
          · next heq => rw [heq, hnone]
          · rfl
      rw [hround]
      rcases Nat.lt_trichotomy j es.length with hlt | rfl | hgt
      · rw [if_neg hlt.ne, ih, List.getElem?_append_left hlt, List.take_append_of_le_length hlt.le]
      · rw [if_pos rfl, List.getElem?_append_right le_rfl, Nat.sub_self, List.take_left]
        rfl
      · rw [if_neg hgt.ne', ih, List.getElem?_eq_none hgt.le,
          List.getElem?_eq_none (by rw [List.length_append, List.length_singleton]; exact hgt)]
        rfl

/-- The constructor fills the maps that hold the children just if the children without a long name stand
before those with one. -/
theorem Mirrors.parsed_iff {maps : FolderMaps} (h : Mirrors maps es) :
    (parsed es).maps = maps ↔ ShortFirst (childAt es) := by
  constructor
  · intro heq i j c d hi hj hlt hd
    by_contra hc
    have hlookup := h.agrees.objects j
    rw [← heq, parsed_lookup, hj] at hlookup
    obtain ⟨x, -, hx⟩ := Option.bind_eq_some_iff.mp hlookup
    split at hx
    · have hlong : (parsed (es.take j)).obj.longFn ≠ [] :=
        parsed_longFn_ne ((childAt_of_take (by rw [List.take_take, Nat.min_self]) hlt).trans hi) hc
      rw [← Option.some.inj hx, ParseState.objectOf] at hd
      dsimp only at hd
      split at hd
      · exact hlong hd
      · next hne => exact hne hd
    · cases hx
  · exact fun hfirst => (parse_agrees h.distinct hfirst).unique h.agrees

end

/-! ### A folder without entries -/

/-- A root directory of sixteen slots, the first of them the end marker. -/
def blankFolder : VolumeFolder where
  fs := blankVolume
  dir := blankRoot
  rest := []
  clusters := []
  setting :=
    { mounted := ⟨fourClusters_mounted, rfl, le_rfl⟩
      folderAt := ⟨by decide, by decide, fun hs => by cases hs⟩
      parent := nofun }

theorem entries_blankFolder : blankFolder.entries = [] := List.eq_nil_of_length_eq_zero (by decide +kernel)

theorem parse_blankFolder : parseFolder blankFolder.fs blankFolder.dir = some .empty := by
  have hempty : live (slots blankFolder.fs blankFolder.dir blankFolder.clusters) = [] := entries_blankFolder
  rw [parseFolder_eq blankFolder.setting.mounted blankFolder.setting.folderAt, hempty]
  rfl

/-- A file with the name `A` can be made. -/
theorem create_blankFolder : (blankFolder.object .empty).Fits (.create [0x41]) ∧
    ∃ st, FatFolder.step (blankFolder.object .empty) (.create [0x41]) = some st := by
  refine ⟨⟨Or.inr ⟨[0x41] ++ List.replicate 10 0x20, by decide, by decide, rfl⟩, ?_⟩,
    Option.isSome_iff_exists.mp (by decide +kernel)⟩
  have hlive : live (blankFolder.object .empty).slots = [] :=
    (blankFolder.entries_object .empty).trans entries_blankFolder
  have hlength : (blankFolder.object .empty).slots.length = 16 := by decide +kernel
  refine ⟨Or.inl (by rw [hlength]; decide), fun dir _ _ hlast => ?_⟩
  rw [hlive, hlength] at hlast
  cases hlast

/-! ### The maps and the disk -/

section
variable {folder : VolumeFolder} {maps : FolderMaps} {st : FatFolder}

/-- **The maps are those that the constructor would fill from the disk**, in every state that a folder
object gets to, just if the children without a long name stand before those with one. -/
theorem maps_match_disk (hdistinct : DistinctNames (childAt folder.entries))
    (hfirst : ShortFirst (childAt folder.entries)) (hattached : LfnsAttached folder.entries)
    (hparse : parseFolder folder.fs folder.dir = some maps)
    (h : Reach FatFolder.step FatFolder.Fits (folder.object maps) st) :
    ∃ dir, st.dirs = dir :: folder.rest ∧
      (parseFolder st.fs dir = some st.maps ↔ ShortFirst (childAt st.entries)) := by
  have hstart : Mirrors maps folder.entries := by
    rw [parsed_of_parse hparse]
    exact ⟨parse_agrees hdistinct hfirst, hdistinct.canonical, hattached⟩
  obtain ⟨folder', maps', rfl, hrest, hmirrors⟩ := objectOf_reach (P := Mirrors)
    (fun _ _ h => h.agrees.backed) (fun _ _ h => h.agrees.found) (fun _ _ _ _ hc => hc.mirrors) hstart h
  refine ⟨folder'.dir, congrArg (folder'.dir :: ·) hrest, ?_⟩
  rw [folder'.entries_object, ← hmirrors.parsed_iff]
  have hdisk := parseFolder_eq folder'.setting.mounted folder'.setting.folderAt
  exact (iff_of_eq (congrArg (· = some maps') hdisk)).trans Option.some_inj

/-- A file is made in a folder without entries. -/
theorem maps_match_disk_create : ∃ st dir,
    FatFolder.step (blankFolder.object .empty) (.create [0x41]) = some st ∧ st.dirs = [dir] ∧
      (parseFolder st.fs dir = some st.maps ↔ ShortFirst (childAt st.entries)) := by
  obtain ⟨hfits, st, hstep⟩ := create_blankFolder
  have hnone : ∀ i c, childAt blankFolder.entries i ≠ some c := by
    intro i c hc
    rw [entries_blankFolder, childAt_of_le (Nat.zero_le i)] at hc
    cases hc
  obtain ⟨dir, hdirs, hiff⟩ := @maps_match_disk blankFolder .empty st
    ⟨fun i _ c _ _ hi => absurd hi (hnone i c), fun i _ c _ _ hi => absurd hi (hnone i c),
      fun i _ c _ _ hi => absurd hi (hnone i c)⟩ (fun i _ c _ hi => absurd hi (hnone i c))
    (by rw [entries_blankFolder]; rintro j x ⟨⟩) parse_blankFolder (.step _ .refl hfits hstep)
  exact ⟨st, dir, hstep, hdirs, hiff⟩

/-! ### Short names -/

/-- Looking for a name once more finds the same, and changes nothing. -/
theorem getDirEntry_again {maps maps' : FolderMaps} {name : Name} {r : Option (FatDirEntry × Nat)}
    (h : maps.getDirEntry name = (r, maps')) : maps'.getDirEntry name = (r, maps') := by
  have hpresent : ∀ idx, ∃ o,
      (insertNew maps.fdeToChildMap idx ⟨[], [], 0, FatDirEntry.zero⟩).lookup idx = some o := by
    intro idx
    cases hl : maps.fdeToChildMap.lookup idx with
    | some o => exact ⟨o, by rw [insertNew_of_lookup hl, hl]⟩
    | none => exact ⟨_, by rw [lookup_insertNew hl, if_pos rfl]⟩
  rw [FolderMaps.getDirEntry] at h
  cases hl : maps.longNameToFdeMap.lookup name with
  | some idx =>
      rw [hl] at h
      obtain ⟨rfl, rfl⟩ := Prod.mk.inj h
      obtain ⟨o, ho⟩ := hpresent idx
      rw [FolderMaps.getDirEntry]
      dsimp only
      rw [hl]
      dsimp only
      rw [insertNew_of_lookup ho]
  | none =>
      rw [hl] at h
      cases hs : maps.shortNameToFdeMap.lookup name with
      | some idx =>
          rw [hs] at h
          obtain ⟨rfl, rfl⟩ := Prod.mk.inj h
          obtain ⟨o, ho⟩ := hpresent idx
          rw [FolderMaps.getDirEntry]
          dsimp only
          rw [hl, hs]
          dsimp only
          rw [insertNew_of_lookup ho]
      | none =>
          rw [hs] at h
          obtain ⟨rfl, rfl⟩ := Prod.mk.inj h
          rw [FolderMaps.getDirEntry, hl, hs]

/-- A name that `create_child` has made is found then, and was not before. -/
theorem createChild_noError {st' : FatFolder} {name : Name} (h : createChild st name = some (.noError, st')) :
    (st.maps.getDirEntry name).1 = none ∧ ∃ r, st'.maps.getDirEntry name = (some r, st'.maps) := by
  rw [createChild] at h
  cases hg : st.maps.getDirEntry name with
  | mk found maps =>
      rw [hg] at h
      cases found with
      | some r => cases h
      | none =>
          refine ⟨rfl, ?_⟩
          dsimp only at h
          cases hp : populateFdesFromName FolderMaps.isInUse maps name with
          | none => rw [hp] at h; cases h
          | some p =>
              obtain ⟨p, maps'⟩ := p
              rw [hp] at h
              cases p with
              | none => cases h
              | some p =>
                  dsimp only at h
                  cases hadd : addDirectoryEntries st.fs st.dirs (mapLast FatDirEntry.setArchive p.fdes) with
                  | none => rw [hadd] at h; cases h
                  | some r =>
                      obtain ⟨result, fs, dirs, idx⟩ := r
                      rw [hadd] at h
                      dsimp only at h
                      by_cases hr : result = .noError
                      · rw [if_neg (not_not_intro hr), Option.some.injEq, Prod.mk.injEq] at h
                        obtain ⟨hcode, rfl⟩ := h
                        rw [FolderMaps.getChild] at hcode
                        cases hfound : (maps'.insertChild idx ⟨p.longName, p.shortName, idx,
                            (mapLast FatDirEntry.setArchive p.fdes).getLast?.getD FatDirEntry.zero⟩).getDirEntry
                            name with
                        | mk r maps'' =>
                            cases r with
                            | none => rw [hfound] at hcode; cases hcode
                            | some r =>
                                exact ⟨r, getDirEntry_again hfound⟩
                      · rw [if_pos hr, Option.some.injEq, Prod.mk.injEq] at h
                        exact absurd h.1 hr

theorem longNameToFdeMap_getDirEntry (maps : FolderMaps) (name : Name) :
    (maps.getDirEntry name).2.longNameToFdeMap = maps.longNameToFdeMap := by
  rw [FolderMaps.getDirEntry]
  dsimp only
  split <;> rfl

/-- The new child has no long name. -/
theorem createChild_long {st' : FatFolder} {name : Name} {ec : ErrCode} (hf : st.maps.Found)
    (hname : Refused st.maps name ∨ StoredFree st.maps name) (hok : createChild st name = some (ec, st')) :
    st'.maps.longNameToFdeMap = st.maps.longNameToFdeMap := by
  rcases createChild_cases hf hname hok with
    rfl | ⟨sn, result, fs, dirs, idx, -, -, -, -, ⟨-, rfl⟩ | ⟨-, rfl, -⟩⟩
  · rfl
  · rfl
  · rw [longNameToFdeMap_getDirEntry, FolderMaps.insertChild]
    rfl

/-- **No two children have the same short name**, in every state that a folder object gets to; and a name
that is reported to be created is that of an entry, and is refused the next time. -/
theorem short_names_unique (hdistinct : Distinct (entryAt folder.entries) FatObjectDetails.shortKey)
    (hparse : parseFolder folder.fs folder.dir = some maps)
    (h : Reach FatFolder.step FatFolder.Fits (folder.object maps) st) :
    (∀ (i j : Nat) (a b : FatDirEntry), st.entries[i]? = some a → st.entries[j]? = some b → a.IsChild → b.IsChild →
      shortNameFromFde a = shortNameFromFde b → i = j) ∧
    ∀ name st', st.Fits (.create name) → st.perform (.create name) = some (.noError, st') →
      (∃ (i : Nat) (e : FatDirEntry), st'.maps.getChild name = (.noError, some i) ∧
        st'.entries[i]? = some e ∧ e.IsChild ∧ shortNameFromFde e = name) ∧
      st'.perform (.create name) = some (.alreadyExists, st') := by
  have hstart : Tracks maps (entryAt folder.entries) := by
    rw [parsed_of_parse hparse]
    exact parse_tracks hdistinct
  obtain ⟨folder', maps', rfl, -, htracks⟩ := objectOf_reach (P := fun maps es => Tracks maps (entryAt es))
    (fun _ _ h => h.backed) (fun _ _ h => h.found) (fun _ _ _ _ hc => hc.tracks) hstart h
  constructor
  · rw [folder'.entries_object]
    intro i j a b ha hb hchild hchild' hname
    have hentry : ∀ {i e}, folder'.entries[i]? = some e → e.IsChild →
        entryAt folder'.entries i = some ⟨[], shortNameFromFde e, i, e⟩ := by
      intro i e he hc
      rw [entryAt, he]
      exact if_pos hc
    exact htracks.short.inj (hentry ha hchild) (hentry hb hchild') rfl (congrArg some hname.symm)
  · intro name st' hfits hok
    obtain ⟨hbefore, r, hr⟩ := createChild_noError hok
    obtain ⟨folder'', maps'', rfl, -, hchanged⟩ :=
      perform_changed htracks.backed htracks.found hfits hok
    have htracks' := hchanged.tracks htracks
    have hlong : maps''.longNameToFdeMap.lookup name = none :=
      (congrArg (Finmap.lookup name) (createChild_long htracks.found hfits.1 hok)).trans
        (getDirEntry_eq_none_iff.mp hbefore).1
    obtain ⟨-, hfound⟩ := htracks'.found.getDirEntry name
    obtain ⟨fde, idx⟩ := r
    obtain ⟨hname, o, ho, -⟩ := hfound fde idx (congrArg Prod.fst hr)
    obtain ⟨hentry, hchild⟩ := htracks'.backed.entry ho
    obtain ⟨c, hc, hkey⟩ :=
      (htracks'.short name idx).mp (hname.resolve_left fun hl => Option.some_ne_none idx (hl.symm.trans hlong))
    rw [entryAt, hentry] at hc
    have hshort : shortNameFromFde o.fde = c.shortFn := by rw [fde_of_childOf hc]
    refine ⟨⟨idx, o.fde, ?_, ?_, hchild, hshort.trans (Option.some.inj hkey)⟩, ?_⟩
    · rw [FolderMaps.getChild, hr]
    · rw [folder''.entries_object]
      exact hentry
    · rw [FatFolder.perform, createChild, hr]

/-- A file is made in a folder without entries, and another under the same name is refused. -/
theorem short_names_unique_create : ∃ st st',
    FatFolder.step (blankFolder.object .empty) (.create [0x41]) = some st ∧
      st.perform (.create [0x41]) = some (.alreadyExists, st') := by
  obtain ⟨hfits, st, hstep⟩ := create_blankFolder
  obtain ⟨⟨ec, st₁⟩, hok, rfl⟩ := Option.map_eq_some_iff.mp hstep
  have hdistinct : Distinct (entryAt blankFolder.entries) FatObjectDetails.shortKey := by
    intro i j c d k hi
    rw [entries_blankFolder, entryAt_of_le (Nat.zero_le i)] at hi
    cases hi
  have hcode : ((blankFolder.object .empty).perform (.create [0x41])).map (·.1) = some .noError := by
    decide +kernel
  rw [hok, Option.map_some, Option.some.injEq] at hcode
  obtain rfl : ec = .noError := hcode
  have hmade := (short_names_unique hdistinct parse_blankFolder .refl).2 [0x41] st₁ hfits hok
  exact ⟨st₁, st₁, hstep, hmade.2⟩

end

end Azalea.Fat
