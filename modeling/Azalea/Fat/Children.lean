import Azalea.Fat.Directory

/-!
# Fat — the children of a folder

The children of a folder are its short entries but `.` and `..`, each with the long name that stands
before it.  They are a partial function of the place in the folder: `entryAt` without the long names,
`childAt` with them.

* `Tracks`: the maps of a folder find every child by its short name.
* `Agrees`: the maps of a folder say about its children what the entries say.
* `parse_tracks`, `parse_agrees`: the maps that the constructor fills.
-/

namespace Azalea.Fat
open Azalea.Memory Azalea.Maps Function

/-- A short entry in use. -/
def FatDirEntry.IsShort (e : FatDirEntry) : Prop := ¬ e.IsFree ∧ e.attributesRaw ≠ 0x0F

instance (e : FatDirEntry) : Decidable e.IsShort := inferInstanceAs (Decidable (_ ∧ _))

/-- A short entry in use, but for `.` and `..`. -/
def FatDirEntry.IsChild (e : FatDirEntry) : Prop :=
  e.IsShort ∧ shortNameFromFde e ≠ [0x2E] ∧ shortNameFromFde e ≠ [0x2E, 0x2E]

instance (e : FatDirEntry) : Decidable e.IsChild := inferInstanceAs (Decidable (_ ∧ _))

/-- The child with an entry, without a long name. -/
def childOf (i : Nat) (e : FatDirEntry) : Option FatObjectDetails :=
  if e.IsChild then some ⟨[], shortNameFromFde e, i, e⟩ else none

/-- The child at a place, without its long name. -/
def entryAt (es : List FatDirEntry) (i : Nat) : Option FatObjectDetails := es[i]?.bind (childOf i)

/-- What the constructor keeps of the parts of a long name. -/
structure LfnState where
  longName : Name
  curLfnChecksum : Nat
  lastWasLfn : Bool

/-- The entry `e` comes next. -/
def LfnState.next (st : LfnState) (e : FatDirEntry) : LfnState :=
  if e.name 0 = 0xE5 then { st with longName := [], lastWasLfn := false }
  else if e.isLongFnEntry then
    if st.lastWasLfn ∧ st.curLfnChecksum ≠ e.checksum then { st with lastWasLfn := false }
    else ⟨lfnPart e ++ st.longName, e.checksum, true⟩
  else { st with longName := [], lastWasLfn := false }

/-- The long name of a short entry. -/
def LfnState.nameOf (st : LfnState) (e : FatDirEntry) : Name :=
  if st.curLfnChecksum = generateShortNameChecksum e.nameBytes then st.longName else []

/-- The parts of a long name at the end of a list of entries. -/
def lfnBefore (es : List FatDirEntry) : LfnState := es.foldl .next ⟨[], 0, false⟩

/-- The child at a place. -/
def childAt (es : List FatDirEntry) (i : Nat) : Option FatObjectDetails :=
  (entryAt es i).map fun c => { c with longFn := (lfnBefore (es.take i)).nameOf c.fde }

/-- The child without its long name. -/
def FatObjectDetails.clearLong (c : FatObjectDetails) : FatObjectDetails := { c with longFn := [] }

/-- The name a child is listed with. -/
def FatObjectDetails.canonicalName (c : FatObjectDetails) : Name :=
  if c.longFn = [] then c.shortFn else c.longFn

/-! ### The maps -/

/-- The key of a child in the map of long names. -/
def FatObjectDetails.longKey (c : FatObjectDetails) : Option Name :=
  if c.longFn = [] then none else some c.longFn

/-- The key of a child in the map of short names. -/
def FatObjectDetails.shortKey (c : FatObjectDetails) : Option Name := some c.shortFn

/-- The maps find every child by its short name, and no name leads to a place without a child. -/
structure Tracks (maps : FolderMaps) (f : Nat → Option FatObjectDetails) : Prop where
  objects : ∀ i, (maps.fdeToChildMap.lookup i).map FatObjectDetails.clearLong = f i
  long : ∀ k i, maps.longNameToFdeMap.lookup k = some i →
    ∃ o, maps.fdeToChildMap.lookup i = some o ∧ o.longFn = k
  short : Indexes maps.shortNameToFdeMap f FatObjectDetails.shortKey

/-- The maps hold the children `f`. -/
structure Agrees (maps : FolderMaps) (f : Nat → Option FatObjectDetails) : Prop where
  objects : ∀ i, maps.fdeToChildMap.lookup i = f i
  long : Indexes maps.longNameToFdeMap f FatObjectDetails.longKey
  short : Indexes maps.shortNameToFdeMap f FatObjectDetails.shortKey
  canonical : ∀ k, k ∈ maps.canonicalNames ↔ ∃ i c, f i = some c ∧ c.canonicalName = k

/-- No two children have the same value of `name`, where it is one. -/
def Distinct (f : Nat → Option FatObjectDetails) (name : FatObjectDetails → Option Name) : Prop :=
  ∀ i j c d k, f i = some c → f j = some d → name c = some k → name d = some k → i = j

/-- No two children have the same short name, or the same long name, or are listed with the same
name. -/
structure DistinctNames (f : Nat → Option FatObjectDetails) : Prop where
  short : Distinct f FatObjectDetails.shortKey
  long : Distinct f FatObjectDetails.longKey
  canonical : Distinct f (some ·.canonicalName)

/-- The children without a long name stand before those with one. -/
def ShortFirst (f : Nat → Option FatObjectDetails) : Prop :=
  ∀ i j c d, f i = some c → f j = some d → i < j → d.longFn = [] → c.longFn = []

section
variable {maps maps' : FolderMaps} {f : Nat → Option FatObjectDetails} {i : Nat}
  {o c : FatObjectDetails}

/-- Every name of the maps leads to an object. -/
def FolderMaps.Found (maps : FolderMaps) : Prop :=
  ∀ name idx, maps.longNameToFdeMap.lookup name = some idx ∨
    maps.shortNameToFdeMap.lookup name = some idx → ∃ o, maps.fdeToChildMap.lookup idx = some o

theorem Tracks.found (h : Tracks maps f) : maps.Found := by
  rintro name idx (hl | hs)
  · obtain ⟨o, ho, -⟩ := h.long name idx hl
    exact ⟨o, ho⟩
  · obtain ⟨c, hc, -⟩ := (h.short name idx).mp hs
    rw [← h.objects idx, Option.map_eq_some_iff] at hc
    obtain ⟨o, ho, -⟩ := hc
    exact ⟨o, ho⟩

theorem Agrees.found (h : Agrees maps f) : maps.Found := by
  rintro name idx (hl | hs)
  · obtain ⟨c, hc, -⟩ := (h.long name idx).mp hl
    exact ⟨c, (h.objects idx).trans hc⟩
  · obtain ⟨c, hc, -⟩ := (h.short name idx).mp hs
    exact ⟨c, (h.objects idx).trans hc⟩

theorem getDirEntry_eq_none_iff {name : Name} : (maps.getDirEntry name).1 = none ↔
    maps.longNameToFdeMap.lookup name = none ∧ maps.shortNameToFdeMap.lookup name = none := by
  rw [FolderMaps.getDirEntry]
  cases maps.longNameToFdeMap.lookup name with
  | some idx => simp
  | none =>
      cases maps.shortNameToFdeMap.lookup name with
      | some idx => simp
      | none => simp

/-- Looking for a name finds the place of its object, and changes nothing. -/
theorem FolderMaps.Found.getDirEntry (h : maps.Found) (name : Name) :
    (maps.getDirEntry name).2 = maps ∧
      ∀ fde idx, (maps.getDirEntry name).1 = some (fde, idx) →
        (maps.longNameToFdeMap.lookup name = some idx ∨
          maps.shortNameToFdeMap.lookup name = some idx) ∧
        ∃ o, maps.fdeToChildMap.lookup idx = some o ∧ o.fde = fde := by
  have hfound : ∀ idx, maps.longNameToFdeMap.lookup name = some idx ∨
      maps.shortNameToFdeMap.lookup name = some idx →
      ∃ o, maps.fdeToChildMap.lookup idx = some o ∧
        insertNew maps.fdeToChildMap idx ⟨[], [], 0, FatDirEntry.zero⟩ = maps.fdeToChildMap := by
    intro idx hidx
    obtain ⟨o, ho⟩ := h name idx hidx
    exact ⟨o, ho, insertNew_of_lookup ho⟩
  rw [FolderMaps.getDirEntry]
  cases hl : maps.longNameToFdeMap.lookup name with
  | some idx =>
      obtain ⟨o, ho, hn⟩ := hfound idx (Or.inl hl)
      dsimp only
      rw [hn, ho]
      refine ⟨rfl, fun fde idx' he => ?_⟩
      simp only [Option.map_some, Option.getD_some, Option.some.injEq, Prod.mk.injEq] at he
      obtain ⟨rfl, rfl⟩ := he
      exact ⟨Or.inl rfl, o, ho, rfl⟩
  | none =>
      cases hs : maps.shortNameToFdeMap.lookup name with
      | some idx =>
          obtain ⟨o, ho, hn⟩ := hfound idx (Or.inr hs)
          dsimp only
          rw [hn, ho]
          refine ⟨rfl, fun fde idx' he => ?_⟩
          simp only [Option.map_some, Option.getD_some, Option.some.injEq, Prod.mk.injEq] at he
          obtain ⟨rfl, rfl⟩ := he
          exact ⟨Or.inr rfl, o, ho, rfl⟩
      | none => exact ⟨rfl, fun fde idx he => by cases he⟩

/-- **A child is added** at a new place, under a short name that is not in use. -/
theorem Tracks.insert (h : Tracks maps f) (hi : f i = none)
    (hs : maps.shortNameToFdeMap.lookup o.shortFn = none)
    (hobj : maps'.fdeToChildMap = insertNew maps.fdeToChildMap i o)
    (hshort : maps'.shortNameToFdeMap = insertNew maps.shortNameToFdeMap o.shortFn i)
    (hlong : maps'.longNameToFdeMap = maps.longNameToFdeMap ∨
      maps'.longNameToFdeMap = insertNew maps.longNameToFdeMap o.longFn i) :
    Tracks maps' (update f i (some o.clearLong)) := by
  have hnone : maps.fdeToChildMap.lookup i = none := by
    have := h.objects i
    rwa [hi, Option.map_eq_none_iff] at this
  -- the objects that were there are there
  have hkeep : ∀ {k j}, maps.longNameToFdeMap.lookup k = some j →
      ∃ o', maps'.fdeToChildMap.lookup j = some o' ∧ o'.longFn = k := by
    intro k j hk
    obtain ⟨o', ho', hk'⟩ := h.long k j hk
    refine ⟨o', ?_, hk'⟩
    rw [hobj, lookup_insertNew hnone, if_neg, ho']
    rintro rfl
    rw [hnone] at ho'; cases ho'
  refine ⟨fun j => ?_, fun k j hk => ?_, ?_⟩
  · rw [hobj, lookup_insertNew hnone, update_apply]
    split
    · rfl
    · exact h.objects j
  · rcases hlong with hlong | hlong
    · rw [hlong] at hk
      exact hkeep hk
    · rw [hlong] at hk
      cases hl : maps.longNameToFdeMap.lookup o.longFn with
      | some j' => rw [insertNew_of_lookup hl] at hk; exact hkeep hk
      | none =>
          rw [lookup_insertNew hl] at hk
          split at hk
          · next he =>
              obtain rfl := Option.some.inj hk
              exact ⟨o, by rw [hobj, lookup_insertNew hnone, if_pos rfl], he.symm⟩
          · exact hkeep hk
  · rw [hshort]
    exact h.short.insertNew hi rfl hs

/-- **A child is taken away.** -/
theorem Tracks.erase (h : Tracks maps f) (ho : maps.fdeToChildMap.lookup i = some o) :
    Tracks (maps.eraseChild i o) (update f i none) := by
  have hfi : f i = some o.clearLong := by rw [← h.objects i, ho]; rfl
  have hobj : (maps.eraseChild i o).fdeToChildMap = maps.fdeToChildMap.erase i := by
    rw [FolderMaps.eraseChild]; split <;> rfl
  refine ⟨fun j => ?_, fun k j hk => ?_, ?_⟩
  · rw [hobj, lookup_erase_eq, update_apply]
    split
    · rfl
    · exact h.objects j
  · -- a key that is left does not lead to the place
    have hk' : maps.longNameToFdeMap.lookup k = some j ∧ k ≠ o.longFn := by
      rw [FolderMaps.eraseChild] at hk
      split at hk
      · dsimp only at hk
        rw [lookup_erase_eq] at hk
        split at hk
        · cases hk
        · next hne => exact ⟨hk, hne⟩
      · next hnot =>
          refine ⟨hk, fun he => hnot ?_⟩
          rw [← he]
          exact Finmap.mem_of_lookup_eq_some hk
    obtain ⟨o', ho', hk₂⟩ := h.long k j hk'.1
    refine ⟨o', ?_, hk₂⟩
    rw [hobj, lookup_erase_eq, if_neg, ho']
    rintro rfl
    rw [ho, Option.some.injEq] at ho'
    exact hk'.2 (by rw [← hk₂, ho'])
  · have hshort : (maps.eraseChild i o).shortNameToFdeMap =
        maps.shortNameToFdeMap.erase o.shortFn := by
      rw [FolderMaps.eraseChild]; split <;> rfl
    rw [hshort]
    exact h.short.erase hfi rfl

theorem Agrees.insert (h : Agrees maps f) (hi : f i = none)
    (hs : maps.shortNameToFdeMap.lookup c.shortFn = none)
    (hl : maps.longNameToFdeMap.lookup c.longFn = none) :
    Agrees (maps.insertChild i c) (update f i (some c)) := by
  have hnone : maps.fdeToChildMap.lookup i = none := (h.objects i).trans hi
  have hcanon : ∀ k, (∃ j d, update f i (some c) j = some d ∧ d.canonicalName = k) ↔
      k = c.canonicalName ∨ ∃ j d, f j = some d ∧ d.canonicalName = k := by
    intro k
    constructor
    · rintro ⟨j, d, hd, hk⟩
      rw [update_apply] at hd
      split at hd
      · exact Or.inl (by rw [← hk, Option.some.inj hd])
      · exact Or.inr ⟨j, d, hd, hk⟩
    · rintro (rfl | ⟨j, d, hd, hk⟩)
      · exact ⟨i, c, by rw [update_self], rfl⟩
      · refine ⟨j, d, ?_, hk⟩
        rw [update_of_ne, hd]
        rintro rfl
        rw [hi] at hd; cases hd
  have hobj : ∀ j, (insertNew maps.fdeToChildMap i c).lookup j = update f i (some c) j := by
    intro j
    rw [lookup_insertNew hnone, update_apply, h.objects j]
  rw [FolderMaps.insertChild]
  by_cases hlong : c.longFn = []
  · rw [if_neg (by simpa using hlong)]
    refine ⟨hobj, h.long.insertNone hi (if_pos hlong), h.short.insertNew hi rfl hs, fun k => ?_⟩
    rw [hcanon, Finset.mem_insert, h.canonical, FatObjectDetails.canonicalName, if_pos hlong]
  · rw [if_pos hlong]
    refine ⟨hobj, h.long.insertNew hi (if_neg hlong) hl, h.short.insertNew hi rfl hs, fun k => ?_⟩
    rw [hcanon, Finset.mem_insert, h.canonical, FatObjectDetails.canonicalName, if_neg hlong]

theorem Agrees.erase (h : Agrees maps f) (hd : DistinctNames f) (hi : f i = some c) :
    Agrees (maps.eraseChild i c) (update f i none) := by
  have hcanon : ∀ k, (∃ j d, update f i none j = some d ∧ d.canonicalName = k) ↔
      k ≠ c.canonicalName ∧ ∃ j d, f j = some d ∧ d.canonicalName = k := by
    intro k
    constructor
    · rintro ⟨j, d, hj, hk⟩
      rw [update_apply] at hj
      split at hj
      · cases hj
      · next hne =>
          refine ⟨fun he => hne (hd.canonical j i d c k hj hi (congrArg some hk)
            (congrArg some he.symm)), j, d, hj, hk⟩
    · rintro ⟨hne, j, d, hj, hk⟩
      refine ⟨j, d, ?_, hk⟩
      rw [update_of_ne, hj]
      rintro rfl
      rw [hi, Option.some.injEq] at hj
      exact hne (by rw [← hk, hj])
  have hobj : ∀ j, (maps.fdeToChildMap.erase i).lookup j = update f i none j := by
    intro j
    rw [lookup_erase_eq, update_apply, h.objects j]
  rw [FolderMaps.eraseChild]
  by_cases hlong : c.longFn = []
  · have hnot : c.longFn ∉ maps.longNameToFdeMap := by
      rw [← Finmap.lookup_eq_none]
      cases hl : maps.longNameToFdeMap.lookup c.longFn with
      | none => rfl
      | some j =>
          obtain ⟨d, -, hk⟩ := (h.long _ j).mp hl
          rw [FatObjectDetails.longKey] at hk
          split at hk
          · cases hk
          · next hne => exact absurd ((Option.some.inj hk).trans hlong) hne
    rw [if_neg hnot]
    refine ⟨hobj, h.long.eraseNone hi (if_pos hlong), h.short.erase hi rfl, fun k => ?_⟩
    rw [hcanon, Finset.mem_erase, h.canonical, FatObjectDetails.canonicalName, if_pos hlong]
  · have hmem : c.longFn ∈ maps.longNameToFdeMap :=
      Finmap.mem_of_lookup_eq_some ((h.long _ i).mpr ⟨c, hi, if_neg hlong⟩)
    rw [if_pos hmem]
    refine ⟨hobj, h.long.erase hi (if_neg hlong), h.short.erase hi rfl, fun k => ?_⟩
    rw [hcanon, Finset.mem_erase, h.canonical, FatObjectDetails.canonicalName, if_neg hlong]

/-- The maps that hold given children are the same. -/
theorem Agrees.unique (h : Agrees maps f) (h' : Agrees maps' f) : maps = maps' := by
  obtain ⟨o₁, l₁, s₁, c₁⟩ := maps
  obtain ⟨o₂, l₂, s₂, c₂⟩ := maps'
  obtain rfl : o₁ = o₂ := Finmap.ext_lookup fun i => (h.objects i).trans (h'.objects i).symm
  obtain rfl : l₁ = l₂ := h.long.unique h'.long
  obtain rfl : s₁ = s₂ := h.short.unique h'.short
  obtain rfl : c₁ = c₂ := Finset.ext fun k => (h.canonical k).trans (h'.canonical k).symm
  rfl

end

/-! ### The constructor -/

/-- What a state of the constructor keeps of the parts of a long name. -/
def ParseState.lfn (st : ParseState) : LfnState := ⟨st.longName, st.curLfnChecksum, st.lastWasLfn⟩

section
variable {st : ParseState} {e : FatDirEntry} {es : List FatDirEntry} {i : Nat}

theorem ParseState.lfn_addShort : (st.addShort i e).lfn = st.lfn := by
  rw [ParseState.addShort]
  dsimp only
  split <;> rfl

theorem ParseState.lfn_round : (st.round i e).lfn = st.lfn.next e := by
  rw [ParseState.round, LfnState.next]
  split
  · rfl
  · split
    · exact apply_ite ParseState.lfn _ _ _
    · dsimp only
      split
      · have h := congrArg LfnState.curLfnChecksum (st.lfn_addShort (i := i) (e := e))
        exact congrArg (LfnState.mk [] · false) h
      · rfl

/-- Only children go into the maps. -/
theorem ParseState.round_of_not (h : ¬ e.IsChild) :
    (st.round i e).maps = st.maps ∧ (st.round i e).obj = st.obj := by
  rw [ParseState.round]
  split
  · exact ⟨rfl, rfl⟩
  · next hfree =>
      split
      · split <;> exact ⟨rfl, rfl⟩
      · next hlfn =>
          have hshort : e.IsShort := ⟨hfree, by simpa [FatDirEntry.isLongFnEntry] using hlfn⟩
          dsimp only
          rw [if_neg fun hn => h ⟨hshort, hn⟩]
          exact ⟨rfl, rfl⟩

theorem ParseState.round_of_child (h : e.IsChild) :
    (st.round i e).maps = (st.addShort i e).maps ∧ (st.round i e).obj = (st.addShort i e).obj := by
  obtain ⟨⟨hfree, hattr⟩, hdots⟩ := h
  rw [ParseState.round, if_neg (show ¬ e.name 0 = 0xE5 from hfree), if_neg (by simpa [FatDirEntry.isLongFnEntry] using hattr)]
  dsimp only
  rw [if_pos hdots]
  exact ⟨rfl, rfl⟩

/-- The object that the constructor puts in the map: where it has no long name, it has that of the
object before it. -/
def ParseState.objectOf (st : ParseState) (i : Nat) (e : FatDirEntry) : FatObjectDetails :=
  ⟨if st.lfn.nameOf e = [] then st.obj.longFn else st.lfn.nameOf e, shortNameFromFde e, i, e⟩

/-- What the constructor does with a child. -/
theorem ParseState.addShort_eq :
    (st.addShort i e).obj = st.objectOf i e ∧
      (st.addShort i e).maps = { st.maps.insertChild i ⟨st.lfn.nameOf e, shortNameFromFde e, i, e⟩ with
        fdeToChildMap := insertNew st.maps.fdeToChildMap i (st.objectOf i e) } := by
  rw [ParseState.objectOf, FolderMaps.insertChild, ParseState.addShort, LfnState.nameOf]
  dsimp only [ParseState.lfn]
  by_cases hsum : st.curLfnChecksum = generateShortNameChecksum e.nameBytes
  · by_cases hname : st.longName = []
    · simp [hname]
    · simp [hname, hsum]
  · simp [hsum]

/-- The state of the constructor after the entries `es`. -/
def parsed (es : List FatDirEntry) : ParseState := parseEntries es 0 .init

theorem parsed_concat (es : List FatDirEntry) (e : FatDirEntry) :
    parsed (es ++ [e]) = (parsed es).round es.length e := parseEntries_concat es e .init

theorem lfn_parsed (es : List FatDirEntry) : (parsed es).lfn = lfnBefore es := by
  induction es using List.reverseRecOn with
  | nil => rfl
  | append_singleton es e ih =>
      rw [parsed_concat, ParseState.lfn_round, ih, lfnBefore, lfnBefore, List.foldl_append]
      rfl

/-! ### One more entry -/

theorem entryAt_of_le {es : List FatDirEntry} {i : Nat} (h : es.length ≤ i) : entryAt es i = none := by
  rw [entryAt, List.getElem?_eq_none h]
  rfl

theorem childAt_of_le {es : List FatDirEntry} {i : Nat} (h : es.length ≤ i) : childAt es i = none := by
  rw [childAt, entryAt_of_le h]
  rfl

/-- The child with an entry that comes after `es`. -/
def childAfter (es : List FatDirEntry) (e : FatDirEntry) : Option FatObjectDetails :=
  (childOf es.length e).map fun c => { c with longFn := (lfnBefore es).nameOf e }

theorem entryAt_concat (es : List FatDirEntry) (e : FatDirEntry) :
    entryAt (es ++ [e]) = update (entryAt es) es.length (childOf es.length e) := by
  funext i
  rw [update_apply, entryAt]
  rcases Nat.lt_trichotomy i es.length with hlt | rfl | hgt
  · rw [if_neg (by omega), List.getElem?_append_left hlt]
    rfl
  · rw [if_pos rfl, List.getElem?_append_right le_rfl, Nat.sub_self]
    rfl
  · rw [if_neg (by omega), entryAt_of_le (by omega), List.getElem?_eq_none (by simp; omega)]
    rfl

theorem childAt_concat (es : List FatDirEntry) (e : FatDirEntry) :
    childAt (es ++ [e]) = update (childAt es) es.length (childAfter es e) := by
  funext i
  rw [update_apply, childAt, entryAt_concat, update_apply]
  rcases Nat.lt_trichotomy i es.length with hlt | rfl | hgt
  · rw [if_neg (by omega), if_neg (by omega), List.take_append_of_le_length hlt.le]
    rfl
  · rw [if_pos rfl, if_pos rfl, List.take_left, childAfter]
    cases hc : childOf es.length e with
    | none => rfl
    | some c =>
        rw [childOf] at hc
        split at hc
        · rw [← Option.some.inj hc]
          rfl
        · cases hc
  · rw [if_neg (by omega), if_neg (by omega), childAt_of_le (by omega), entryAt_of_le (by omega)]
    rfl

/-- What holds of the children holds of those before the last entry. -/
theorem Distinct.of_update {f : Nat → Option FatObjectDetails} {c : Option FatObjectDetails}
    {name : FatObjectDetails → Option Name} (hi : f i = none) (h : Distinct (update f i c) name) :
    Distinct f name := by
  have hne : ∀ {j d}, f j = some d → update f i c j = some d := by
    intro j d hd
    rw [update_of_ne, hd]
    rintro rfl
    rw [hi] at hd; cases hd
  exact fun j j' d d' k hj hj' => h j j' d d' k (hne hj) (hne hj')

/-- A key that a new child has is not in the index of the others. -/
theorem Distinct.fresh {f : Nat → Option FatObjectDetails} {c : FatObjectDetails} {k : Name}
    {m : Finmap fun _ : Name => Nat} {name : FatObjectDetails → Option Name} (hi : f i = none)
    (h : Distinct (update f i (some c)) name) (hm : Indexes m f name) (hk : name c = some k) :
    m.lookup k = none := by
  cases hl : m.lookup k with
  | none => rfl
  | some j =>
      obtain ⟨d, hd, hdk⟩ := (hm k j).mp hl
      have hne : j ≠ i := by
        rintro rfl
        rw [hi] at hd; cases hd
      exact absurd (h j i d c k (by rw [update_of_ne hne, hd]) (by rw [update_self]) hdk hk) hne

/-- **The constructor's maps find every child by its short name.** -/
theorem parse_tracks (h : Distinct (entryAt es) FatObjectDetails.shortKey) :
    Tracks (parsed es).maps (entryAt es) := by
  induction es using List.reverseRecOn with
  | nil =>
      refine ⟨fun i => ?_, fun k i hk => ?_, fun k i => ?_⟩
      · rw [entryAt_of_le (Nat.zero_le i)]; rfl
      · cases hk
      · rw [entryAt_of_le (Nat.zero_le i)]
        exact iff_of_false (by rintro ⟨⟩) (by rintro ⟨_, ⟨⟩, _⟩)
  | append_singleton es e ih =>
      have hnone := entryAt_of_le (le_refl es.length)
      rw [entryAt_concat] at h ⊢
      have ih := ih (h.of_update hnone)
      rw [parsed_concat]
      by_cases hc : e.IsChild
      · rw [childOf, if_pos hc] at h ⊢
        rw [(ParseState.round_of_child hc).1, ParseState.addShort_eq.2]
        refine ih.insert (o := (parsed es).objectOf es.length e) hnone
          (h.fresh hnone ih.short rfl) rfl ?_ ?_
        · rw [FolderMaps.insertChild]
          split <;> rfl
        · rw [FolderMaps.insertChild]
          split
          · next hne =>
              refine Or.inr (congrArg (insertNew _ · _) ?_)
              rw [ParseState.objectOf, if_neg (by simpa using hne)]
          · exact Or.inl rfl
      · rw [childOf, if_neg hc, ← hnone, update_eq_self, (ParseState.round_of_not hc).1]
        exact ih

/-- Where no child has a long name, the constructor has kept none. -/
theorem parsed_longFn (h : ∀ i c, childAt es i = some c → c.longFn = []) :
    (parsed es).obj.longFn = [] := by
  induction es using List.reverseRecOn with
  | nil => rfl
  | append_singleton es e ih =>
      have hnone := childAt_of_le (le_refl es.length)
      rw [childAt_concat] at h
      have ih := ih fun i c hi => h i c (by
        rw [update_of_ne, hi]
        rintro rfl
        rw [hnone] at hi; cases hi)
      rw [parsed_concat]
      by_cases hc : e.IsChild
      · have hlast := h es.length ⟨(lfnBefore es).nameOf e, _, _, _⟩ (by
          rw [update_self, childAfter, childOf, if_pos hc]; rfl)
        rw [(ParseState.round_of_child hc).2, ParseState.addShort_eq.1, ParseState.objectOf,
          lfn_parsed, if_pos hlast]
        exact ih
      · rw [(ParseState.round_of_not hc).2]
        exact ih

/-- **The constructor's maps hold the children**, where no child without a long name stands behind
one that has a long name. -/
theorem parse_agrees (hd : DistinctNames (childAt es)) (ho : ShortFirst (childAt es)) :
    Agrees (parsed es).maps (childAt es) := by
  induction es using List.reverseRecOn with
  | nil =>
      have hnil : ∀ i, childAt [] i = none := fun i => childAt_of_le (Nat.zero_le i)
      refine ⟨fun i => (hnil i).symm, fun k i => ?_, fun k i => ?_, fun k => ?_⟩
      · exact iff_of_false (by rintro ⟨⟩) (by rintro ⟨_, hc, _⟩; rw [hnil] at hc; cases hc)
      · exact iff_of_false (by rintro ⟨⟩) (by rintro ⟨_, hc, _⟩; rw [hnil] at hc; cases hc)
      · exact iff_of_false (Finset.notMem_empty k) (by
          rintro ⟨_, _, hc, _⟩; rw [hnil] at hc; cases hc)
  | append_singleton es e ih =>
      have hnone := childAt_of_le (le_refl es.length)
      rw [childAt_concat] at hd ho ⊢
      have hbefore : ∀ {j d}, childAt es j = some d →
          j < es.length ∧ update (childAt es) es.length (childAfter es e) j = some d := by
        intro j d hj
        have hlt : j < es.length := by
          by_contra hge
          rw [childAt_of_le (not_lt.mp hge)] at hj; cases hj
        exact ⟨hlt, by rw [update_of_ne hlt.ne, hj]⟩
      have ih := ih ⟨hd.short.of_update hnone, hd.long.of_update hnone,
        hd.canonical.of_update hnone⟩
        fun i j c d hi hj => ho i j c d (hbefore hi).2 (hbefore hj).2
      rw [parsed_concat]
      by_cases hc : e.IsChild
      · obtain ⟨c, hcdef⟩ : ∃ c : FatObjectDetails,
          c = ⟨(lfnBefore es).nameOf e, shortNameFromFde e, es.length, e⟩ := ⟨_, rfl⟩
        have hafter : childAfter es e = some c := by
          rw [childAfter, childOf, if_pos hc, hcdef]; rfl
        rw [hafter] at hd ho hbefore ⊢
        -- the object has the long name of the entry
        have hobj : (parsed es).objectOf es.length e = c := by
          rw [ParseState.objectOf, lfn_parsed, hcdef]
          split
          · next hno =>
              rw [parsed_longFn fun i d hi => ho i es.length d c (hbefore hi).2 (by rw [update_self])
                (hbefore hi).1 (by rw [hcdef]; exact hno), hno]
          · rfl
        have hmaps : ((parsed es).addShort es.length e).maps =
            (parsed es).maps.insertChild es.length c := by
          rw [ParseState.addShort_eq.2, hobj, lfn_parsed, ← hcdef, FolderMaps.insertChild]
          split <;> rfl
        rw [(ParseState.round_of_child hc).1, hmaps]
        refine ih.insert hnone (hd.short.fresh hnone ih.short rfl) ?_
        by_cases hlong : c.longFn = []
        · rw [hlong]
          cases hl : (parsed es).maps.longNameToFdeMap.lookup [] with
          | none => rfl
          | some j =>
              obtain ⟨d, -, hk⟩ := (ih.long _ j).mp hl
              rw [FatObjectDetails.longKey] at hk
              split at hk
              · cases hk
              · next hne => exact absurd (Option.some.inj hk) hne
        · exact hd.long.fresh hnone ih.long (if_neg hlong)
      · have hafter : childAfter es e = none := by
          rw [childAfter, childOf, if_neg hc]; rfl
        rw [hafter, ← hnone, update_eq_self, (ParseState.round_of_not hc).1]
        exact ih

end

end Azalea.Fat
