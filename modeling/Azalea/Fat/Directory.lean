import Azalea.Fat.Slots
import Mathlib.Data.List.TakeWhile

/-!
# Fat — a folder as a list of entries

The entries of a folder are its slots up to the first one that begins with a zero (`live`).  What
the functions of the folder do to its slots is said here on that list.

* `parseFolder_eq`: the constructor goes through the list.
* `addDirectoryEntries_one`: a new entry replaces the first free one, or is added at the end.
* `unlinkFdes_eq`: an entry and the parts of its long name become free.
-/

namespace Azalea.Fat
open Azalea.Memory

/-- The entries before the end marker. -/
def live (es : List FatDirEntry) : List FatDirEntry := es.takeWhile fun e => decide (e.name 0 ≠ 0)

/-- The entry is free. -/
def FatDirEntry.IsFree (e : FatDirEntry) : Prop := e.name 0 = 0xE5

instance (e : FatDirEntry) : Decidable e.IsFree := inferInstanceAs (Decidable (_ = _))

section
variable {es : List FatDirEntry} {e : FatDirEntry}

theorem live_append {as bs : List FatDirEntry} (h : ∀ x ∈ as, x.name 0 ≠ 0) :
    live (as ++ bs) = as ++ live bs := by
  induction as with
  | nil => rfl
  | cons a as ih =>
      have ha := h a (List.mem_cons_self ..)
      rw [List.cons_append, live, List.takeWhile_cons, if_pos (by simpa using ha)]
      exact congrArg (a :: ·) (ih fun x hx => h x (List.mem_cons_of_mem _ hx))

theorem name_of_mem_live (h : e ∈ live es) : e.name 0 ≠ 0 := by
  have := List.mem_takeWhile_imp h
  simpa using this

/-- The slots are the entries, then the end marker and what follows it, if there is one. -/
theorem live_split (es : List FatDirEntry) :
    es = live es ∨ ∃ x xs, es = live es ++ x :: xs ∧ x.name 0 = 0 := by
  have hsplit := List.takeWhile_append_dropWhile (p := fun e : FatDirEntry => decide (e.name 0 ≠ 0))
    (l := es)
  cases hd : es.dropWhile fun e => decide (e.name 0 ≠ 0) with
  | nil =>
      rw [hd, List.append_nil] at hsplit
      exact Or.inl hsplit.symm
  | cons x xs =>
      rw [hd] at hsplit
      refine Or.inr ⟨x, xs, hsplit.symm, ?_⟩
      have := List.head?_dropWhile_not (fun e : FatDirEntry => decide (e.name 0 ≠ 0)) es
      rw [hd] at this
      simpa using this

theorem live_end {as xs : List FatDirEntry} (h : ∀ x ∈ as, x.name 0 ≠ 0) (he : e.name 0 = 0) :
    live (as ++ e :: xs) = as := by
  rw [live_append h, live, List.takeWhile_cons, if_neg (by simp [he]), List.append_nil]

theorem live_of_forall (h : ∀ x ∈ es, x.name 0 ≠ 0) : live es = es := by
  rw [live, List.takeWhile_eq_self_iff]
  exact fun x hx => by simpa using h x hx

theorem length_live_le (es : List FatDirEntry) : (live es).length ≤ es.length :=
  (List.takeWhile_prefix _).length_le

theorem getElem?_live {i : Nat} (h : i < (live es).length) : (live es)[i]? = es[i]? := by
  rcases live_split es with he | ⟨x, xs, he, -⟩
  · rw [← he]
  · conv_rhs => rw [he]
    exact (List.getElem?_append_left h).symm

/-- The entries go on as long as the slots do not begin with a zero. -/
theorem lt_length_live {i : Nat} (hi : i < es.length)
    (h : ∀ (j : Nat) (y : FatDirEntry), j ≤ i → es[j]? = some y → y.name 0 ≠ 0) :
    i < (live es).length := by
  rcases live_split es with hes | ⟨x, xs, hes, hx⟩
  · rwa [← hes]
  · by_contra hle
    have hx' : es[(live es).length]? = some x := by
      refine (congrArg (fun l : List FatDirEntry => l[(live es).length]?) hes).trans ?_
      rw [List.getElem?_append_right le_rfl, Nat.sub_self, List.getElem?_cons_zero]
    exact h (live es).length x (not_lt.mp hle) hx' hx

/-- The end marker follows the last entry. -/
theorem length_live_eq {i : Nat} (hi : es[i]? = some e) (he : e.name 0 = 0)
    (h : ∀ (j : Nat) (y : FatDirEntry), j < i → es[j]? = some y → y.name 0 ≠ 0) :
    (live es).length = i ∧ es = live es ++ e :: es.drop (i + 1) := by
  obtain ⟨hlt, hget⟩ := List.getElem?_eq_some_iff.mp hi
  have hall : ∀ x ∈ es.take i, x.name 0 ≠ 0 := by
    intro x hx
    obtain ⟨j, hj, hjx⟩ := List.mem_take_iff_getElem.mp hx
    exact h j x (by omega) (List.getElem?_eq_some_iff.mpr ⟨by omega, hjx⟩)
  have hsplit : es = es.take i ++ e :: es.drop (i + 1) := by
    conv_lhs => rw [← List.take_append_drop i es, List.drop_eq_getElem_cons hlt, hget]
  have hlive : live es = es.take i := by
    conv_lhs => rw [hsplit]
    exact live_end hall he
  rw [hlive, List.length_take]
  exact ⟨by omega, hsplit⟩

/-- An entry is replaced. -/
theorem live_set {i : Nat} (h : i < (live es).length) (he : e.name 0 ≠ 0) :
    live (es.set i e) = (live es).set i e := by
  have hall : ∀ x ∈ (live es).set i e, x.name 0 ≠ 0 := by
    intro x hx
    rcases List.mem_or_eq_of_mem_set hx with hx | rfl
    · exact name_of_mem_live hx
    · exact he
  rcases live_split es with hes | ⟨x, xs, hes, hx⟩
  · rw [← hes] at hall ⊢
    exact live_of_forall hall
  · conv_lhs => rw [hes, List.set_append_left _ _ h]
    exact live_end hall hx

/-! ### The constructor -/

/-- The constructor's rounds over a list of entries. -/
def parseEntries (es : List FatDirEntry) (idx : Nat) (st : ParseState) : ParseState :=
  (es.zipIdx idx).foldl (fun st e => st.round e.2 e.1) st

theorem parseEntries_concat (es : List FatDirEntry) (e : FatDirEntry) (st : ParseState) :
    parseEntries (es ++ [e]) 0 st = (parseEntries es 0 st).round es.length e := by
  rw [parseEntries, List.zipIdx_append, List.foldl_append, Nat.zero_add]
  rfl

variable {fs : FatFs} {dir : FatFile} {rest : List FatFile} {ds : List Nat}

/-- The loop of the constructor goes through the entries. -/
theorem parseLoop_eq (h : fs.Mounted) (hd : FolderAt fs dir ds) (fuel : Nat) :
    ∀ {idx : Nat} {fde : FatDirEntry} {st : ParseState}, idx ≤ dir.record.fileSize / 32 →
      dir.record.fileSize / 32 < idx + fuel →
      parseLoop fs dir fuel idx fde st =
        some (parseEntries (live ((slots fs dir ds).drop idx)) idx st) := by
  have hsize := dir.record.fileSize_lt
  induction fuel with
  | zero => intro idx fde st h₁ h₂; omega
  | succ fuel ih =>
      intro idx fde st h₁ h₂
      rw [parseLoop]
      rcases h₁.eq_or_lt with heq | hlt
      · -- beyond the last slot
        obtain ⟨ec, hec, he⟩ := readOneDirEntry_beyond h (i := idx)
          (show dir.record.fileSize ≤ idx * 32 by have := hd.size_mod h; omega) (by omega) fde
        rw [he, List.drop_eq_nil_of_le (by rw [length_slots]; omega)]
        dsimp only
        rw [if_pos (Or.inl hec)]
        rfl
      · have hdrop : (slots fs dir ds).drop idx =
            slotAt fs dir ds idx :: (slots fs dir ds).drop (idx + 1) := by
          obtain ⟨hi, hget⟩ := List.getElem?_eq_some_iff.mp (getElem?_slots fs ds hlt)
          rw [List.drop_eq_getElem_cons hi, hget]
        rw [readOneDirEntry_eq h hd hlt, hdrop]
        dsimp only
        by_cases h0 : (slotAt fs dir ds idx).name 0 = 0
        · rw [if_pos (Or.inr h0), live, List.takeWhile_cons, if_neg (by simp [h0])]
          rfl
        · rw [if_neg (by simp [h0]), live, List.takeWhile_cons, if_pos (by simp [h0]),
            ih (by omega) (by omega), parseEntries, parseEntries, List.zipIdx_cons]
          rfl

/-- **The constructor goes through the entries of the folder.** -/
theorem parseFolder_eq (h : fs.Mounted) (hd : FolderAt fs dir ds) :
    parseFolder fs dir = some (parseEntries (live (slots fs dir ds)) 0 .init).maps := by
  rw [parseFolder, parseLoop_eq h hd _ (Nat.zero_le _) (by omega), List.drop_zero]
  rfl

/-! ### A new entry -/

/-- The slot is free, or the end marker. -/
def FatDirEntry.IsSpace (e : FatDirEntry) : Prop := e.name 0 = 0xE5 ∨ e.name 0 = 0

instance (e : FatDirEntry) : Decidable e.IsSpace := inferInstanceAs (Decidable (_ ∨ _))

/-- The search for one slot goes on over those in use. -/
theorem findSpace_used (h : fs.Mounted) (hd : FolderAt fs dir ds) (k : Nat) :
    ∀ (fuel i : Nat) (fde : FatDirEntry), i + k ≤ dir.record.fileSize / 32 →
      (∀ j, i ≤ j → j < i + k → ¬ (slotAt fs dir ds j).IsSpace) →
      ∃ fde', findSpace fs dir 1 (fuel + k) i fde ⟨0, 0, false, false⟩ =
        findSpace fs dir 1 fuel (i + k) fde' ⟨0, 0, false, false⟩ := by
  induction k with
  | zero => intro fuel i fde _ _; exact ⟨fde, rfl⟩
  | succ k ih =>
      intro fuel i fde hk hused
      have hi := hused i le_rfl (by omega)
      rw [FatDirEntry.IsSpace, not_or] at hi
      have hround : SpaceState.round 1 i (slotAt fs dir ds i) ⟨0, 0, false, false⟩ =
          ⟨0, 0, false, false⟩ := by
        rw [SpaceState.round, if_neg hi.1, if_neg hi.2]
      obtain ⟨fde', he⟩ := ih fuel (i + 1) (slotAt fs dir ds i) (by omega)
        fun j h₁ h₂ => hused j (by omega) (by omega)
      refine ⟨fde', ?_⟩
      rw [← Nat.add_assoc, findSpace, readOneDirEntry_eq h hd (by omega)]
      dsimp only
      rw [if_neg (by simp), hround]
      dsimp only
      rw [if_neg (by simp), he, Nat.add_assoc, Nat.add_comm 1]

/-- **The search for one slot** finds the first one that is free or the end marker. -/
theorem findSpace_found {i : Nat} (h : fs.Mounted) (hd : FolderAt fs dir ds)
    (hi : i < dir.record.fileSize / 32) (hlim : i < 65535)
    (hused : ∀ j, j < i → ¬ (slotAt fs dir ds j).IsSpace) (hspace : (slotAt fs dir ds i).IsSpace) :
    ∃ mid, findSpace fs dir 1 65535 0 FatDirEntry.zero ⟨0, 0, false, false⟩ =
      some (.noError, ⟨i, 1, mid, decide ((slotAt fs dir ds i).name 0 = 0)⟩) := by
  obtain ⟨fde', he⟩ := findSpace_used h hd i (65534 - i + 1) 0 FatDirEntry.zero (by omega)
    fun j _ hj => hused j (by omega)
  rw [Nat.zero_add] at he
  have hround : ∃ mid, SpaceState.round 1 i (slotAt fs dir ds i) ⟨0, 0, false, false⟩ =
      ⟨i, 1, mid, decide ((slotAt fs dir ds i).name 0 = 0)⟩ := by
    rw [SpaceState.round]
    rcases hspace with h5 | h0
    · rw [if_pos h5, h5]
      exact ⟨true, rfl⟩
    · rw [if_neg (show (slotAt fs dir ds i).name 0 ≠ 0xE5 by rw [h0]; decide), if_pos h0, h0]
      exact ⟨false, rfl⟩
  obtain ⟨mid, hround⟩ := hround
  refine ⟨mid, ?_⟩
  rw [show 65535 = 65534 - i + 1 + i by omega, he, findSpace, readOneDirEntry_eq h hd hi]
  dsimp only
  rw [if_neg (by simp), hround, if_pos rfl]

/-- Where every slot is in use, the search fails. -/
theorem findSpace_none (h : fs.Mounted) (hd : FolderAt fs dir ds)
    (hlim : dir.record.fileSize / 32 < 65535)
    (hused : ∀ j, j < dir.record.fileSize / 32 → ¬ (slotAt fs dir ds j).IsSpace) :
    ∃ ec st, ec ≠ .noError ∧
      findSpace fs dir 1 65535 0 FatDirEntry.zero ⟨0, 0, false, false⟩ = some (ec, st) := by
  have hmod := hd.size_mod h
  obtain ⟨fde', he⟩ := findSpace_used h hd (dir.record.fileSize / 32)
    (65534 - dir.record.fileSize / 32 + 1) 0 FatDirEntry.zero (by omega)
    fun j _ hj => hused j (by omega)
  obtain ⟨ec, hec, hread⟩ := readOneDirEntry_beyond h (i := dir.record.fileSize / 32)
    (show dir.record.fileSize ≤ dir.record.fileSize / 32 * 32 by omega) (by omega) fde'
  refine ⟨ec, ⟨0, 0, false, false⟩, hec, ?_⟩
  rw [Nat.zero_add] at he
  rw [show 65535 = 65534 - dir.record.fileSize / 32 + 1 + dir.record.fileSize / 32 by omega, he,
    findSpace, hread]
  dsimp only
  rw [if_pos hec]

/-- The entry `e` has been put in the place `idx`: the first free one, or the end. -/
inductive Added (es es' : List FatDirEntry) (e : FatDirEntry) (idx : Nat) : Prop
  | reused (x : FatDirEntry) (found : es[idx]? = some x) (free : x.IsFree)
      (first : ∀ (j : Nat) (y : FatDirEntry), j < idx → es[j]? = some y → ¬ y.IsFree)
      (set : es' = es.set idx e)
  | appended (place : idx = es.length) (used : ∀ x ∈ es, ¬ x.IsFree) (concat : es' = es ++ [e])

/-- Where the end marker has to move from the last one of the slots `es`, the folder can grow. -/
def HasRoom (fs : FatFs) (dir : FatFile) (es : List FatDirEntry) : Prop :=
  (∀ x ∈ live es, ¬ x.IsFree) → (live es).length + 1 = es.length → CanGrow fs dir

/-- The search comes to a slot that is not in use, or to the end of the folder. -/
def SearchEnds (es : List FatDirEntry) : Prop :=
  es.length < 65535 ∨ ∃ x ∈ es.take 65535, x.IsSpace

/-- Where every slot is in use, nothing changes. -/
theorem addDirectoryEntries_full {e : FatDirEntry} {ec : ErrCode} {fs' : FatFs} {dirs' : List FatFile}
    {idx : Nat} (h : FolderSetting fs dir rest ds) (hlim : SearchEnds (slots fs dir ds))
    (hused : ∀ j, j < dir.record.fileSize / 32 → ¬ (slotAt fs dir ds j).IsSpace)
    (hok : addDirectoryEntries fs (dir :: rest) [e] = some (ec, fs', dirs', idx)) :
    ec ≠ .noError ∧ fs' = fs ∧ dirs' = dir :: rest := by
  have hlen : dir.record.fileSize / 32 < 65535 := by
    rcases hlim with hlim | ⟨x, hx, hs⟩
    · rwa [length_slots] at hlim
    · obtain ⟨i, hi, rfl⟩ := List.mem_map.mp (List.mem_of_mem_take hx)
      exact absurd hs (hused i (List.mem_range.mp hi))
  obtain ⟨ec', st, hec, hf⟩ := findSpace_none h.mounted h.folderAt hlen hused
  rw [addDirectoryEntries] at hok
  dsimp only [List.length_singleton] at hok
  rw [hf] at hok
  dsimp only at hok
  rw [if_pos hec] at hok
  simp only [Option.some.injEq, Prod.mk.injEq] at hok
  obtain ⟨rfl, rfl, rfl, rfl⟩ := hok
  exact ⟨hec, rfl, rfl⟩

/-- The first slot that is not in use is one of those that the search looks at. -/
theorem SearchEnds.lt {i : Nat} (hlim : SearchEnds (slots fs dir ds)) (hi : i < dir.record.fileSize / 32)
    (hmin : ∀ j, j < i → ¬ (slotAt fs dir ds j).IsSpace) : i < 65535 := by
  rcases hlim with hlim | ⟨x, hx, hs⟩
  · rw [length_slots] at hlim; omega
  · obtain ⟨j, hj, rfl⟩ := List.mem_take_iff_getElem.mp hx
    by_contra hge
    refine hmin j (by omega) ?_
    have hj' : j < dir.record.fileSize / 32 := by rw [length_slots] at hj; omega
    have := getElem?_slots fs ds hj'
    rw [List.getElem?_eq_getElem (by rw [length_slots]; exact hj')] at this
    rw [← Option.some.inj this]
    exact hs

/-- The new entry is written to the first slot that is not in use, and if that was the end marker a new one
behind it. -/
theorem addDirectoryEntries_found {e : FatDirEntry} {i : Nat} (h : FolderSetting fs dir rest ds)
    (hi : i < dir.record.fileSize / 32) (hlim : i < 65535)
    (hmin : ∀ j, j < i → ¬ (slotAt fs dir ds j).IsSpace) (hspace : (slotAt fs dir ds i).IsSpace) :
    ∃ m, slots (fs.withBytes m) dir ds = (slots fs dir ds).set i e ∧
      addDirectoryEntries fs (dir :: rest) [e] =
        if (slotAt fs dir ds i).name 0 = 0 then
          (writeFde (dir :: rest) (fs.withBytes m) (i + 1) FatDirEntry.zero).map
            fun r => (r.1, r.2.1, r.2.2, i)
        else some (.noError, fs.withBytes m, dir :: rest, i) := by
  obtain ⟨mid, hf⟩ := findSpace_found h.mounted h.folderAt hi hlim hmin hspace
  obtain ⟨m, hw, hslots, -⟩ := writeFde_slots h.mounted h.folderAt rest hi e
  refine ⟨m, hslots, ?_⟩
  rw [addDirectoryEntries]
  dsimp only [List.length_singleton]
  rw [hf]
  dsimp only
  rw [if_neg (by simp), writeEntries, hw]
  dsimp only
  rw [if_neg (by simp), writeEntries]
  dsimp only
  rw [Nat.add_sub_cancel]
  by_cases hend : (slotAt fs dir ds i).name 0 = 0
  · rw [if_pos (by simp [hend]), if_pos hend]
    cases writeFde (dir :: rest) (fs.withBytes m) (i + 1) FatDirEntry.zero <;> rfl
  · rw [if_neg (by simp [hend]), if_neg hend]

section
variable {e : FatDirEntry} {i : Nat} {m : Bytes}

/-- A free slot is given the entry. -/
theorem added_reused (h0 : e.name 0 ≠ 0) (hi : i < dir.record.fileSize / 32)
    (hmin : ∀ j, j < i → ¬ (slotAt fs dir ds j).IsSpace) (hfree : (slotAt fs dir ds i).IsFree) :
    Added (live (slots fs dir ds)) (live ((slots fs dir ds).set i e)) e i := by
  have hget := getElem?_slots fs ds hi
  have hbefore : ∀ (j : Nat) (y : FatDirEntry), j < i → (slots fs dir ds)[j]? = some y → ¬ y.IsSpace := by
    intro j y hj hy
    rw [getElem?_slots fs ds (by omega), Option.some.injEq] at hy
    exact hy ▸ hmin j hj
  have hlive : i < (live (slots fs dir ds)).length := by
    refine lt_length_live (by rw [length_slots]; exact hi) fun j y hj hy hy0 => ?_
    rcases hj.eq_or_lt with rfl | hj
    · rw [hget, Option.some.injEq] at hy
      rw [← hy, hfree] at hy0
      exact absurd hy0 (by decide)
    · exact hbefore j y hj hy (Or.inr hy0)
  refine .reused (slotAt fs dir ds i) ?_ hfree ?_ (live_set hlive h0)
  · rw [getElem?_live hlive, hget]
  · intro j y hj hy hyfree
    rw [getElem?_live (by omega)] at hy
    exact hbefore j y hj hy (Or.inl hyfree)

/-- The slots around the first end marker. -/
theorem live_of_endMarker (hi : i < dir.record.fileSize / 32)
    (hmin : ∀ j, j < i → ¬ (slotAt fs dir ds j).IsSpace) (hend : (slotAt fs dir ds i).name 0 = 0) :
    (live (slots fs dir ds)).length = i ∧ (∀ x ∈ live (slots fs dir ds), ¬ x.IsFree) ∧
      (slots fs dir ds).set i e = live (slots fs dir ds) ++ e :: (slots fs dir ds).drop (i + 1) := by
  have hget := getElem?_slots fs ds hi
  have hbefore : ∀ (j : Nat) (y : FatDirEntry), j < i → (slots fs dir ds)[j]? = some y → ¬ y.IsSpace := by
    intro j y hj hy
    rw [getElem?_slots fs ds (by omega), Option.some.injEq] at hy
    exact hy ▸ hmin j hj
  obtain ⟨hlen, hsplit⟩ := length_live_eq hget hend fun j y hj hy hy0 => hbefore j y hj hy (Or.inr hy0)
  refine ⟨hlen, fun x hx hfree => ?_, ?_⟩
  · obtain ⟨j, hj, rfl⟩ := List.mem_iff_getElem.mp hx
    refine hbefore j _ (by omega) ?_ (Or.inl hfree)
    rw [← getElem?_live hj, List.getElem?_eq_getElem hj]
  · conv_lhs => rw [hsplit, List.set_append_right _ _ hlen.le, hlen, Nat.sub_self]
    rfl

/-- The end marker is given the entry, and the next slot becomes the end marker. -/
theorem writeFde_endMarker {ec : ErrCode} {fs' : FatFs} {dirs' : List FatFile}
    (h : FolderSetting fs dir rest ds) (h0 : e.name 0 ≠ 0) (hroom : HasRoom fs dir (slots fs dir ds))
    (hi : i < dir.record.fileSize / 32) (hmin : ∀ j, j < i → ¬ (slotAt fs dir ds j).IsSpace)
    (hend : (slotAt fs dir ds i).name 0 = 0)
    (hslots : slots (fs.withBytes m) dir ds = (slots fs dir ds).set i e)
    (hw : writeFde (dir :: rest) (fs.withBytes m) (i + 1) FatDirEntry.zero = some (ec, fs', dirs')) :
    ∃ dir' ds', dirs' = dir' :: rest ∧ FolderSetting fs' dir' rest ds' ∧ ec = .noError ∧
      Added (live (slots fs dir ds)) (live (slots fs' dir' ds')) e i := by
  obtain ⟨hlen, hused, hset⟩ := live_of_endMarker (e := e) hi hmin hend
  have hm := h.withBytes m
  have hall : ∀ x ∈ live (slots fs dir ds) ++ [e], x.name 0 ≠ 0 := by
    intro x hx
    rcases List.mem_append.mp hx with hx | hx
    · exact name_of_mem_live hx
    · rw [List.mem_singleton.mp hx]; exact h0
  by_cases hlast : i + 1 < dir.record.fileSize / 32
  · obtain ⟨m₂, hw', hslots₂, -⟩ := writeFde_slots hm.mounted hm.folderAt rest hlast FatDirEntry.zero
    rw [hw] at hw'
    simp only [Option.some.injEq, Prod.mk.injEq] at hw'
    obtain ⟨rfl, rfl, rfl⟩ := hw'
    refine ⟨dir, ds, rfl, hm.withBytes m₂, rfl, .appended hlen.symm hused ?_⟩
    obtain ⟨y, ys, hy⟩ : ∃ y ys, (slots fs dir ds).drop (i + 1) = y :: ys := by
      cases hd : (slots fs dir ds).drop (i + 1) with
      | nil =>
          rw [List.drop_eq_nil_iff, length_slots] at hd
          omega
      | cons y ys => exact ⟨y, ys, rfl⟩
    rw [hslots₂, hslots, hset, hy, List.append_cons, List.set_append_right _ _ (by simp; omega)]
    simp only [List.length_append, List.length_singleton, hlen, Nat.sub_self, List.set_cons_zero]
    exact live_end hall (by decide)
  · have hcount : i + 1 = dir.record.fileSize / 32 := by omega
    have hgrow : CanGrow (fs.withBytes m) dir := hroom hused (by rw [hlen, length_slots]; exact hcount)
    rw [hcount] at hw
    obtain ⟨dir', ds', rfl, hset', rfl, more, hmore⟩ := hm.writeFde_last (by omega) hgrow hw
    have hdrop : (slots fs dir ds).drop (i + 1) = [] := by
      rw [List.drop_eq_nil_iff, length_slots]; omega
    rw [hdrop] at hset
    refine ⟨dir', ds', rfl, hset', rfl, .appended hlen.symm hused ?_⟩
    rw [hmore, hslots, hset]
    exact live_end hall (by decide)

end

/-- **A new entry** goes to the first free place or to the end; or there is no place, and nothing
changes. -/
theorem addDirectoryEntries_one {e : FatDirEntry} {ec : ErrCode} {fs' : FatFs}
    {dirs' : List FatFile} {idx : Nat} (h : FolderSetting fs dir rest ds) (h0 : e.name 0 ≠ 0)
    (hlim : SearchEnds (slots fs dir ds)) (hroom : HasRoom fs dir (slots fs dir ds))
    (hok : addDirectoryEntries fs (dir :: rest) [e] = some (ec, fs', dirs', idx)) :
    ∃ dir' ds', dirs' = dir' :: rest ∧ FolderSetting fs' dir' rest ds' ∧
      (ec ≠ .noError ∧ fs' = fs ∧ dir' = dir ∧ ds' = ds ∨
        ec = .noError ∧ Added (live (slots fs dir ds)) (live (slots fs' dir' ds')) e idx) := by
  by_cases hex : ∃ i, i < dir.record.fileSize / 32 ∧ (slotAt fs dir ds i).IsSpace
  swap
  · obtain ⟨hec, rfl, rfl⟩ := addDirectoryEntries_full h hlim (fun j hj hs => hex ⟨j, hj, hs⟩) hok
    exact ⟨dir, ds, rfl, h, Or.inl ⟨hec, rfl, rfl, rfl⟩⟩
  · obtain ⟨i, ⟨hi, hspace⟩, hmin⟩ : ∃ i, (i < dir.record.fileSize / 32 ∧
        (slotAt fs dir ds i).IsSpace) ∧ ∀ j, j < i → ¬ (slotAt fs dir ds j).IsSpace := by
      classical
      exact ⟨Nat.find hex, Nat.find_spec hex, fun j hj hs =>
        Nat.find_min hex hj ⟨lt_trans hj (Nat.find_spec hex).1, hs⟩⟩
    obtain ⟨m, hslots, hadd⟩ := addDirectoryEntries_found (e := e) h hi (hlim.lt hi hmin) hmin hspace
    rw [hadd] at hok
    rcases hspace with hfree | hend
    · rw [if_neg (by rw [hfree]; decide)] at hok
      simp only [Option.some.injEq, Prod.mk.injEq] at hok
      obtain ⟨rfl, rfl, rfl, rfl⟩ := hok
      refine ⟨dir, ds, rfl, h.withBytes m, Or.inr ⟨rfl, ?_⟩⟩
      rw [hslots]
      exact added_reused h0 hi hmin hfree
    · rw [if_pos hend] at hok
      obtain ⟨⟨ec₂, fs₂, dirs₂⟩, hw, hr⟩ := Option.map_eq_some_iff.mp hok
      simp only [Prod.mk.injEq] at hr
      obtain ⟨rfl, rfl, rfl, rfl⟩ := hr
      obtain ⟨dir', ds', hdirs, hset', hec, hadded⟩ :=
        writeFde_endMarker h h0 hroom hi hmin hend hslots hw
      exact ⟨dir', ds', hdirs, hset', Or.inr ⟨hec, hadded⟩⟩

/-! ### Entries that become free -/

/-- The entry with its first byte set to `0xE5`. -/
def FatDirEntry.mark (e : FatDirEntry) : FatDirEntry := e.set 0 1 0xE5

theorem FatDirEntry.isFree_mark (e : FatDirEntry) : e.mark.IsFree := by
  rw [FatDirEntry.IsFree, FatDirEntry.name, FatDirEntry.mark, FatDirEntry.mem_set _ (by decide)]
  rfl

theorem FatDirEntry.mark_name_ne (e : FatDirEntry) : e.mark.name 0 ≠ 0 := by
  rw [e.isFree_mark]
  decide

/-- The entries from `lo` to `hi` are marked. -/
def markFree (es : List FatDirEntry) (lo hi : Nat) : List FatDirEntry :=
  es.mapIdx fun j e => if lo ≤ j ∧ j < hi then e.mark else e

theorem getElem?_markFree {lo hi j : Nat} (h : lo ≤ j ∧ j < hi) :
    (markFree es lo hi)[j]? = es[j]?.map FatDirEntry.mark := by
  rw [markFree, List.getElem?_mapIdx]
  simp only [h, and_self, if_true]

theorem getElem?_markFree_of_not {lo hi j : Nat} (h : ¬ (lo ≤ j ∧ j < hi)) :
    (markFree es lo hi)[j]? = es[j]? := by
  rw [markFree, List.getElem?_mapIdx]
  simp only [h, if_false, Option.map_id']

@[simp] theorem length_markFree (es : List FatDirEntry) (lo hi : Nat) :
    (markFree es lo hi).length = es.length :=
  List.length_mapIdx ..

theorem live_markFree {lo hi : Nat} (h : hi ≤ (live es).length) :
    live (markFree es lo hi) = markFree (live es) lo hi := by
  have hall : ∀ x ∈ markFree (live es) lo hi, x.name 0 ≠ 0 := by
    intro x hx
    obtain ⟨j, hj, rfl⟩ := List.mem_mapIdx.mp hx
    split
    · exact FatDirEntry.mark_name_ne _
    · exact name_of_mem_live (List.getElem_mem hj)
  rcases live_split es with hes | ⟨x, xs, hes, hx⟩
  · rw [← hes] at hall ⊢
    exact live_of_forall hall
  · have happend : markFree es lo hi = markFree (live es) lo hi ++ x :: xs := by
      refine List.ext_getElem? fun j => ?_
      by_cases hj : j < (live es).length
      · rw [List.getElem?_append_left (by simpa using hj), markFree, markFree,
          List.getElem?_mapIdx, List.getElem?_mapIdx, getElem?_live hj]
      · rw [List.getElem?_append_right (by simpa using hj), length_markFree,
          getElem?_markFree_of_not (by omega)]
        refine (congrArg (fun l : List FatDirEntry => l[j]?) hes).trans ?_
        rw [List.getElem?_append_right (by omega)]
    rw [happend]
    exact live_end hall hx

/-- The places from `lo` to `hi` hold parts of a long name, and the one before them does not. -/
def IsLfnRun (es : List FatDirEntry) (lo hi : Nat) : Prop :=
  lo ≤ hi ∧ (∀ (j : Nat) (y : FatDirEntry), lo ≤ j → j < hi → es[j]? = some y →
      y.attributesRaw = 0x0F) ∧
    ∀ (y : FatDirEntry), lo ≠ 0 → es[lo - 1]? = some y → y.attributesRaw ≠ 0x0F

/-- The loop of `unlink_fdes` marks the parts of a long name before a place. -/
theorem unlinkLoop_eq (hi : Nat) :
    ∀ {fs : FatFs} (fde : FatDirEntry), FolderSetting fs dir rest ds →
      hi ≤ dir.record.fileSize / 32 →
      ∃ m lo, unlinkLoop hi .noError fde fs (dir :: rest) =
          some (.noError, fs.withBytes m, dir :: rest) ∧
        IsLfnRun (slots fs dir ds) lo hi ∧
        slots (fs.withBytes m) dir ds = markFree (slots fs dir ds) lo hi := by
  induction hi with
  | zero =>
      intro fs fde h _
      refine ⟨fs.storage.bytes, 0, rfl, ⟨le_rfl, fun j y _ hj => by omega, fun y h0 => by omega⟩, ?_⟩
      refine List.ext_getElem? fun j => ?_
      rw [getElem?_markFree_of_not (by omega)]
      rfl
  | succ hi ih =>
      intro fs fde h hle
      have hget := getElem?_slots fs ds (show hi < dir.record.fileSize / 32 by omega)
      rw [unlinkLoop]
      dsimp only
      rw [readOneDirEntry_eq h.mounted h.folderAt (by omega)]
      dsimp only
      by_cases hattr : (slotAt fs dir ds hi).attributesRaw = 0x0F
      · rw [if_pos ⟨rfl, hattr⟩]
        obtain ⟨m, hw, hslots, -⟩ := writeFde_slots h.mounted h.folderAt rest
          (show hi < dir.record.fileSize / 32 by omega) (slotAt fs dir ds hi).mark
        obtain ⟨m', lo, hloop, ⟨hlo, hrun, hstop⟩, hslots'⟩ :=
          ih (slotAt fs dir ds hi).mark (h.withBytes m) (by omega)
        -- the slots below are what they were
        have hbelow : ∀ j, j < hi → (slots (fs.withBytes m) dir ds)[j]? = (slots fs dir ds)[j]? :=
          fun j hj => by rw [hslots, List.getElem?_set_ne (by omega)]
        refine ⟨m', lo, ?_, ⟨by omega, fun j y h₁ h₂ hy => ?_, fun y h0 hy => ?_⟩, ?_⟩
        · have hw' : writeFde (dir :: rest) fs hi ((slotAt fs dir ds hi).set 0 1 0xE5) = _ := hw
          rw [hw']
          exact hloop
        · rcases Nat.lt_succ_iff_lt_or_eq.mp h₂ with hj | rfl
          · exact hrun j y h₁ hj (by rw [hbelow j hj]; exact hy)
          · rw [hget, Option.some.injEq] at hy
            exact hy ▸ hattr
        · exact hstop y h0 (by rw [hbelow _ (by omega)]; exact hy)
        · refine hslots'.trans (List.ext_getElem? fun j => ?_)
          by_cases hj : lo ≤ j ∧ j < hi
          · rw [getElem?_markFree hj, getElem?_markFree (by omega), hbelow j hj.2]
          · rw [getElem?_markFree_of_not hj, hslots]
            by_cases hjhi : j = hi
            · subst hjhi
              rw [getElem?_markFree (by omega), hget, List.getElem?_set_self (by
                rw [length_slots]; omega)]
              rfl
            · rw [getElem?_markFree_of_not (by omega), List.getElem?_set_ne (Ne.symm hjhi)]
      · rw [if_neg fun hc => hattr hc.2, if_pos rfl]
        refine ⟨fs.storage.bytes, hi + 1, rfl, ⟨le_rfl, fun j y h₁ h₂ => by omega,
          fun y _ hy => ?_⟩, ?_⟩
        · rw [Nat.add_sub_cancel, hget, Option.some.injEq] at hy
          exact hy ▸ hattr
        · refine List.ext_getElem? fun j => ?_
          rw [getElem?_markFree_of_not (by omega)]
          rfl

/-- The slots after an entry and the parts of its long name have been marked. -/
theorem unlinkFdes_slots {idx : Nat} {x : FatDirEntry} (h : FolderSetting fs dir rest ds)
    (hx : (slots fs dir ds)[idx]? = some x) (hattr : x.attributesRaw ≠ 0x0F) :
    ∃ m lo, unlinkFdes fs (dir :: rest) idx = some (.noError, fs.withBytes m, dir :: rest) ∧
      IsLfnRun (slots fs dir ds) lo idx ∧
      slots (fs.withBytes m) dir ds = markFree (slots fs dir ds) lo (idx + 1) := by
  have hidx : idx < dir.record.fileSize / 32 := by
    obtain ⟨hlt, -⟩ := List.getElem?_eq_some_iff.mp hx
    rwa [length_slots] at hlt
  have hget := getElem?_slots fs ds hidx
  obtain rfl : slotAt fs dir ds idx = x := by
    rw [hget, Option.some.injEq] at hx
    exact hx
  obtain ⟨m, hw, hslots, -⟩ := writeFde_slots h.mounted h.folderAt rest hidx
    (slotAt fs dir ds idx).mark
  obtain ⟨m', lo, hloop, ⟨hlo, hrun, hstop⟩, hslots'⟩ :=
    unlinkLoop_eq idx (slotAt fs dir ds idx).mark (h.withBytes m) hidx.le
  have hbelow : ∀ j, j < idx →
      (slots (fs.withBytes m) dir ds)[j]? = (slots fs dir ds)[j]? := fun j hj => by
    rw [hslots, List.getElem?_set_ne (by omega)]
  refine ⟨m', lo, ?_, ⟨hlo, fun j y h₁ h₂ hy => ?_, fun y h0 hy => ?_⟩, ?_⟩
  · have hw' : writeFde (dir :: rest) fs idx ((slotAt fs dir ds idx).set 0 1 0xE5) = _ := hw
    rw [unlinkFdes]
    dsimp only
    rw [readOneDirEntry_eq h.mounted h.folderAt hidx]
    dsimp only
    rw [if_pos ⟨rfl, hattr⟩, hw']
    exact hloop
  · exact hrun j y h₁ h₂ (by rw [hbelow j h₂]; exact hy)
  · exact hstop y h0 (by rw [hbelow _ (by omega)]; exact hy)
  · refine hslots'.trans (List.ext_getElem? fun j => ?_)
    rw [hslots]
    by_cases hj : lo ≤ j ∧ j < idx
    · rw [getElem?_markFree hj, getElem?_markFree (by omega), List.getElem?_set_ne (by omega)]
    · rw [getElem?_markFree_of_not hj]
      by_cases hjidx : j = idx
      · subst hjidx
        rw [getElem?_markFree (by omega), hget, List.getElem?_set_self (by
          rw [length_slots]; omega)]
        rfl
      · rw [getElem?_markFree_of_not (by omega), List.getElem?_set_ne (Ne.symm hjidx)]

/-- **An entry and the parts of its long name become free.** -/
theorem unlinkFdes_eq {idx : Nat} {x : FatDirEntry} (h : FolderSetting fs dir rest ds)
    (hx : (live (slots fs dir ds))[idx]? = some x) (hattr : x.attributesRaw ≠ 0x0F) :
    ∃ m lo, unlinkFdes fs (dir :: rest) idx = some (.noError, fs.withBytes m, dir :: rest) ∧
      IsLfnRun (live (slots fs dir ds)) lo idx ∧
      live (slots (fs.withBytes m) dir ds) = markFree (live (slots fs dir ds)) lo (idx + 1) := by
  obtain ⟨hlt, -⟩ := List.getElem?_eq_some_iff.mp hx
  rw [getElem?_live hlt] at hx
  obtain ⟨m, lo, hok, ⟨hlo, hrun, hstop⟩, hslots⟩ := unlinkFdes_slots h hx hattr
  refine ⟨m, lo, hok, ⟨hlo, fun j y h₁ h₂ hy => ?_, fun y h0 hy => ?_⟩, ?_⟩
  · exact hrun j y h₁ h₂ (by rwa [getElem?_live (by omega)] at hy)
  · exact hstop y h0 (by rwa [getElem?_live (by omega)] at hy)
  · rw [hslots, live_markFree (by omega)]

end

end Azalea.Fat
