import Azalea.Fat.NameEntries

/-!
# Fat — basis names

`generate_basis_name_entry` copies the extension from the last period itself, and where a name has none
from its start.  `add_numeric_tail` counts the `~` among the digits that it copies, so the zero behind
them is copied too, into the main part or over the first byte of the extension.  Either way a byte of
the entry is not the one that is asked for.

* `zero_mem_of_tail`: a tail leaves a zero among the bytes.
* `head_basisExt`: the first byte of an extension that is not empty.
* `basis_never_right`: no basis name is right.
-/

namespace Azalea.Fat
open Azalea.Memory

/-! ### The name that is asked for -/

/-- The valid characters of a part, in upper case. -/
def validUpper (part : Name) : Name := (part.filter fun c => decide (IsShortChar c)).map upper

/-- What stands after the last period, if there is one. -/
def afterLastPeriod (part : Name) : Name :=
  if 0x2E ∈ part then (part.reverse.takeWhile (· ≠ 0x2E)).reverse else []

/-- The characters for the base: those before the first period, behind the periods at the start. -/
def baseChars (name : Name) : Name :=
  validUpper ((name.dropWhile (· = 0x2E)).takeWhile (· ≠ 0x2E))

/-- The characters of the extension. -/
def extChars (name : Name) : Name := (validUpper (afterLastPeriod (name.dropWhile (· = 0x2E)))).take 3

/-- The base, with a tail or without one. -/
inductive IsBase (name : Name) : Name → Prop where
  | plain : IsBase name ((baseChars name).take 8)
  | tail (n : Nat) : IsBase name ((baseChars name).take (7 - (decimal n).length) ++ 0x7E :: decimal n)

/-- A right basis name, in a folder where `getDirEntry` looks for names. -/
structure RightBasis {σ : Type} (getDirEntry : σ → Name → Bool × σ) (s : σ) (name : Name)
    (e : FatDirEntry) : Prop where
  base : ∃ main, IsBase name main ∧ e.nameBytes.take 8 = padName 8 main
  ext : e.nameBytes.drop 8 = padName 3 (extChars name)
  valid : ∃ main ext, main ≠ [] ∧ Fits main ext ∧ e.nameBytes = shortBytes main ext
  unused : (getDirEntry s (shortNameFromFde e)).1 = false
  ext_same : e.nameBytes.drop 8 = (basisEntry name).nameBytes.drop 8

/-- `generate_basis_name_entry` gives a right basis name. -/
def BasisRight {σ : Type} (getDirEntry : σ → Name → Bool × σ) (s : σ) (name : Name) : Prop :=
  ∃ e s', generateBasisNameEntry getDirEntry s name = some (some e, s') ∧
    RightBasis getDirEntry s name e

/-! ### The tail -/

section
variable {σ : Type} {getDirEntry : σ → Name → Bool × σ} {s s' : σ} {name bytes : Name}
  {e entry : FatDirEntry}

theorem length_nameBytes (e : FatDirEntry) : e.nameBytes.length = 11 := by
  rw [FatDirEntry.nameBytes, List.length_map, List.length_range]

/-- The zero behind the digits is one of the bytes. -/
theorem zero_mem_addNumericTail {n suffix : Nat} (hlen : bytes.length = 11) {bytes' : Name}
    (h : addNumericTail bytes n suffix = some bytes') : 0 ∈ bytes' ∧ bytes'.length = 11 := by
  rw [addNumericTail] at h
  split at h
  · cases h
  next hn =>
    split at h
    · cases h
    · dsimp only at h
      split at h
      · cases h
      · rw [← Option.some.inj h]
        refine ⟨by simp, ?_⟩
        simp only [List.length_append, List.length_cons, List.length_take, List.length_drop,
          List.length_nil]
        split <;> omega

/-- **A tail leaves a zero among the bytes.** -/
theorem zero_mem_of_tail {n fuel suffix : Nat}
    (h : tryNumericTails getDirEntry n fuel suffix entry s = some (some e, s')) :
    0 ∈ e.nameBytes := by
  induction fuel generalizing suffix entry s with
  | zero => cases h
  | succ fuel ih =>
    rw [tryNumericTails] at h
    split at h
    · cases h
    next bytes hbytes =>
      dsimp only at h
      split at h
      · exact ih h
      · obtain ⟨hzero, hlen⟩ := zero_mem_addNumericTail (length_nameBytes entry) hbytes
        rw [← Option.some.inj (congrArg Prod.fst (Option.some.inj h)), nameBytes_setName hlen]
        exact hzero

/-! ### The extension -/

/-- The position of the last period is that of a period, or there is none. -/
theorem lastPeriodPosition_convertName {cs : Name} {st : Converted} :
    (convertName cs false st).buffer[(convertName cs false st).lastPeriodPosition]? = some 0x2E ∨
      (convertName cs false st).lastPeriodPosition = st.lastPeriodPosition ∧ (0x2E : UInt8) ∉ cs := by
  induction cs generalizing st with
  | nil => exact .inr ⟨rfl, List.not_mem_nil⟩
  | cons c cs ih =>
    rw [convertName, if_neg (by simp)]
    split
    next hspace =>
      refine ih.imp_right fun h => ⟨h.1, ?_⟩
      rw [hspace, List.mem_cons]
      exact fun hdot => hdot.elim (by decide) h.2
    · rcases ih with hdot | ⟨hpos, hcs⟩
      · exact .inl hdot
      · by_cases hc : c = 0x2E
        · left
          rw [hpos, convertName_false.1, hc]
          simp
          decide
        · right
          rw [hpos, if_neg hc]
          exact ⟨rfl, by simp [Ne.symm hc, hcs]⟩

/-- **The first byte of an extension** is a period, or the first character of a name without one. -/
theorem head_basisExt : (basisExt name).head? = some 0x2E ∨
    (0x2E : UInt8) ∉ name.dropWhile (· = 0x2E) ∧
      (basisExt name).head? = (basisChars name).head?.map convertChar := by
  have hhead : (basisExt name).head? =
      (converted name).buffer[(converted name).lastPeriodPosition]? := by
    rw [basisExt, List.head?_take, if_neg (by decide), List.head?_drop]
  rw [hhead]
  rcases @lastPeriodPosition_convertName (name.dropWhile (· = 0x2E))
      ⟨[], 0, false || decide (name.head? = some 0x2E)⟩ with hdot | ⟨hpos, hnone⟩
  · left
    rwa [converted, convertName_true]
  · right
    refine ⟨hnone, ?_⟩
    have hzero : (converted name).lastPeriodPosition = 0 := by rw [converted, convertName_true, hpos]
    rw [hzero, converted_eq.1, ← List.head?_eq_getElem?, List.head?_map]

theorem convertChar_ne_space (c : UInt8) : convertChar c ≠ 0x20 := by
  rw [convertChar]
  split
  · decide
  next hkept =>
    rw [IsLostChar, not_and_or, not_not, not_not] at hkept
    rcases hkept with rfl | hvalid
    · decide
    · exact upper_ne_space hvalid

theorem extChars_of_notMem (h : (0x2E : UInt8) ∉ name.dropWhile (· = 0x2E)) : extChars name = [] := by
  rw [extChars, afterLastPeriod, if_neg h]
  rfl

theorem nameBytes_basisEntry :
    (basisEntry name).nameBytes = padName 8 (basisMain name) ++ padName 3 (basisExt name) :=
  nameBytes_setName (by
    rw [List.length_append, length_padName length_basisMain_le, length_padName length_basisExt_le])

/-- Without a tail, a byte is wrong: the first of the extension, or the first of all. -/
theorem basisEntry_not_right : ¬ RightBasis getDirEntry s name (basisEntry name) := by
  intro h
  obtain ⟨main, ext, hmain, hfits, hbytes⟩ := h.valid
  have hclean := (populateShortName_bytes
    ((populateShortName_dotted hfits.dot_notMem).mpr ⟨hfits, hbytes⟩)).2
  have hdrop : padName 3 (basisExt name) = padName 3 (extChars name) := by
    rw [← h.ext, nameBytes_basisEntry, List.drop_left' (length_padName length_basisMain_le)]
  rcases head_basisExt with hdot | ⟨hnone, hhead⟩
  · refine (hclean 0x2E ?_).2 rfl
    rw [nameBytes_basisEntry]
    exact List.mem_append_right _ (List.mem_append_left _ (List.mem_of_head? hdot))
  · rw [extChars_of_notMem hnone] at hdrop
    cases hchars : (basisChars name).head? with
    | some c =>
      rw [hchars, Option.map_some] at hhead
      have hfirst := congrArg List.head? hdrop
      rw [padName, List.head?_append, hhead] at hfirst
      exact convertChar_ne_space c (Option.some.inj hfirst)
    | none =>
      have hnil : basisMain name = [] := basisMain_eq_nil_iff.mpr fun c hc => by
        rw [hchars] at hc
        cases hc
      obtain ⟨m, rest, rfl⟩ := List.exists_cons_of_ne_nil hmain
      rw [nameBytes_basisEntry, hnil] at hbytes
      exact upper_ne_space (hfits.base_valid m List.mem_cons_self)
        (Option.some.inj (congrArg List.head? hbytes)).symm

/-- **No basis name is right.** -/
theorem basis_never_right (s : σ) (name : Name) : ¬ BasisRight getDirEntry s name := by
  rintro ⟨e, s', h, hright⟩
  rw [generateBasisNameEntry_eq] at h
  split at h
  · obtain ⟨main, ext, -, hfits, hbytes⟩ := hright.valid
    have hclean := (populateShortName_bytes
      ((populateShortName_dotted hfits.dot_notMem).mpr ⟨hfits, hbytes⟩)).2
    exact (hclean 0 (zero_mem_of_tail h)).1 rfl
  · rw [← Option.some.inj (congrArg Prod.fst (Option.some.inj h))] at hright
    exact basisEntry_not_right hright

end

/-- `longfilename` gets the extension `LON` in an empty folder. -/
theorem extension_from_start :
    ¬ ∀ (s : FolderMaps) (name : Name), (∃ c ∈ name, IsShortChar c) →
      BasisRight FolderMaps.isInUse s name := by
  intro h
  obtain ⟨e, s', he, hright⟩ := h FolderMaps.empty
    [0x6C, 0x6F, 0x6E, 0x67, 0x66, 0x69, 0x6C, 0x65, 0x6E, 0x61, 0x6D, 0x65] (by decide +kernel)
  have hext : ((generateBasisNameEntry FolderMaps.isInUse FolderMaps.empty
      [0x6C, 0x6F, 0x6E, 0x67, 0x66, 0x69, 0x6C, 0x65, 0x6E, 0x61, 0x6D, 0x65]).bind
        Prod.fst).map (fun e => e.nameBytes.drop 8) = some [0x4C, 0x4F, 0x4E] := by decide +kernel
  rw [he, Option.bind_some, Option.map_some, hright.ext] at hext
  exact absurd hext (by decide +kernel)

end Azalea.Fat
