import Azalea.Fat.Names
import Mathlib.Data.List.Basic

/-!
# Fat — the short-name codec

`populate_short_name` writes a name into the 11 bytes of an entry, `short_name_from_fde` reads it back.
What is accepted is two parts of at most eight and three characters, with a period between them if the
second is there; the first may be empty, and so may the second behind a period.

* `populateShortName_iff`: what is accepted, and the 11 bytes of it.
* `shortName_read_back`: what is read back from them.
* `short_codec_iff`: the codec is right exactly on the names that lack no part.
-/

namespace Azalea.Fat

/-- A character that a short name may have. -/
def IsShortChar (c : UInt8) : Prop := isValidFilenameChar (charToU16 c) false = true

instance (c : UInt8) : Decidable (IsShortChar c) := inferInstanceAs (Decidable (_ = true))

/-- The name in two parts.  Without a period the second is empty. -/
inductive Parts : Name → Name → Name → Prop where
  | plain (base : Name) : Parts base base []
  | dotted (base ext : Name) : Parts (base ++ 0x2E :: ext) base ext

/-- At most eight and three characters, all of them valid. -/
structure Fits (base ext : Name) : Prop where
  base_le : base.length ≤ 8
  ext_le : ext.length ≤ 3
  base_valid : ∀ c ∈ base, IsShortChar c
  ext_valid : ∀ c ∈ ext, IsShortChar c

/-- A valid 8.3 name. -/
inductive Is83 : Name → Prop where
  | plain (base : Name) (fits : Fits base []) (some : base ≠ []) : Is83 base
  | dotted (base ext : Name) (fits : Fits base ext) (base_some : base ≠ []) (ext_some : ext ≠ []) :
      Is83 (base ++ 0x2E :: ext)

/-- The 11 bytes of two parts. -/
def shortBytes (base ext : Name) : Name := padName 8 (base.map upper) ++ padName 3 (ext.map upper)

/-- A name that would fit, with nothing in it, or nothing on one side of its period. -/
inductive LacksPart : Name → Prop where
  | empty : LacksPart []
  | dotted (base ext : Name) (fits : Fits base ext) (lacks : base = [] ∨ ext = []) :
      LacksPart (base ++ 0x2E :: ext)

/-- The codec is right about a name: it is accepted if it is valid, and comes back in upper case. -/
structure CodecRight (name : Name) : Prop where
  accepts : (populateShortName name).isSome = true ↔ Is83 name
  readBack : ∀ sn ∈ populateShortName name, ∀ e : FatDirEntry, e.nameBytes = sn →
    shortNameFromFde e = name.map upper

/-! ### Characters -/

theorem not_isShortChar_dot : ¬ IsShortChar 0x2E := by decide

/-- A character of a short name is no space in upper case. -/
theorem upper_ne_space {c : UInt8} (h : IsShortChar c) : upper c ≠ 0x20 := by
  have hall : ∀ n : Fin 256, isValidFilenameChar (charToU16 (UInt8.ofNat n.val)) false = true →
      upper (UInt8.ofNat n.val) ≠ 0x20 := by decide +kernel
  have := hall ⟨c.toNat, c.toNat_lt⟩
  rw [UInt8.ofNat_toNat] at this
  exact this h

theorem upper_upper (c : UInt8) : upper (upper c) = upper c := by
  have hall : ∀ n : Fin 256, upper (upper (UInt8.ofNat n.val)) = upper (UInt8.ofNat n.val) := by
    decide +kernel
  have := hall ⟨c.toNat, c.toNat_lt⟩
  rwa [UInt8.ofNat_toNat] at this

/-! ### The two parts -/

section
variable {name base ext base' ext' sn : Name}

/-- Every name has parts, the first of them without a period. -/
theorem exists_parts (name : Name) : ∃ base ext, Parts name base ext ∧ (0x2E : UInt8) ∉ base := by
  by_cases hdot : (0x2E : UInt8) ∈ name
  · obtain ⟨base, ext, rfl, hbase⟩ := List.eq_append_cons_of_mem hdot
    exact ⟨base, ext, .dotted base ext, hbase⟩
  · exact ⟨name, [], .plain name, hdot⟩

theorem Fits.dot_notMem (h : Fits base ext) : (0x2E : UInt8) ∉ base := fun hdot =>
  not_isShortChar_dot (h.base_valid _ hdot)

theorem idxOf_dot (h : (0x2E : UInt8) ∉ base) : (base ++ 0x2E :: ext).idxOf 0x2E = base.length := by
  rw [List.idxOf_append_of_notMem h, List.idxOf_cons_self, Nat.add_zero]

theorem populateShortName_dotted (h : (0x2E : UInt8) ∉ base) :
    populateShortName (base ++ 0x2E :: ext) = some sn ↔
      Fits base ext ∧ sn = shortBytes base ext := by
  rw [populateShortName, idxOf_dot h]
  have hlen : (base ++ 0x2E :: ext).length = base.length + (ext.length + 1) := by simp
  have htake : (base ++ 0x2E :: ext).take base.length = base := List.take_left
  have hdrop : (base ++ 0x2E :: ext).drop (base.length + 1) = ext := by
    rw [List.drop_append, List.drop_of_length_le (by omega), List.nil_append, Nat.add_sub_cancel_left]
    rfl
  rw [hlen]
  dsimp only
  rw [htake, hdrop]
  constructor
  · intro hsome
    split at hsome
    · cases hsome
    · split at hsome
      · cases hsome
      · split at hsome
        · cases hsome
        · next hparts =>
            split at hsome
            · next hvalid =>
                rw [List.all_eq_true] at hvalid
                refine ⟨⟨by omega, by omega, fun c hc => hvalid c (List.mem_append_left _ hc),
                  fun c hc => hvalid c (List.mem_append_right _ hc)⟩, (Option.some.inj hsome).symm⟩
            · cases hsome
  · rintro ⟨⟨hbase, hext, hvalid, hvalid'⟩, rfl⟩
    rw [if_neg (by omega), if_neg (by omega), if_neg (by omega), if_pos]
    · rfl
    · rw [List.all_eq_true]
      exact fun c hc => (List.mem_append.mp hc).elim (hvalid c) (hvalid' c)

theorem populateShortName_plain (h : (0x2E : UInt8) ∉ base) :
    populateShortName base = some sn ↔ Fits base [] ∧ sn = shortBytes base [] := by
  rw [populateShortName, List.idxOf_of_notMem h]
  have htake : base.take base.length = base := List.take_length
  have hdrop : base.drop (base.length + 1) = [] := List.drop_eq_nil_of_le (Nat.le_succ _)
  dsimp only
  rw [htake, hdrop, List.append_nil]
  constructor
  · intro hsome
    split at hsome
    · cases hsome
    · split at hsome
      · cases hsome
      · split at hsome
        · cases hsome
        · next hparts =>
            split at hsome
            · next hvalid =>
                rw [List.all_eq_true] at hvalid
                exact ⟨⟨by omega, Nat.zero_le 3, hvalid, fun c hc => absurd hc List.not_mem_nil⟩,
                  (Option.some.inj hsome).symm⟩
            · cases hsome
  · rintro ⟨⟨hbase, -, hvalid, -⟩, rfl⟩
    rw [if_neg (by omega), if_neg (by omega), if_neg (by simp; omega), if_pos]
    · rfl
    · rwa [List.all_eq_true]

/-- **What is accepted**: two parts that fit. -/
theorem populateShortName_iff :
    populateShortName name = some sn ↔
      ∃ base ext, Parts name base ext ∧ Fits base ext ∧ sn = shortBytes base ext := by
  constructor
  · intro h
    obtain ⟨base, ext, hparts, hdot⟩ := exists_parts name
    cases hparts with
    | plain => exact ⟨name, [], .plain name, (populateShortName_plain hdot).mp h⟩
    | dotted => exact ⟨base, ext, .dotted base ext, (populateShortName_dotted hdot).mp h⟩
  · rintro ⟨base, ext, hparts, hfits, rfl⟩
    cases hparts with
    | plain => exact (populateShortName_plain hfits.dot_notMem).mpr ⟨hfits, rfl⟩
    | dotted => exact (populateShortName_dotted hfits.dot_notMem).mpr ⟨hfits, rfl⟩

/-! ### Reading back -/

/-- The spaces after a part are left out again. -/
theorem takeWhile_padName (n : Nat) {part : Name} (h : ∀ c ∈ part, IsShortChar c) :
    (padName n (part.map upper)).takeWhile (· ≠ 0x20) = part.map upper := by
  have hpart : ∀ b ∈ part.map upper, decide (b ≠ 0x20) = true := by
    intro b hb
    obtain ⟨c, hc, rfl⟩ := List.mem_map.mp hb
    exact decide_eq_true (upper_ne_space (h c hc))
  rw [padName, List.takeWhile_append_of_pos hpart]
  cases n - (part.map upper).length with
  | zero => exact List.append_nil _
  | succ k => exact List.append_nil _

/-- **What is read back** from the 11 bytes of two parts: there is a period if the second is there. -/
theorem shortName_read_back (h : Fits base ext) {e : FatDirEntry}
    (he : e.nameBytes = shortBytes base ext) :
    shortNameFromFde e = base.map upper ++ if ext = [] then [] else 0x2E :: ext.map upper := by
  have hlen : (padName 8 (base.map upper)).length = 8 := length_padName (by simpa using h.base_le)
  have htake : (shortBytes base ext).take 8 = padName 8 (base.map upper) := List.take_left' hlen
  have hdrop : (shortBytes base ext).drop 8 = padName 3 (ext.map upper) := List.drop_left' hlen
  have hupper : ∀ part : Name, (part.map upper).map upper = part.map upper := fun part => by
    rw [List.map_map]
    exact List.map_congr_left fun c _ => upper_upper c
  rw [shortNameFromFde, he, htake, hdrop, takeWhile_padName 8 h.base_valid,
    takeWhile_padName 3 h.ext_valid, hupper, hupper]
  simp only [List.map_eq_nil_iff]

/-! ### The names that are accepted -/

theorem LacksPart.accepted (h : LacksPart name) : (populateShortName name).isSome = true := by
  cases h with
  | empty => rfl
  | dotted base ext fits _ =>
      rw [Option.isSome_iff_exists]
      exact ⟨_, (populateShortName_dotted fits.dot_notMem).mpr ⟨fits, rfl⟩⟩

/-- The place of the period is fixed, where the part before it fits. -/
theorem parts_unique (h : (0x2E : UInt8) ∉ base) (h' : (0x2E : UInt8) ∉ base')
    (he : base ++ 0x2E :: ext = base' ++ 0x2E :: ext') : base = base' ∧ ext = ext' := by
  have hlen : base.length = base'.length := by rw [← @idxOf_dot _ ext h, he, idxOf_dot h']
  obtain ⟨hbase, hext⟩ := List.append_inj he hlen
  exact ⟨hbase, (List.cons.inj hext).2⟩

theorem LacksPart.not_is83 (h : LacksPart name) : ¬ Is83 name := by
  intro h83
  cases h with
  | empty =>
      generalize hn : ([] : Name) = name at h83
      cases h83 with
      | plain _ _ hsome => exact hsome hn.symm
      | dotted base ext => cases base <;> cases hn
  | dotted base ext fits lacks =>
      generalize hn : base ++ 0x2E :: ext = name at h83
      cases h83 with
      | plain _ fits' _ => exact fits'.dot_notMem (hn ▸ by simp)
      | dotted base' ext' fits' hbase hext =>
          obtain ⟨rfl, rfl⟩ := parts_unique fits.dot_notMem fits'.dot_notMem hn
          exact lacks.elim hbase hext

/-- A name that is accepted has its parts, or lacks one. -/
theorem is83_or_lacksPart (hparts : Parts name base ext) (hfits : Fits base ext) :
    Is83 name ∨ LacksPart name := by
  cases hparts with
  | plain =>
      by_cases hnil : name = []
      · exact .inr (hnil ▸ .empty)
      · exact .inl (.plain name hfits hnil)
  | dotted =>
      by_cases hlacks : base = [] ∨ ext = []
      · exact .inr (.dotted base ext hfits hlacks)
      · rw [not_or] at hlacks
        exact .inl (.dotted base ext hfits hlacks.1 hlacks.2)

theorem Is83.parts (h : Is83 name) : ∃ base ext, Parts name base ext ∧ Fits base ext := by
  cases h with
  | plain _ fits _ => exact ⟨name, [], .plain name, fits⟩
  | dotted base ext fits _ _ => exact ⟨base, ext, .dotted base ext, fits⟩

/-- A name that lacks no part comes back in upper case. -/
theorem read_back_upper (hparts : Parts name base ext) (hfits : Fits base ext)
    (hlacks : ¬ LacksPart name) {e : FatDirEntry} (he : e.nameBytes = shortBytes base ext) :
    shortNameFromFde e = name.map upper := by
  rw [shortName_read_back hfits he]
  cases hparts with
  | plain => exact List.append_nil _
  | dotted =>
      rw [if_neg fun hnil => hlacks (.dotted base ext hfits (.inr hnil)), List.map_append, List.map_cons]
      rfl

theorem codecRight_iff : CodecRight name ↔ ¬ LacksPart name := by
  constructor
  · intro h hlacks
    exact hlacks.not_is83 (h.accepts.mp hlacks.accepted)
  · intro hlacks
    refine ⟨?_, fun sn hsn e he => ?_⟩
    · rw [Option.isSome_iff_exists]
      constructor
      · rintro ⟨sn, hsn⟩
        obtain ⟨base, ext, hparts, hfits, -⟩ := populateShortName_iff.mp hsn
        exact (is83_or_lacksPart hparts hfits).resolve_right hlacks
      · intro h83
        obtain ⟨base, ext, hparts, hfits⟩ := h83.parts
        exact ⟨_, populateShortName_iff.mpr ⟨base, ext, hparts, hfits, rfl⟩⟩
    · obtain ⟨base, ext, hparts, hfits, rfl⟩ := populateShortName_iff.mp hsn
      exact read_back_upper hparts hfits hlacks he

/-- The codec is right about two names, and tells them apart unless they are equal but for their case. -/
structure CodecInjective (name name' : Name) : Prop where
  left : CodecRight name
  right : CodecRight name'
  apart : ∀ sn, populateShortName name = some sn → populateShortName name' = some sn →
    name.map upper = name'.map upper

/-- **The short-name codec is right** exactly on names that lack no part: not the empty name, and none
with nothing before its period or nothing behind it. -/
theorem short_codec_iff (name name' : Name) :
    CodecInjective name name' ↔ ¬ LacksPart name ∧ ¬ LacksPart name' := by
  constructor
  · exact fun h => ⟨codecRight_iff.mp h.left, codecRight_iff.mp h.right⟩
  · rintro ⟨h, h'⟩
    have hright := codecRight_iff.mpr h
    have hright' := codecRight_iff.mpr h'
    refine ⟨hright, hright', fun sn hsn hsn' => ?_⟩
    have hbytes : (FatDirEntry.zero.setName sn).nameBytes = sn :=
      nameBytes_setName (populateShortName_bytes hsn).1
    rw [← hright.readBack sn hsn _ hbytes, hright'.readBack sn hsn' _ hbytes]

/-- `README.` is accepted, and comes back as `README`. -/
theorem period_at_end_lost :
    ¬ ∀ name name' : Name, CodecInjective name name' := by
  intro h
  have hread := (h [0x52, 0x45, 0x41, 0x44, 0x4D, 0x45, 0x2E] []).left.readBack
    [0x52, 0x45, 0x41, 0x44, 0x4D, 0x45, 0x20, 0x20, 0x20, 0x20, 0x20] (by decide +kernel)
    (FatDirEntry.zero.setName [0x52, 0x45, 0x41, 0x44, 0x4D, 0x45, 0x20, 0x20, 0x20, 0x20, 0x20])
    (nameBytes_setName rfl)
  exact absurd hread (by decide +kernel)

end

end Azalea.Fat
