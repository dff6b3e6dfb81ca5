import Azalea.Fat.Entry

/-!
# Fat — file names

The functions of `fat_folder.cpp` that turn a file name into directory entries and back.  A name is
a list of bytes.  `char` is signed, so a byte from 128 on becomes a 16-bit character from `0xFF80`
on.  A panic, or an access outside an array, is `none`.

A name that fits the 8.3 form has one entry, which holds it in upper case.  Any other name has up
to 20 entries with parts of the long name and a short entry with a basis name made from it.
-/

namespace Azalea.Fat
open Azalea.Memory

/-- A file name. -/
abbrev Name := List UInt8

/-- A `char` as a `uint16_t`. -/
def charToU16 (c : UInt8) : Nat := if c.toNat < 128 then c.toNat else 0xFF00 + c.toNat

/-- `fat_folder::is_valid_filename_char`. -/
def isValidFilenameChar (ch : Nat) (longFilename : Bool) : Bool :=
  decide (ch > 127) ||
  decide (0x30 ≤ ch ∧ ch ≤ 0x39) ||
  decide (0x61 ≤ ch ∧ ch ≤ 0x7A) ||
  decide (0x41 ≤ ch ∧ ch ≤ 0x5A) ||
  -- $ % ' - _ @ ~ ` ! ( ) { } ^ # &
  [0x24, 0x25, 0x27, 0x2D, 0x5F, 0x40, 0x7E, 0x60, 0x21, 0x28, 0x29, 0x7B, 0x7D, 0x5E, 0x23,
    0x26].contains ch ||
  -- + , ; = [ ] space .
  (longFilename && [0x2B, 0x2C, 0x3B, 0x3D, 0x5B, 0x5D, 0x20, 0x2E].contains ch)

/-- A lower-case letter made upper case, as by `toupper`. -/
def upper (c : UInt8) : UInt8 := if 0x61 ≤ c ∧ c ≤ 0x7A then c - 0x20 else c

/-- The bytes of a part of a short name, filled up with spaces. -/
def padName (n : Nat) (part : Name) : Name := part ++ List.replicate (n - part.length) 0x20

/-- `fat_folder::populate_short_name`: the 11 bytes of a name in 8.3 form. -/
def populateShortName (filename : Name) : Option Name :=
  if filename.length > 12 then none
  else
    let dotPos := filename.idxOf 0x2E
    if dotPos = filename.length ∧ filename.length > 8 ∨ dotPos > 8 then none
    else
      let firstPart := filename.take dotPos
      let extPart := filename.drop (dotPos + 1)
      if firstPart.length > 8 ∨ extPart.length > 3 then none
      else if (firstPart ++ extPart).all fun c => isValidFilenameChar (charToU16 c) false then
        some (padName 8 (firstPart.map upper) ++ padName 3 (extPart.map upper))
      else none

/-- The 32 bytes of a list, or zeroes where it is shorter. -/
def FatDirEntry.ofList (bytes : List UInt8) : FatDirEntry := FatDirEntry.ofMem (bytes.getD · 0) 0

/-- The 11 bytes `name` of an entry. -/
def FatDirEntry.nameBytes (e : FatDirEntry) : Name := (List.range 11).map e.name

/-- The entry with its 11 bytes `name` replaced. -/
def FatDirEntry.setName (e : FatDirEntry) (bytes : Name) : FatDirEntry :=
  FatDirEntry.ofMem (fun i => if i < 11 then bytes.getD i 0 else e.mem i) 0

/-- `attributes.archive` set. -/
def FatDirEntry.setArchive (e : FatDirEntry) : FatDirEntry :=
  e.set 11 1 (e.attributesRaw ||| 0x20)

/-- `fat_folder::short_name_from_fde`: the name with a dot and without the spaces. -/
def shortNameFromFde (e : FatDirEntry) : Name :=
  let mainPart := (e.nameBytes.take 8).takeWhile (· ≠ 0x20)
  let extPart := (e.nameBytes.drop 8).takeWhile (· ≠ 0x20)
  mainPart.map upper ++ if extPart = [] then [] else 0x2E :: extPart.map upper

/-- `fat_folder::generate_short_name_checksum`. -/
def generateShortNameChecksum (shortName : Name) : Nat :=
  shortName.foldl
    (fun checksum c =>
      ((if checksum % 2 = 1 then 0x80 else 0) + checksum / 2 + c.toNat) % 256) 0

/-- A `uint16_t` as two bytes. -/
def u16Bytes (v : Nat) : List UInt8 := [UInt8.ofNat v, UInt8.ofNat (v / 256)]

/-- A part of a long name, with its number, 13 characters and the checksum. -/
def lfnEntry (entryIdx : Nat) (chars : List Nat) (checksum : Nat) : FatDirEntry :=
  FatDirEntry.ofList
    ([UInt8.ofNat entryIdx] ++ (chars.take 5).flatMap u16Bytes ++
      [0x0F, 0, UInt8.ofNat checksum] ++ ((chars.drop 5).take 6).flatMap u16Bytes ++ [0, 0] ++
      (chars.drop 11).flatMap u16Bytes)

/-- The characters of the `k`th part: where the name ends, a zero and then `0xFFFF`. -/
def lfnChars (filename : Name) (k : Nat) : List Nat :=
  let part := ((filename.drop (13 * k)).take 13).map charToU16
  if part.length = 13 then part else part ++ 0 :: List.replicate (12 - part.length) 0xFFFF

/-- `fat_folder::populate_long_name`: the characters of the entries, the last part first, each with
its number.  `num_entries` has 8 bits, and `fdes` 21 members. -/
def populateLongName (filename : Name) : Option (Option (List (Nat × List Nat))) :=
  let remainder := filename.length % 13
  let numEntries := (filename.length / 13 % 256 + if remainder ≠ 0 then 1 else 0) % 256
  if numEntries = 0 ∨ numEntries > 21 then none
  else if (filename.take (13 * numEntries)).all fun c => isValidFilenameChar (charToU16 c) true then
    if filename.length > 13 * numEntries then none
    else
      some (some ((List.range numEntries).reverse.map fun k =>
        (k + 1 + if k + 1 = numEntries then 0x40 else 0, lfnChars filename k)))
  else some none

/-- The decimal digits of a number, as by `snprintf`. -/
def decimal (n : Nat) : Name := (Nat.toDigits 10 n).map fun c => UInt8.ofNat c.toNat

/-- `fat_folder::add_numeric_tail`.  The zero after the digits is copied with them. -/
def addNumericTail (name : Name) (numValidChars suffix : Nat) : Option Name :=
  if ¬ (1 ≤ numValidChars ∧ numValidChars ≤ 8) then none
  else if ¬ suffix < 1000000 then none
  else
    let numSuffixChars := 1 + (decimal suffix).length
    if ¬ numSuffixChars ≤ 7 then none
    else
      let numValidChars :=
        if numSuffixChars + numValidChars > 8 then 8 - numSuffixChars else numValidChars
      some (name.take numValidChars ++ 0x7E :: (decimal suffix ++ [0]) ++
        name.drop (numValidChars + 1 + numSuffixChars))

/-- What the first loop of `generate_basis_name_entry` leaves: the buffer, `last_period_position`,
and whether a character was lost. -/
structure Converted where
  buffer : Name
  lastPeriodPosition : Nat
  lossyConversion : Bool

/-- The first loop of `generate_basis_name_entry`. -/
def convertName : Name → Bool → Converted → Converted
  | [], _, st => st
  | c :: cs, isStillLeadingPeriod, st =>
      if c = 0x2E ∧ isStillLeadingPeriod then
        convertName cs true { st with lossyConversion := true }
      else if c = 0x20 then convertName cs false st
      else
        let lost := c ≠ 0x2E ∧ isValidFilenameChar (charToU16 c) false = false
        convertName cs false
          { buffer := st.buffer ++ [if lost then 0x5F else upper c]
            lastPeriodPosition := if c = 0x2E then st.buffer.length else st.lastPeriodPosition
            lossyConversion := st.lossyConversion || decide lost }

section
variable {σ : Type} (getDirEntry : σ → Name → Bool × σ)

/-- The second loop: numeric tails are tried from `suffix` on until one is not in use. -/
def tryNumericTails (numValidChars : Nat) :
    Nat → Nat → FatDirEntry → σ → Option (Option FatDirEntry × σ)
  | 0, _, _, s => some (none, s)
  | fuel + 1, suffix, entry, s =>
      match addNumericTail entry.nameBytes numValidChars suffix with
      | none => none
      | some name =>
          let entry := entry.setName name
          let (found, s) := getDirEntry s (shortNameFromFde entry)
          if found then tryNumericTails numValidChars fuel (suffix + 1) entry s
          else some (some entry, s)

/-- `fat_folder::generate_basis_name_entry`, where `getDirEntry` says whether a name is in use in a
folder, whose maps it can change.  The extension is copied from the last period on, or from the
start of a name that has none. -/
def generateBasisNameEntry (s : σ) (filename : Name) : Option (Option FatDirEntry × σ) :=
  let conv := convertName filename true ⟨[], 0, false⟩
  let mainPart := (conv.buffer.take 8).takeWhile (· ≠ 0x2E)
  let extPart := (conv.buffer.drop conv.lastPeriodPosition).take 3
  let entry := FatDirEntry.zero.setName (padName 8 mainPart ++ padName 3 extPart)
  let (found, s) := getDirEntry s (shortNameFromFde entry)
  if conv.lossyConversion || found then
    tryNumericTails getDirEntry mainPart.length 999999 1 entry s
  else some (some entry, s)

/-- What `populate_fdes_from_name` returns when it succeeds. -/
structure PopulatedFdes where
  fdes : List FatDirEntry
  longName : Name
  shortName : Name

/-- `fat_folder::populate_fdes_from_name`, with a basis name.  For a long name, `short_name_out` is
taken from the entry after the last one used, which has been cleared. -/
def populateFdesFromName (s : σ) (nameIn : Name) : Option (Option PopulatedFdes × σ) :=
  match populateShortName nameIn with
  | some shortName =>
      let fde := (FatDirEntry.zero.setName shortName).setArchive
      some (some ⟨[fde], [], shortNameFromFde fde⟩, s)
  | none =>
      match populateLongName nameIn with
      | none => none
      | some none => some (none, s)
      | some (some parts) =>
          -- clearing the entry behind the basis name's
          if parts.length + 1 > 20 then none
          else
            match generateBasisNameEntry getDirEntry s nameIn with
            | none => none
            | some (none, s) => some (none, s)
            | some (some basis, s) =>
                let checksum := generateShortNameChecksum basis.nameBytes
                some (some ⟨parts.map (fun p => lfnEntry p.1 p.2 checksum) ++ [basis], nameIn,
                  shortNameFromFde FatDirEntry.zero⟩, s)

end

/-! ### Short names -/

/-- A character of a short name stays one in upper case. -/
theorem upper_valid {c : UInt8} (h : isValidFilenameChar (charToU16 c) false = true) :
    upper c ≠ 0 ∧ upper c ≠ 0x2E := by
  have hall : ∀ n : Fin 256, isValidFilenameChar (charToU16 (UInt8.ofNat n.val)) false = true →
      upper (UInt8.ofNat n.val) ≠ 0 ∧ upper (UInt8.ofNat n.val) ≠ 0x2E := by decide +kernel
  have := hall ⟨c.toNat, c.toNat_lt⟩
  rw [UInt8.ofNat_toNat] at this
  exact this h

theorem upper_eq_dot {c : UInt8} : upper c = 0x2E ↔ c = 0x2E := by
  have hall : ∀ n : Fin 256, upper (UInt8.ofNat n.val) = 0x2E ↔ UInt8.ofNat n.val = 0x2E := by
    decide +kernel
  have := hall ⟨c.toNat, c.toNat_lt⟩
  rwa [UInt8.ofNat_toNat] at this

theorem length_padName {n : Nat} {part : Name} (h : part.length ≤ n) :
    (padName n part).length = n := by
  rw [padName, List.length_append, List.length_replicate]
  omega

/-- The 11 bytes of a name in 8.3 form are characters of a short name, or spaces. -/
theorem populateShortName_bytes {filename sn : Name} (h : populateShortName filename = some sn) :
    sn.length = 11 ∧ ∀ b ∈ sn, b ≠ 0 ∧ b ≠ 0x2E := by
  rw [populateShortName] at h
  split at h
  · cases h
  · dsimp only at h
    split at h
    · cases h
    · split at h
      · cases h
      · next hlen =>
          split at h
          · next hvalid =>
              rw [not_or, not_lt, not_lt] at hlen
              rw [List.all_eq_true] at hvalid
              rw [← Option.some.inj h]
              have hpad : ∀ (n : Nat) (part : Name),
                  (∀ c ∈ part, isValidFilenameChar (charToU16 c) false = true) →
                  ∀ b ∈ padName n (part.map upper), b ≠ 0 ∧ b ≠ 0x2E := by
                intro n part hpart b hb
                rcases List.mem_append.mp hb with hb | hb
                · obtain ⟨c, hc, rfl⟩ := List.mem_map.mp hb
                  exact upper_valid (hpart c hc)
                · rw [List.eq_of_mem_replicate hb]
                  decide
              refine ⟨?_, fun b hb => ?_⟩
              · rw [List.length_append, length_padName (by simpa using hlen.1),
                  length_padName (by simpa using hlen.2)]
              · rcases List.mem_append.mp hb with hb | hb
                · exact hpad 8 _ (fun c hc => hvalid c (List.mem_append_left _ hc)) b hb
                · exact hpad 3 _ (fun c hc => hvalid c (List.mem_append_right _ hc)) b hb
          · cases h

section
variable {e e' : FatDirEntry} {sn : Name}

theorem nameBytes_eq (h : ∀ i, i < 11 → e.mem i = e'.mem i) : e.nameBytes = e'.nameBytes :=
  List.map_congr_left fun i hi => h i (List.mem_range.mp hi)

theorem nameBytes_setName (h : sn.length = 11) : (e.setName sn).nameBytes = sn := by
  refine List.ext_getElem (by simp [FatDirEntry.nameBytes, h]) fun i h₁ h₂ => ?_
  have hi : i < 11 := h ▸ h₂
  simp only [FatDirEntry.nameBytes, List.getElem_map, List.getElem_range, FatDirEntry.name]
  rw [FatDirEntry.setName, FatDirEntry.mem_ofMem _ _ (by omega), Nat.zero_add, if_pos hi,
    List.getD_eq_getElem?_getD, List.getElem?_eq_getElem h₂, Option.getD_some]

theorem nameBytes_setArchive : e.setArchive.nameBytes = e.nameBytes :=
  nameBytes_eq fun i hi => by
    rw [FatDirEntry.setArchive, FatDirEntry.mem_set _ (by omega), store_of_not_mem (by omega)]

theorem attributesRaw_setName : (e.setName sn).attributesRaw = e.attributesRaw :=
  load_congr fun i hi => by
    rw [FatDirEntry.setName, FatDirEntry.mem_ofMem _ _ (by omega), if_neg (by omega), Nat.zero_add]

theorem attributesRaw_setArchive :
    e.setArchive.attributesRaw = (e.attributesRaw ||| 0x20) % 256 :=
  FatDirEntry.load_set e (by decide)

theorem name_zero (e : FatDirEntry) : e.nameBytes.head? = some (e.name 0) := rfl

theorem shortNameFromFde_congr (h : e.nameBytes = e'.nameBytes) :
    shortNameFromFde e = shortNameFromFde e' := by
  rw [shortNameFromFde, shortNameFromFde, h]

/-- A name without a period in its bytes is not one of the names of the folder itself and of the
folder above it. -/
theorem shortNameFromFde_ne_dots (h : ∀ b ∈ e.nameBytes, b ≠ 0x2E) :
    shortNameFromFde e ≠ [0x2E] ∧ shortNameFromFde e ≠ [0x2E, 0x2E] := by
  rw [shortNameFromFde]
  have hmain : ∀ b ∈ (e.nameBytes.take 8).takeWhile (· ≠ 0x20), b ≠ 0x2E := fun b hb =>
    h b (List.mem_of_mem_take ((List.takeWhile_prefix _).subset hb))
  have hext : ∀ b ∈ (e.nameBytes.drop 8).takeWhile (· ≠ 0x20), b ≠ 0x2E := fun b hb =>
    h b (List.mem_of_mem_drop ((List.takeWhile_prefix _).subset hb))
  generalize (e.nameBytes.take 8).takeWhile (· ≠ 0x20) = mainPart at hmain ⊢
  generalize (e.nameBytes.drop 8).takeWhile (· ≠ 0x20) = extPart at hext ⊢
  cases mainPart with
  | cons b bs =>
      have hb : upper b ≠ 0x2E := fun he => hmain b (List.mem_cons_self ..) (upper_eq_dot.mp he)
      simp [hb]
  | nil =>
      cases extPart with
      | nil => simp
      | cons b bs =>
          have hb : upper b ≠ 0x2E := fun he => hext b (List.mem_cons_self ..) (upper_eq_dot.mp he)
          simp [hb]

end

end Azalea.Fat
