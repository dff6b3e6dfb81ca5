import Azalea.Fat.ShortNames
import Azalea.Fat.LongNameCodec

/-!
# Fat — the entries for a name

`populate_fdes_from_name` fills an array of 21 entries.  A long name needs one for each 13 characters,
one for the basis name, and the one behind that is cleared, so a name of 248 characters is too long for
the array.  The basis name is made from what is left of the name without the periods at its start and
without spaces; `add_numeric_tail` asserts that something of that stands before a period.

* `convertName_eq`: what is left of a name.
* `generateBasisNameEntry_eq_none_iff`: where the assertion fails.
* `populateFdesFromName_iff`: the names that get their entries.
* `basis_name_never`: no basis name is the one that is asked for.
-/

namespace Azalea.Fat
open Azalea.Memory

/-! ### The characters of a basis name -/

/-- The name without the periods at its start and without spaces. -/
def basisChars (name : Name) : Name := (name.dropWhile (· = 0x2E)).filter (· ≠ 0x20)

/-- The character has to be replaced. -/
def IsLostChar (c : UInt8) : Prop := c ≠ 0x2E ∧ ¬ IsShortChar c

instance (c : UInt8) : Decidable (IsLostChar c) := inferInstanceAs (Decidable (_ ∧ _))

/-- What a character is made into. -/
def convertChar (c : UInt8) : UInt8 := if IsLostChar c then 0x5F else upper c

/-- Something of the name is not in the basis name. -/
def LosesChars (name : Name) : Prop := name.head? = some 0x2E ∨ ∃ c ∈ basisChars name, IsLostChar c

/-- Nothing is left of the name before a period. -/
def NoBase (name : Name) : Prop := ∀ c, (basisChars name).head? = some c → c = 0x2E

instance (name : Name) : Decidable (LosesChars name) := inferInstanceAs (Decidable (_ ∨ _))

instance (name : Name) : Decidable (NoBase name) :=
  decidable_of_iff ((basisChars name).head?.all (· == 0x2E) = true) (by simp [NoBase, Option.all_eq_true])

/-- What the first loop leaves of a name. -/
def converted (name : Name) : Converted := convertName name true ⟨[], 0, false⟩

/-- The main part of a basis name, before a tail is added. -/
def basisMain (name : Name) : Name := ((converted name).buffer.take 8).takeWhile (· ≠ 0x2E)

/-- The extension of a basis name. -/
def basisExt (name : Name) : Name :=
  ((converted name).buffer.drop (converted name).lastPeriodPosition).take 3

/-- The entry with a basis name, before a tail is added. -/
def basisEntry (name : Name) : FatDirEntry :=
  FatDirEntry.zero.setName (padName 8 (basisMain name) ++ padName 3 (basisExt name))

section
variable {name cs : Name} {st : Converted}

/-- Behind the periods at the start, one character after the other is converted. -/
theorem convertName_false : (convertName cs false st).buffer =
      st.buffer ++ (cs.filter (· ≠ 0x20)).map convertChar ∧
    ((convertName cs false st).lossyConversion = true ↔
      st.lossyConversion = true ∨ ∃ c ∈ cs.filter (· ≠ 0x20), IsLostChar c) := by
  induction cs generalizing st with
  | nil => simp [convertName]
  | cons c cs ih =>
    rw [convertName, if_neg (by simp)]
    by_cases hspace : c = 0x20
    · rw [if_pos hspace, List.filter_cons_of_neg (by simpa using hspace)]
      exact ih
    · rw [if_neg hspace, List.filter_cons_of_pos (by simpa using hspace)]
      have hlost : (c ≠ 0x2E ∧ isValidFilenameChar (charToU16 c) false = false) ↔ IsLostChar c := by
        rw [IsLostChar, IsShortChar, Bool.not_eq_true]
      simp only [hlost]
      obtain ⟨hbuffer, hlossy⟩ := @ih ⟨st.buffer ++ [if IsLostChar c then 0x5F else upper c],
        if c = 0x2E then st.buffer.length else st.lastPeriodPosition,
        st.lossyConversion || decide (IsLostChar c)⟩
      refine ⟨?_, ?_⟩
      · rw [hbuffer, List.append_assoc, List.map_cons]
        rfl
      · rw [hlossy, Bool.or_eq_true, decide_eq_true_iff, List.exists_mem_cons_iff, or_assoc]

/-- The periods at the start are passed over. -/
theorem convertName_true : convertName name true st =
    convertName (name.dropWhile (· = 0x2E)) false
      { st with lossyConversion := st.lossyConversion || decide (name.head? = some 0x2E) } := by
  induction name generalizing st with
  | nil => simp [convertName]
  | cons c cs ih =>
    by_cases hdot : c = 0x2E
    · rw [convertName, if_pos ⟨hdot, rfl⟩, ih, List.dropWhile_cons_of_pos (by simpa using hdot)]
      simp [hdot]
    · have hsame : convertName (c :: cs) true st = convertName (c :: cs) false st := by
        rw [convertName, if_neg fun h => hdot h.1]
        conv_rhs => rw [convertName, if_neg fun h => hdot h.1]
      have hhead : decide ((c :: cs).head? = some 0x2E) = false := by simpa using hdot
      rw [hsame, List.dropWhile_cons_of_neg (by simpa using hdot), hhead, Bool.or_false]

/-- **What is left of a name.** -/
theorem converted_eq : (converted name).buffer = (basisChars name).map convertChar ∧
    ((converted name).lossyConversion = true ↔ LosesChars name) := by
  obtain ⟨hbuffer, hlossy⟩ := @convertName_false (name.dropWhile (· = 0x2E))
    ⟨[], 0, false || decide (name.head? = some 0x2E)⟩
  rw [converted, convertName_true]
  refine ⟨hbuffer, hlossy.trans ?_⟩
  rw [Bool.false_or, decide_eq_true_iff]
  rfl

theorem convertChar_eq_dot {c : UInt8} : convertChar c = 0x2E ↔ c = 0x2E := by
  rw [convertChar]
  split
  next hlost => exact ⟨fun h => absurd h (by decide), fun h => absurd h hlost.1⟩
  · exact upper_eq_dot

/-- There is no main part if nothing is left before a period. -/
theorem basisMain_eq_nil_iff : basisMain name = [] ↔ NoBase name := by
  rw [basisMain, converted_eq.1, NoBase]
  cases basisChars name with
  | nil => simp
  | cons c cs =>
    rw [List.map_cons, List.take_succ_cons]
    by_cases hdot : convertChar c = 0x2E
    · have hc := convertChar_eq_dot.mp hdot
      subst hc
      simp [hdot]
    · have : c ≠ 0x2E := fun h => hdot (convertChar_eq_dot.mpr h)
      simp [hdot, this]

theorem length_basisMain_le : (basisMain name).length ≤ 8 :=
  (List.takeWhile_prefix _).length_le.trans (List.length_take_le 8 _)

theorem length_basisExt_le : (basisExt name).length ≤ 3 := List.length_take_le 3 _

end

/-! ### Numeric tails -/

section
variable {σ : Type} (getDirEntry : σ → Name → Bool × σ) {name : Name}

/-- The basis name without a tail is in use. -/
def BasisUsed (s : σ) (name : Name) : Prop :=
  (getDirEntry s (shortNameFromFde (basisEntry name))).1 = true

instance (s : σ) (name : Name) : Decidable (BasisUsed getDirEntry s name) :=
  inferInstanceAs (Decidable (_ = true))

/-- A tail is added if a character was lost, or if the name is in use. -/
theorem generateBasisNameEntry_eq (s : σ) : generateBasisNameEntry getDirEntry s name =
    if LosesChars name ∨ BasisUsed getDirEntry s name then
      tryNumericTails getDirEntry (basisMain name).length 999999 1 (basisEntry name)
        (getDirEntry s (shortNameFromFde (basisEntry name))).2
    else some (some (basisEntry name), (getDirEntry s (shortNameFromFde (basisEntry name))).2) := by
  have hcond : ((converted name).lossyConversion ||
      (getDirEntry s (shortNameFromFde (basisEntry name))).1) = true ↔
      LosesChars name ∨ BasisUsed getDirEntry s name := by
    rw [Bool.or_eq_true, converted_eq.2]
    rfl
  rw [← if_congr hcond rfl rfl]
  rfl

/-- Six digits are enough for a tail. -/
theorem length_decimal_le {n : Nat} (h : n < 1000000) : (decimal n).length ≤ 6 := by
  rw [decimal, List.length_map]
  exact (Nat.length_toDigits_le_iff (by decide) (by decide)).mpr h

theorem addNumericTail_isSome {n suffix : Nat} (hn : 1 ≤ n ∧ n ≤ 8) (hs : suffix < 1000000)
    (bytes : Name) : (addNumericTail bytes n suffix).isSome = true := by
  have := length_decimal_le hs
  rw [addNumericTail, if_neg (not_not_intro hn), if_neg (not_not_intro hs)]
  dsimp only
  rw [if_neg (by omega)]
  rfl

theorem addNumericTail_zero (bytes : Name) (suffix : Nat) : addNumericTail bytes 0 suffix = none := by
  rw [addNumericTail, if_pos (by omega)]

/-- With a main part, tails are tried without an assertion that fails, and only the name changes. -/
theorem tryNumericTails_spec {n : Nat} (hn : 1 ≤ n ∧ n ≤ 8) {fuel suffix : Nat}
    (h : suffix + fuel ≤ 1000000) {entry : FatDirEntry} {s : σ} :
    ∃ r s', tryNumericTails getDirEntry n fuel suffix entry s = some (r, s') ∧
      ∀ e ∈ r, e.attributesRaw = entry.attributesRaw := by
  induction fuel generalizing suffix entry s with
  | zero => exact ⟨none, s, rfl, nofun⟩
  | succ fuel ih =>
    obtain ⟨bytes, hbytes⟩ := Option.isSome_iff_exists.mp
      (addNumericTail_isSome hn (show suffix < 1000000 by omega) entry.nameBytes)
    rw [tryNumericTails, hbytes]
    dsimp only
    split
    · obtain ⟨r, s', hr, hattr⟩ := @ih (suffix + 1) (show suffix + 1 + fuel ≤ 1000000 by omega)
        (entry.setName bytes) _
      refine ⟨r, s', hr, fun e he => (hattr e he).trans attributesRaw_setName⟩
    · exact ⟨_, _, rfl, fun e he => by rw [← Option.some.inj he]; exact attributesRaw_setName⟩

/-- The assertion fails if a tail is needed and there is no main part. -/
theorem generateBasisNameEntry_spec (s : σ) :
    if NoBase name ∧ (LosesChars name ∨ BasisUsed getDirEntry s name) then
      generateBasisNameEntry getDirEntry s name = none
    else ∃ r s', generateBasisNameEntry getDirEntry s name = some (r, s') ∧
      ∀ e ∈ r, e.attributesRaw = 0 := by
  rw [generateBasisNameEntry_eq]
  have hzero : (basisEntry name).attributesRaw = 0 := attributesRaw_setName.trans (by decide +kernel)
  split
  next h =>
    rw [if_pos h.2, basisMain_eq_nil_iff.mpr h.1, List.length_nil, tryNumericTails, addNumericTail_zero]
  next h =>
    by_cases htail : LosesChars name ∨ BasisUsed getDirEntry s name
    · rw [if_pos htail]
      have hmain : 1 ≤ (basisMain name).length :=
        List.length_pos_iff.mpr fun hnil => h ⟨basisMain_eq_nil_iff.mp hnil, htail⟩
      obtain ⟨r, s', hr, hattr⟩ := @tryNumericTails_spec _ getDirEntry _ ⟨hmain, length_basisMain_le⟩
        999999 1 (by decide) (basisEntry name)
        (getDirEntry s (shortNameFromFde (basisEntry name))).2
      exact ⟨r, s', hr, fun e he => (hattr e he).trans hzero⟩
    · rw [if_neg htail]
      exact ⟨_, _, rfl, fun e he => by rw [← Option.some.inj he]; exact hzero⟩

end

/-! ### The entries of a long name -/

section
variable {name : Name} {e : FatDirEntry}

/-- What stands behind a name that ends within an entry: a zero, and then `0xFFFF`. -/
def nameFill (name : Name) : List Nat :=
  if name.length % 13 = 0 then [] else 0 :: List.replicate (12 - name.length % 13) 0xFFFF

/-- The entries hold a name, in front of the short entry `e`. -/
structure HoldsName (name : Name) (e : FatDirEntry) (run : List FatDirEntry) : Prop where
  parts : ∀ x ∈ run, IsPart (generateShortNameChecksum e.nameBytes) x
  count : run.length = (name.length + 12) / 13
  numbers : ∀ i x, run[i]? = some x →
    x.name 0 = UInt8.ofNat (run.length - i + if i = 0 then 0x40 else 0)
  chars : run.reverse.flatMap (fun x => (List.range 13).map x.lfnChar) =
    name.map charToU16 ++ nameFill name

/-- The number of entries, in 8 bits. -/
def numEntries (name : Name) : Nat :=
  (name.length / 13 % 256 + if name.length % 13 ≠ 0 then 1 else 0) % 256

theorem populateLongName_eq : populateLongName name =
    if numEntries name = 0 ∨ numEntries name > 21 then none
    else if (name.take (13 * numEntries name)).all fun c => isValidFilenameChar (charToU16 c) true then
      if name.length > 13 * numEntries name then none
      else some (some ((List.range (numEntries name)).reverse.map fun k =>
        (k + 1 + if k + 1 = numEntries name then 0x40 else 0, lfnChars name k)))
    else some none := by
  rw [populateLongName]
  rfl

/-- An invalid character is found before an access goes wrong. -/
structure RefusedName (name : Name) : Prop where
  pos : numEntries name ≠ 0
  le : numEntries name ≤ 21
  invalid : ∃ c ∈ name.take (13 * numEntries name), ¬ isValidFilenameChar (charToU16 c) true = true

theorem populateLongName_eq_none_iff : populateLongName name = some none ↔ RefusedName name := by
  rw [populateLongName_eq]
  constructor
  · intro h
    split at h
    · cases h
    next hn =>
      split at h
      · split at h <;> cases h
      next hvalid =>
        rw [List.all_eq_true] at hvalid
        push Not at hvalid
        exact ⟨by omega, by omega, hvalid⟩
  · rintro ⟨hpos, hle, c, hc, hinvalid⟩
    rw [if_neg (by omega), if_neg fun h => hinvalid (List.all_eq_true.mp h c hc)]

theorem length_of_parts {parts : List (Nat × List Nat)}
    (h : populateLongName name = some (some parts)) :
    parts.length = numEntries name ∧ name.length ≤ 13 * parts.length := by
  rw [populateLongName_eq] at h
  split at h
  · cases h
  · split at h
    · split at h
      · cases h
      next hlen =>
        have hparts : parts.length = numEntries name := by
          rw [← Option.some.inj (Option.some.inj h), List.length_map, List.length_reverse,
            List.length_range]
        exact ⟨hparts, hparts ▸ Nat.le_of_not_gt hlen⟩
    · cases h

theorem populateLongName_of_valid (hshort : populateShortName name = none)
    (hlen : name.length ≤ 247) (hvalid : ∀ c ∈ name, isValidFilenameChar (charToU16 c) true = true) :
    ((populateLongName name).bind id).isSome = true := by
  have hne : name.length ≠ 0 := by
    intro hnil
    rw [List.length_eq_zero_iff.mp hnil] at hshort
    cases hshort
  have hnum : numEntries name = (name.length + 12) / 13 := by
    rw [numEntries]
    split <;> omega
  rw [populateLongName_eq, hnum, if_neg (by omega),
    if_pos (List.all_eq_true.mpr fun c hc => hvalid c (List.mem_of_mem_take hc)), if_neg (by omega)]
  rfl

/-- The characters of the parts are those of the name, filled up. -/
theorem flatMap_lfnChars {m : Nat} (hlt : 13 * m < name.length) (hle : name.length ≤ 13 * (m + 1)) :
    (List.range (m + 1)).flatMap (lfnChars name) = name.map charToU16 ++ nameFill name := by
  have hfull : ∀ k ∈ List.range m,
      lfnChars name k = ((name.drop (13 * k)).take 13).map charToU16 := by
    intro k hk
    rw [List.mem_range] at hk
    have : 13 * k + 13 ≤ 13 * m := by omega
    rw [lfnChars, if_pos]
    rw [List.length_map, List.length_take, List.length_drop]
    omega
  have hlast : (name.drop (13 * m)).take 13 = name.drop (13 * m) :=
    List.take_of_length_le (by rw [List.length_drop]; omega)
  have hchars : lfnChars name m = (name.drop (13 * m)).map charToU16 ++ nameFill name := by
    rw [lfnChars, hlast, List.length_map, List.length_drop, nameFill]
    by_cases hmod : name.length % 13 = 0
    · rw [if_pos (by omega), if_pos hmod, List.append_nil]
    · rw [if_neg (by omega), if_neg hmod, show 12 - (name.length - 13 * m) = 12 - name.length % 13 by omega]
  rw [List.range_succ, List.flatMap_append, List.flatMap_singleton, List.flatMap_congr hfull, hchars,
    ← List.append_assoc, ← List.map_flatMap, flatMap_parts, ← List.map_append, List.take_append_drop]

/-- **The entries that `populate_long_name` makes hold the name.** -/
theorem holdsName_longEntries {parts : List (Nat × List Nat)}
    (h : populateLongName name = some (some parts)) (hlen : name.length ≤ 247) :
    HoldsName name e (longEntries parts e) := by
  obtain ⟨hnum, hle⟩ := length_of_parts h
  have hne : name.length ≠ 0 := by
    intro hnil
    rw [List.length_eq_zero_iff.mp hnil] at h
    cases h
  have hcount : parts.length = (name.length + 12) / 13 := by
    rw [hnum, numEntries]
    split <;> omega
  refine ⟨fun x hx => longEntries_isPart h hx, length_longEntries.trans hcount, fun i x hi => ?_, ?_⟩
  · rw [length_longEntries]
    exact longEntries_number h hi
  · obtain ⟨n, -, -, -, -, rfl⟩ := populateLongName_parts h
    rw [List.length_map, List.length_reverse, List.length_range] at hcount hle
    obtain ⟨m, rfl⟩ : ∃ m, n = m + 1 := ⟨n - 1, by omega⟩
    rw [longEntries, List.map_map, ← List.map_reverse, List.reverse_reverse, List.flatMap_map,
      ← flatMap_lfnChars (m := m) (by omega) hle]
    exact List.flatMap_congr fun k _ =>
      lfnChar_lfnEntry _ _ (length_lfnChars name k) (lfnChars_lt name k)

/-- The entries written for a name: the short entry alone, or behind those that hold the name. -/
inductive WrittenFor (name : Name) : List FatDirEntry → Prop where
  | short (base ext : Name) (e : FatDirEntry) (parts : Parts name base ext) (fits : Fits base ext)
      (bytes : e.nameBytes = shortBytes base ext) (kind : e.attributesRaw ≠ 0x0F) :
      WrittenFor name [e]
  | long (run : List FatDirEntry) (e : FatDirEntry) (holds : HoldsName name e run)
      (kind : e.attributesRaw ≠ 0x0F) : WrittenFor name (run ++ [e])

end

section
variable {σ : Type} (getDirEntry : σ → Name → Bool × σ) {s : σ} {name : Name}

/-- `populate_fdes_from_name` comes to its end, and what it has written is right if it succeeds. -/
def FdesRight (s : σ) (name : Name) : Prop :=
  ∃ r s', populateFdesFromName getDirEntry s name = some (r, s') ∧
    ∀ p ∈ r, p.fdes.length ≤ 21 ∧ WrittenFor name p.fdes

/-- A name that can have its entries: its parts, the basis name and the one behind it have room, and
something stands before a period where a tail is needed. -/
structure HasEntries (s : σ) (name : Name) : Prop where
  length_le : name.length ≤ 247
  valid : ∀ c ∈ name, isValidFilenameChar (charToU16 c) true = true
  base : ¬ (NoBase name ∧ (LosesChars name ∨ BasisUsed getDirEntry s name))

theorem fdesRight_short {sn : Name} (h : populateShortName name = some sn) :
    FdesRight getDirEntry s name := by
  obtain ⟨base, ext, hparts, hfits, rfl⟩ := populateShortName_iff.mp h
  refine ⟨_, s, by rw [populateFdesFromName, h], fun p hp => ?_⟩
  rw [← Option.some.inj hp]
  have hbytes := nameBytes_setName (e := FatDirEntry.zero) (populateShortName_bytes h).1
  refine ⟨Nat.le_of_ble_eq_true rfl, .short base ext _ hparts hfits (nameBytes_setArchive.trans hbytes) ?_⟩
  rw [attributesRaw_setArchive, attributesRaw_setName]
  decide +kernel

/-- A name of valid characters has its entries, or too many parts, or no base for its tail. -/
theorem fdesRight_long (h : populateShortName name = none) {parts : List (Nat × List Nat)}
    (hparts : populateLongName name = some (some parts)) :
    FdesRight getDirEntry s name ↔ HasEntries getDirEntry s name := by
  obtain ⟨-, -, -, -, hvalid, -⟩ := populateLongName_parts hparts
  obtain ⟨hnum, hle⟩ := length_of_parts hparts
  have hspec := @generateBasisNameEntry_spec _ getDirEntry name s
  rw [FdesRight, populateFdesFromName, h, hparts]
  dsimp only
  constructor
  · rintro ⟨r, s', hr, -⟩
    split at hr
    · cases hr
    next hroom =>
      refine ⟨by omega, hvalid, fun hbase => ?_⟩
      rw [if_pos hbase] at hspec
      rw [hspec] at hr
      cases hr
  · intro hhas
    have hroom : ¬ parts.length + 1 > 20 := by
      have := hhas.length_le
      rw [hnum, numEntries]
      split <;> omega
    rw [if_neg hhas.base] at hspec
    obtain ⟨r, s', hr, hattr⟩ := hspec
    rw [if_neg hroom, hr]
    cases r with
    | none => exact ⟨none, s', rfl, nofun⟩
    | some basis =>
      refine ⟨_, s', rfl, fun p hp => ?_⟩
      rw [← Option.some.inj hp]
      refine ⟨?_, .long _ basis (holdsName_longEntries hparts hhas.length_le) ?_⟩
      · dsimp only
        rw [List.length_append, List.length_map, List.length_singleton]
        omega
      · rw [hattr basis rfl]
        decide

/-- **The names that get their entries**: a short name, one that is refused, and a name of at most 247
valid characters, unless it needs a tail and has nothing before a period. -/
theorem fdesRight_iff (s : σ) (name : Name) : FdesRight getDirEntry s name ↔
    (populateShortName name).isSome = true ∨ RefusedName name ∨ HasEntries getDirEntry s name := by
  cases hshort : populateShortName name with
  | some sn => exact iff_of_true (fdesRight_short getDirEntry hshort) (.inl rfl)
  | none =>
    rw [Option.isSome_none, Bool.false_eq_true, false_or]
    cases hlong : populateLongName name with
    | none =>
      refine iff_of_false ?_ ?_
      · rintro ⟨r, s', hr, -⟩
        rw [populateFdesFromName, hshort, hlong] at hr
        cases hr
      · rintro (hrefused | hhas)
        · rw [populateLongName_eq_none_iff.mpr hrefused] at hlong
          cases hlong
        · have := populateLongName_of_valid hshort hhas.length_le hhas.valid
          rw [hlong] at this
          cases this
    | some r =>
      cases r with
      | none =>
        refine iff_of_true ⟨none, s, ?_, nofun⟩ (.inl (populateLongName_eq_none_iff.mp hlong))
        rw [populateFdesFromName, hshort, hlong]
      | some parts =>
        rw [fdesRight_long getDirEntry hshort hlong, or_iff_right]
        intro hrefused
        rw [populateLongName_eq_none_iff.mpr hrefused] at hlong
        cases hlong

end

/-- For a name of four periods the assertion of `add_numeric_tail` fails. -/
theorem periods_only_fail :
    ¬ ∀ (s : FolderMaps) (name : Name), FdesRight FolderMaps.isInUse s name := by
  intro h
  obtain ⟨r, s', hr, -⟩ := h FolderMaps.empty [0x2E, 0x2E, 0x2E, 0x2E]
  have hnone : (populateFdesFromName FolderMaps.isInUse FolderMaps.empty
    [0x2E, 0x2E, 0x2E, 0x2E]).isNone = true := by decide +kernel
  rw [hr] at hnone
  cases hnone

end Azalea.Fat
