import Azalea.Fat.LongNames

/-!
# Fat — the long-name codec

`populate_long_name` cuts a name into entries of 13 characters, the last part first, and the constructor
of `fat_folder` puts such parts together again.  A `char` is widened with its sign, and a 16-bit
character from 256 on is dropped when it is read.

* `lfnPart_lfnEntry`: what is kept of one entry.
* `lfnBefore_run`: what is kept of a run of entries with one checksum.
* `long_codec`: the entries of a name give the name, and which runs of entries give one.
-/

namespace Azalea.Fat
open Azalea.Memory Azalea.Maps

/-! ### One entry -/

theorem toNat_word {v : Nat} (h : v < 65536) :
    (UInt8.ofNat v).toNat + 256 * (UInt8.ofNat (v / 256)).toNat = v := by
  rw [UInt8.toNat_ofNat', UInt8.toNat_ofNat']
  omega

/-- The characters of an entry are read as they were written. -/
theorem lfnChar_lfnEntry {chars : List Nat} (entryIdx checksum : Nat) (hlen : chars.length = 13)
    (h : ∀ v ∈ chars, v < 65536) :
    (List.range 13).map (lfnEntry entryIdx chars checksum).lfnChar = chars := by
  match chars, hlen with
  | [c₀, c₁, c₂, c₃, c₄, c₅, c₆, c₇, c₈, c₉, c₁₀, c₁₁, c₁₂], _ =>
    simp only [List.forall_mem_cons] at h
    obtain ⟨h₀, h₁, h₂, h₃, h₄, h₅, h₆, h₇, h₈, h₉, h₁₀, h₁₁, h₁₂, -⟩ := h
    change [_, _, _, _, _, _, _, _, _, _, _, _, _] = _
    simp only [List.cons.injEq, and_true]
    exact ⟨toNat_word h₀, toNat_word h₁, toNat_word h₂, toNat_word h₃, toNat_word h₄, toNat_word h₅,
      toNat_word h₆, toNat_word h₇, toNat_word h₈, toNat_word h₉, toNat_word h₁₀, toNat_word h₁₁,
      toNat_word h₁₂⟩

section
variable {chars : List Nat} {entryIdx checksum : Nat}

theorem name_lfnEntry : (lfnEntry entryIdx chars checksum).name 0 = UInt8.ofNat entryIdx := rfl

theorem attributesRaw_lfnEntry (hlen : chars.length = 13) :
    (lfnEntry entryIdx chars checksum).attributesRaw = 0x0F := by
  match chars, hlen with
  | [_, _, _, _, _, _, _, _, _, _, _, _, _], _ => rfl

theorem checksum_lfnEntry (hlen : chars.length = 13) :
    (lfnEntry entryIdx chars checksum).checksum = checksum % 256 := by
  match chars, hlen with
  | [_, _, _, _, _, _, _, _, _, _, _, _, _], _ =>
    change (UInt8.ofNat checksum).toNat + 256 * 0 = _
    rw [UInt8.toNat_ofNat', Nat.mul_zero, Nat.add_zero]

end

theorem generateShortNameChecksum_lt (shortName : Name) : generateShortNameChecksum shortName < 256 := by
  rw [generateShortNameChecksum]
  induction shortName using List.reverseRecOn with
  | nil => decide
  | append_singleton cs c _ =>
    rw [List.foldl_append]
    exact Nat.mod_lt _ (by decide)

section
variable {name : Name}

theorem charToU16_lt (c : UInt8) : charToU16 c < 65536 := by
  have := c.toNat_lt
  rw [charToU16]
  split <;> omega

theorem length_lfnChars (name : Name) (k : Nat) : (lfnChars name k).length = 13 := by
  have hle : (((name.drop (13 * k)).take 13).map charToU16).length ≤ 13 := by
    rw [List.length_map, List.length_take]
    exact Nat.min_le_left ..
  rw [lfnChars]
  split
  · assumption
  · rw [List.length_append, List.length_cons, List.length_replicate]
    omega

theorem lfnChars_lt (name : Name) (k : Nat) : ∀ v ∈ lfnChars name k, v < 65536 := by
  have hpart : ∀ v ∈ ((name.drop (13 * k)).take 13).map charToU16, v < 65536 := by
    intro v hv
    obtain ⟨c, -, rfl⟩ := List.mem_map.mp hv
    exact charToU16_lt c
  intro v hv
  rw [lfnChars] at hv
  split at hv
  · exact hpart v hv
  · rcases List.mem_append.mp hv with hv | hv
    · exact hpart v hv
    · rcases List.mem_cons.mp hv with rfl | hv
      · decide
      · rw [List.eq_of_mem_replicate hv]
        decide

/-- The constructor keeps the character. -/
def KeptChar (c : UInt8) : Prop := c.toNat < 128 ∧ isValidFilenameChar (charToU16 c) true = true

/-- Characters that are kept come back, and what fills up an entry does not. -/
theorem keep_chars {part : Name} (h : ∀ c ∈ part, KeptChar c) (n : Nat) :
    ((part.map charToU16 ++ if n = 0 then [] else 0 :: List.replicate (n - 1) 0xFFFF).filter fun c =>
      isValidFilenameChar c true && decide (c < 256)).map UInt8.ofNat = part := by
  have hpart : (part.map charToU16).filter
      (fun c => isValidFilenameChar c true && decide (c < 256)) = part.map charToU16 := by
    rw [List.filter_eq_self]
    intro v hv
    obtain ⟨c, hc, rfl⟩ := List.mem_map.mp hv
    obtain ⟨hlt, hvalid⟩ := h c hc
    have : charToU16 c < 256 := by rw [charToU16, if_pos hlt]; omega
    rw [hvalid, decide_eq_true this]
    rfl
  have hfill : (if n = 0 then [] else 0 :: List.replicate (n - 1) 0xFFFF).filter
      (fun c => isValidFilenameChar c true && decide (c < 256)) = [] := by
    split
    · rfl
    · rw [List.filter_cons_of_neg (by decide), List.filter_eq_nil_iff]
      intro v hv
      rw [List.eq_of_mem_replicate hv]
      decide
  rw [List.filter_append, hpart, hfill, List.append_nil, List.map_map]
  refine (List.map_congr_left fun c hc => ?_).trans (List.map_id part)
  rw [Function.comp_apply, charToU16, if_pos (h c hc).1, UInt8.ofNat_toNat, id_eq]

/-- **What is kept of one entry** is its part of the name. -/
theorem lfnPart_lfnEntry (h : ∀ c ∈ name, KeptChar c) (k entryIdx checksum : Nat) :
    lfnPart (lfnEntry entryIdx (lfnChars name k) checksum) = (name.drop (13 * k)).take 13 := by
  rw [lfnPart, lfnChar_lfnEntry _ _ (length_lfnChars name k) (lfnChars_lt name k), lfnChars]
  have hpart : ∀ c ∈ (name.drop (13 * k)).take 13, KeptChar c := fun c hc =>
    h c (List.mem_of_mem_drop (List.mem_of_mem_take hc))
  have hle : ((name.drop (13 * k)).take 13).length ≤ 13 := by
    rw [List.length_take]
    exact Nat.min_le_left ..
  rw [List.length_map]
  generalize (name.drop (13 * k)).take 13 = part at hpart hle
  split
  next hfull =>
    have := keep_chars hpart 0
    rwa [if_pos rfl, List.append_nil] at this
  next hfull =>
    have := keep_chars hpart (13 - part.length)
    rwa [if_neg (by omega), show 13 - part.length - 1 = 12 - part.length by omega] at this

/-! ### Runs of entries -/

/-- The entry is a part of a long name, in use, with the checksum. -/
structure IsPart (checksum : Nat) (x : FatDirEntry) : Prop where
  not_free : ¬ x.IsFree
  lfn : x.attributesRaw = 0x0F
  sum : x.checksum = checksum

/-- No part of a long name stands last. -/
def EndsName (es : List FatDirEntry) : Prop := ∀ x, es.getLast? = some x → x.Resets

theorem LfnState.next_of_part {checksum : Nat} {x : FatDirEntry} {st : LfnState}
    (hx : IsPart checksum x) (h : st.lastWasLfn = true → st.curLfnChecksum = checksum) :
    st.next x = ⟨lfnPart x ++ st.longName, checksum, true⟩ := by
  rw [LfnState.next, if_neg (show ¬ x.name 0 = 0xE5 from hx.not_free),
    if_pos (by simpa [FatDirEntry.isLongFnEntry] using hx.lfn), hx.sum, if_neg]
  rintro ⟨hlast, hne⟩
  exact hne (h hlast)

/-- Parts with one checksum are put together, the last one first. -/
theorem foldl_next_parts {checksum : Nat} {run : List FatDirEntry} :
    ∀ {st : LfnState}, (∀ x ∈ run, IsPart checksum x) →
      (st.lastWasLfn = true → st.curLfnChecksum = checksum) → run ≠ [] →
      run.foldl .next st = ⟨run.reverse.flatMap lfnPart ++ st.longName, checksum, true⟩ := by
  induction run with
  | nil => exact fun _ _ hne => absurd rfl hne
  | cons x run ih =>
    intro st hrun hst _
    have hx := LfnState.next_of_part (hrun x List.mem_cons_self) hst
    rw [List.foldl_cons, hx, List.reverse_cons, List.flatMap_append, List.flatMap_singleton]
    by_cases hnil : run = []
    · subst hnil
      rfl
    · rw [ih (fun y hy => hrun y (List.mem_cons_of_mem x hy)) (fun _ => rfl) hnil, List.append_assoc]

theorem lastWasLfn_lfnBefore {es : List FatDirEntry} (h : EndsName es) :
    (lfnBefore es).lastWasLfn = false := by
  rcases List.eq_nil_or_concat es with rfl | ⟨as, x, rfl⟩
  · rfl
  · rw [List.concat_eq_append] at h ⊢
    rw [lfnBefore, List.foldl_append]
    exact congrArg LfnState.lastWasLfn (LfnState.next_of_resets (h x (by simp)))

/-- **The name a run of parts gives**: theirs, if they carry the checksum of the short entry. -/
theorem lfnBefore_run {before run : List FatDirEntry} {checksum : Nat} (hbefore : EndsName before)
    (hrun : ∀ x ∈ run, IsPart checksum x) (e : FatDirEntry) :
    (lfnBefore (before ++ run)).nameOf e =
      if checksum = generateShortNameChecksum e.nameBytes then run.reverse.flatMap lfnPart else [] := by
  have hlong : (lfnBefore before).longName = [] := lfnBefore_longName hbefore
  by_cases hnil : run = []
  · subst hnil
    rw [List.append_nil, LfnState.nameOf, hlong, List.reverse_nil, List.flatMap_nil, ite_self, ite_self]
  · rw [lfnBefore, List.foldl_append]
    change (run.foldl LfnState.next (lfnBefore before)).nameOf e = _
    rw [foldl_next_parts hrun (fun h => absurd (lastWasLfn_lfnBefore hbefore ▸ h) Bool.false_ne_true)
        hnil, hlong,
      List.append_nil, LfnState.nameOf]

/-! ### The entries of a name -/

/-- The entries that `populate_long_name` makes, with the checksum of the short entry `e`. -/
def longEntries (parts : List (Nat × List Nat)) (e : FatDirEntry) : List FatDirEntry :=
  parts.map fun p => lfnEntry p.1 p.2 (generateShortNameChecksum e.nameBytes)

/-- What an accepted name is made into. -/
theorem populateLongName_parts {parts : List (Nat × List Nat)}
    (h : populateLongName name = some (some parts)) :
    ∃ n, n ≠ 0 ∧ n ≤ 21 ∧ name.length ≤ 13 * n ∧
      (∀ c ∈ name, isValidFilenameChar (charToU16 c) true = true) ∧
      parts = (List.range n).reverse.map fun k =>
        (k + 1 + if k + 1 = n then 0x40 else 0, lfnChars name k) := by
  rw [populateLongName] at h
  generalize (name.length / 13 % 256 + if name.length % 13 ≠ 0 then 1 else 0) % 256 = n at h
  split at h
  · cases h
  next hn =>
    split at h
    next hvalid =>
      split at h
      · cases h
      next hlen =>
        have htake : name.take (13 * n) = name := List.take_of_length_le (by omega)
        rw [htake, List.all_eq_true] at hvalid
        exact ⟨n, by omega, by omega, by omega, hvalid, (Option.some.inj (Option.some.inj h)).symm⟩
    · cases h

/-- The parts of 13 characters make up the name. -/
theorem flatMap_parts (name : Name) (n : Nat) :
    (List.range n).flatMap (fun k => (name.drop (13 * k)).take 13) = name.take (13 * n) := by
  induction n with
  | zero => rfl
  | succ n ih =>
    rw [List.range_succ, List.flatMap_append, ih, List.flatMap_singleton, Nat.mul_succ, List.take_add]

section
variable {parts : List (Nat × List Nat)} {e x : FatDirEntry}

theorem length_longEntries : (longEntries parts e).length = parts.length := List.length_map _

/-- The number of an entry of a name. -/
theorem number_lt {n k : Nat} (hn : n ≤ 21) (hk : k < n) :
    k + 1 + (if k + 1 = n then 0x40 else 0) < 0xE5 := by
  split <;> omega

theorem longEntries_isPart (h : populateLongName name = some (some parts))
    (hx : x ∈ longEntries parts e) : IsPart (generateShortNameChecksum e.nameBytes) x := by
  obtain ⟨n, -, hn, -, -, rfl⟩ := populateLongName_parts h
  rw [longEntries, List.map_map] at hx
  obtain ⟨k, hk, rfl⟩ := List.mem_map.mp hx
  rw [List.mem_reverse, List.mem_range] at hk
  refine ⟨fun hfree => ?_, attributesRaw_lfnEntry (length_lfnChars name k), ?_⟩
  · have hnum : (UInt8.ofNat (k + 1 + if k + 1 = n then 0x40 else 0)).toNat = 0xE5 :=
      congrArg UInt8.toNat hfree
    have := number_lt hn hk
    rw [UInt8.toNat_ofNat', Nat.mod_eq_of_lt (by omega)] at hnum
    exact absurd hnum this.ne
  · exact (checksum_lfnEntry (length_lfnChars name k)).trans
      (Nat.mod_eq_of_lt (generateShortNameChecksum_lt _))

/-- The entries are numbered down to one, and the first is marked. -/
theorem longEntries_number {i : Nat} (h : populateLongName name = some (some parts))
    (hi : (longEntries parts e)[i]? = some x) :
    x.name 0 = UInt8.ofNat (parts.length - i + if i = 0 then 0x40 else 0) := by
  obtain ⟨n, -, -, -, -, rfl⟩ := populateLongName_parts h
  rw [longEntries, List.map_map, List.getElem?_map, Option.map_eq_some_iff] at hi
  obtain ⟨k, hk, rfl⟩ := hi
  obtain ⟨hlt, rfl⟩ := List.getElem?_eq_some_iff.mp hk
  rw [List.length_reverse, List.length_range] at hlt
  rw [List.length_map, List.length_reverse, List.length_range, List.getElem_reverse,
    List.getElem_range, List.length_range]
  have hnum : n - 1 - i + 1 + (if n - 1 - i + 1 = n then 0x40 else 0) =
      n - i + if i = 0 then 0x40 else 0 := by
    split <;> split <;> omega
  exact name_lfnEntry.trans (congrArg UInt8.ofNat hnum)

/-- Put together, the parts of a name are the name. -/
theorem longEntries_name (h : populateLongName name = some (some parts))
    (hchars : ∀ c ∈ name, c.toNat < 128) : (longEntries parts e).reverse.flatMap lfnPart = name := by
  obtain ⟨n, -, -, hlen, hvalid, rfl⟩ := populateLongName_parts h
  rw [longEntries, List.map_map, ← List.map_reverse, List.reverse_reverse, List.flatMap_map]
  have hkept : ∀ c ∈ name, KeptChar c := fun c hc => ⟨hchars c hc, hvalid c hc⟩
  refine (List.flatMap_congr fun k _ => lfnPart_lfnEntry hkept k _ _).trans ?_
  rw [flatMap_parts, List.take_of_length_le hlen]

end

/-! ### The objects of the constructor -/

/-- The object of an entry. -/
theorem lookup_parsed (es : List FatDirEntry) (i : Nat) :
    (parsed es).maps.fdeToChildMap.lookup i =
      es[i]?.bind fun x => if x.IsChild then some ((parsed (es.take i)).objectOf i x) else none := by
  induction es using List.reverseRecOn with
  | nil => rfl
  | append_singleton es e ih =>
    have hother : i ≠ es.length →
        ((es ++ [e])[i]?.bind fun x =>
          if x.IsChild then some ((parsed ((es ++ [e]).take i)).objectOf i x) else none) =
        es[i]?.bind fun x => if x.IsChild then some ((parsed (es.take i)).objectOf i x) else none := by
      intro hi
      rcases Nat.lt_or_gt_of_ne hi with hlt | hgt
      · rw [List.getElem?_append_left hlt, List.take_append_of_le_length hlt.le]
      · rw [List.getElem?_eq_none (by simp; omega), List.getElem?_eq_none (by omega)]
        rfl
    have hlast : (es ++ [e])[es.length]? = some e := by simp
    have htake : (es ++ [e]).take es.length = es := List.take_left
    rw [parsed_concat]
    by_cases hc : e.IsChild
    · have hnew : (parsed es).maps.fdeToChildMap.lookup es.length = none ∨ i ≠ es.length := by
        by_cases hi : i = es.length
        · subst hi
          rw [ih, List.getElem?_eq_none (Nat.le_refl _)]
          exact .inl rfl
        · exact .inr hi
      rw [(ParseState.round_of_child hc).1, ParseState.addShort_eq.2]
      dsimp only
      by_cases hi : i = es.length
      · subst hi
        rw [lookup_insertNew (hnew.resolve_right (not_not_intro rfl)), if_pos rfl, hlast, htake,
          Option.bind_some, if_pos hc]
      · rw [hother hi, ← ih, insertNew]
        split
        · rfl
        · exact Finmap.lookup_insert_of_ne _ hi
    · rw [(ParseState.round_of_not hc).1]
      by_cases hi : i = es.length
      · subst hi
        rw [ih, hlast, List.getElem?_eq_none (Nat.le_refl _), Option.bind_some, if_neg hc]
        rfl
      · rw [hother hi, ih]

/-- **The codec for long names.**  The entries of a name carry the checksum of their short entry and are
numbered down to one, and the constructor makes the name of them. -/
structure LongCodec (name : Name) (parts : List (Nat × List Nat)) (e : FatDirEntry) : Prop where
  carries : ∀ x ∈ longEntries parts e, IsPart (generateShortNameChecksum e.nameBytes) x
  numbers : ∀ i x, (longEntries parts e)[i]? = some x →
    x.name 0 = UInt8.ofNat (parts.length - i + if i = 0 then 0x40 else 0)
  decodes : (∀ c ∈ name, c.toNat < 128) → ∀ before after : List FatDirEntry, EndsName before →
    e.IsChild → ∃ o, (parsed (before ++ longEntries parts e ++ e :: after)).maps.fdeToChildMap.lookup
      (before.length + parts.length) = some o ∧ o.longFn = name

/-- Which runs of parts the constructor takes as a name. -/
def TakenByChecksum (e : FatDirEntry) : Prop :=
  ∀ (before run : List FatDirEntry) (checksum : Nat), EndsName before →
    (∀ x ∈ run, IsPart checksum x) → (lfnBefore (before ++ run)).nameOf e =
      if checksum = generateShortNameChecksum e.nameBytes then run.reverse.flatMap lfnPart else []

/-- **Long names come back.**  A run of parts with one checksum is taken if that is the checksum of the
short entry behind it, and gives the characters of its entries, whatever their numbers are. -/
theorem long_codec {parts : List (Nat × List Nat)} (h : populateLongName name = some (some parts))
    (e : FatDirEntry) : LongCodec name parts e ∧ TakenByChecksum e := by
  refine ⟨⟨fun x hx => longEntries_isPart h hx, fun i x hi => longEntries_number h hi, ?_⟩,
    fun before run checksum hbefore hrun => lfnBefore_run hbefore hrun e⟩
  · intro hchars before after hbefore hchild
    have hrun := fun x hx => longEntries_isPart (e := e) (x := x) h hx
    have hname : (lfnBefore (before ++ longEntries parts e)).nameOf e = name := by
      rw [lfnBefore_run hbefore hrun, if_pos rfl, longEntries_name h hchars]
    have hlen : (before ++ longEntries parts e).length = before.length + parts.length := by
      rw [List.length_append, length_longEntries]
    have hne : name ≠ [] := by
      rintro rfl
      cases h
    refine ⟨(parsed (before ++ longEntries parts e)).objectOf (before.length + parts.length) e, ?_, ?_⟩
    · rw [lookup_parsed, ← hlen, List.getElem?_append_right (Nat.le_refl _), Nat.sub_self,
        List.take_left]
      exact if_pos hchild
    · rw [ParseState.objectOf, lfn_parsed, hname, if_neg hne]

/-- The name `a b`, in front of the short entry of `A_B~1`. -/
theorem long_codec_short :
    populateLongName [0x61, 0x20, 0x62] = some (some [(0x41, lfnChars [0x61, 0x20, 0x62] 0)]) ∧
      LongCodec [0x61, 0x20, 0x62] [(0x41, lfnChars [0x61, 0x20, 0x62] 0)]
        (FatDirEntry.zero.setName (padName 8 [0x41, 0x42, 0x7E, 0x31] ++ padName 3 [])) :=
  ⟨by decide +kernel, (long_codec (by decide +kernel) _).1⟩

/-- An entry that is not numbered as `populate_long_name` does it is taken too. -/
theorem entry_number_ignored :
    ¬ ∀ (name : Name) (parts : List (Nat × List Nat)) (e : FatDirEntry) (run : List FatDirEntry),
      populateLongName name = some (some parts) →
      (∀ x ∈ run, x.isLongFnEntry = true) → (lfnBefore run).nameOf e = name →
      run = longEntries parts e := by
  intro h
  have hrun := h [0x61, 0x20, 0x62] [(0x41, lfnChars [0x61, 0x20, 0x62] 0)]
    (FatDirEntry.zero.setName (padName 8 [0x41, 0x42, 0x7E, 0x31] ++ padName 3 []))
    [lfnEntry 7 (lfnChars [0x61, 0x20, 0x62] 0) (generateShortNameChecksum
      (padName 8 [0x41, 0x42, 0x7E, 0x31] ++ padName 3 []))]
    (by decide +kernel) (by decide +kernel) (by decide +kernel)
  exact absurd hrun (by decide +kernel)

end

end Azalea.Fat
