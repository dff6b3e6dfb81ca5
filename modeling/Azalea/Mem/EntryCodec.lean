import Azalea.Mem.PageMap

/-!
# Mem — encoded page table entries

`mem_encode_page_table_entry` puts the address and the flags of an entry side by side in a word, and
`mem_decode_page_table_entry` takes the word apart.  The word has room for the bits of an address up
to 50, so bit 51 is lost; and the assertion that keeps the upper half of the cache modes from the
entries for tables is made of the entries for pages.

* `encode_decode_iff`: which entries come back from their words; every word comes back.
-/

namespace Azalea.Mem

/-- `MEM_X64_CACHE_TYPES::WRITE_PROTECTED`. -/
def cacheWriteProtected : Nat := 5

namespace PageTableEntry

/-- An entry that the mapping interface can ask for.  Only an entry for a page can have a cache mode
that is in the upper half of the table of modes. -/
structure Requestable (pte : PageTableEntry) : Prop where
  lt : pte.targetAddr.toNat < 2 ^ 52
  aligned : pte.targetAddr.toNat % (if pte.endOfTree then 2097152 else 4096) = 0
  cache : CacheModeOk pte.cacheType ∨ pte.endOfTree = true ∧ pte.cacheType = cacheWriteProtected

/-- The word of the entry can be made, and the entry comes back from it. -/
def RoundTrips (pte : PageTableEntry) : Prop :=
  ∃ e, memEncodePageTableEntry pte = some e ∧ memDecodePageTableEntry e = some pte

/-- The bits of a cache mode of the lower half. -/
def cacheFlags : Nat → BitVec 64
  | 0 => 0x18
  | 1 => 0x10
  | 4 => 0x08
  | _ => 0

/-- The word of an entry, but for the address. -/
def flagBits (present writable userMode endOfTree : Bool) (cacheType : Nat) : BitVec 64 :=
  (if endOfTree then 0x80#64 else 0) |||
    ((if present then 0x01#64 else 0) |||
      ((if writable then 0x02#64 else 0) |||
        ((if userMode then 0x04#64 else 0) ||| cacheFlags cacheType)))

@[inherit_doc flagBits] def flags (pte : PageTableEntry) : BitVec 64 :=
  flagBits pte.present pte.writable pte.userMode pte.endOfTree pte.cacheType

/-- The bits of an address that are taken from a word. -/
def addrMask (pte : PageTableEntry) : BitVec 64 :=
  if pte.endOfTree then 0x0007FFFFFFF00000#64 else 0x0007FFFFFFFFF000#64

end PageTableEntry

section
variable {pte : PageTableEntry} {e : BitVec 64} {cacheType : Nat}

open PageTableEntry

/-- Bits that are clear are clear in a smaller mask. -/
theorem and_of_and {t m c : BitVec 64} (h : t &&& m = 0#64) (hmc : m &&& c = c) : t &&& c = 0#64 := by
  rw [← hmc, ← BitVec.and_assoc, h, BitVec.zero_and]

/-- A cache mode of the lower half has an index there, and its bits. -/
theorem memX64PatGetVal_low (h : CacheModeOk cacheType) (firstHalf : Bool) :
    ∃ pat, memX64PatGetVal cacheType firstHalf = some pat ∧ pat < 4 ∧ pat &&& 0x04 = 0 ∧
      ((pat &&& 0x03) <<< 3).setWidth 64 = cacheFlags cacheType := by
  rcases h with rfl | rfl | rfl | rfl
  all_goals exact ⟨_, rfl, by decide, by decide, by decide⟩

/-- An index of any other mode is one of the upper half, which an entry for a table cannot have. -/
theorem memX64PatGetVal_high (h : ¬ CacheModeOk cacheType) {firstHalf : Bool} {pat : BitVec 8}
    (hpat : memX64PatGetVal cacheType firstHalf = some pat) : firstHalf = false ∧ ¬ pat < 4 := by
  unfold memX64PatGetVal at hpat
  split at hpat
  case h_4 =>
    split at hpat
    next => cases hpat
    next hhalf => exact ⟨Bool.eq_false_iff.mpr hhalf, Option.some.inj hpat ▸ by decide⟩
  case h_6 => cases hpat
  all_goals exact absurd (by decide) h

/-- **The word of an entry.**  The upper half of the cache modes is not accepted. -/
theorem memEncodePageTableEntry_eq_some :
    memEncodePageTableEntry pte = some e ↔
      CacheModeOk pte.cacheType ∧
        (pte.endOfTree = true → pte.targetAddr &&& 0x00000000000FF000#64 = 0#64) ∧
        e = pte.targetAddr &&& 0x0007FFFFFFFFF000#64 ||| pte.flags := by
  unfold memEncodePageTableEntry
  by_cases hmode : CacheModeOk pte.cacheType
  · obtain ⟨pat, hpat, hlt, hhigh, hlow⟩ := memX64PatGetVal_low hmode (!pte.endOfTree)
    simp only [hpat, Option.bind_eq_bind, Option.bind_some]
    have hupper : ¬ (pte.endOfTree = true ∧ pat &&& 0x04 ≠ 0) := fun h => h.2 hhigh
    rw [if_neg fun h => h.2 hlt, if_neg hupper, hlow]
    by_cases hal : pte.endOfTree ∧ pte.targetAddr &&& 0x00000000000FF000#64 ≠ 0
    · rw [if_pos hal]
      exact iff_of_false nofun fun h => hal.2 (h.2.1 hal.1)
    · have hal' : pte.endOfTree = true → pte.targetAddr &&& 0x00000000000FF000#64 = 0#64 :=
        fun hend => not_not.mp fun h => hal ⟨hend, h⟩
      rw [if_neg hal, Option.some.injEq, and_iff_right hmode, and_iff_right hal', eq_comm, flags,
        flagBits]
      simp only [BitVec.or_assoc]
  · refine iff_of_false (fun h => ?_) fun h => hmode h.1
    obtain ⟨pat, hpat, h⟩ := Option.bind_eq_some_iff.mp h
    obtain ⟨hend, hlt⟩ := memX64PatGetVal_high hmode hpat
    rw [if_pos ⟨by simpa using hend, hlt⟩] at h
    cases h

/-- The flags have their own bits of a word. -/
theorem flagBits_spec (h : CacheModeOk cacheType) (present writable userMode endOfTree : Bool) :
    let f := flagBits present writable userMode endOfTree cacheType
    (f &&& 0x80#64 != 0) = endOfTree ∧ (f &&& 0x01#64 != 0) = present ∧
      (f &&& 0x02#64 != 0) = writable ∧ (f &&& 0x04#64 != 0) = userMode ∧
      memX64PatDecode (((f &&& 0x18#64) >>> 3).setWidth 8) = some cacheType ∧
      f &&& 0x1000#64 = 0#64 ∧ f &&& 0x0007FFFFFFFFF000#64 = 0#64 := by
  revert present writable userMode endOfTree
  rcases h with rfl | rfl | rfl | rfl
  all_goals decide +kernel

/-- **An encoded entry, decoded.**  It is the entry, but for bits of the address. -/
theorem memDecodePageTableEntry_encoded (h : memEncodePageTableEntry pte = some e) :
    memDecodePageTableEntry e = some { pte with targetAddr := pte.targetAddr &&& pte.addrMask } := by
  obtain ⟨hmode, hal, rfl⟩ := memEncodePageTableEntry_eq_some.mp h
  obtain ⟨hend, hpresent, hwritable, huser, hpat, hupper, haddr⟩ :=
    flagBits_spec hmode pte.present pte.writable pte.userMode pte.endOfTree
  rw [← flags] at hend hpresent hwritable huser hpat hupper haddr
  have hpat' : ¬ (pte.endOfTree = true ∧
      (pte.targetAddr &&& 0x0007FFFFFFFFF000#64 ||| pte.flags) &&& 0x1000#64 ≠ 0) := by
    rintro ⟨htree, hbit⟩
    rw [addr_and (by decide) hupper] at hbit
    exact hbit (and_of_and (hal htree) (by decide))
  unfold memDecodePageTableEntry
  simp only [flags_and (show 0x0007FFFFFFFFF000#64 &&& 0x80#64 = 0#64 by decide),
    flags_and (show 0x0007FFFFFFFFF000#64 &&& 0x01#64 = 0#64 by decide),
    flags_and (show 0x0007FFFFFFFFF000#64 &&& 0x02#64 = 0#64 by decide),
    flags_and (show 0x0007FFFFFFFFF000#64 &&& 0x04#64 = 0#64 by decide),
    flags_and (show 0x0007FFFFFFFFF000#64 &&& 0x18#64 = 0#64 by decide),
    hend, hpresent, hwritable, huser, if_neg hpat', hpat, Option.bind_eq_bind, Option.bind_some]
  refine congrArg (fun t => some { pte with targetAddr := t }) ?_
  rw [addrMask]
  split
  next => exact addr_and (by decide) (and_of_and haddr (by decide))
  next => exact addr_and (by decide) haddr

/-- **A word that has been made is made again of what it decodes to.** -/
theorem memEncodePageTableEntry_decoded (h : memEncodePageTableEntry pte = some e) :
    memEncodePageTableEntry { pte with targetAddr := pte.targetAddr &&& pte.addrMask } = some e := by
  obtain ⟨hmode, hal, rfl⟩ := memEncodePageTableEntry_eq_some.mp h
  refine memEncodePageTableEntry_eq_some.mpr ⟨hmode, fun hend => ?_, congrArg (· ||| pte.flags) ?_⟩
  · dsimp only at hend ⊢
    rw [addrMask, if_pos hend, BitVec.and_assoc]
    exact BitVec.and_zero
  · dsimp only
    rw [addrMask, BitVec.and_assoc]
    split
    next hend =>
      -- the bits that only an entry for a table keeps are clear
      rw [show 0x0007FFFFFFFFF000#64 = 0x0007FFFFFFF00000#64 ||| 0x00000000000FF000#64 by decide,
        BitVec.and_or_distrib_left, hal hend]
      simp
    next => simp

/-- Below bit 51 an address that is aligned is in the mask, and bit 51 is not. -/
theorem and_addrMask_eq_self
    (hal : pte.targetAddr.toNat % (if pte.endOfTree then 2097152 else 4096) = 0) :
    pte.targetAddr &&& pte.addrMask = pte.targetAddr ↔ pte.targetAddr.toNat < 2 ^ 51 := by
  constructor
  · intro h
    rw [← h, BitVec.toNat_and, addrMask]
    refine Nat.lt_of_le_of_lt Nat.and_le_right ?_
    split <;> decide
  · intro hlt
    rw [addrMask]
    split
    next hend =>
      rw [if_pos hend] at hal
      exact and_field 20 31 (by omega) hlt (by decide)
    next hend =>
      rw [if_neg hend] at hal
      exact and_field 12 39 hal hlt (by decide)

/-- **An entry comes back from its word just when its address is below bit 51 and it does not ask
for `WRITE_PROTECTED`.**  Every word that has been made decodes, to an entry that has this word. -/
theorem encode_decode_iff (pte : PageTableEntry) (h : pte.Requestable) :
    (pte.RoundTrips ↔ pte.targetAddr.toNat < 2 ^ 51 ∧ pte.cacheType ≠ cacheWriteProtected) ∧
      ∀ made e, memEncodePageTableEntry made = some e →
        ∃ decoded, memDecodePageTableEntry e = some decoded ∧
          memEncodePageTableEntry decoded = some e := by
  refine ⟨⟨?_, ?_⟩, fun made e hmade =>
    ⟨_, memDecodePageTableEntry_encoded hmade, memEncodePageTableEntry_decoded hmade⟩⟩
  · rintro ⟨e, henc, hdec⟩
    obtain ⟨hmode, -, -⟩ := memEncodePageTableEntry_eq_some.mp henc
    rw [memDecodePageTableEntry_encoded henc] at hdec
    have haddr := congrArg PageTableEntry.targetAddr (Option.some.inj hdec)
    refine ⟨(and_addrMask_eq_self h.aligned).mp haddr, fun hwp => ?_⟩
    rw [hwp] at hmode
    revert hmode
    decide
  · rintro ⟨hlt, hwp⟩
    have hmode : CacheModeOk pte.cacheType := h.cache.resolve_right fun hw => hwp hw.2
    have henc := memEncodePageTableEntry_eq_some.mpr ⟨hmode, fun hend => ?_, rfl⟩
    · refine ⟨_, henc, ?_⟩
      rw [memDecodePageTableEntry_encoded henc, (and_addrMask_eq_self h.aligned).mpr hlt]
    · have hal := h.aligned
      rw [if_pos hend] at hal
      rw [← and_field (m := 0x0007FFFFFFE00000#64) 21 30 hal hlt (by decide), BitVec.and_assoc]
      exact BitVec.and_zero

theorem encode_decode_iff_page :
    (pageEntry 0x200000 false cacheWriteBack).RoundTrips :=
  (encode_decode_iff (pageEntry 0x200000 false cacheWriteBack)
    ⟨by decide, by decide, .inl (by decide)⟩).1.mpr ⟨by decide, by decide⟩

/-- A page can be asked to be write protected, and one can lie at bit 51. -/
theorem page_not_roundTrip :
    ((pageEntry 0x200000 true cacheWriteProtected).Requestable ∧
        ¬ (pageEntry 0x200000 true cacheWriteProtected).RoundTrips) ∧
      ((pageEntry 0x8000000000000 true cacheWriteBack).Requestable ∧
        ¬ (pageEntry 0x8000000000000 true cacheWriteBack).RoundTrips) := by
  refine ⟨⟨⟨by decide, by decide, .inr ⟨rfl, rfl⟩⟩, fun ⟨e, henc, _⟩ => nomatch henc⟩,
    ⟨by decide, by decide, .inl (by decide)⟩, ?_⟩
  rintro ⟨e, henc, hdec⟩
  rw [memDecodePageTableEntry_encoded henc] at hdec
  revert hdec
  decide

end

end Azalea.Mem
