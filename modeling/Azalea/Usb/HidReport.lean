import Mathlib.Algebra.Order.Ring.Nat
import Mathlib.Data.Nat.Init

/-!
# Usb — HID reports

`devices/usb/hid/hid_input_report_parser.cpp`: `parse_report` cuts a report into the values of its
fields, one field after the other and each byte by byte.

* `parseReport_ok_iff`: it finds the values that are there in every report of a given length exactly if
  no field it looks at goes over the end of a byte or is past the end of the report.  What it has from
  the bytes before is moved up to make room for the next byte, so that a field of several bytes is put
  together the wrong way round; and the length of the report is not looked at.
-/

namespace Azalea.Usb

/-- `HID_FIELD_TYPES`. -/
inductive HidFieldType where
  | input
  | output
  | feature
  deriving DecidableEq

/-- `report_field_description`. -/
structure ReportFieldDescription where
  byteOffset : BitVec 8 := 0
  bitOffset : BitVec 8 := 0
  numBits : BitVec 8 := 0
  type : HidFieldType
  flags : BitVec 16
  usage : BitVec 32 := 0
  designator : BitVec 32 := 0
  stringIdx : BitVec 32 := 0
  logicalMin : BitVec 32 := 0
  logicalMax : BitVec 32 := 0
  physicalMin : BitVec 32 := 0
  physicalMax : BitVec 32 := 0
  unitExponent : BitVec 32 := 0
  unit : BitVec 32 := 0
  deriving DecidableEq

/-- What can go wrong in `parse_report`. -/
inductive ReportFault where
  | assertion
  | pastEnd
  | shift
  | outOfFuel
  deriving DecidableEq

/-- The bits of one byte of a field, as `parse_report` takes them out of it. -/
def extractedPart (byte bitOffset bitsThisByte : BitVec 8) : BitVec 8 :=
  let bitMask := ((1 : BitVec 64) <<< bitsThisByte.toNat - 1) <<< bitOffset.toNat
  (byte &&& bitMask.setWidth 8) >>> bitOffset.toNat

/-- How many bits are read from the current byte. -/
def bitsThisByte (numBitsToGo bitOffset : BitVec 8) : BitVec 8 :=
  if numBitsToGo.toNat + bitOffset.toNat > 8 then 8 - bitOffset else numBitsToGo

/-- The loop over the bytes of a field. -/
def readBits (report : List (BitVec 8)) :
    Nat → BitVec 8 → BitVec 8 → BitVec 8 → BitVec 64 → Except ReportFault (BitVec 64)
  | fuel, numBitsToGo, curOffset, bitOffset, output =>
    if numBitsToGo = 0 then .ok output
    else
      match fuel with
      | 0 => .error .outOfFuel
      | fuel + 1 =>
          let bits := bitsThisByte numBitsToGo bitOffset
          if bits > numBitsToGo then .error .assertion
          -- a bit offset past the end of the byte: the mask is shifted out of range
          else if bits.toNat ≥ 31 ∨ bitOffset.toNat ≥ 64 then .error .shift
          else
            match report[curOffset.toNat]? with
            | none => .error .pastEnd
            | some byte =>
                let output := output <<< bits.toNat ||| (extractedPart byte bitOffset bits).setWidth 64
                readBits report fuel (numBitsToGo - bits) (curOffset + 1) 0 output

/-- The sign extension of a field whose logical minimum is negative.  `1 << (num_bits - 1)` is an
`int`. -/
def signExtendField (numBits : BitVec 8) (output : BitVec 64) : Except ReportFault (BitVec 64) :=
  if numBits = 0 ∨ numBits > 32 then .error .shift
  else
    let bitMask := ((1 : BitVec 32) <<< (numBits.toNat - 1)).signExtend 64
    .ok (if output &&& bitMask ≠ 0 then output ||| ~~~ (bitMask <<< 1 - 1) else output)

/-- What `parse_report` stores for one field. -/
def readField (report : List (BitVec 8)) (field : ReportFieldDescription) :
    Except ReportFault (BitVec 64) := do
  let output ← readBits report (field.numBits.toNat + 1) field.numBits field.byteOffset field.bitOffset 0
  if field.logicalMin.toInt < 0 then signExtendField field.numBits output else pure output

/-- The loop over the fields, with the number of entries left in `decode_array`. -/
def readFields (report : List (BitVec 8)) :
    Nat → List ReportFieldDescription → Except ReportFault (List (BitVec 64))
  | _, [] => .ok []
  | 0, _ :: _ => .ok []
  | numOutputFields + 1, field :: fields => do
      let output ← readField report field
      let decoded ← readFields report numOutputFields fields
      pure (output :: decoded)

/-- `parse_report`: its result and what it has stored in `decode_array`.  Either buffer may be null. -/
def parseReport (inputFields : List ReportFieldDescription) (report : Option (List (BitVec 8)))
    (decodeArray : Bool) (numOutputFields : Nat) : Except ReportFault (Bool × List (BitVec 64)) :=
  match report, decodeArray with
  | some report, true => do
      let decoded ← readFields report numOutputFields inputFields
      pure (true, decoded)
  | _, _ => .ok (false, [])

/-- Bit `i` of a report. -/
def reportBit (report : List (BitVec 8)) (i : Nat) : Bool :=
  (report.getD (i / 8) 0).getLsbD (i % 8)

namespace ReportFieldDescription

/-- Where the field begins, in bits. -/
def offset (field : ReportFieldDescription) : Nat := 8 * field.byteOffset.toNat + field.bitOffset.toNat

/-- A field of 1 to 32 bits that begins in the byte it says. -/
structure Valid (field : ReportFieldDescription) : Prop where
  pos : 0 < field.numBits.toNat
  le : field.numBits.toNat ≤ 32
  bitOffset : field.bitOffset.toNat < 8

/-- The bits of the field in a report. -/
def bits (field : ReportFieldDescription) (report : List (BitVec 8)) : BitVec field.numBits.toNat :=
  .ofNat _ (Nat.ofBits fun i : Fin field.numBits.toNat => reportBit report (field.offset + i))

/-- The value of the field in a report. -/
def value (field : ReportFieldDescription) (report : List (BitVec 8)) : Int :=
  if field.logicalMin.toInt < 0 then (field.bits report).toInt else (field.bits report).toNat

/-- The field lies within one byte, and that within a report of the given length. -/
def InOneByte (field : ReportFieldDescription) (length : Nat) : Prop :=
  field.bitOffset.toNat + field.numBits.toNat ≤ 8 ∧ field.byteOffset.toNat < length

/-- The code finds the value of the field. -/
def Found (field : ReportFieldDescription) (report : List (BitVec 8)) : Prop :=
  ∃ output, readField report field = .ok output ∧ output.toInt = field.value report

@[simp] theorem getLsbD_bits {field : ReportFieldDescription} {report : List (BitVec 8)} {i : Nat} :
    (field.bits report).getLsbD i =
      (decide (i < field.numBits.toNat) && reportBit report (field.offset + i)) := by
  rw [bits, BitVec.getLsbD_ofNat, Nat.testBit_ofBits]
  split <;> simp_all

end ReportFieldDescription

/-- The mask of a part of a byte. -/
theorem getLsbD_bitMask {a b i : Nat} (hb : a + b ≤ 8) :
    (((1 : BitVec 64) <<< b - 1) <<< a).getLsbD i = decide (a ≤ i ∧ i < a + b) := by
  have hsmall : ∀ b < 9, (1 : BitVec 64) <<< b - 1 = BitVec.ofNat 64 (2 ^ b - 1) := by decide
  have hmask := hsmall b (by omega)
  rw [hmask, BitVec.getLsbD_shiftLeft, BitVec.getLsbD_ofNat, Nat.testBit_two_pow_sub_one]
  rw [Bool.eq_iff_iff]
  simp only [Bool.and_eq_true, decide_eq_true_eq, Bool.not_eq_true', decide_eq_false_iff_not]
  omega

/-- What is taken out of a byte. -/
theorem getLsbD_extractedPart {byte bitOffset bits : BitVec 8} {i : Nat}
    (h : bitOffset.toNat + bits.toNat ≤ 8) :
    (extractedPart byte bitOffset bits).getLsbD i =
      (decide (i < bits.toNat) && byte.getLsbD (bitOffset.toNat + i)) := by
  simp only [extractedPart, BitVec.getLsbD_ushiftRight, BitVec.getLsbD_and, BitVec.getLsbD_setWidth,
    getLsbD_bitMask h]
  by_cases hi : i < bits.toNat
  · simp [hi, show bitOffset.toNat + i < 8 by omega]
  · simp [hi]

theorem readBits_done {report : List (BitVec 8)} {fuel : Nat} {cur bitOffset : BitVec 8}
    {output : BitVec 64} : readBits report fuel 0 cur bitOffset output = .ok output := by
  cases fuel <;> simp [readBits]

theorem toNat_bitsThisByte {togo bitOffset : BitVec 8} (h : bitOffset.toNat < 8) :
    (bitsThisByte togo bitOffset).toNat = min togo.toNat (8 - bitOffset.toNat) := by
  unfold bitsThisByte
  split
  next hgt =>
    have height : (8 : BitVec 8).toNat = 8 := rfl
    rw [BitVec.toNat_sub_of_le (BitVec.le_def.mpr (by omega))]
    omega
  next => omega

/-- One more byte of a field that begins in the byte it says. -/
theorem readBits_succ {report : List (BitVec 8)} {fuel : Nat} {togo cur bitOffset : BitVec 8}
    {output : BitVec 64} (hpos : 0 < togo.toNat) (hoffset : bitOffset.toNat < 8) :
    readBits report (fuel + 1) togo cur bitOffset output =
      match report[cur.toNat]? with
      | none => .error .pastEnd
      | some byte => readBits report fuel (togo - bitsThisByte togo bitOffset) (cur + 1) 0
          (output <<< (bitsThisByte togo bitOffset).toNat |||
            (extractedPart byte bitOffset (bitsThisByte togo bitOffset)).setWidth 64) := by
  have hbits : (bitsThisByte togo bitOffset).toNat = _ := toNat_bitsThisByte hoffset
  have hne : togo ≠ 0 := by
    rintro rfl
    exact absurd hpos (by decide)
  have hle : ¬ bitsThisByte togo bitOffset > togo := by
    rw [gt_iff_lt, BitVec.lt_def]
    omega
  have hshift : ¬ ((bitsThisByte togo bitOffset).toNat ≥ 31 ∨ bitOffset.toNat ≥ 64) := by omega
  rw [readBits, if_neg hne]
  simp only [if_neg hle, if_neg hshift]

/-- A field within one byte is read at once. -/
theorem readBits_in_one_byte {report : List (BitVec 8)} {numBits cur bitOffset byte : BitVec 8}
    (hpos : 0 < numBits.toNat) (hone : bitOffset.toNat + numBits.toNat ≤ 8)
    (hbyte : report[cur.toNat]? = some byte) :
    readBits report (numBits.toNat + 1) numBits cur bitOffset 0 =
      .ok ((extractedPart byte bitOffset numBits).setWidth 64) := by
  have hbits : bitsThisByte numBits bitOffset = numBits := if_neg (by omega)
  rw [readBits_succ hpos (by omega), hbyte, hbits]
  simp only [BitVec.sub_self]
  simpa using readBits_done

/-- The sign extension of a value of up to 8 bits. -/
theorem signExtendField_eq {numBits : BitVec 8} {x : BitVec numBits.toNat} (hpos : 0 < numBits.toNat)
    (hle : numBits.toNat ≤ 8) :
    signExtendField numBits (x.setWidth 64) = .ok (x.signExtend 64) := by
  have hmask : ∀ w < 9, 0 < w → ((1 : BitVec 32) <<< (w - 1)).signExtend 64 = .twoPow 64 (w - 1) ∧
      ~~~ (BitVec.twoPow 64 (w - 1) <<< 1 - 1) = BitVec.allOnes 64 <<< w := by decide
  obtain ⟨hone, hhigh⟩ := hmask numBits.toNat (by omega) hpos
  have hbad : ¬ (numBits = 0 ∨ numBits > 32) := by
    rintro (rfl | hgt)
    · exact absurd hpos (by decide)
    · have := BitVec.lt_def.mp hgt
      simp at this
      omega
  have htop : (x.setWidth 64).getLsbD (numBits.toNat - 1) = x.msb := by
    rw [BitVec.msb_eq_getLsbD_last, BitVec.getLsbD_setWidth, decide_eq_true (by omega), Bool.true_and]
  have hne : BitVec.twoPow 64 (numBits.toNat - 1) ≠ 0 := by
    intro heq
    have hbit := congrArg (fun y : BitVec 64 => y.getLsbD (numBits.toNat - 1)) heq
    simp [BitVec.getLsbD_twoPow] at hbit
    omega
  have hset : x.setWidth 64 &&& BitVec.twoPow 64 (numBits.toNat - 1) ≠ 0 ↔ x.msb = true := by
    rw [BitVec.and_twoPow, htop]
    cases x.msb with
    | false => simp
    | true => simpa using hne
  simp only [signExtendField, if_neg hbad, hone, hhigh, hset]
  congr 1
  apply BitVec.eq_of_getLsbD_eq
  intro i hi
  rw [BitVec.getLsbD_signExtend]
  cases hmsb : x.msb with
  | false =>
      simp only [Bool.false_eq_true, if_false, BitVec.getLsbD_setWidth, hi, decide_true, Bool.true_and]
      split
      next => rfl
      next hge => exact BitVec.getLsbD_of_ge x i (Nat.le_of_not_lt hge)
  | true =>
      simp only [if_true, BitVec.getLsbD_or, BitVec.getLsbD_setWidth, hi, decide_true, Bool.true_and,
        BitVec.getLsbD_shiftLeft, BitVec.getLsbD_allOnes]
      split
      next hlt => simp [hlt]
      next hge => simp [hge]; omega

namespace ReportFieldDescription

variable {field : ReportFieldDescription} {report : List (BitVec 8)}

/-- What is taken out of the one byte of a field are its bits. -/
theorem extractedPart_eq_bits {byte : BitVec 8} (hbyte : report[field.byteOffset.toNat]? = some byte)
    (hone : field.bitOffset.toNat + field.numBits.toNat ≤ 8) :
    (extractedPart byte field.bitOffset field.numBits).setWidth 64 = (field.bits report).setWidth 64 := by
  apply BitVec.eq_of_getLsbD_eq
  intro i hi
  rw [BitVec.getLsbD_setWidth, BitVec.getLsbD_setWidth, getLsbD_extractedPart hone, getLsbD_bits]
  by_cases hlt : i < field.numBits.toNat
  · have hdiv : (field.offset + i) / 8 = field.byteOffset.toNat := by
      unfold offset
      omega
    have hmod : (field.offset + i) % 8 = field.bitOffset.toNat + i := by
      unfold offset
      omega
    rw [reportBit, hdiv, hmod, List.getD_eq_getElem?_getD, hbyte, Option.getD_some]
  · simp [hlt]

theorem found_of_inOneByte (hvalid : field.Valid) (h : field.InOneByte report.length) :
    field.Found report := by
  obtain ⟨hone, hlt⟩ := h
  have hle : field.numBits.toNat ≤ 8 := by omega
  have hbyte := List.getElem?_eq_getElem hlt
  have hread := readBits_in_one_byte hvalid.pos hone hbyte
  rw [extractedPart_eq_bits hbyte hone] at hread
  unfold Found readField value
  rw [hread]
  by_cases hneg : field.logicalMin.toInt < 0
  · refine ⟨(field.bits report).signExtend 64, ?_, ?_⟩
    · simp only [if_pos hneg]
      exact signExtendField_eq hvalid.pos hle
    · rw [if_pos hneg, BitVec.toInt_signExtend_of_le (by omega)]
  · refine ⟨(field.bits report).setWidth 64, ?_, ?_⟩
    · simp only [if_neg hneg]
      rfl
    · have hbits := (field.bits report).isLt
      have hpow : 2 ^ field.numBits.toNat ≤ 2 ^ 8 := Nat.pow_le_pow_right (by decide) hle
      rw [if_neg hneg, BitVec.toInt_eq_toNat_of_lt, BitVec.toNat_setWidth_of_le (by omega)]
      rw [BitVec.toNat_setWidth_of_le (by omega)]
      omega

end ReportFieldDescription

/-- The lowest bit of what is read is that of the last byte read. -/
theorem readBits_low {report : List (BitVec 8)} : ∀ {fuel : Nat} {togo cur : BitVec 8}
    {output v : BitVec 64}, (∀ j ≤ togo.toNat, report.getD (cur + BitVec.ofNat 8 j).toNat 0 = 0) →
      (togo = 0 → output.getLsbD 0 = false) → readBits report fuel togo cur 0 output = .ok v →
      v.getLsbD 0 = false := by
  intro fuel
  induction fuel with
  | zero =>
      intro togo cur output v _ hlow hread
      by_cases hzero : togo = 0
      · subst hzero
        rw [readBits_done] at hread
        obtain rfl := Except.ok.inj hread
        exact hlow rfl
      · rw [readBits, if_neg hzero] at hread
        cases hread
  | succ fuel ih =>
      intro togo cur output v hbytes hlow hread
      rcases Nat.eq_zero_or_pos togo.toNat with hzero | hpos
      · obtain rfl : togo = 0 := BitVec.eq_of_toNat_eq hzero
        rw [readBits_done] at hread
        obtain rfl := Except.ok.inj hread
        exact hlow rfl
      · have hbits : (bitsThisByte togo 0).toNat = min togo.toNat 8 := toNat_bitsThisByte (by decide)
        rw [readBits_succ hpos (by decide)] at hread
        split at hread
        next => cases hread
        next byte hbyte =>
          have hnull : byte = 0 := by
            have := hbytes 0 (Nat.zero_le _)
            simpa [List.getD_eq_getElem?_getD, hbyte] using this
          refine ih (fun j hj => ?_) (fun _ => ?_) hread
          · rw [BitVec.toNat_sub_of_le (BitVec.le_def.mpr (by omega))] at hj
            have hnext : cur + 1 + BitVec.ofNat 8 j = cur + BitVec.ofNat 8 (j + 1) := by
              rw [BitVec.add_assoc, BitVec.add_comm 1, BitVec.ofNat_add]
              rfl
            rw [hnext]
            exact hbytes (j + 1) (by omega)
          · have hshift : 0 < (bitsThisByte togo 0).toNat := by omega
            have hsmall : (0 : BitVec 8).toNat + (bitsThisByte togo 0).toNat ≤ 8 := by
              rw [hbits]
              exact (Nat.zero_add _).trans_le (Nat.min_le_right _ _)
            have hempty : (0 : BitVec 8).getLsbD ((0 : BitVec 8).toNat + 0) = false := rfl
            rw [BitVec.getLsbD_or, BitVec.getLsbD_shiftLeft, BitVec.getLsbD_setWidth,
              getLsbD_extractedPart hsmall, hnull, hempty, decide_eq_true hshift]
            simp only [Bool.not_true, Bool.and_false, Bool.false_and, Bool.or_self]

/-- The sign extension does not change the lowest bit. -/
theorem signExtendField_low {numBits : BitVec 8} {output v : BitVec 64}
    (h : signExtendField numBits output = .ok v) : v.getLsbD 0 = output.getLsbD 0 := by
  have hmask : ∀ w < 33,
      (~~~ (((1 : BitVec 32) <<< (w - 1)).signExtend 64 <<< 1 - 1)).getLsbD 0 = false := by decide
  unfold signExtendField at h
  split at h
  next => cases h
  next hbad =>
    obtain rfl := Except.ok.inj h
    have hle : numBits.toNat < 33 := by
      by_contra hgt
      exact hbad (.inr (BitVec.lt_def.mpr (by simp; omega)))
    split
    next => rw [BitVec.getLsbD_or, hmask _ hle, Bool.or_false]
    next => rfl

namespace ReportFieldDescription

variable {field : ReportFieldDescription} {report : List (BitVec 8)} {length : Nat}

/-- A report of zeros but for the lowest bit of the field. -/
def probe (field : ReportFieldDescription) (length : Nat) : List (BitVec 8) :=
  (List.replicate length 0).set field.byteOffset.toNat (.twoPow 8 field.bitOffset.toNat)

theorem getD_probe {i : Nat} (hlt : field.byteOffset.toNat < length) :
    (field.probe length).getD i 0 =
      if i = field.byteOffset.toNat then .twoPow 8 field.bitOffset.toNat else 0 := by
  rw [probe, List.getD_eq_getElem?_getD, List.getElem?_set]
  split
  next heq => simp [heq.symm, hlt]
  next hne =>
    rw [if_neg (Ne.symm hne), List.getElem?_replicate]
    split <;> rfl

theorem value_probe (hvalid : field.Valid) (hlt : field.byteOffset.toNat < length)
    (hbits : 1 < field.numBits.toNat) : field.value (field.probe length) = 1 := by
  have hone : field.bits (field.probe length) = BitVec.ofNat field.numBits.toNat 1 := by
    apply BitVec.eq_of_getLsbD_eq
    intro i hi
    have hoffset := hvalid.bitOffset
    rw [getLsbD_bits, decide_eq_true hi, Bool.true_and, reportBit, getD_probe hlt, BitVec.getLsbD_one,
      decide_eq_true (by omega : 0 < field.numBits.toNat), Bool.true_and, offset]
    rw [Bool.eq_iff_iff, decide_eq_true_eq]
    split
    next hdiv =>
      rw [BitVec.getLsbD_twoPow, Bool.and_eq_true, decide_eq_true_eq, decide_eq_true_eq]
      omega
    next hdiv =>
      rw [show (0 : BitVec 8) = 0#8 from rfl, BitVec.getLsbD_zero]
      constructor
      · intro hfalse
        cases hfalse
      · rintro rfl
        exact absurd (by omega) hdiv
  rw [value, hone, BitVec.toInt_one hbits]
  simp [Nat.mod_eq_of_lt (Nat.one_lt_two_pow (by omega : field.numBits.toNat ≠ 0))]

/-- The bytes after the first of a field are other bytes. -/
theorem getD_probe_next {j : Nat} (hlt : field.byteOffset.toNat < length) (hj : j < 255) :
    (field.probe length).getD (field.byteOffset + 1 + BitVec.ofNat 8 j).toNat 0 = 0 := by
  rw [getD_probe hlt, if_neg]
  have hone : (1 : BitVec 8).toNat = 1 := rfl
  have hbyte := field.byteOffset.isLt
  simp only [BitVec.toNat_add, BitVec.toNat_ofNat, hone]
  omega

/-- A field that goes over the end of its first byte is not found if only its lowest bit is set. -/
theorem not_found_probe (hvalid : field.Valid) (hlt : field.byteOffset.toNat < length)
    (hspan : 8 < field.bitOffset.toNat + field.numBits.toNat) : ¬ field.Found (field.probe length) := by
  rintro ⟨output, hread, hvalue⟩
  have hoffset := hvalid.bitOffset
  have hle := hvalid.le
  rw [value_probe hvalid hlt (by omega)] at hvalue
  have hbyte : (field.probe length)[field.byteOffset.toNat]? = some (.twoPow 8 field.bitOffset.toNat) := by
    simp [probe, hlt]
  have hbits : (bitsThisByte field.numBits field.bitOffset).toNat = _ := toNat_bitsThisByte hoffset
  have htogo : (field.numBits - bitsThisByte field.numBits field.bitOffset).toNat =
      field.numBits.toNat - (bitsThisByte field.numBits field.bitOffset).toNat :=
    BitVec.toNat_sub_of_le (BitVec.le_def.mpr (by omega))
  unfold readField at hread
  rw [readBits_succ hvalid.pos hoffset, hbyte] at hread
  simp only at hread
  obtain ⟨first, hfirst, hread⟩ : ∃ first, readBits _ _ _ _ 0 _ = .ok first ∧
      (if field.logicalMin.toInt < 0 then signExtendField field.numBits first else .ok first) =
        .ok output := by
    cases hfirst : readBits (field.probe length) field.numBits.toNat _ _ 0 _ with
    | error fault => rw [hfirst] at hread; cases hread
    | ok first => exact ⟨first, hfirst, by rw [hfirst] at hread; exact hread⟩
  have hlow : first.getLsbD 0 = false := by
    refine readBits_low (fun j hj => getD_probe_next hlt (by omega)) (fun hzero => ?_) hfirst
    rw [hzero] at htogo
    have : (0 : BitVec 8).toNat = 0 := rfl
    omega
  have hlow' : output.getLsbD 0 = false := by
    split at hread
    next => exact (signExtendField_low hread).trans hlow
    next =>
      obtain rfl := Except.ok.inj hread
      exact hlow
  have hone : output = 1#64 := BitVec.eq_of_toInt_eq (by rw [hvalue]; rfl)
  rw [hone] at hlow'
  exact absurd hlow' (by decide)

/-- A field past the end of the report is not found. -/
theorem not_found_of_pastEnd (hvalid : field.Valid) (hge : report.length ≤ field.byteOffset.toNat) :
    ¬ field.Found report := by
  rintro ⟨output, hread, -⟩
  unfold readField at hread
  rw [readBits_succ hvalid.pos hvalid.bitOffset, List.getElem?_eq_none hge] at hread
  cases hread

theorem found_iff (hvalid : field.Valid) :
    (∀ report, report.length = length → field.Found report) ↔ field.InOneByte length := by
  constructor
  · intro hfound
    have hprobe : (field.probe length).length = length := by simp [probe]
    have hlt : field.byteOffset.toNat < length := by
      by_contra hge
      exact not_found_of_pastEnd hvalid (by omega) (hfound _ hprobe)
    refine ⟨?_, hlt⟩
    by_contra hspan
    exact not_found_probe hvalid hlt (by omega) (hfound _ hprobe)
  · rintro hone report rfl
    exact found_of_inOneByte hvalid hone

end ReportFieldDescription

/-- The loop over the fields finds the values exactly if it finds each of those it gets to. -/
theorem readFields_ok_iff {report : List (BitVec 8)} : ∀ {n : Nat} {fields : List ReportFieldDescription},
    (∃ decoded, readFields report n fields = .ok decoded ∧
      decoded.map BitVec.toInt = (fields.take n).map (·.value report)) ↔
      ∀ field ∈ fields.take n, field.Found report := by
  intro n fields
  induction fields generalizing n with
  | nil => simp [readFields]
  | cons field fields ih =>
      cases n with
      | zero => simp [readFields]
      | succ n =>
          rw [List.take_succ_cons, List.forall_mem_cons, ← ih, readFields]
          constructor
          · rintro ⟨decoded, hread, hvalues⟩
            cases hfield : readField report field with
            | error fault => rw [hfield] at hread; cases hread
            | ok output =>
                cases hrest : readFields report n fields with
                | error fault => rw [hfield, hrest] at hread; cases hread
                | ok rest =>
                    rw [hfield, hrest] at hread
                    obtain rfl := Except.ok.inj hread
                    rw [List.map_cons, List.map_cons, List.cons.injEq] at hvalues
                    exact ⟨⟨output, hfield, hvalues.1⟩, rest, rfl, hvalues.2⟩
          · rintro ⟨⟨output, hfield, hvalue⟩, rest, hrest, hvalues⟩
            refine ⟨output :: rest, ?_, ?_⟩
            · rw [hfield, hrest]
              rfl
            · rw [List.map_cons, List.map_cons, hvalue, hvalues]

theorem parseReport_some {fields : List ReportFieldDescription} {report : List (BitVec 8)} {n : Nat}
    {decoded : List (BitVec 64)} :
    parseReport fields (some report) true n = .ok (true, decoded) ↔
      readFields report n fields = .ok decoded := by
  rw [parseReport]
  cases readFields report n fields with
  | error fault => exact ⟨fun h => (by cases h), fun h => (by cases h)⟩
  | ok found =>
      constructor
      · intro h
        rw [(Prod.mk.inj (Except.ok.inj h)).2]
      · intro h
        rw [Except.ok.inj h]
        rfl

/-- The values are found in every report of a length exactly if every field `parse_report` gets to lies
within one byte of it. -/
theorem parseReport_ok_iff {fields : List ReportFieldDescription} (hvalid : ∀ field ∈ fields, field.Valid)
    (length n : Nat) :
    (∀ report, report.length = length →
      ∃ decoded, parseReport fields (some report) true n = .ok (true, decoded) ∧
        decoded.map BitVec.toInt = (fields.take n).map (·.value report)) ↔
      ∀ field ∈ fields.take n, field.InOneByte length := by
  simp only [parseReport_some, readFields_ok_iff]
  constructor
  · intro hfound field hmem
    rw [← ReportFieldDescription.found_iff (hvalid field (List.mem_of_mem_take hmem))]
    exact fun report hlength => hfound report hlength field hmem
  · rintro hone report rfl field hmem
    exact ReportFieldDescription.found_of_inOneByte (hvalid field (List.mem_of_mem_take hmem))
      (hone field hmem)

/-- A mouse: three buttons, and two movements of 8 bits. -/
def mouseFields : List ReportFieldDescription :=
  [{ numBits := 1, type := .input, flags := 2 },
    { bitOffset := 1, numBits := 1, type := .input, flags := 2 },
    { bitOffset := 2, numBits := 1, type := .input, flags := 2 },
    { byteOffset := 1, numBits := 8, type := .input, flags := 6, logicalMin := -127 },
    { byteOffset := 2, numBits := 8, type := .input, flags := 6, logicalMin := -127 }]

instance (field : ReportFieldDescription) : Decidable field.Valid :=
  decidable_of_iff (0 < field.numBits.toNat ∧ field.numBits.toNat ≤ 32 ∧ field.bitOffset.toNat < 8)
    ⟨fun h => ⟨h.1, h.2.1, h.2.2⟩, fun h => ⟨h.pos, h.le, h.bitOffset⟩⟩

instance (field : ReportFieldDescription) (length : Nat) : Decidable (field.InOneByte length) :=
  inferInstanceAs (Decidable (_ ∧ _))

theorem parseReport_mouse :
    ∃ decoded, parseReport mouseFields (some [5, 0xFE, 1]) true 5 = .ok (true, decoded) ∧
      decoded.map BitVec.toInt = mouseFields.map (·.value [5, 0xFE, 1]) :=
  (parseReport_ok_iff (by decide) 3 5).mpr (by decide) [5, 0xFE, 1] rfl

/-- The least significant byte comes first in a report, and is taken for the most significant one. -/
theorem parseReport_two_bytes :
    ¬ ∀ fields : List ReportFieldDescription, (∀ field ∈ fields, field.Valid) → ∀ report n,
      ∃ decoded, parseReport fields (some report) true n = .ok (true, decoded) ∧
        decoded.map BitVec.toInt = (fields.take n).map (·.value report) := by
  intro h
  obtain ⟨decoded, hread, hvalues⟩ :=
    h [{ numBits := 16, type := .input, flags := 2 }] (by decide) [1, 0] 1
  have hcode : parseReport [{ numBits := 16, type := .input, flags := 2 }] (some [1, 0]) true 1 =
      .ok (true, [256]) := rfl
  rw [hcode] at hread
  obtain rfl := (Prod.mk.inj (Except.ok.inj hread)).2
  exact absurd hvalues (by decide)

end Azalea.Usb
