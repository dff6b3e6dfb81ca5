import Azalea.Usb.HidTiling
import Mathlib.Tactic.Ring

/-!
# Usb — the items of a HID report descriptor

`parse_descriptor` takes four bytes after each tag and masks the ones away that are not data.  An
`ExactItem` is a tag with the value of exactly its data bytes, and `CurrentParseState.exactItem` is what
it does to the state of the parser: signed values are extended from the length of the data, and a usage of
one or two bytes stands behind the usage page in force.

* `parseDescriptor_exact_iff`: the handlers are given these values, and parsing the bytes is parsing the
  list of items, exactly if the data of each item of four bytes survives the mask, which is shifted by its
  whole width for them.
-/

namespace Azalea.Usb
open Azalea.Halts (bind_ok ok_bind error_bind)

/-! ### Exact items -/

/-- The little-endian value of a number of bytes. -/
def leValue (raw : Nat → BitVec 8) : Nat → Nat → Nat
  | _, 0 => 0
  | p, n + 1 => (raw p).toNat + 256 * leValue raw (p + 1) n

/-- A tag, and the value of the data. -/
structure ExactItem where
  tag : HidShortTag
  value : BitVec 32

namespace ExactItem
variable (item : ExactItem)

/-- The value as a signed number of the length of the data. -/
def signed : BitVec 32 := (item.value.setWidth (item.tag.dataLength * 8)).signExtend 32

/-- The value as a usage: less than four bytes are its lower half, below the usage page. -/
def usage (page : BitVec 32) : BitVec 32 :=
  if item.tag.dataLength = 4 then item.value else page.setWidth 16 ++ item.value.setWidth 16

end ExactItem

/-- A global item sets a value, signed or not. -/
def FieldState.exactGlobal (st : FieldState) (item : ExactItem) :
    Except DescriptorFault (Bool × FieldState) :=
  match HidGlobalItem.ofTag item.tag.tag with
  | none => .ok (false, st)
  | some .push => .ok (true, { st with globalStateStack := {} :: st.globalStateStack })
  | some .pop =>
      match st.globalStateStack with
      | [] => .error .emptyStack
      | _ :: rest => .ok (!rest.isEmpty, { st with globalStateStack := rest })
  | some .reportId => do
      let st ← st.setTop (globalValue .reportId item.value item.signed)
      return (false, st)
  | some global => do
      let st ← st.setTop (globalValue global item.value item.signed)
      return (true, st)

/-- A local item is queued. -/
def FieldState.exactLocal (st : FieldState) (item : ExactItem) :
    Except DescriptorFault (Bool × FieldState) :=
  if st.localState.hasHadDelimiter then .ok (true, st)
  else
    match HidLocalItem.ofTag item.tag.tag with
    | none => .ok (false, st)
    | some .delimiter => .ok (true, { st with localState := { st.localState with hasHadDelimiter := true } })
    | some (.index .usage part) => do
        -- four bytes are a whole usage: the page is not looked at
        let g ← if item.tag.dataLength = 4 then .ok {} else st.top
        let queue := Function.update st.localState.queue .usage
          (pushLocal part (item.usage g.usagePage) (st.localState.queue .usage))
        return (true, { st with localState := { st.localState with queue } })
    | some (.index i part) =>
        let queue := Function.update st.localState.queue i (pushLocal part item.value (st.localState.queue i))
        .ok (true, { st with localState := { st.localState with queue } })

namespace CurrentParseState

/-- An item is dealt with; the value of a main item is its flags, or the type of the collection. -/
def exactItem (st : CurrentParseState) (item : ExactItem) : Except DescriptorFault (Bool × CurrentParseState) :=
  if item.tag.raw = 0xFE then .error .incompleteCode
  else
    match st.currentCollection with
    | none => .error .nullCollection
    | some path =>
        match HidType.ofType item.tag.type with
        | some .main => st.handleMainItem path item.tag item.value
        | some .global => do
            let (result, fieldState) ← st.toFieldState.exactGlobal item
            return (result, st.setFields fieldState)
        | some .local => do
            let (result, fieldState) ← st.toFieldState.exactLocal item
            return (result, st.setFields fieldState)
        | none => .ok (false, st)

/-- A list of items. -/
def exactItems : CurrentParseState → List ExactItem → Except DescriptorFault (Bool × CurrentParseState)
  | st, [] => .ok (true, st)
  | st, item :: items => do
      let (ok, st) ← st.exactItem item
      let (ok', st) ← exactItems st items
      return (ok && ok', st)

end CurrentParseState

section
variable (overShift : BitVec 32) (raw : Nat → BitVec 8)

/-- The exact item that begins at a byte. -/
def exactItemFrom (p : Nat) : ExactItem where
  tag := (itemFrom raw p).tag
  value := BitVec.ofNat 32 (leValue raw (p + 1) (itemFrom raw p).tag.dataLength)

/-- A number of them. -/
def exactItemsFrom : Nat → Nat → List ExactItem
  | 0, _ => []
  | n + 1, p => exactItemFrom raw p :: exactItemsFrom n (p + 1 + (itemFrom raw p).tag.dataLength)

/-- The handlers are given the value of the item that begins at a byte: as it is, as a signed number, and
as a usage. -/
structure ItemRight (p : Nat) : Prop where
  value : ((itemFrom raw p).data overShift).toNat = leValue raw (p + 1) (itemFrom raw p).tag.dataLength
  signed : FieldState.signedData ((itemFrom raw p).data overShift) (itemFrom raw p).tag.dataLength =
    (exactItemFrom raw p).signed
  usage : ∀ (st : FieldState) (g : ParserGlobalState), st.top = .ok g →
    st.indexData .usage ((itemFrom raw p).data overShift) (itemFrom raw p).tag.dataLength =
      .ok ((exactItemFrom raw p).usage g.usagePage)

/-- They are given the value of each item. -/
def ItemsRight : Nat → Nat → Prop
  | 0, _ => True
  | n + 1, p => ItemRight overShift raw p ∧ ItemsRight n (p + 1 + (itemFrom raw p).tag.dataLength)

end

/-- The mask leaves the data as it is. -/
def HidItem.Survives (overShift : BitVec 32) (item : HidItem) : Prop :=
  item.tag.dataLength = 4 → item.word &&& overShift = 0

instance (overShift : BitVec 32) (item : HidItem) : Decidable (item.Survives overShift) :=
  inferInstanceAs (Decidable (_ → _))

/-! ### The value of an item -/

section
variable {overShift : BitVec 32} {raw : Nat → BitVec 8} {p : Nat} {item : HidItem}

theorem leValue_lt (raw : Nat → BitVec 8) : ∀ n p, leValue raw p n < 256 ^ n
  | 0, p => Nat.one_pos
  | n + 1, p => by
      have hbyte := (raw p).isLt
      have hrest := leValue_lt raw n (p + 1)
      rw [leValue, pow_succ]
      omega

theorem leValue_add (raw : Nat → BitVec 8) (m : Nat) : ∀ n p,
    leValue raw p (n + m) = leValue raw p n + 256 ^ n * leValue raw (p + n) m
  | 0, p => by simp [leValue]
  | n + 1, p => by
      rw [Nat.add_right_comm, leValue, leValue, leValue_add raw m n (p + 1), Nat.add_assoc p 1 n,
        Nat.add_comm 1 n]
      ring

theorem append_toNat {v w : Nat} (x : BitVec v) (y : BitVec w) :
    (x ++ y).toNat = y.toNat + 2 ^ w * x.toNat := by
  rw [BitVec.toNat_append, ← Nat.shiftLeft_add_eq_or_of_lt y.isLt, Nat.shiftLeft_eq, Nat.mul_comm,
    Nat.add_comm]

/-- The four bytes after a tag. -/
theorem word_itemFrom (raw : Nat → BitVec 8) (p : Nat) :
    (itemFrom raw p).word.toNat = leValue raw (p + 1) 4 := by
  rw [itemFrom]
  dsimp only
  rw [append_toNat, append_toNat, append_toNat]
  simp only [leValue, Nat.add_assoc, Nat.reduceAdd, Nat.reducePow, Nat.mul_zero, Nat.add_zero]

/-- With the right mask, the data is the low part of the word. -/
theorem data_zero (item : HidItem) :
    item.data 0 = (item.word.setWidth (item.tag.dataLength * 8)).setWidth 32 := by
  refine BitVec.eq_of_getLsbD_eq fun i hi => ?_
  rw [BitVec.getLsbD_setWidth, BitVec.getLsbD_setWidth]
  by_cases hlen : item.tag.dataLength * 8 < 32
  · rw [data_getLsbD item hlen 0 i hi]
    simp [hi]
  · have hin : i < item.tag.dataLength * 8 := by omega
    have hword : item.word &&& ~~~ (0 : BitVec 32) = item.word := BitVec.and_allOnes
    rw [HidItem.data, if_neg hlen]
    simp only [hword, hi, hin, decide_true, Bool.true_and]

theorem and_not_eq_self {w : Nat} {x y : BitVec w} : x &&& ~~~ y = x ↔ x &&& y = 0#w := by
  constructor
  · intro h
    rw [← h, BitVec.and_assoc, BitVec.and_comm (~~~ y), BitVec.and_not_self]
    exact BitVec.and_zero
  · intro h
    refine BitVec.eq_of_getLsbD_eq fun i hi => ?_
    have hbit := congrArg (BitVec.getLsbD · i) h
    simp only [BitVec.getLsbD_and, BitVec.getLsbD_zero] at hbit
    rw [BitVec.getLsbD_and, BitVec.getLsbD_not]
    cases hx : x.getLsbD i with
    | false => rfl
    | true => simpa [hi, hx] using hbit

/-- The data is the exact value just when it survives the mask. -/
theorem data_eq_iff : item.data overShift = item.data 0 ↔ item.Survives overShift := by
  by_cases hlen : item.tag.dataLength = 4
  · have hnot : ¬ item.tag.dataLength * 8 < 32 := by omega
    rw [HidItem.data, HidItem.data, if_neg hnot, if_neg hnot]
    have hword : item.word &&& ~~~ (0 : BitVec 32) = item.word := BitVec.and_allOnes
    rw [hword, HidItem.Survives, and_not_eq_self]
    exact ⟨fun h _ => h, fun h => h hlen⟩
  · exact iff_of_true (data_short hlen overShift) fun h => absurd h hlen

/-- The exact value of an item is its data, with the right mask. -/
theorem data_zero_toNat (raw : Nat → BitVec 8) (p : Nat) :
    ((itemFrom raw p).data 0).toNat = leValue raw (p + 1) (itemFrom raw p).tag.dataLength := by
  have hle := dataLength_le (itemFrom raw p).tag
  have hlt := leValue_lt raw (itemFrom raw p).tag.dataLength (p + 1)
  have hpow : 2 ^ ((itemFrom raw p).tag.dataLength * 8) = 256 ^ (itemFrom raw p).tag.dataLength := by
    rw [Nat.mul_comm, pow_mul]
    rfl
  have hmax : 256 ^ (itemFrom raw p).tag.dataLength ≤ 256 ^ 4 := Nat.pow_le_pow_right (by decide) hle
  rw [data_zero, BitVec.toNat_setWidth, BitVec.toNat_setWidth, word_itemFrom, hpow]
  generalize (itemFrom raw p).tag.dataLength = d at *
  have hadd := leValue_add raw (4 - d) d (p + 1)
  rw [Nat.add_sub_cancel' hle] at hadd
  rw [hadd, Nat.add_mul_mod_self_left, Nat.mod_eq_of_lt hlt]
  exact Nat.mod_eq_of_lt (Nat.lt_of_lt_of_le hlt hmax)

theorem data_zero_value (raw : Nat → BitVec 8) (p : Nat) :
    (itemFrom raw p).data 0 = (exactItemFrom raw p).value := by
  rw [exactItemFrom, ← data_zero_toNat, BitVec.ofNat_toNat, BitVec.setWidth_eq]

theorem exactItemFrom_tag (raw : Nat → BitVec 8) (p : Nat) :
    (exactItemFrom raw p).tag = (itemFrom raw p).tag := rfl

theorem setWidth_through {w : Nat} (x : BitVec w) (d : Nat) :
    ((x.setWidth d).setWidth w).setWidth d = x.setWidth d := by
  refine BitVec.eq_of_toNat_eq ?_
  have hle := Nat.mod_le x.toNat (2 ^ d)
  rw [BitVec.toNat_setWidth, BitVec.toNat_setWidth, BitVec.toNat_setWidth,
    Nat.mod_eq_of_lt (Nat.lt_of_le_of_lt hle x.isLt), Nat.mod_mod]

/-- Signed values are extended from the length of the data. -/
theorem signedData_value (raw : Nat → BitVec 8) (p : Nat) :
    FieldState.signedData ((itemFrom raw p).data 0) (itemFrom raw p).tag.dataLength =
      (exactItemFrom raw p).signed := by
  rw [signedData_eq, HidItem.signedValue, ExactItem.signed, ← data_zero_value, data_zero]
  exact congrArg (BitVec.signExtend 32) (setWidth_through _ _).symm

/-- A short usage stands behind the page. -/
theorem page_or (page value : BitVec 32) (h : value.toNat < 2 ^ 16) :
    value ||| page <<< 16 = page.setWidth 16 ++ value.setWidth 16 := by
  refine BitVec.eq_of_getLsbD_eq fun i hi => ?_
  rw [BitVec.getLsbD_or, BitVec.getLsbD_shiftLeft, BitVec.getLsbD_append, BitVec.getLsbD_setWidth,
    BitVec.getLsbD_setWidth]
  by_cases hlow : i < 16
  · simp [hlow]
  · have hzero : value.getLsbD i = false :=
      Nat.testBit_lt_two_pow (Nat.lt_of_lt_of_le h (Nat.pow_le_pow_right (by decide) (by omega)))
    have hin : i - 16 < 16 := by omega
    simp only [hlow, hi, hzero, hin, decide_true, decide_false, if_false, Bool.false_or,
      Bool.true_and, Bool.not_false]

theorem indexData_value {st : FieldState} {g : ParserGlobalState} (hg : st.top = .ok g) :
    st.indexData .usage ((itemFrom raw p).data 0) (itemFrom raw p).tag.dataLength =
      .ok ((exactItemFrom raw p).usage g.usagePage) := by
  rw [FieldState.indexData, ExactItem.usage, ← data_zero_value, exactItemFrom_tag]
  by_cases hlen : (itemFrom raw p).tag.dataLength = 4
  · rw [if_neg (by omega), if_pos hlen]
    rfl
  · have hshort : (itemFrom raw p).tag.dataLength ≤ 2 := by
      rcases dataLength_cases (itemFrom raw p).tag with h | h | h | h <;> omega
    have hlt : ((itemFrom raw p).data 0).toNat < 2 ^ 16 := by
      rw [data_zero_toNat]
      exact Nat.lt_of_lt_of_le (leValue_lt _ _ _) (Nat.pow_le_pow_right (by decide) hshort)
    rw [if_pos ⟨rfl, by omega⟩, if_neg hlen, hg, ← page_or _ _ hlt]
    rfl

/-- **One item.** -/
theorem itemRight_iff : ItemRight overShift raw p ↔ (itemFrom raw p).Survives overShift := by
  rw [← data_eq_iff]
  constructor
  · intro h
    refine BitVec.eq_of_toNat_eq ?_
    rw [h.value, data_zero_toNat]
  · intro h
    refine ⟨?_, ?_, fun st g hg => ?_⟩
    · rw [h, data_zero_toNat]
    · rw [h, signedData_value]
    · rw [h, indexData_value hg]

theorem handleGlobalItem_exact (raw : Nat → BitVec 8) (p : Nat) (st : FieldState) :
    st.handleGlobalItem (itemFrom raw p).tag (exactItemFrom raw p).value =
      st.exactGlobal (exactItemFrom raw p) := by
  rw [FieldState.handleGlobalItem, ← data_zero_value, signedData_value, data_zero_value]
  rfl

theorem handleLocalItem_exact (raw : Nat → BitVec 8) (p : Nat) (st : FieldState) :
    st.handleLocalItem (itemFrom raw p).tag (exactItemFrom raw p).value =
      st.exactLocal (exactItemFrom raw p) := by
  rw [FieldState.handleLocalItem, FieldState.exactLocal, exactItemFrom_tag, ← data_zero_value]
  split
  · rfl
  cases HidLocalItem.ofTag (itemFrom raw p).tag.tag with
  | none => rfl
  | some item =>
      cases item with
      | delimiter => rfl
      | index i part =>
          cases i with
          | usage =>
              dsimp only
              by_cases hlen : (itemFrom raw p).tag.dataLength = 4
              · simp only [ExactItem.usage, exactItemFrom_tag, if_pos hlen, ← data_zero_value]
                rw [FieldState.indexData, if_neg (by omega)]
                rfl
              · rw [if_neg hlen]
                cases hg : st.top with
                | ok g => rw [indexData_value hg]; rfl
                | error e =>
                    have hle := dataLength_le (itemFrom raw p).tag
                    rw [FieldState.indexData, if_pos ⟨rfl, by omega⟩, hg]
                    rfl
          | designator | strings => rfl

/-- **What the parser does with one item.** -/
theorem parseItem_exact (h : (itemFrom raw p).Survives overShift) (st : CurrentParseState) :
    st.parseItem overShift (itemFrom raw p) = st.exactItem (exactItemFrom raw p) := by
  rw [CurrentParseState.parseItem, CurrentParseState.exactItem, data_eq_iff.mpr h, data_zero_value,
    CurrentParseState.handleItem, exactItemFrom_tag]
  split
  · rfl
  cases st.currentCollection with
  | none => rfl
  | some path =>
      cases HidType.ofType (itemFrom raw p).tag.type with
      | none => rfl
      | some kind =>
          cases kind with
          | main => rfl
          | global =>
              dsimp only
              rw [handleGlobalItem_exact]
          | «local» =>
              dsimp only
              rw [handleLocalItem_exact]

/-! ### All items -/

variable {n fuel : Nat}

theorem itemsRight_iff : ∀ {n p}, ItemsRight overShift raw n p ↔
    ∀ item ∈ itemsFrom raw n p, item.Survives overShift
  | 0, p => by simp [ItemsRight, itemsFrom]
  | n + 1, p => by
      rw [ItemsRight, itemRight_iff, itemsRight_iff, itemsFrom, List.forall_mem_cons]

theorem parseItems_exact : ∀ {n p} {st : CurrentParseState},
    (∀ item ∈ itemsFrom raw n p, item.Survives overShift) →
    st.parseItems overShift (itemsFrom raw n p) = st.exactItems (exactItemsFrom raw n p)
  | 0, p, st, _ => rfl
  | n + 1, p, st, h => by
      rw [itemsFrom, List.forall_mem_cons] at h
      rw [itemsFrom, exactItemsFrom, CurrentParseState.parseItems, CurrentParseState.exactItems,
        parseItem_exact h.1]
      cases st.exactItem (exactItemFrom raw p) with
      | error e => rfl
      | ok r =>
          obtain ⟨ok, st'⟩ := r
          rw [ok_bind, ok_bind]
          dsimp only
          rw [parseItems_exact h.2]

/-- The loop is a run over the items, whether it ends or not. -/
theorem DescriptorLoop.run_items {descriptorLength : BitVec 32} (hlen : descriptorLength.toNat < 65536) :
    ∀ {n fuel s}, n ≤ fuel → s.offset.toNat = s.rawPtr → itemsEnd raw n s.rawPtr = descriptorLength.toNat →
    (DescriptorLoop.run overShift raw descriptorLength fuel s).map (fun s' => (s'.result, s'.parser)) =
      (s.parser.parseItems overShift (itemsFrom raw n s.rawPtr)).map fun r => (s.result && r.1, r.2)
  | 0, fuel, s, _, hoffset, hend => by
      simp only [itemsEnd] at hend
      unfold DescriptorLoop.run
      rw [if_neg (by omega)]
      simp [itemsFrom, CurrentParseState.parseItems, Except.map]
  | n + 1, 0, s, hfuel, _, _ => by omega
  | n + 1, fuel + 1, s, hfuel, hoffset, hend => by
      have hle := le_itemsEnd raw n (s.rawPtr + 1 + (itemFrom raw s.rawPtr).tag.dataLength)
      simp only [itemsEnd] at hend
      unfold DescriptorLoop.run
      rw [if_pos (by omega), itemsFrom, CurrentParseState.parseItems]
      dsimp only
      rw [DescriptorLoop.next]
      cases s.parser.parseItem overShift (itemFrom raw s.rawPtr) with
      | error e => rfl
      | ok r =>
          obtain ⟨ok, st⟩ := r
          let s₁ : DescriptorLoop :=
            { rawPtr := s.rawPtr + 1 + (itemFrom raw s.rawPtr).tag.dataLength
              offset := s.offset + (1 + (itemFrom raw s.rawPtr).tag.dataLength : Nat)
              parser := st
              result := s.result && ok
              readTo := max s.readTo (s.rawPtr + 5) }
          have hoffset' : s₁.offset.toNat = s₁.rawPtr := offset_next hoffset (by omega)
          have ih := DescriptorLoop.run_items hlen (Nat.le_of_succ_le_succ hfuel) hoffset' hend
          change (DescriptorLoop.run overShift raw descriptorLength fuel s₁).map _ = _
          rw [ih, ok_bind]
          dsimp only
          cases st.parseItems overShift (itemsFrom raw n s₁.rawPtr) with
          | error e => rfl
          | ok r => exact congrArg Except.ok (Prod.ext (Bool.and_assoc _ _ _) rfl)

/-- What `parse_descriptor` gives back. -/
def ParsedDescriptor.answer (r : ParsedDescriptor) : Bool × DecodedDescriptor := (r.result, r.descriptor)

/-- What a list of items is parsed to. -/
def parseExact (items : List ExactItem) : Except DescriptorFault (Bool × DecodedDescriptor) :=
  (({} : CurrentParseState).exactItems items).map fun r => (r.1, ⟨r.2.rootCollection, r.2.allFields⟩)

/-- **The handlers are given the exact values, and parsing the bytes is parsing the items, just when the
data of each item survives the mask.** -/
theorem parseDescriptor_exact_iff {descriptorLength : BitVec 32} (hlen : descriptorLength.toNat < 65536)
    (hend : itemsEnd raw n 0 = descriptorLength.toNat) :
    ItemsRight overShift raw n 0 ∧
        (∀ fuel, n ≤ fuel → (parseDescriptor overShift raw descriptorLength fuel).map ParsedDescriptor.answer =
          parseExact (exactItemsFrom raw n 0)) ↔
      ∀ item ∈ itemsFrom raw n 0, item.Survives overShift := by
  rw [itemsRight_iff, and_iff_left_iff_imp]
  intro h fuel hfuel
  have hrun := @DescriptorLoop.run_items overShift raw descriptorLength hlen n fuel {} hfuel rfl hend
  rw [parseItems_exact h] at hrun
  have hanswer := congrArg (Except.map fun r : Bool × CurrentParseState =>
    ((r.1, ⟨r.2.rootCollection, r.2.allFields⟩) : Bool × DecodedDescriptor)) hrun
  rw [parseDescriptor, parseExact]
  cases hs : DescriptorLoop.run overShift raw descriptorLength fuel {} with
  | error e | ok s =>
      rw [hs] at hanswer
      refine hanswer.trans ?_
      cases CurrentParseState.exactItems {} (exactItemsFrom raw n 0) with
      | error e | ok r => rfl

/-- Two bytes of a usage page, one of a usage: the page is above the usage. -/
def pageAndUsage : List (BitVec 8) := [0x06, 0x00, 0xFF, 0x09, 0x01]

theorem parseDescriptor_exact_page :
    ItemsRight 0xFFFFFFFF (bytesThenZeros pageAndUsage) 2 0 ∧ ∀ fuel, 2 ≤ fuel →
      (parseDescriptor 0xFFFFFFFF (bytesThenZeros pageAndUsage) 5 fuel).map ParsedDescriptor.answer =
        parseExact (exactItemsFrom (bytesThenZeros pageAndUsage) 2 0) :=
  (parseDescriptor_exact_iff (by decide) (by decide)).mpr (by decide +kernel)

/-- A logical maximum of four bytes.  The mask is not shifted by a shift by 32. -/
def fourBytes : List (BitVec 8) := [0x27, 0xFF, 0xFF, 0x00, 0x00]

theorem parseDescriptor_not_exact :
    ¬ ∀ (overShift : BitVec 32) (raw : Nat → BitVec 8) (descriptorLength : BitVec 32) (n : Nat),
      descriptorLength.toNat < 65536 → itemsEnd raw n 0 = descriptorLength.toNat →
        ItemsRight overShift raw n 0 ∧ ∀ fuel, n ≤ fuel →
          (parseDescriptor overShift raw descriptorLength fuel).map ParsedDescriptor.answer =
            parseExact (exactItemsFrom raw n 0) := by
  intro h
  have hvalue := (h 0xFFFFFFFF (bytesThenZeros fourBytes) 5 1 (by decide) (by decide)).1.1.value
  revert hvalue
  decide

end

end Azalea.Usb
