import Azalea.Usb.HidNesting

/-!
# Usb — the fields of a HID report descriptor

`add_new_field` gives each field its place in the report and the global values in force.  `InForce` is
what a descriptor says: the values in force, with those that have been pushed under them, and for each
field that is to be made the values in force for it.  The fields of a report lie one after the other.

* `parseDescriptor_tiles_iff`: the fields come out like that, with the values in force, and the parser has
  the values in force after each item, exactly if the descriptor can be parsed and nothing in it goes
  wrong: `PUSH` puts an empty state on the stack, the greatest physical value of a field is given its least
  one, the size and the place of a field are cut to eight bits, and the data of an item of four bytes is
  masked with what a shift by 32 gives.
-/

namespace Azalea.Usb
open Azalea.Halts (bind_ok ok_bind)

/-! ### What the items say -/

/-- The data of an item as a signed number. -/
def HidItem.signedValue (item : HidItem) : BitVec 32 :=
  (item.word.setWidth (item.tag.dataLength * 8)).signExtend 32

/-- The values in force, after those that have been pushed; and those for each field. -/
structure InForce where
  stack : List ParserGlobalState := [{}]
  fields : HidFieldType → List ParserGlobalState := fun _ => []

namespace InForce

/-- The values in force after a global item. -/
def globalItem (stack : List ParserGlobalState) (item : HidItem) : List ParserGlobalState :=
  match HidGlobalItem.ofTag item.tag.tag, stack with
  | none, stack => stack
  | some .push, [] => [{}]
  | some .push, g :: rest => g :: g :: rest
  | some .pop, stack => stack.tail
  | some _, [] => []
  | some i, g :: rest => FieldState.globalValue i (item.data 0) item.signedValue g :: rest

/-- After an item: a field is repeated `REPORT_COUNT` times. -/
def next (s : InForce) (item : HidItem) : InForce :=
  match HidType.ofType item.tag.type with
  | some .global => { s with stack := globalItem s.stack item }
  | some .main =>
      match HidMainItem.ofTag item.tag.tag, s.stack with
      | some (.field type), g :: _ =>
          { s with fields := Function.update s.fields type (s.fields type ++ List.replicate g.reportCount.toNat g) }
      | _, _ => s
  | some .local | none => s

/-- After a number of items. -/
def after (s : InForce) (items : List HidItem) : InForce := items.foldl next s

end InForce

/-- The number of bits of fields with these values. -/
def bits (states : List ParserGlobalState) : Nat := (states.map (·.reportSize.toNat)).sum

/-- A field begins at a bit, and has the values in force. -/
structure FieldOk (start : Nat) (field : ReportFieldDescription) (g : ParserGlobalState) : Prop where
  place : 8 * field.byteOffset.toNat + field.bitOffset.toNat = start
  numBits : field.numBits.toNat = g.reportSize.toNat
  logicalMin : field.logicalMin = g.logicalMinimum
  logicalMax : field.logicalMax = g.logicalMaximum
  physicalMin : field.physicalMin = g.physicalMinimum
  physicalMax : field.physicalMax = g.physicalMaximum

/-- The fields lie one after the other, each with its values. -/
def Tiles : Nat → List ReportFieldDescription → List ParserGlobalState → Prop
  | _, [], [] => True
  | start, field :: fields, g :: states => FieldOk start field g ∧ Tiles (start + g.reportSize.toNat) fields states
  | _, _, _ => False

/-- Nothing goes wrong with an item: before a `PUSH` all values are zero, a global item has its data, and
the fields have sizes and places of eight bits and no range of physical values. -/
def ItemTiles (overShift : BitVec 32) (s : InForce) (item : HidItem) : Prop :=
  match HidType.ofType item.tag.type with
  | some .global =>
      match HidGlobalItem.ofTag item.tag.tag with
      | some .push => ∀ g ∈ s.stack.head?, g = {}
      | some .pop | none => True
      | some _ => item.data overShift = item.data 0
  | some .main =>
      match HidMainItem.ofTag item.tag.tag with
      | some (.field type) => ∀ g ∈ s.stack.head?, ∀ i < g.reportCount.toNat,
          g.reportSize.toNat < 256 ∧ g.physicalMinimum = g.physicalMaximum ∧
          bits (s.fields type) + i * g.reportSize.toNat < 2048
      | _ => True
  | some .local | none => True

/-- Nothing goes wrong with any of the items. -/
def ItemsTile (overShift : BitVec 32) : InForce → List HidItem → Prop
  | _, [] => True
  | s, item :: items => ItemTiles overShift s item ∧ ItemsTile overShift (s.next item) items

/-! ### Tilings -/

theorem Tiles.length_eq : ∀ {start fields states}, Tiles start fields states → fields.length = states.length
  | _, [], [], _ => rfl
  | _, _ :: _, _ :: _, h => congrArg (· + 1) (Tiles.length_eq h.2)

theorem bits_append (states states' : List ParserGlobalState) : bits (states ++ states') = bits states + bits states' := by
  rw [bits, List.map_append, List.sum_append]
  rfl

theorem tiles_append : ∀ {start fields states fields' states'}, fields.length = states.length →
    (Tiles start (fields ++ fields') (states ++ states') ↔
      Tiles start fields states ∧ Tiles (start + bits states) fields' states')
  | start, [], [], fields', states', _ => by simp [Tiles, bits]
  | start, field :: fields, g :: states, fields', states', hlen => by
      rw [List.cons_append, List.cons_append, Tiles, Tiles, tiles_append (Nat.succ.inj hlen), and_assoc]
      have hbits : bits (g :: states) = g.reportSize.toNat + bits states := by simp [bits]
      rw [hbits, Nat.add_assoc]

/-! ### The data of an item -/

theorem dataLength_cases (t : HidShortTag) :
    t.dataLength = 0 ∨ t.dataLength = 1 ∨ t.dataLength = 2 ∨ t.dataLength = 4 := by
  unfold HidShortTag.dataLength
  have hlt := t.size.isLt
  split
  next => omega
  next hne =>
    have hne' : t.size.toNat ≠ 3 := fun h => hne (BitVec.eq_of_toNat_eq h)
    omega

/-- A number of `w` bits is extended by hand. -/
theorem signExtend_of_bits (top high : BitVec 32) {word data : BitVec 32} {w : Nat} (hw : 0 < w) (hlt : w < 32)
    (hdata : ∀ i < 32, data.getLsbD i = (decide (i < w) && word.getLsbD i))
    (htop : ∀ i < 32, top.getLsbD i = decide (i = w - 1)) (hhigh : ∀ i < 32, high.getLsbD i = decide (w ≤ i)) :
    (if data &&& top ≠ 0 then high ||| data else data) = (word.setWidth w).signExtend 32 := by
  have hmsb : (word.setWidth w).msb = word.getLsbD (w - 1) := by
    rw [BitVec.msb_eq_getLsbD_last, BitVec.getLsbD_setWidth, decide_eq_true (by omega), Bool.true_and]
  have hsign : data &&& top ≠ 0 ↔ word.getLsbD (w - 1) = true := by
    constructor
    · intro hne
      by_contra hbit
      refine hne (BitVec.eq_of_getLsbD_eq fun i hi => ?_)
      rw [BitVec.getLsbD_and, hdata i hi, htop i hi]
      by_cases heq : i = w - 1
      · rw [heq, Bool.eq_false_of_not_eq_true hbit, Bool.and_false, Bool.false_and]
        simp
      · simp [heq]
    · intro hbit hzero
      have hbit' := congrArg (BitVec.getLsbD · (w - 1)) hzero
      simp only [BitVec.getLsbD_and] at hbit'
      rw [hdata _ (by omega), htop _ (by omega), hbit] at hbit'
      simp at hbit'
      omega
  apply BitVec.eq_of_getLsbD_eq
  intro i hi
  rw [BitVec.getLsbD_signExtend, BitVec.getLsbD_setWidth, hmsb]
  by_cases hneg : word.getLsbD (w - 1) = true
  · rw [if_pos (hsign.mpr hneg), BitVec.getLsbD_or, hhigh i hi, hdata i hi, hneg]
    by_cases hiw : i < w
    · simp [hi, hiw]
    · simp [hi, hiw]
      omega
  · rw [if_neg (fun h => hneg (hsign.mp h)), hdata i hi]
    by_cases hiw : i < w <;> simp [hi, hiw, hneg]

theorem data_getLsbD (item : HidItem) (hlen : item.tag.dataLength * 8 < 32) (overShift : BitVec 32) :
    ∀ i < 32, (item.data overShift).getLsbD i = (decide (i < item.tag.dataLength * 8) && item.word.getLsbD i) := by
  intro i hi
  simp only [HidItem.data, if_pos hlen, BitVec.getLsbD_and, BitVec.getLsbD_not, BitVec.getLsbD_shiftLeft]
  have hi' : i - item.tag.dataLength * 8 < 32 := by omega
  by_cases hiw : i < item.tag.dataLength * 8 <;> simp [hi, hiw, hi']

theorem signedData_eq (item : HidItem) :
    FieldState.signedData (item.data 0) item.tag.dataLength = item.signedValue := by
  unfold FieldState.signedData HidItem.signedValue
  rcases dataLength_cases item.tag with h | h | h | h
  · have hd := data_getLsbD item (by omega) 0
    rw [h] at hd ⊢
    rw [if_neg (by omega), if_neg (by omega)]
    refine BitVec.eq_of_getLsbD_eq fun i hi => ?_
    rw [hd i hi, BitVec.getLsbD_signExtend, BitVec.msb_eq_getLsbD_last]
    simp
  · have hd := data_getLsbD item (by omega) 0
    rw [h] at hd ⊢
    simp only [true_and]
    rw [← signExtend_of_bits 0x80 0xFFFFFF00 (by omega) (by omega) hd (by decide) (by decide)]
    simp
  · have hd := data_getLsbD item (by omega) 0
    rw [h] at hd ⊢
    simp only [true_and]
    rw [← signExtend_of_bits 0x8000 0xFFFF0000 (by omega) (by omega) hd (by decide) (by decide)]
    simp
  · rw [if_neg (by omega), if_neg (by omega), HidItem.data, h]
    have hword : item.word &&& ~~~ (0 : BitVec 32) = item.word := BitVec.and_allOnes
    simpa using hword

/-- Only the data of an item of four bytes is in doubt. -/
theorem data_short {item : HidItem} (hlen : item.tag.dataLength ≠ 4) (overShift : BitVec 32) :
    item.data overShift = item.data 0 := by
  have hshort : item.tag.dataLength * 8 < 32 := by
    rcases dataLength_cases item.tag with h | h | h | h <;> omega
  simp only [HidItem.data, if_pos hshort]

/-! ### The parser and the descriptor -/

/-- The states after a number of items. -/
def FieldState.fieldItems (overShift : BitVec 32) : FieldState → List HidItem → Except DescriptorFault FieldState
  | st, [] => .ok st
  | st, item :: items => do
      let (st, _) ← st.fieldItem overShift item
      fieldItems overShift st items

section
variable {overShift : BitVec 32} {item : HidItem} {items : List HidItem}

theorem fieldItems_cons {st st' : FieldState} : st.fieldItems overShift (item :: items) = .ok st' ↔
    ∃ st₁ fields, st.fieldItem overShift item = .ok (st₁, fields) ∧ st₁.fieldItems overShift items = .ok st' := by
  rw [FieldState.fieldItems, bind_ok]
  exact ⟨fun ⟨⟨st₁, fields⟩, hitem, hs⟩ => ⟨st₁, fields, hitem, hs⟩,
    fun ⟨st₁, fields, hitem, hs⟩ => ⟨(st₁, fields), hitem, hs⟩⟩

/-- The parser goes through these states. -/
theorem fieldItem_of_parseItem {st st' : CurrentParseState} {ok : Bool}
    (hs : st.parseItem overShift item = .ok (ok, st')) :
    ∃ fields, st.toFieldState.fieldItem overShift item = .ok (st'.toFieldState, fields) := by
  obtain ⟨path, -, hstep⟩ := parseItem_step hs
  have hbracket (hmain : item.mainItem = some .collection ∨ item.mainItem = some .endCollection) :
      st.toFieldState.fieldItem overShift item = .ok (st.resetLocal, []) := by
    unfold HidItem.mainItem at hmain
    unfold FieldState.fieldItem
    split at hmain
    next htype =>
      rw [htype]
      rcases hmain with hmain | hmain <;> rw [hmain]
    next => rcases hmain with hmain | hmain <;> cases hmain
  cases hstep with
  | field hother hfields => exact ⟨_, hfields⟩
  | fields hother hfields => exact ⟨_, hfields⟩
  | collection hitem => exact ⟨[], hbracket (.inl hitem)⟩
  | endCollection hitem =>
      refine ⟨[], (hbracket (.inr hitem)).trans ?_⟩
      unfold CurrentParseState.closeCollection
      split <;> rfl

theorem fieldItems_of_parseItems : ∀ {items : List HidItem} {st st' : CurrentParseState} {ok : Bool},
    st.parseItems overShift items = .ok (ok, st') →
    st.toFieldState.fieldItems overShift items = .ok st'.toFieldState
  | [], st, st', ok, hs => by
      cases hs
      rfl
  | item :: items, st, st', ok, hs => by
      obtain ⟨ok₁, st₁, ok₂, hitem, hrest, -⟩ := CurrentParseState.parseItems_cons.mp hs
      obtain ⟨fields, hfields⟩ := fieldItem_of_parseItem hitem
      exact fieldItems_cons.mpr ⟨st₁.toFieldState, fields, hfields, fieldItems_of_parseItems hrest⟩

end

section
variable {overShift : BitVec 32} {item : HidItem} {items : List HidItem} {st st' : FieldState}
  {g : ParserGlobalState} {type : HidFieldType} {flags : BitVec 16} {field : ReportFieldDescription}
  {fields : List ReportFieldDescription} {start : Nat}

/-- What `add_new_field` makes of the total and of the values in force. -/
structure MadeFrom (total : BitVec 32) (g : ParserGlobalState) (field : ReportFieldDescription) : Prop where
  byteOffset : field.byteOffset = (total / 8).setWidth 8
  bitOffset : field.bitOffset = (total % 8).setWidth 8
  numBits : field.numBits = g.reportSize.setWidth 8
  logicalMin : field.logicalMin = g.logicalMinimum
  logicalMax : field.logicalMax = g.logicalMaximum
  physicalMin : field.physicalMin = g.physicalMinimum
  physicalMax : field.physicalMax = g.physicalMinimum

theorem addField_made (hs : st.addField g type flags = .ok (st', field)) :
    MadeFrom (st.totalBitOffset type) g field ∧ st'.globalStateStack = st.globalStateStack ∧
      st'.allFields = Function.update st.allFields type (st.allFields type ++ [field]) ∧
      st'.totalBitOffset =
        Function.update st.totalBitOffset type (st.totalBitOffset type + field.numBits.setWidth 32) := by
  obtain ⟨⟨usage, l⟩, -, hs⟩ := bind_ok.mp hs
  cases hs
  exact ⟨⟨rfl, rfl, rfl, rfl, rfl, rfl, rfl⟩, rfl, rfl, rfl⟩

/-- Eight bits are enough for the place of a field before bit 2048. -/
theorem MadeFrom.ok_iff {total : BitVec 32} (h : MadeFrom total g field) (htotal : total.toNat = start) :
    FieldOk start field g ↔
      g.reportSize.toNat < 256 ∧ g.physicalMinimum = g.physicalMaximum ∧ start < 2048 := by
  have hbyte : field.byteOffset.toNat = start / 8 % 256 := by
    rw [h.byteOffset, BitVec.toNat_setWidth, BitVec.toNat_udiv, htotal]
    rfl
  have hbit : field.bitOffset.toNat = start % 8 := by
    rw [h.bitOffset, BitVec.toNat_setWidth, BitVec.toNat_umod, htotal]
    have : start % 8 < 8 := Nat.mod_lt _ (by omega)
    exact Nat.mod_eq_of_lt (by change start % 8 < 256; omega)
  have hsize : field.numBits.toNat = g.reportSize.toNat % 256 := by
    rw [h.numBits, BitVec.toNat_setWidth]
  constructor
  · intro hok
    have hplace := hok.place
    have hnum := hok.numBits
    exact ⟨by omega, h.physicalMax.symm.trans hok.physicalMax, by omega⟩
  · rintro ⟨hlt, hphysical, hstart⟩
    exact ⟨by omega, by omega, h.logicalMin, h.logicalMax, h.physicalMin, h.physicalMax.trans hphysical⟩

theorem addFields_made : ∀ {n : Nat} {st : FieldState} {fields},
    st.addFields g type flags n = .ok (st', fields) →
    st'.globalStateStack = st.globalStateStack ∧ fields.length = n ∧
      st'.allFields = Function.update st.allFields type (st.allFields type ++ fields) ∧
      ∀ other ≠ type, st'.totalBitOffset other = st.totalBitOffset other
  | 0, st, fields, hs => by
      cases hs
      exact ⟨rfl, rfl, by rw [List.append_nil, Function.update_eq_self], fun _ _ => rfl⟩
  | n + 1, st, fields, hs => by
      obtain ⟨⟨st₁, field⟩, hfield, hs⟩ := bind_ok.mp hs
      obtain ⟨⟨st₂, rest⟩, hrest, hs⟩ := bind_ok.mp hs
      cases hs
      obtain ⟨-, hstack, hall, htotal⟩ := addField_made hfield
      obtain ⟨hstack', hlen, hall', htotal'⟩ := addFields_made hrest
      refine ⟨hstack'.trans hstack, congrArg (· + 1) hlen, ?_, fun other hne => ?_⟩
      · rw [hall', hall, Function.update_self, Function.update_idem, List.append_assoc]
        rfl
      · rw [htotal' other hne, htotal, Function.update_of_ne hne]

/-- The fields of a main item lie one after the other exactly if each of them has a place of eight bits. -/
theorem addFields_tiles : ∀ {n : Nat} {st : FieldState} {fields start},
    (st.totalBitOffset type).toNat = start → st.addFields g type flags n = .ok (st', fields) →
    (Tiles start fields (List.replicate n g) ↔ ∀ i < n, g.reportSize.toNat < 256 ∧
      g.physicalMinimum = g.physicalMaximum ∧ start + i * g.reportSize.toNat < 2048) ∧
    (Tiles start fields (List.replicate n g) →
      (st'.totalBitOffset type).toNat = start + n * g.reportSize.toNat)
  | 0, st, fields, start, hstart, hs => by
      cases hs
      simp [Tiles, hstart]
  | n + 1, st, fields, start, hstart, hs => by
      obtain ⟨⟨st₁, field⟩, hfield, hs⟩ := bind_ok.mp hs
      obtain ⟨⟨st₂, rest⟩, hrest, hs⟩ := bind_ok.mp hs
      cases hs
      obtain ⟨hmade, -, -, htotal⟩ := addField_made hfield
      have hok := hmade.ok_iff hstart
      have hstart₁ (hf : FieldOk start field g) :
          (st₁.totalBitOffset type).toNat = start + g.reportSize.toNat := by
        have hnum := hf.numBits
        obtain ⟨hsize, -, hlt⟩ := hok.mp hf
        rw [htotal, Function.update_self, BitVec.toNat_add, BitVec.toNat_setWidth, hnum, hstart]
        omega
      rw [List.replicate_succ, Tiles]
      constructor
      · constructor
        · rintro ⟨hf, htiles⟩ i hi
          obtain ⟨hsize, hphysical, hlt⟩ := hok.mp hf
          refine ⟨hsize, hphysical, ?_⟩
          cases i with
          | zero => omega
          | succ j =>
              have hj := ((addFields_tiles (hstart₁ hf) hrest).1.mp htiles j (by omega)).2.2
              rw [Nat.add_one_mul]
              omega
        · intro hall
          obtain ⟨hsize, hphysical, hlt⟩ := hall 0 (by omega)
          have hf := hok.mpr ⟨hsize, hphysical, by omega⟩
          refine ⟨hf, (addFields_tiles (hstart₁ hf) hrest).1.mpr fun i hi => ⟨hsize, hphysical, ?_⟩⟩
          have hi' := (hall (i + 1) (by omega)).2.2
          rw [Nat.add_one_mul] at hi'
          omega
      · rintro ⟨hf, htiles⟩
        have hend := (addFields_tiles (hstart₁ hf) hrest).2 htiles
        rw [hend, Nat.add_one_mul]
        omega

/-- The parser has the values in force, and its fields lie one after the other. -/
structure Agrees (st : FieldState) (s : InForce) : Prop where
  stack : st.globalStateStack = s.stack
  tiles : ∀ type, Tiles 0 (st.allFields type) (s.fields type)
  total : ∀ type, (st.totalBitOffset type).toNat = bits (s.fields type)

/-- The values in force after a global item, as the parser has them. -/
def pushedOrSet (overShift : BitVec 32) (stack : List ParserGlobalState) (item : HidItem) : List ParserGlobalState :=
  match HidGlobalItem.ofTag item.tag.tag, stack with
  | none, stack => stack
  | some .push, stack => {} :: stack
  | some .pop, stack => stack.tail
  | some _, [] => []
  | some i, g :: rest =>
      let data := item.data overShift
      FieldState.globalValue i data (FieldState.signedData data item.tag.dataLength) g :: rest

theorem handleGlobalItem_ok {result : Bool}
    (hs : st.handleGlobalItem item.tag (item.data overShift) = .ok (result, st')) :
    st' = { st with globalStateStack := pushedOrSet overShift st.globalStateStack item } := by
  unfold FieldState.handleGlobalItem FieldState.setTop at hs
  unfold pushedOrSet
  cases htag : HidGlobalItem.ofTag item.tag.tag with
  | none =>
      simp only [htag] at hs
      cases hs
      rfl
  | some i =>
      cases hstack : st.globalStateStack with
      | nil => cases i <;> simp only [htag, hstack] at hs <;> first | (cases hs; rfl) | cases hs
      | cons g rest => cases i <;> simp only [htag, hstack] at hs <;> (cases hs; rfl)

/-- Which is right exactly if nothing goes wrong. -/
theorem pushedOrSet_eq_iff {s : InForce} (overShift : BitVec 32) (htype : HidType.ofType item.tag.type = some .global)
    (hpop : s.stack = [] → HidGlobalItem.ofTag item.tag.tag = none ∨
      HidGlobalItem.ofTag item.tag.tag = some .push) :
    pushedOrSet overShift s.stack item = InForce.globalItem s.stack item ↔ ItemTiles overShift s item := by
  have hvalue (i : HidGlobalItem) (hset : ∀ d d' g, FieldState.globalValue i d d g =
      FieldState.globalValue i d' d' g → d = d') (g : ParserGlobalState) :
      FieldState.globalValue i (item.data overShift)
        (FieldState.signedData (item.data overShift) item.tag.dataLength) g =
      FieldState.globalValue i (item.data 0) item.signedValue g ↔ item.data overShift = item.data 0 := by
    rw [← signedData_eq]
    constructor
    · intro heq
      by_cases hlen : item.tag.dataLength = 4
      · have hsigned (d : BitVec 32) : FieldState.signedData d item.tag.dataLength = d := by
          simp [FieldState.signedData, hlen]
        rw [hsigned, hsigned] at heq
        exact hset _ _ g heq
      · exact data_short hlen overShift
    · intro heq
      rw [heq]
  unfold pushedOrSet InForce.globalItem ItemTiles
  rw [htype]
  cases htag : HidGlobalItem.ofTag item.tag.tag with
  | none => simp
  | some i =>
      cases hstack : s.stack with
      | nil =>
          rcases hpop hstack with hnone | hpush
          · rw [htag] at hnone
            cases hnone
          · obtain rfl := Option.some.inj (htag.symm.trans hpush)
            simp
      | cons g rest =>
          cases i
          case push => simp [eq_comm]
          case pop => simp
          all_goals
            simp only [List.cons.injEq, and_true]
            refine hvalue _ (fun d d' g heq => ?_) g
            simpa [FieldState.globalValue] using heq

theorem handleGlobalItem_nil {result : Bool} {itemData : BitVec 32} (hnil : st.globalStateStack = [])
    (hs : st.handleGlobalItem item.tag itemData = .ok (result, st')) :
    HidGlobalItem.ofTag item.tag.tag = none ∨ HidGlobalItem.ofTag item.tag.tag = some .push := by
  unfold FieldState.handleGlobalItem FieldState.setTop at hs
  cases htag : HidGlobalItem.ofTag item.tag.tag with
  | none => exact .inl rfl
  | some i => cases i <;> simp only [htag, hnil] at hs <;> first | exact .inr rfl | cases hs

theorem handleLocalItem_ok {result : Bool} {itemData : BitVec 32}
    (hs : st.handleLocalItem item.tag itemData = .ok (result, st')) :
    ∃ localState, st' = { st with localState } := by
  unfold FieldState.handleLocalItem at hs
  split at hs
  next =>
    cases hs
    exact ⟨_, rfl⟩
  next =>
    split at hs
    next =>
      cases hs
      exact ⟨_, rfl⟩
    next =>
      cases hs
      exact ⟨_, rfl⟩
    next =>
      obtain ⟨data, -, hs⟩ := bind_ok.mp hs
      cases hs
      exact ⟨_, rfl⟩

theorem bits_replicate (n : Nat) (g : ParserGlobalState) : bits (List.replicate n g) = n * g.reportSize.toNat := by
  simp [bits]

/-- The parser and the descriptor go on together exactly if nothing goes wrong; there are as many fields
in any case. -/
structure GoOn (overShift : BitVec 32) (st' : FieldState) (s : InForce) (item : HidItem) : Prop where
  agree_iff : (st'.globalStateStack = (s.next item).stack ∧
    ∀ type, Tiles 0 (st'.allFields type) ((s.next item).fields type)) ↔ ItemTiles overShift s item
  total : ItemTiles overShift s item → ∀ type, (st'.totalBitOffset type).toNat = bits ((s.next item).fields type)
  length : ∀ type, (st'.allFields type).length = ((s.next item).fields type).length

variable {s : InForce}

/-- An item that changes neither the values in force nor the fields. -/
theorem Agrees.unchanged {localState : ParserLocalState} (h : Agrees st s) (hnext : s.next item = s)
    (htiles : ItemTiles overShift s item) : GoOn overShift { st with localState } s item := by
  constructor <;> rw [hnext]
  case agree_iff => exact ⟨fun _ => htiles, fun _ => ⟨h.stack, h.tiles⟩⟩
  case total => exact fun _ => h.total
  case length => exact fun type => (h.tiles type).length_eq

theorem Agrees.global {result : Bool} (h : Agrees st s) (htype : HidType.ofType item.tag.type = some .global)
    (hs : st.handleGlobalItem item.tag (item.data overShift) = .ok (result, st')) : GoOn overShift st' s item := by
  have hnil : s.stack = [] → _ := fun hnil => handleGlobalItem_nil (h.stack.trans hnil) hs
  have hiff := pushedOrSet_eq_iff overShift htype hnil
  obtain rfl := handleGlobalItem_ok hs
  have hnext : s.next item = { s with stack := InForce.globalItem s.stack item } := by
    simp only [InForce.next, htype]
  constructor <;> rw [hnext]
  case agree_iff =>
    rw [h.stack, hiff]
    exact and_iff_left h.tiles
  case total => exact fun _ => h.total
  case length => exact fun type => (h.tiles type).length_eq

theorem Agrees.mainField (h : Agrees st s) (htype : HidType.ofType item.tag.type = some .main)
    (htag : HidMainItem.ofTag item.tag.tag = some (.field type))
    (hs : st.addNewField type (item.data overShift) = .ok (st', fields)) :
    GoOn overShift st'.resetLocal s item := by
  obtain ⟨g, htop, hs⟩ := bind_ok.mp hs
  obtain ⟨rest, hstack⟩ : ∃ rest, st.globalStateStack = g :: rest := by
    unfold FieldState.top at htop
    split at htop
    next => cases htop
    next g' rest hstack =>
      cases htop
      exact ⟨rest, hstack⟩
  have hstack' := h.stack.symm.trans hstack
  have hnext : s.next item = { s with
      fields := Function.update s.fields type (s.fields type ++ List.replicate g.reportCount.toNat g) } := by
    simp only [InForce.next, htype, htag, hstack']
  have hitem : ItemTiles overShift s item ↔ ∀ i < g.reportCount.toNat, g.reportSize.toNat < 256 ∧
      g.physicalMinimum = g.physicalMaximum ∧ bits (s.fields type) + i * g.reportSize.toNat < 2048 := by
    simp only [ItemTiles, htype, htag, hstack', List.head?_cons, Option.mem_def, Option.some.injEq, forall_eq']
  obtain ⟨hsame, hlen, hall, hother⟩ := addFields_made hs
  obtain ⟨htiles, htotal⟩ := addFields_tiles (h.total type) hs
  have hself : Tiles 0 (st.allFields type ++ fields) (s.fields type ++ List.replicate g.reportCount.toNat g) ↔
      Tiles (bits (s.fields type)) fields (List.replicate g.reportCount.toNat g) := by
    rw [tiles_append (h.tiles type).length_eq, Nat.zero_add]
    exact and_iff_right (h.tiles type)
  have hstackEq : st'.resetLocal.globalStateStack = (s.next item).stack := by
    rw [hnext]
    exact hsame.trans h.stack
  have hfields : (∀ other, Tiles 0 (st'.resetLocal.allFields other) ((s.next item).fields other)) ↔
      Tiles (bits (s.fields type)) fields (List.replicate g.reportCount.toNat g) := by
    rw [hnext, ← hself]
    change (∀ other, Tiles 0 (st'.allFields other) _) ↔ _
    rw [hall]
    constructor
    · intro hall'
      have := hall' type
      simpa only [Function.update_self] using this
    · intro hnew other
      by_cases heq : other = type
      · subst heq
        simpa only [Function.update_self] using hnew
      · simpa only [Function.update_of_ne heq] using h.tiles other
  constructor
  case agree_iff =>
    rw [hfields, hitem, htiles]
    exact and_iff_right hstackEq
  case total =>
    intro hfine other
    rw [hnext]
    change (st'.totalBitOffset other).toNat = _
    by_cases heq : other = type
    · subst heq
      simp only [Function.update_self, bits_append, bits_replicate]
      exact htotal (htiles.mpr (hitem.mp hfine))
    · rw [hother other heq]
      simpa only [Function.update_of_ne heq] using h.total other
  case length =>
    intro other
    rw [hnext]
    change (st'.allFields other).length = _
    rw [hall]
    by_cases heq : other = type
    · subst heq
      simp only [Function.update_self, List.length_append, List.length_replicate, hlen, (h.tiles other).length_eq]
    · simpa only [Function.update_of_ne heq] using (h.tiles other).length_eq

theorem Agrees.goOn (h : Agrees st s) (hs : st.fieldItem overShift item = .ok (st', fields)) :
    GoOn overShift st' s item := by
  unfold FieldState.fieldItem at hs
  cases htype : HidType.ofType item.tag.type with
  | none =>
      simp only [htype] at hs
      cases hs
      exact h.unchanged (by simp only [InForce.next, htype]) (by simp only [ItemTiles, htype])
  | some t =>
      cases t with
      | global =>
          simp only [htype] at hs
          obtain ⟨⟨result, st₁⟩, hglobal, hs⟩ := bind_ok.mp hs
          cases hs
          exact h.global htype hglobal
      | «local» =>
          simp only [htype] at hs
          obtain ⟨⟨result, st₁⟩, hlocal, hs⟩ := bind_ok.mp hs
          cases hs
          obtain ⟨localState, rfl⟩ := handleLocalItem_ok hlocal
          exact h.unchanged (by simp only [InForce.next, htype]) (by simp only [ItemTiles, htype])
      | main =>
          simp only [htype] at hs
          cases htag : HidMainItem.ofTag item.tag.tag with
          | none =>
              simp only [htag] at hs
              cases hs
              exact h.unchanged (by simp only [InForce.next, htype, htag]) (by simp only [ItemTiles, htype, htag])
          | some main =>
              cases main with
              | field type =>
                  simp only [htag] at hs
                  obtain ⟨⟨st₁, fields₁⟩, hfield, hs⟩ := bind_ok.mp hs
                  cases hs
                  exact h.mainField htype htag hfield
              | collection | endCollection =>
                  simp only [htag] at hs
                  cases hs
                  exact h.unchanged (by simp only [InForce.next, htype, htag])
                    (by simp only [ItemTiles, htype, htag])

theorem Agrees.next (h : Agrees st s) (hs : st.fieldItem overShift item = .ok (st', fields))
    (hitem : ItemTiles overShift s item) : Agrees st' (s.next item) := by
  have hgoOn := h.goOn hs
  obtain ⟨hstack, htiles⟩ := hgoOn.agree_iff.mpr hitem
  exact ⟨hstack, htiles, hgoOn.total hitem⟩

/-- Fields are only added. -/
theorem fieldItem_grows (hs : st.fieldItem overShift item = .ok (st', fields)) (type : HidFieldType) :
    ∃ later, st'.allFields type = st.allFields type ++ later := by
  have hsame (hall : st'.allFields = st.allFields) : ∃ later, st'.allFields type = st.allFields type ++ later :=
    ⟨[], by rw [hall, List.append_nil]⟩
  unfold FieldState.fieldItem at hs
  split at hs
  next =>
    split at hs
    next other htag =>
      obtain ⟨⟨st₁, fields₁⟩, hfield, hs⟩ := bind_ok.mp hs
      cases hs
      obtain ⟨g, -, hfield⟩ := bind_ok.mp hfield
      obtain ⟨-, -, hall, -⟩ := addFields_made hfield
      by_cases heq : type = other
      · subst heq
        exact ⟨fields, by change st₁.allFields type = _; rw [hall, Function.update_self]⟩
      · exact ⟨[], by change st₁.allFields type = _; rw [hall, Function.update_of_ne heq, List.append_nil]⟩
    all_goals
      cases hs
      exact hsame rfl
  next =>
    obtain ⟨⟨result, st₁⟩, hglobal, hs⟩ := bind_ok.mp hs
    cases hs
    obtain rfl := handleGlobalItem_ok hglobal
    exact hsame rfl
  next =>
    obtain ⟨⟨result, st₁⟩, hlocal, hs⟩ := bind_ok.mp hs
    cases hs
    obtain ⟨localState, rfl⟩ := handleLocalItem_ok hlocal
    exact hsame rfl
  next =>
    cases hs
    exact hsame rfl

theorem fieldItems_grows (type : HidFieldType) : ∀ {items : List HidItem} {st : FieldState},
    st.fieldItems overShift items = .ok st' → ∃ later, st'.allFields type = st.allFields type ++ later
  | [], st, hs => by
      cases hs
      exact ⟨[], (List.append_nil _).symm⟩
  | item :: items, st, hs => by
      obtain ⟨st₁, fields, hitem, hrest⟩ := fieldItems_cons.mp hs
      obtain ⟨later, hlater⟩ := fieldItem_grows hitem type
      obtain ⟨later', hlater'⟩ := fieldItems_grows type hrest
      exact ⟨later ++ later', by rw [hlater', hlater, List.append_assoc]⟩

theorem InForce.next_grows (s : InForce) (item : HidItem) (type : HidFieldType) :
    ∃ later, (s.next item).fields type = s.fields type ++ later := by
  unfold InForce.next
  split
  next => exact ⟨[], (List.append_nil _).symm⟩
  next =>
    split
    next other g rest htag hstack =>
      by_cases heq : type = other
      · subst heq
        exact ⟨_, Function.update_self ..⟩
      · exact ⟨[], by simp only [Function.update_of_ne heq, List.append_nil]⟩
    next => exact ⟨[], (List.append_nil _).symm⟩
  all_goals exact ⟨[], (List.append_nil _).symm⟩

theorem InForce.after_grows (type : HidFieldType) : ∀ (items : List HidItem) (s : InForce),
    ∃ later, (s.after items).fields type = s.fields type ++ later
  | [], s => ⟨[], (List.append_nil _).symm⟩
  | item :: items, s => by
      obtain ⟨later, hlater⟩ := s.next_grows item type
      obtain ⟨later', hlater'⟩ := InForce.after_grows type items (s.next item)
      exact ⟨later ++ later', by rw [← List.append_assoc, ← hlater]; exact hlater'⟩

/-- The parser agrees with the descriptor all the way if nothing goes wrong. -/
theorem Agrees.after : ∀ {items : List HidItem} {st : FieldState} {s : InForce}, Agrees st s →
    ItemsTile overShift s items → st.fieldItems overShift items = .ok st' → Agrees st' (s.after items)
  | [], st, s, h, _, hs => by
      cases hs
      exact h
  | item :: items, st, s, h, htiles, hs => by
      obtain ⟨st₁, fields, hitem, hrest⟩ := fieldItems_cons.mp hs
      have hafter : Agrees st' ((s.next item).after items) := Agrees.after (h.next hitem htiles.1) htiles.2 hrest
      exact hafter

/-- If the fields that come out lie one after the other, and the values in force are right after each item,
nothing has gone wrong. -/
theorem Agrees.itemsTile : ∀ {items : List HidItem} {st : FieldState} {s : InForce}, Agrees st s →
    st.fieldItems overShift items = .ok st' →
    (∀ type, Tiles 0 (st'.allFields type) ((s.after items).fields type)) →
    (∀ before, before <+: items → ∀ st₁, st.fieldItems overShift before = .ok st₁ →
      st₁.globalStateStack = (s.after before).stack) → ItemsTile overShift s items
  | [], st, s, h, hs, htiles, hstack => trivial
  | item :: items, st, s, h, hs, htiles, hstack => by
      obtain ⟨st₁, fields, hitem, hrest⟩ := fieldItems_cons.mp hs
      have hgoOn := h.goOn hitem
      have hstack₁ : st₁.globalStateStack = (s.next item).stack :=
        hstack [item] ⟨items, rfl⟩ st₁ (fieldItems_cons.mpr ⟨st₁, fields, hitem, rfl⟩)
      have htiles₁ (type : HidFieldType) : Tiles 0 (st₁.allFields type) ((s.next item).fields type) := by
        obtain ⟨later, hlater⟩ := fieldItems_grows type hrest
        obtain ⟨later', hlater'⟩ := InForce.after_grows type items (s.next item)
        have hall := htiles type
        rw [hlater, show s.after (item :: items) = (s.next item).after items from rfl, hlater'] at hall
        exact ((tiles_append (hgoOn.length type)).mp hall).1
      have htile := hgoOn.agree_iff.mp ⟨hstack₁, htiles₁⟩
      refine ⟨htile, Agrees.itemsTile (h.next hitem htile) hrest htiles fun before hbefore st₂ hst₂ => ?_⟩
      exact hstack (item :: before) (List.cons_prefix_cons.mpr ⟨rfl, hbefore⟩) st₂
        (fieldItems_cons.mpr ⟨st₁, fields, hitem, hst₂⟩)

end

section
variable {overShift : BitVec 32} {raw : Nat → BitVec 8} {descriptorLength : BitVec 32} {n : Nat}

/-- The fields of each kind lie one after the other, with the values in force for them, and after each
item the parser has the values in force. -/
def FieldsRight (overShift : BitVec 32) (items : List HidItem) (descriptor : DecodedDescriptor) : Prop :=
  (∀ type, Tiles 0 (descriptor.fields type) ((InForce.after {} items).fields type)) ∧
  ∀ before, before <+: items → ∃ ok st, ({} : CurrentParseState).parseItems overShift before = .ok (ok, st) ∧
    st.globalStateStack = (InForce.after {} before).stack

theorem agrees_start : Agrees {} {} := ⟨rfl, fun _ => trivial, fun _ => rfl⟩

theorem ItemsTile.before : ∀ {before items : List HidItem} {s : InForce}, before <+: items →
    ItemsTile overShift s items → ItemsTile overShift s before
  | [], _, _, _, _ => trivial
  | item :: before, _, s, ⟨rest, hrest⟩, h => by
      subst hrest
      exact ⟨h.1, ItemsTile.before ⟨rest, rfl⟩ h.2⟩

theorem itemsTile_of_fieldsRight {fuel : Nat} {r : ParsedDescriptor} (hend : itemsEnd raw n 0 = descriptorLength.toNat)
    (hr : parseDescriptor overShift raw descriptorLength fuel = .ok r)
    (hright : FieldsRight overShift (itemsFrom raw n 0) r.descriptor) :
    ItemsTile overShift {} (itemsFrom raw n 0) := by
  obtain ⟨-, ok, st, hitems, hdescriptor⟩ := parseDescriptor_ok hend hr
  obtain ⟨htiles, hstack⟩ := hright
  rw [hdescriptor] at htiles
  refine agrees_start.itemsTile (fieldItems_of_parseItems hitems) htiles fun before hbefore st₁ hst₁ => ?_
  obtain ⟨ok', st', hparse, hright⟩ := hstack before hbefore
  have hsame := (fieldItems_of_parseItems hparse).symm.trans hst₁
  rw [← Except.ok.inj hsame]
  exact hright

/-- The fields of a descriptor of whole items come out as it says exactly if it has less than 2^16 bytes,
its items can be dealt with and nothing goes wrong with any of them. -/
theorem parseDescriptor_tiles_iff (hend : itemsEnd raw n 0 = descriptorLength.toNat) :
    (∃ fuel r, parseDescriptor overShift raw descriptorLength fuel = .ok r ∧
      FieldsRight overShift (itemsFrom raw n 0) r.descriptor) ↔
    descriptorLength.toNat < 65536 ∧ Parsable overShift (itemsFrom raw n 0) ∧
      ItemsTile overShift {} (itemsFrom raw n 0) := by
  constructor
  · rintro ⟨fuel, r, hr, hright⟩
    obtain ⟨hlen, ok, st, hitems, -⟩ := parseDescriptor_ok hend hr
    exact ⟨hlen, parseItems_ok_iff.mp ⟨ok, st, hitems⟩, itemsTile_of_fieldsRight hend hr hright⟩
  · rintro ⟨hlen, hparsable, htile⟩
    obtain ⟨ok, st, hitems⟩ := parseItems_ok_iff.mpr hparsable
    obtain ⟨r, hr, -, hdescriptor, -⟩ := parseDescriptor_of_items hlen hend hitems
    refine ⟨n, r, hr, ?_, fun before hbefore => ?_⟩
    · rw [hdescriptor]
      exact (agrees_start.after htile (fieldItems_of_parseItems hitems)).tiles
    · obtain ⟨rest, hrest⟩ := hbefore
      rw [← hrest] at hitems
      obtain ⟨ok₁, st₁, ok₂, hbefore', -⟩ := parseItems_append hitems
      refine ⟨ok₁, st₁, hbefore', ?_⟩
      exact (agrees_start.after (htile.before ⟨rest, hrest⟩) (fieldItems_of_parseItems hbefore')).stack

instance (overShift : BitVec 32) (s : InForce) (item : HidItem) : Decidable (ItemTiles overShift s item) :=
  match htype : HidType.ofType item.tag.type with
  | some .global =>
      match htag : HidGlobalItem.ofTag item.tag.tag with
      | some .push => decidable_of_iff (∀ g ∈ s.stack.head?, g = {}) (by simp only [ItemTiles, htype, htag])
      | some .pop | none => .isTrue (by simp only [ItemTiles, htype, htag])
      | some .usagePage | some .logicalMin | some .logicalMax | some .physicalMin | some .physicalMax
      | some .unitExp | some .unit | some .reportSize | some .reportId | some .reportCount =>
          decidable_of_iff (item.data overShift = item.data 0) (by simp only [ItemTiles, htype, htag])
  | some .main =>
      match htag : HidMainItem.ofTag item.tag.tag with
      | some (.field type) => decidable_of_iff (∀ g ∈ s.stack.head?, ∀ i < g.reportCount.toNat,
          g.reportSize.toNat < 256 ∧ g.physicalMinimum = g.physicalMaximum ∧
          bits (s.fields type) + i * g.reportSize.toNat < 2048) (by simp only [ItemTiles, htype, htag])
      | some .collection | some .endCollection | none => .isTrue (by simp only [ItemTiles, htype, htag])
  | some .local | none => .isTrue (by simp only [ItemTiles, htype])

instance ItemsTile.decidable (overShift : BitVec 32) :
    ∀ (s : InForce) (items : List HidItem), Decidable (ItemsTile overShift s items)
  | _, [] => .isTrue trivial
  | s, item :: items =>
      have := ItemsTile.decidable overShift (s.next item) items
      inferInstanceAs (Decidable (ItemTiles overShift s item ∧ _))

theorem parseDescriptor_tiles_two : ∃ fuel r,
    parseDescriptor 0 (bytesThenZeros twoCollections) 16 fuel = .ok r ∧
      FieldsRight 0 (itemsFrom (bytesThenZeros twoCollections) 9 0) r.descriptor :=
  (parseDescriptor_tiles_iff (by decide)).mpr ⟨by decide, by decide +kernel, by decide +kernel⟩

/-- A field with physical values from 0 to 127. -/
def physicalRange : List (BitVec 8) := [0x35, 0x00, 0x45, 0x7F, 0x75, 0x08, 0x95, 0x01, 0x81, 0x03]

/-- The greatest physical value of a field is given its least one. -/
theorem parseDescriptor_physical_max : ¬ ∀ (overShift : BitVec 32) (raw : Nat → BitVec 8)
    (descriptorLength : BitVec 32) (n : Nat), itemsEnd raw n 0 = descriptorLength.toNat →
    Balanced (itemsFrom raw n 0) → ∃ fuel r, parseDescriptor overShift raw descriptorLength fuel = .ok r ∧
      FieldsRight overShift (itemsFrom raw n 0) r.descriptor := by
  intro h
  obtain ⟨fuel, r, hr, hright⟩ := h 0 (bytesThenZeros physicalRange) 10 5 (by decide) (by decide +kernel)
  have htiles := itemsTile_of_fieldsRight (n := 5) (by decide) hr hright
  revert htiles
  decide +kernel

end

end Azalea.Usb
