import Azalea.Support.Runs
import Azalea.Usb.HidReport

/-!
# Usb — HID report descriptors

`devices/usb/hid/hid_input_descriptor_parser.cpp`: `parse_descriptor` goes over the items of a descriptor
and builds the collections and the fields of the reports.

A `decoded_collection` is a value in the vector of its parent, and a pointer to one is a path from the
root.  The collections on the path to `current_collection` stay where they are: only its own children
can be moved by a `push_back`, and nothing goes back to a child that is closed.
-/

namespace Azalea.Usb
open Azalea.Halts (bind_ok ok_bind)

/-! ### Items -/

/-- `hid_short_tag`. -/
structure HidShortTag where
  raw : BitVec 8
  deriving DecidableEq

namespace HidShortTag
variable (t : HidShortTag)

def size : BitVec 2 := t.raw.extractLsb' 0 2

def type : BitVec 2 := t.raw.extractLsb' 2 2

def tag : BitVec 4 := t.raw.extractLsb' 4 4

/-- How many bytes of data follow. -/
def dataLength : Nat := if t.size = 3 then 4 else t.size.toNat

end HidShortTag

/-- `HID_TYPES`. -/
inductive HidType where
  | main
  | global
  | local

def HidType.ofType (type : BitVec 2) : Option HidType :=
  match type.toNat with
  | 0 => some .main
  | 1 => some .global
  | 2 => some .local
  | _ => none

/-- `HID_MAIN_ITEMS`. -/
inductive HidMainItem where
  | field (type : HidFieldType)
  | collection
  | endCollection

def HidMainItem.ofTag (tag : BitVec 4) : Option HidMainItem :=
  match tag.toNat with
  | 8 => some (.field .input)
  | 9 => some (.field .output)
  | 10 => some .collection
  | 11 => some (.field .feature)
  | 12 => some .endCollection
  | _ => none

/-- `HID_GLOBAL_ITEMS`. -/
inductive HidGlobalItem where
  | usagePage
  | logicalMin
  | logicalMax
  | physicalMin
  | physicalMax
  | unitExp
  | unit
  | reportSize
  | reportId
  | reportCount
  | push
  | pop

def HidGlobalItem.ofTag (tag : BitVec 4) : Option HidGlobalItem :=
  match tag.toNat with
  | 0 => some .usagePage
  | 1 => some .logicalMin
  | 2 => some .logicalMax
  | 3 => some .physicalMin
  | 4 => some .physicalMax
  | 5 => some .unitExp
  | 6 => some .unit
  | 7 => some .reportSize
  | 8 => some .reportId
  | 9 => some .reportCount
  | 10 => some .push
  | 11 => some .pop
  | _ => none

/-- The three families of `HID_LOCAL_ITEMS`. -/
inductive HidIndex where
  | usage
  | designator
  | strings
  deriving DecidableEq

/-- A single index, or one end of a range of them. -/
inductive HidIndexPart where
  | idx
  | min
  | max

/-- `HID_LOCAL_ITEMS`. -/
inductive HidLocalItem where
  | index (i : HidIndex) (part : HidIndexPart)
  | delimiter

def HidLocalItem.ofTag (tag : BitVec 4) : Option HidLocalItem :=
  match tag.toNat with
  | 0 => some (.index .usage .idx)
  | 1 => some (.index .usage .min)
  | 2 => some (.index .usage .max)
  | 3 => some (.index .designator .idx)
  | 4 => some (.index .designator .min)
  | 5 => some (.index .designator .max)
  | 7 => some (.index .strings .idx)
  | 8 => some (.index .strings .min)
  | 9 => some (.index .strings .max)
  | 10 => some .delimiter
  | _ => none

/-- An item: its tag and the four bytes after it. -/
structure HidItem where
  tag : HidShortTag
  word : BitVec 32
  deriving DecidableEq

/-- `data_buffer`.  For an item with four bytes the mask is shifted by its whole width, which C++ leaves
open: `overShift` is what comes out of it. -/
def HidItem.data (overShift : BitVec 32) (item : HidItem) : BitVec 32 :=
  let dataMask := ~~~ (0 : BitVec 32)
  let dataMask := if item.tag.dataLength * 8 < 32 then dataMask <<< (item.tag.dataLength * 8) else overShift
  item.word &&& ~~~ dataMask

/-! ### The state of the parser -/

/-- `parser_global_state`. -/
structure ParserGlobalState where
  usagePage : BitVec 32 := 0
  logicalMinimum : BitVec 32 := 0
  logicalMaximum : BitVec 32 := 0
  physicalMinimum : BitVec 32 := 0
  physicalMaximum : BitVec 32 := 0
  unitExponent : BitVec 32 := 0
  unit : BitVec 32 := 0
  reportSize : BitVec 32 := 0
  reportId : BitVec 32 := 0
  reportCount : BitVec 32 := 0
  deriving DecidableEq

/-- `parser_local_state_field`. -/
structure ParserLocalStateField where
  item : BitVec 32 := 0
  itemMin : BitVec 32 := 0
  itemMax : BitVec 32 := 0
  isMinMax : Bool := false
  deriving DecidableEq

/-- `parser_local_state`: the three queues, and whether a delimiter has been seen. -/
structure ParserLocalState where
  queue : HidIndex → List ParserLocalStateField := fun _ => []
  hasHadDelimiter : Bool := false

/-- `decoded_collection`, without the pointer to its parent.  The type of the root is never set. -/
structure DecodedCollection where
  collectionType : BitVec 8 := 0
  reportFields : List ReportFieldDescription := []
  childCollections : List DecodedCollection := []
  usage : BitVec 32 := 0
  designator : BitVec 32 := 0
  stringIdx : BitVec 32 := 0

/-- A pointer to a collection: its place among the children of its parent, and the path to that. -/
abbrev CollectionPath := List Nat

/-- The collection at a path. -/
def DecodedCollection.get? (c : DecodedCollection) : CollectionPath → Option DecodedCollection
  | [] => some c
  | i :: path => (c.get? path).bind fun parent => parent.childCollections[i]?

/-- Change the collection at a path. -/
def DecodedCollection.modify (c : DecodedCollection) :
    CollectionPath → (DecodedCollection → DecodedCollection) → DecodedCollection
  | [], f => f c
  | i :: path, f =>
      c.modify path fun parent => { parent with childCollections := parent.childCollections.modify i f }

/-- The part of `current_parse_state` that has nothing to do with collections; `allFields` and
`totalBitOffset` are the three vectors and the three totals. -/
structure FieldState where
  globalStateStack : List ParserGlobalState := [{}]
  localState : ParserLocalState := {}
  allFields : HidFieldType → List ReportFieldDescription := fun _ => []
  totalBitOffset : HidFieldType → BitVec 32 := fun _ => 0

/-- `current_parse_state`, with the `parent_collection` of each collection. -/
structure CurrentParseState extends FieldState where
  rootCollection : DecodedCollection := {}
  currentCollection : Option CollectionPath := some []
  parentCollection : CollectionPath → Option CollectionPath := fun _ => none

/-- What can go wrong in `parse_descriptor`. -/
inductive DescriptorFault where
  /-- `current_collection` is null. -/
  | nullCollection
  /-- The top of an empty stack of global states is taken. -/
  | emptyStack
  /-- An array has no usage. -/
  | noUsage
  /-- A long item: `INCOMPLETE_CODE`. -/
  | incompleteCode
  | outOfFuel
  deriving DecidableEq

/-! ### The handlers -/

/-- `get_next_field_index_val`: the value, and the queue that is left. -/
def getNextFieldIndexVal : List ParserLocalStateField → BitVec 32 × List ParserLocalStateField
  | [] => (0, [])
  | field :: rest =>
      if field.isMinMax then
        let result := field.item
        let next := { field with item := field.item + 1 }
        if next.item > next.itemMax then
          -- the last one is kept
          if rest.isEmpty then (result, [{ next with item := next.item - 1 }]) else (result, rest)
        else (result, next :: rest)
      else (field.item, if rest.isEmpty then [field] else rest)

/-- Take the next value of one of the queues. -/
def ParserLocalState.next (l : ParserLocalState) (i : HidIndex) : BitVec 32 × ParserLocalState :=
  ((getNextFieldIndexVal (l.queue i)).1,
    { l with queue := Function.update l.queue i (getNextFieldIndexVal (l.queue i)).2 })

namespace FieldState

/-- `global_state_stack.top()`. -/
def top (st : FieldState) : Except DescriptorFault ParserGlobalState :=
  match st.globalStateStack with
  | [] => .error .emptyStack
  | g :: _ => .ok g

/-- The usage of a new field. -/
def takeUsage (flags : BitVec 16) (l : ParserLocalState) :
    Except DescriptorFault (BitVec 32 × ParserLocalState) :=
  if flags.getLsbD 0 then .ok (0, l)
  else if flags.getLsbD 1 then .ok (l.next .usage)
  else
    match l.queue .usage with
    | [] => .error .noUsage
    | field :: _ => .ok (field.itemMin, l)

/-- One turn of the loop of `add_new_field`; `physical_max` is given the minimum. -/
def addField (g : ParserGlobalState) (type : HidFieldType) (flags : BitVec 16) (st : FieldState) :
    Except DescriptorFault (FieldState × ReportFieldDescription) := do
  let (usage, l) ← takeUsage flags st.localState
  let (designator, l) := l.next .designator
  let (stringIdx, l) := l.next .strings
  let total := st.totalBitOffset type
  let newField : ReportFieldDescription :=
    { byteOffset := (total / 8).setWidth 8
      bitOffset := (total % 8).setWidth 8
      numBits := g.reportSize.setWidth 8
      type, flags, usage, designator, stringIdx
      logicalMin := g.logicalMinimum
      logicalMax := g.logicalMaximum
      physicalMin := g.physicalMinimum
      physicalMax := g.physicalMinimum
      unitExponent := g.unitExponent
      unit := g.unit }
  return ({ st with
    localState := l
    totalBitOffset := Function.update st.totalBitOffset type (total + newField.numBits.setWidth 32)
    allFields := Function.update st.allFields type (st.allFields type ++ [newField]) }, newField)

/-- The loop of `add_new_field`, with the fields it has made. -/
def addFields (g : ParserGlobalState) (type : HidFieldType) (flags : BitVec 16) :
    Nat → FieldState → Except DescriptorFault (FieldState × List ReportFieldDescription)
  | 0, st => .ok (st, [])
  | n + 1, st => do
      let (st, newField) ← addField g type flags st
      let (st, fields) ← addFields g type flags n st
      return (st, newField :: fields)

/-- `add_new_field`. -/
def addNewField (st : FieldState) (type : HidFieldType) (itemData : BitVec 32) :
    Except DescriptorFault (FieldState × List ReportFieldDescription) := do
  let g ← st.top
  addFields g type (itemData.setWidth 16) g.reportCount.toNat st

/-- Change the state on top of the stack. -/
def setTop (st : FieldState) (f : ParserGlobalState → ParserGlobalState) : Except DescriptorFault FieldState :=
  match st.globalStateStack with
  | [] => .error .emptyStack
  | g :: rest => .ok { st with globalStateStack := f g :: rest }

/-- The data of a global item as a signed number. -/
def signedData (itemData : BitVec 32) (dataLength : Nat) : BitVec 32 :=
  if dataLength = 1 ∧ itemData &&& 0x80 ≠ 0 then 0xFFFFFF00 ||| itemData
  else if dataLength = 2 ∧ itemData &&& 0x8000 ≠ 0 then 0xFFFF0000 ||| itemData
  else itemData

/-- What a global item does to the state on top, other than `PUSH` and `POP`. -/
def globalValue (item : HidGlobalItem) (itemData signed : BitVec 32) (g : ParserGlobalState) :
    ParserGlobalState :=
  match item with
  | .usagePage => { g with usagePage := itemData }
  | .logicalMin => { g with logicalMinimum := signed }
  | .logicalMax => { g with logicalMaximum := signed }
  | .physicalMin => { g with physicalMinimum := signed }
  | .physicalMax => { g with physicalMaximum := signed }
  | .unitExp => { g with unitExponent := itemData }
  | .unit => { g with unit := itemData }
  | .reportSize => { g with reportSize := itemData }
  | .reportId => { g with reportId := itemData }
  | .reportCount => { g with reportCount := itemData }
  | .push | .pop => g

/-- `handle_global_item`: `PUSH` begins a new state. -/
def handleGlobalItem (st : FieldState) (tag : HidShortTag) (itemData : BitVec 32) :
    Except DescriptorFault (Bool × FieldState) :=
  match HidGlobalItem.ofTag tag.tag with
  | none => .ok (false, st)
  | some .push => .ok (true, { st with globalStateStack := {} :: st.globalStateStack })
  | some .pop =>
      match st.globalStateStack with
      | [] => .error .emptyStack
      | _ :: rest => .ok (!rest.isEmpty, { st with globalStateStack := rest })
  | some .reportId => do
      let st ← st.setTop (globalValue .reportId itemData (signedData itemData tag.dataLength))
      return (false, st)
  | some item => do
      let st ← st.setTop (globalValue item itemData (signedData itemData tag.dataLength))
      return (true, st)

/-- The queue of local items, with a minimum and maximum at its back. -/
def backMinMax (queue : List ParserLocalStateField) : List ParserLocalStateField :=
  if queue.getLast?.any (·.isMinMax) then queue else queue ++ [{ isMinMax := true }]

/-- `queue.back()` is changed. -/
def setBack (queue : List ParserLocalStateField) (f : ParserLocalStateField → ParserLocalStateField) :
    List ParserLocalStateField :=
  queue.modify (queue.length - 1) f

/-- The queue that a local item is for, after it. -/
def pushLocal (part : HidIndexPart) (itemData : BitVec 32) (queue : List ParserLocalStateField) :
    List ParserLocalStateField :=
  match part with
  | .idx => queue ++ [{ item := itemData }]
  | .min => setBack (backMinMax queue) fun field => { field with item := itemData, itemMin := itemData }
  | .max => setBack (backMinMax queue) fun field => { field with itemMax := itemData }

/-- A usage of less than four bytes is completed with the usage page. -/
def indexData (st : FieldState) (i : HidIndex) (itemData : BitVec 32) (dataLength : Nat) :
    Except DescriptorFault (BitVec 32) :=
  if i = .usage ∧ dataLength < 4 then do
    let g ← st.top
    return itemData ||| g.usagePage <<< 16
  else return itemData

/-- `handle_local_item`. -/
def handleLocalItem (st : FieldState) (tag : HidShortTag) (itemData : BitVec 32) :
    Except DescriptorFault (Bool × FieldState) :=
  if st.localState.hasHadDelimiter then .ok (true, st)
  else
    match HidLocalItem.ofTag tag.tag with
    | none => .ok (false, st)
    | some .delimiter => .ok (true, { st with localState := { st.localState with hasHadDelimiter := true } })
    | some (.index i part) => do
        let itemData ← st.indexData i itemData tag.dataLength
        let queue := Function.update st.localState.queue i (pushLocal part itemData (st.localState.queue i))
        return (true, { st with localState := { st.localState with queue } })

/-- The local state is reset after each main item. -/
def resetLocal (st : FieldState) : FieldState := { st with localState := {} }

/-- What `COLLECTION` begins. -/
def newCollection (st : FieldState) (itemData : BitVec 32) : DecodedCollection where
  collectionType := itemData.setWidth 8
  usage := (getNextFieldIndexVal (st.localState.queue .usage)).1
  designator := (getNextFieldIndexVal (st.localState.queue .designator)).1
  stringIdx := (getNextFieldIndexVal (st.localState.queue .strings)).1

end FieldState

namespace CurrentParseState

/-- `current_collection->child_collections.push_back`, and on to the new collection. -/
def openCollection (st : CurrentParseState) (path : CollectionPath) (new : DecodedCollection) :
    CurrentParseState :=
  let children := ((st.rootCollection.get? path).map (·.childCollections.length)).getD 0
  { st with
    rootCollection := st.rootCollection.modify path fun c =>
      { c with childCollections := c.childCollections ++ [new] }
    parentCollection := Function.update st.parentCollection (children :: path) (some path)
    currentCollection := some (children :: path) }

/-- `END_COLLECTION`: on to the parent, whose own pointer to its parent is cleared. -/
def closeCollection (st : CurrentParseState) (path : CollectionPath) : CurrentParseState :=
  match st.parentCollection path with
  | some parent =>
      { st with
        parentCollection := Function.update st.parentCollection parent none
        currentCollection := some parent }
  | none => { st with currentCollection := none }

/-- `current_collection->report_fields.push_back` of new fields. -/
def attach (st : CurrentParseState) (path : CollectionPath) (fields : List ReportFieldDescription) :
    CurrentParseState :=
  { st with
    rootCollection := st.rootCollection.modify path fun c =>
      { c with reportFields := c.reportFields ++ fields } }

/-- The fields and the global and local states change, not the collections. -/
def setFields (st : CurrentParseState) (fieldState : FieldState) : CurrentParseState :=
  { st with toFieldState := fieldState }

/-- `handle_main_item`. -/
def handleMainItem (st : CurrentParseState) (path : CollectionPath) (tag : HidShortTag) (itemData : BitVec 32) :
    Except DescriptorFault (Bool × CurrentParseState) :=
  match HidMainItem.ofTag tag.tag with
  | some (.field type) => do
      let (fieldState, fields) ← st.toFieldState.addNewField type itemData
      return (true, (st.setFields fieldState.resetLocal).attach path fields)
  | some .collection =>
      .ok (true, (st.setFields st.resetLocal).openCollection path (st.newCollection itemData))
  | some .endCollection => .ok (true, (st.setFields st.resetLocal).closeCollection path)
  | none => .ok (false, st.setFields st.resetLocal)

/-- `handle_item`. -/
def handleItem (st : CurrentParseState) (tag : HidShortTag) (itemData : BitVec 32) :
    Except DescriptorFault (Bool × CurrentParseState) :=
  match st.currentCollection with
  | none => .error .nullCollection
  | some path =>
      match HidType.ofType tag.type with
      | some .main => st.handleMainItem path tag itemData
      | some .global => do
          let (result, fieldState) ← st.toFieldState.handleGlobalItem tag itemData
          return (result, st.setFields fieldState)
      | some .local => do
          let (result, fieldState) ← st.toFieldState.handleLocalItem tag itemData
          return (result, st.setFields fieldState)
      | none => .ok (false, st)

end CurrentParseState

/-! ### The loop -/

/-- `decoded_descriptor`. -/
structure DecodedDescriptor where
  rootCollection : DecodedCollection
  fields : HidFieldType → List ReportFieldDescription

/-- The variables of `parse_descriptor`.  `rawPtr` is how far the pointer has come, `readTo` where the
bytes end that have been read. -/
structure DescriptorLoop where
  rawPtr : Nat := 0
  offset : BitVec 16 := 0
  parser : CurrentParseState := {}
  result : Bool := true
  readTo : Nat := 0

section
-- the memory from `raw_descriptor` on
variable (overShift : BitVec 32) (raw : Nat → BitVec 8)

/-- The item that begins at a byte. -/
def itemFrom (n : Nat) : HidItem where
  tag := ⟨raw n⟩
  word := raw (n + 4) ++ raw (n + 3) ++ raw (n + 2) ++ raw (n + 1)

/-- What a turn of the loop does with an item. -/
def CurrentParseState.parseItem (st : CurrentParseState) (item : HidItem) :
    Except DescriptorFault (Bool × CurrentParseState) :=
  if item.tag.raw = 0xFE then .error .incompleteCode
  else st.handleItem item.tag (item.data overShift)

/-- One turn of the loop.  All four bytes after the tag are read, whatever the length of the item. -/
def DescriptorLoop.next (s : DescriptorLoop) : Except DescriptorFault DescriptorLoop := do
  let item := itemFrom raw s.rawPtr
  let (ok, parser) ← s.parser.parseItem overShift item
  return {
    rawPtr := s.rawPtr + 1 + item.tag.dataLength
    offset := s.offset + (1 + item.tag.dataLength : Nat)
    parser
    result := s.result && ok
    readTo := max s.readTo (s.rawPtr + 5) }

/-- The loop: `offset` has 16 bits, `descriptor_length` has 32. -/
def DescriptorLoop.run (descriptorLength : BitVec 32) : Nat → DescriptorLoop → Except DescriptorFault DescriptorLoop
  | fuel, s =>
      if s.offset.toNat < descriptorLength.toNat then
        match fuel with
        | 0 => .error .outOfFuel
        | fuel + 1 => do
            let s ← s.next overShift raw
            DescriptorLoop.run descriptorLength fuel s
      else .ok s

/-- What `parse_descriptor` returns, and where the bytes end that it has read. -/
structure ParsedDescriptor where
  result : Bool
  descriptor : DecodedDescriptor
  readTo : Nat

/-- `parse_descriptor`. -/
def parseDescriptor (descriptorLength : BitVec 32) (fuel : Nat) : Except DescriptorFault ParsedDescriptor := do
  let s ← DescriptorLoop.run overShift raw descriptorLength fuel {}
  return {
    result := s.result
    descriptor := { rootCollection := s.parser.rootCollection, fields := s.parser.allFields }
    readTo := s.readTo }

end

/-! ### Descriptors of whole items -/

/-- The items of a descriptor, one after the other. -/
def CurrentParseState.parseItems (overShift : BitVec 32) :
    CurrentParseState → List HidItem → Except DescriptorFault (Bool × CurrentParseState)
  | st, [] => .ok (true, st)
  | st, item :: items => do
      let (ok, st) ← st.parseItem overShift item
      let (ok', st) ← parseItems overShift st items
      return (ok && ok', st)

section
variable {overShift : BitVec 32} (raw : Nat → BitVec 8)

/-- A number of items from a byte on. -/
def itemsFrom : Nat → Nat → List HidItem
  | 0, _ => []
  | n + 1, p => itemFrom raw p :: itemsFrom n (p + 1 + (itemFrom raw p).tag.dataLength)

/-- Where they end. -/
def itemsEnd : Nat → Nat → Nat
  | 0, p => p
  | n + 1, p => itemsEnd n (p + 1 + (itemFrom raw p).tag.dataLength)

variable {raw} {descriptorLength : BitVec 32} {s s' : DescriptorLoop} {n fuel : Nat}

theorem dataLength_le (t : HidShortTag) : t.dataLength ≤ 4 := by
  unfold HidShortTag.dataLength
  split
  · exact le_refl 4
  · have := t.size.isLt
    omega

theorem le_itemsEnd (raw : Nat → BitVec 8) : ∀ n p, p + n ≤ itemsEnd raw n p
  | 0, p => le_refl p
  | n + 1, p => by
      have := le_itemsEnd raw n (p + 1 + (itemFrom raw p).tag.dataLength)
      simp only [itemsEnd]
      omega

/-- A turn of the loop, taken apart. -/
theorem DescriptorLoop.next_ok (hs : s.next overShift raw = .ok s') :
    ∃ ok, s.parser.parseItem overShift (itemFrom raw s.rawPtr) = .ok (ok, s'.parser) ∧
      s'.rawPtr = s.rawPtr + 1 + (itemFrom raw s.rawPtr).tag.dataLength ∧
      s'.offset = s.offset + ((1 + (itemFrom raw s.rawPtr).tag.dataLength : Nat) : BitVec 16) ∧
      s'.result = (s.result && ok) ∧ s'.readTo = max s.readTo (s.rawPtr + 5) := by
  obtain ⟨⟨ok, st⟩, hitem, hs⟩ := bind_ok.mp hs
  cases hs
  exact ⟨ok, hitem, rfl, rfl, rfl, rfl⟩

/-- The loop goes on with the next item, or it is at its end. -/
theorem DescriptorLoop.run_cases (hs : DescriptorLoop.run overShift raw descriptorLength fuel s = .ok s') :
    (s.offset.toNat < descriptorLength.toNat ∧ ∃ fuel' s₁, fuel = fuel' + 1 ∧ s.next overShift raw = .ok s₁ ∧
      DescriptorLoop.run overShift raw descriptorLength fuel' s₁ = .ok s') ∨
    (descriptorLength.toNat ≤ s.offset.toNat ∧ s' = s) := by
  unfold DescriptorLoop.run at hs
  split at hs
  next hlt =>
    cases fuel with
    | zero => cases hs
    | succ fuel =>
        obtain ⟨s₁, hnext, hs⟩ := bind_ok.mp hs
        exact .inl ⟨hlt, fuel, s₁, rfl, hnext, hs⟩
  next hge =>
    cases hs
    exact .inr ⟨by omega, rfl⟩

theorem CurrentParseState.parseItems_cons {st st' : CurrentParseState} {item : HidItem} {items : List HidItem}
    {ok : Bool} : st.parseItems overShift (item :: items) = .ok (ok, st') ↔
      ∃ ok₁ st₁ ok₂, st.parseItem overShift item = .ok (ok₁, st₁) ∧
        st₁.parseItems overShift items = .ok (ok₂, st') ∧ ok = (ok₁ && ok₂) := by
  rw [CurrentParseState.parseItems, bind_ok]
  constructor
  · rintro ⟨⟨ok₁, st₁⟩, hitem, hs⟩
    obtain ⟨⟨ok₂, st₂⟩, hrest, hs⟩ := bind_ok.mp hs
    cases hs
    exact ⟨ok₁, st₁, ok₂, hitem, hrest, rfl⟩
  · rintro ⟨ok₁, st₁, ok₂, hitem, hrest, rfl⟩
    exact ⟨(ok₁, st₁), hitem, bind_ok.mpr ⟨(ok₂, st'), hrest, rfl⟩⟩

/-- The index does not go round while it is inside a descriptor of less than 2^16 bytes. -/
theorem offset_next {offset : BitVec 16} {p d : Nat} (hoffset : offset.toNat = p) (hlt : p + 1 + d < 65536) :
    (offset + ((1 + d : Nat) : BitVec 16)).toNat = p + 1 + d := by
  rw [BitVec.toNat_add, hoffset, BitVec.natCast_eq_ofNat, BitVec.toNat_ofNat]
  omega

/-- Each item begins five bytes before the end: what is read after its tag is inside. -/
def FitsIn (raw : Nat → BitVec 8) (length : Nat) : Nat → Nat → Prop
  | 0, _ => True
  | n + 1, p => p + 5 ≤ length ∧ FitsIn raw length n (p + 1 + (itemFrom raw p).tag.dataLength)

/-- The items that the loop goes over, if it comes to its end. -/
theorem DescriptorLoop.run_ok (hlen : descriptorLength.toNat < 65536) : ∀ {n s fuel},
    s.offset.toNat = s.rawPtr → itemsEnd raw n s.rawPtr = descriptorLength.toNat →
    DescriptorLoop.run overShift raw descriptorLength fuel s = .ok s' →
    ∃ ok, s.parser.parseItems overShift (itemsFrom raw n s.rawPtr) = .ok (ok, s'.parser)
  | 0, s, fuel, hoffset, hend, hs => by
      simp only [itemsEnd] at hend
      obtain ⟨hlt, -⟩ | ⟨-, rfl⟩ := DescriptorLoop.run_cases hs
      · omega
      · exact ⟨true, rfl⟩
  | n + 1, s, fuel, hoffset, hend, hs => by
      have hle := le_itemsEnd raw n (s.rawPtr + 1 + (itemFrom raw s.rawPtr).tag.dataLength)
      simp only [itemsEnd] at hend
      obtain ⟨-, fuel, s₁, rfl, hnext, hs⟩ | ⟨hge, -⟩ := DescriptorLoop.run_cases hs
      · obtain ⟨ok₁, hitem, hptr, hoff, -, -⟩ := DescriptorLoop.next_ok hnext
        have hoffset' : s₁.offset.toNat = s₁.rawPtr := by
          rw [hoff, hptr]
          exact offset_next hoffset (by omega)
        obtain ⟨ok₂, hrest⟩ := DescriptorLoop.run_ok hlen hoffset' (by rw [hptr]; exact hend) hs
        rw [hptr] at hrest
        exact ⟨ok₁ && ok₂, CurrentParseState.parseItems_cons.mpr ⟨ok₁, _, ok₂, hitem, hrest, rfl⟩⟩
      · omega

/-- The loop comes to its end if its items can be parsed. -/
theorem DescriptorLoop.run_of_items (hlen : descriptorLength.toNat < 65536) {st : CurrentParseState} :
    ∀ {n s ok}, s.offset.toNat = s.rawPtr → itemsEnd raw n s.rawPtr = descriptorLength.toNat →
    s.parser.parseItems overShift (itemsFrom raw n s.rawPtr) = .ok (ok, st) →
    ∃ s', DescriptorLoop.run overShift raw descriptorLength n s = .ok s' ∧ s'.parser = st ∧
      s'.result = (s.result && ok) ∧
      ∀ length, s.readTo ≤ length → FitsIn raw length n s.rawPtr → s'.readTo ≤ length
  | 0, s, ok, hoffset, hend, hs => by
      simp only [itemsEnd] at hend
      cases hs
      refine ⟨s, ?_, rfl, (Bool.and_true _).symm, fun length hread _ => hread⟩
      unfold DescriptorLoop.run
      rw [if_neg (by omega)]
  | n + 1, s, ok, hoffset, hend, hs => by
      have hle := le_itemsEnd raw n (s.rawPtr + 1 + (itemFrom raw s.rawPtr).tag.dataLength)
      simp only [itemsEnd] at hend
      have hlt : s.offset.toNat < descriptorLength.toNat := by omega
      obtain ⟨ok₁, st₁, ok₂, hitem, hrest, rfl⟩ := CurrentParseState.parseItems_cons.mp hs
      obtain ⟨s₁, hnext⟩ : ∃ s₁, s.next overShift raw = .ok s₁ := ⟨_, bind_ok.mpr ⟨_, hitem, rfl⟩⟩
      obtain ⟨ok', hitem', hptr, hoff, hresult, hread⟩ := DescriptorLoop.next_ok hnext
      obtain ⟨rfl, rfl⟩ : ok₁ = ok' ∧ st₁ = s₁.parser := by
        simpa only [Except.ok.injEq, Prod.mk.injEq] using hitem.symm.trans hitem'
      have hoffset' : s₁.offset.toNat = s₁.rawPtr := by
        rw [hoff, hptr]
        exact offset_next hoffset (by omega)
      rw [← hptr] at hrest hend
      obtain ⟨s', hrun, hparser, hres, hfits⟩ := DescriptorLoop.run_of_items hlen hoffset' hend hrest
      refine ⟨s', ?_, hparser, ?_, fun length hle' hfit => ?_⟩
      · unfold DescriptorLoop.run
        rw [if_pos hlt]
        exact bind_ok.mpr ⟨s₁, hnext, hrun⟩
      · rw [hres, hresult, Bool.and_assoc]
      · refine hfits length ?_ ?_
        · rw [hread]
          exact max_le hle' hfit.1
        · rw [hptr]
          exact hfit.2

/-- A descriptor of 2^16 bytes or more is never at its end. -/
theorem DescriptorLoop.run_long (hlen : 65536 ≤ descriptorLength.toNat) : ∀ {fuel s},
    DescriptorLoop.run overShift raw descriptorLength fuel s ≠ .ok s'
  | fuel, s, hs => by
      have hoffset := s.offset.isLt
      obtain ⟨-, fuel', s₁, rfl, -, hs⟩ | ⟨hge, -⟩ := DescriptorLoop.run_cases hs
      · exact DescriptorLoop.run_long hlen hs
      · omega

/-- What has been read stays read. -/
theorem DescriptorLoop.readTo_le : ∀ {fuel s}, DescriptorLoop.run overShift raw descriptorLength fuel s = .ok s' →
    s.readTo ≤ s'.readTo
  | fuel, s, hs => by
      obtain ⟨-, fuel', s₁, rfl, hnext, hs⟩ | ⟨-, rfl⟩ := DescriptorLoop.run_cases hs
      · obtain ⟨-, -, -, -, -, hread⟩ := DescriptorLoop.next_ok hnext
        have hrest := DescriptorLoop.readTo_le hs
        omega
      · exact le_refl _

/-- A run that has read nothing beyond the end has gone over whole items. -/
theorem DescriptorLoop.fits_of_run (hlen : descriptorLength.toNat < 65536) : ∀ {fuel s},
    s.offset.toNat = s.rawPtr → s.rawPtr ≤ descriptorLength.toNat →
    DescriptorLoop.run overShift raw descriptorLength fuel s = .ok s' → s'.readTo ≤ descriptorLength.toNat →
    ∃ n, itemsEnd raw n s.rawPtr = descriptorLength.toNat ∧ FitsIn raw descriptorLength.toNat n s.rawPtr
  | fuel, s, hoffset, hle, hs, hread => by
      obtain ⟨-, fuel', s₁, rfl, hnext, hs⟩ | ⟨hge, rfl⟩ := DescriptorLoop.run_cases hs
      · obtain ⟨-, -, hptr, hoff, -, hread₁⟩ := DescriptorLoop.next_ok hnext
        have hlast := DescriptorLoop.readTo_le hs
        have hd := dataLength_le (itemFrom raw s.rawPtr).tag
        have hoffset' : s₁.offset.toNat = s₁.rawPtr := by
          rw [hoff, hptr]
          exact offset_next hoffset (by omega)
        obtain ⟨n, hend, hfits⟩ := DescriptorLoop.fits_of_run hlen hoffset' (by omega) hs hread
        rw [hptr] at hend hfits
        exact ⟨n + 1, hend, by omega, hfits⟩
      · exact ⟨0, by simp only [itemsEnd]; omega, trivial⟩

/-- Whole items fit if the last of them has four bytes of data. -/
theorem fitsIn_iff {length : Nat} : ∀ {n p}, itemsEnd raw n p = length →
    (FitsIn raw length n p ↔ ∀ item ∈ (itemsFrom raw n p).getLast?, item.tag.dataLength = 4)
  | 0, p, _ => by simp [FitsIn, itemsFrom]
  | 1, p, hend => by
      simp only [itemsEnd] at hend
      have hd := dataLength_le (itemFrom raw p).tag
      simp only [FitsIn, itemsFrom, List.getLast?_singleton, Option.mem_def, Option.some.injEq, forall_eq',
        and_true]
      omega
  | n + 2, p, hend => by
      have hrest := fitsIn_iff (n := n + 1) (p := p + 1 + (itemFrom raw p).tag.dataLength) hend
      have hlast : (itemsFrom raw (n + 2) p).getLast? =
          (itemsFrom raw (n + 1) (p + 1 + (itemFrom raw p).tag.dataLength)).getLast? := by
        simp only [itemsFrom, List.getLast?_cons_cons]
      rw [hlast, ← hrest, FitsIn]
      refine and_iff_right_of_imp fun hfit => ?_
      have := hfit.1
      omega

end

end Azalea.Usb
