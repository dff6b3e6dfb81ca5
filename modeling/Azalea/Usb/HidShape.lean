import Azalea.Usb.HidDescriptor

/-!
# Usb — the shape of a HID report descriptor

Which descriptors `parse_descriptor` can deal with.  A `DescriptorShape` is what has to be known of the
items before an item to say whether it trips an `ASSERT` or takes the top of an empty stack: the
collections that are open, and for each of them whether there has been a collection inside it; the states
that have been pushed, and for each of them whether its `REPORT_COUNT` is positive; and whether a usage or
a delimiter has been seen since the last main item.

* `parseItems_ok_iff`: the items of a descriptor are parsed without a fault exactly if each has a shape to
  come to.
* `parseDescriptor_total_iff`: `parse_descriptor` comes to an end, without a fault and having read nothing
  outside the descriptor, exactly if it has less than 2^16 bytes, is made of such items, and the last of
  them has four bytes of data: the four bytes after each tag are read, whatever the length of the item.
-/

namespace Azalea.Usb
open Azalea.Halts (bind_ok ok_bind error_bind)

/-! ### Fields and states -/

/-- The states that have been pushed, with whether fields are repeated at all; whether there is a usage;
whether there is a delimiter. -/
structure FieldShape where
  counts : List Bool := [false]
  usage : Bool := false
  delimiter : Bool := false
  deriving DecidableEq

namespace FieldShape
variable (s : FieldShape) (tag : HidShortTag) (itemData : BitVec 32)

/-- After a main item. -/
def reset : FieldShape := { s with usage := false, delimiter := false }

/-- After a field.  An array needs a usage. -/
def fieldItem : Option FieldShape :=
  match s.counts with
  | [] => none
  | repeats :: _ =>
      if repeats ∧ itemData.getLsbD 0 = false ∧ itemData.getLsbD 1 = false ∧ s.usage = false then none
      else some s.reset

/-- After a global item. -/
def globalItem : Option FieldShape :=
  match HidGlobalItem.ofTag tag.tag with
  | none => some s
  | some .push => some { s with counts := false :: s.counts }
  | some item =>
      match s.counts, item with
      | [], _ => none
      | _ :: rest, .pop => some { s with counts := rest }
      | _ :: rest, .reportCount => some { s with counts := (itemData != 0) :: rest }
      | _ :: _, _ => some s

/-- After a local item. -/
def localItem : Option FieldShape :=
  if s.delimiter then some s
  else
    match HidLocalItem.ofTag tag.tag with
    | none => some s
    | some .delimiter => some { s with delimiter := true }
    | some (.index .usage _) =>
        if tag.dataLength < 4 ∧ s.counts = [] then none else some { s with usage := true }
    | some (.index _ _) => some s

end FieldShape

/-- The shape of a state. -/
def FieldState.shape (st : FieldState) : FieldShape where
  counts := st.globalStateStack.map (·.reportCount != 0)
  usage := !(st.localState.queue .usage).isEmpty
  delimiter := st.localState.hasHadDelimiter

/-- What a computation gives, or nothing if there is a fault. -/
def shapeAfter {α : Type} (x : Except DescriptorFault α) (shape : α → FieldShape) : Option FieldShape :=
  match x with
  | .ok a => some (shape a)
  | .error _ => none

@[simp] theorem shapeAfter_ok {α : Type} (a : α) (shape : α → FieldShape) :
    shapeAfter (.ok a) shape = some (shape a) := rfl

@[simp] theorem shapeAfter_pure {α : Type} (a : α) (shape : α → FieldShape) :
    shapeAfter (pure a) shape = some (shape a) := rfl

@[simp] theorem shapeAfter_error {α : Type} (e : DescriptorFault) (shape : α → FieldShape) :
    shapeAfter (.error e) shape = none := rfl

section
variable {st st' : FieldState} {tag : HidShortTag} {itemData : BitVec 32} {g : ParserGlobalState}
  {type : HidFieldType} {flags : BitVec 16} {n : Nat}

/-- A new field can be given its usage. -/
def HasUsage (flags : BitVec 16) (l : ParserLocalState) : Prop :=
  flags.getLsbD 0 = true ∨ flags.getLsbD 1 = true ∨ l.queue .usage ≠ []

theorem addField_ok (g : ParserGlobalState) (type : HidFieldType) (h : HasUsage flags st.localState) :
    ∃ st' field,
    st.addField g type flags = .ok (st', field) ∧ HasUsage flags st'.localState ∧
      st'.globalStateStack = st.globalStateStack := by
  unfold FieldState.addField FieldState.takeUsage
  by_cases hconstant : flags.getLsbD 0 = true
  · rw [if_pos hconstant]
    exact ⟨_, _, rfl, .inl hconstant, rfl⟩
  · rw [if_neg hconstant]
    by_cases hvariable : flags.getLsbD 1 = true
    · rw [if_pos hvariable]
      exact ⟨_, _, rfl, .inr (.inl hvariable), rfl⟩
    · rw [if_neg hvariable]
      have hqueue := (h.resolve_left hconstant).resolve_left hvariable
      split
      next hnil => exact absurd hnil hqueue
      next => exact ⟨_, _, rfl, .inr (.inr (by simpa [ParserLocalState.next] using hqueue)), rfl⟩

theorem addField_error (h : ¬ HasUsage flags st.localState) : st.addField g type flags = .error .noUsage := by
  simp only [HasUsage, not_or, not_not, Bool.not_eq_true] at h
  unfold FieldState.addField FieldState.takeUsage
  simp only [h.1, h.2.1, h.2.2, Bool.false_eq_true, if_false]
  rfl

theorem addFields_ok (g : ParserGlobalState) (type : HidFieldType) : ∀ {n : Nat} {st : FieldState},
    n = 0 ∨ HasUsage flags st.localState → ∃ st' fields,
    st.addFields g type flags n = .ok (st', fields) ∧ st'.globalStateStack = st.globalStateStack
  | 0, st, _ => ⟨st, [], rfl, rfl⟩
  | n + 1, st, h => by
      obtain ⟨st₁, field, hfield, husage, hstack⟩ := addField_ok g type (h.resolve_left (by omega))
      obtain ⟨st₂, fields, hrest, hstack'⟩ := addFields_ok g type (n := n) (.inr husage)
      exact ⟨st₂, field :: fields, bind_ok.mpr ⟨_, hfield, bind_ok.mpr ⟨_, hrest, rfl⟩⟩, hstack'.trans hstack⟩

theorem addFields_error (h : ¬ (n = 0 ∨ HasUsage flags st.localState)) :
    st.addFields g type flags n = .error .noUsage := by
  rw [not_or] at h
  obtain ⟨hn, h⟩ := h
  obtain ⟨n, rfl⟩ : ∃ k, n = k + 1 := ⟨n - 1, by omega⟩
  rw [FieldState.addFields, addField_error h]
  rfl

theorem shape_addNewField (type : HidFieldType) :
    shapeAfter (st.addNewField type itemData) (·.1.resetLocal.shape) = st.shape.fieldItem itemData := by
  unfold FieldState.addNewField FieldState.top FieldShape.fieldItem FieldState.shape
  cases hstack : st.globalStateStack with
  | nil => rfl
  | cons g rest =>
      simp only [ok_bind, List.map_cons]
      have hbit : ∀ i < 16, (itemData.setWidth 16).getLsbD i = itemData.getLsbD i := by
        intro i hi
        simp [hi]
      have hiff : (g.reportCount.toNat = 0 ∨ HasUsage (itemData.setWidth 16) st.localState) ↔
          ¬ ((g.reportCount != 0) = true ∧ itemData.getLsbD 0 = false ∧ itemData.getLsbD 1 = false ∧
            (!(st.localState.queue .usage).isEmpty) = false) := by
        have hzero : g.reportCount.toNat = 0 ↔ g.reportCount = 0 := by
          rw [← BitVec.toNat_inj]
          rfl
        unfold HasUsage
        rw [hbit 0 (by omega), hbit 1 (by omega), hzero]
        cases itemData.getLsbD 0 <;> cases itemData.getLsbD 1 <;> simp
        tauto
      split
      next hfault =>
        rw [addFields_error fun h => hiff.mp h hfault]
        rfl
      next hfine =>
        obtain ⟨st', fields, hok, hsame⟩ := addFields_ok g type (hiff.mpr hfine)
        rw [hok]
        simp only [shapeAfter_ok, FieldState.resetLocal, hsame, hstack]
        rfl

theorem shape_handleGlobalItem (st : FieldState) (tag : HidShortTag) (itemData : BitVec 32) :
    shapeAfter (st.handleGlobalItem tag itemData) (·.2.shape) = st.shape.globalItem tag itemData := by
  unfold FieldState.handleGlobalItem FieldShape.globalItem
  cases HidGlobalItem.ofTag tag.tag with
  | none => rfl
  | some item =>
      unfold FieldState.setTop FieldState.shape
      cases item <;> cases st.globalStateStack <;> rfl

theorem pushLocal_ne_nil (part : HidIndexPart) (queue : List ParserLocalStateField) :
    FieldState.pushLocal part itemData queue ≠ [] := by
  have hback : FieldState.backMinMax queue ≠ [] := by
    unfold FieldState.backMinMax
    split
    next hany =>
      rintro rfl
      cases hany
    next => exact List.append_ne_nil_of_right_ne_nil _ (List.cons_ne_nil _ _)
  cases part with
  | idx => exact List.append_ne_nil_of_right_ne_nil _ (List.cons_ne_nil _ _)
  | min | max => simpa [FieldState.pushLocal, FieldState.setBack, ← List.length_eq_zero_iff] using hback

theorem shape_handleLocalItem (st : FieldState) (tag : HidShortTag) (itemData : BitVec 32) :
    shapeAfter (st.handleLocalItem tag itemData) (·.2.shape) = st.shape.localItem tag := by
  unfold FieldState.handleLocalItem FieldShape.localItem
  have hdelimiter : st.shape.delimiter = st.localState.hasHadDelimiter := rfl
  rw [hdelimiter]
  split
  next => rfl
  next hno =>
    cases HidLocalItem.ofTag tag.tag with
    | none => rfl
    | some item =>
        cases item with
        | delimiter => rfl
        | index i part =>
            unfold FieldState.indexData
            cases i with
            | usage =>
                simp only [true_and]
                unfold FieldState.top FieldState.shape
                cases hstack : st.globalStateStack <;> by_cases hlong : tag.dataLength < 4 <;>
                  simp [hlong, pushLocal_ne_nil]
            | designator | strings => simp [FieldState.shape]

end

/-! ### Collections -/

/-- The collections that are open, innermost first, with whether there has been a collection inside; and
the shape of the states.  There is no current collection if one too many has been closed, or one that had
a collection inside. -/
structure DescriptorShape where
  fields : FieldShape := {}
  opened : Option (List Bool) := some []
  deriving DecidableEq

/-- `END_COLLECTION` clears the pointer to its parent of the collection it goes back to. -/
def closeShape : List Bool → Option (List Bool)
  | [] | true :: _ => none
  | false :: [] => some []
  | false :: _ :: rest => some (true :: rest)

namespace DescriptorShape
variable (overShift : BitVec 32)

/-- After a main item. -/
def mainItem (s : DescriptorShape) (opened : List Bool) (tag : HidShortTag) (itemData : BitVec 32) :
    Option DescriptorShape :=
  match HidMainItem.ofTag tag.tag with
  | some (.field _) => (s.fields.fieldItem itemData).map fun fields => { s with fields }
  | some .collection => some { fields := s.fields.reset, opened := some (false :: opened) }
  | some .endCollection => some { fields := s.fields.reset, opened := closeShape opened }
  | none => some { s with fields := s.fields.reset }

/-- After an item. -/
def next (s : DescriptorShape) (item : HidItem) : Option DescriptorShape :=
  if item.tag.raw = 0xFE then none
  else
    match s.opened with
    | none => none
    | some opened =>
        match HidType.ofType item.tag.type with
        | some .main => s.mainItem opened item.tag (item.data overShift)
        | some .global => (s.fields.globalItem item.tag (item.data overShift)).map fun fields =>
            { s with fields }
        | some .local => (s.fields.localItem item.tag).map fun fields => { s with fields }
        | none => some s

/-- After a number of items. -/
def after (s : DescriptorShape) : List HidItem → Option DescriptorShape
  | [] => some s
  | item :: items => (s.next overShift item).bind fun s => after s items

end DescriptorShape

/-- A descriptor whose items can all be dealt with. -/
def Parsable (overShift : BitVec 32) (items : List HidItem) : Prop :=
  (DescriptorShape.after overShift {} items).isSome

instance (overShift : BitVec 32) (items : List HidItem) : Decidable (Parsable overShift items) :=
  inferInstanceAs (Decidable (_ = true))

/-- The pointers to the parents along a path: one is null exactly if its collection has had a collection
inside, or is the root. -/
def Parents (parent : CollectionPath → Option CollectionPath) : CollectionPath → List Bool → Prop
  | [], [] => parent [] = none
  | i :: path, had :: opened => parent (i :: path) = (if had then none else some path) ∧ Parents parent path opened
  | _, _ => False

section
variable {parent parent' : CollectionPath → Option CollectionPath} {path : CollectionPath} {opened : List Bool}

theorem Parents.congr : ∀ {path opened}, Parents parent path opened →
    (∀ p : CollectionPath, p.length ≤ path.length → parent' p = parent p) → Parents parent' path opened
  | [], [], h, hsame => by
      rw [Parents, hsame [] (le_refl _)]
      exact h
  | i :: path, had :: opened, h, hsame => by
      refine ⟨?_, Parents.congr h.2 fun p hp => hsame p (Nat.le_succ_of_le hp)⟩
      rw [hsame _ (le_refl _)]
      exact h.1

theorem Parents.open (h : Parents parent path opened) (i : Nat) :
    Parents (Function.update parent (i :: path) (some path)) (i :: path) (false :: opened) := by
  refine ⟨Function.update_self .., h.congr fun p hp => Function.update_of_ne ?_ _ _⟩
  rintro rfl
  simp only [List.length_cons] at hp
  omega

/-- `END_COLLECTION` in a collection that has had none inside. -/
theorem Parents.close {i : Nat} (h : Parents parent (i :: path) (false :: opened)) :
    parent (i :: path) = some path ∧
      ∃ opened', closeShape (false :: opened) = some opened' ∧ Parents (Function.update parent path none) path opened' := by
  obtain ⟨hself, hrest⟩ := h
  refine ⟨hself, ?_⟩
  match path, opened, hrest with
  | [], [], hrest => exact ⟨[], rfl, Function.update_self ..⟩
  | j :: path, had :: opened, hrest =>
      refine ⟨true :: opened, rfl, ?_, hrest.2.congr fun p hp => Function.update_of_ne ?_ _ _⟩
      · rw [Function.update_self]
        rfl
      · rintro rfl
        simp only [List.length_cons] at hp
        omega

end

/-- A state of the parser with its shape. -/
structure HasShape (st : CurrentParseState) (s : DescriptorShape) : Prop where
  fields : s.fields = st.toFieldState.shape
  closed : s.opened = none → st.currentCollection = none
  opened : ∀ opened, s.opened = some opened →
    ∃ path, st.currentCollection = some path ∧ Parents st.parentCollection path opened

section
variable {overShift : BitVec 32} {st st' : CurrentParseState} {s s' : DescriptorShape} {item : HidItem}
  {items : List HidItem} {path : CollectionPath} {opened : List Bool}

theorem HasShape.setFields {fieldState : FieldState} (h : HasShape st s) :
    HasShape (st.setFields fieldState) { s with fields := fieldState.shape } :=
  ⟨rfl, h.closed, h.opened⟩

theorem HasShape.open (hparents : Parents st.parentCollection path opened) (new : DecodedCollection) :
    HasShape (st.openCollection path new) ⟨st.toFieldState.shape, some (false :: opened)⟩ where
  fields := rfl
  closed := nofun
  opened opened' ho := by
    obtain rfl := Option.some.inj ho
    exact ⟨_, rfl, hparents.open _⟩

theorem HasShape.close (hparents : Parents st.parentCollection path opened) :
    HasShape (st.closeCollection path) ⟨st.toFieldState.shape, closeShape opened⟩ := by
  have hnull (hnone : st.parentCollection path = none) (hshape : closeShape opened = none) :
      HasShape (st.closeCollection path) ⟨st.toFieldState.shape, closeShape opened⟩ := by
    simp only [CurrentParseState.closeCollection, hnone, hshape]
    exact ⟨rfl, fun _ => rfl, nofun⟩
  match path, opened, hparents with
  | [], [], hparents => exact hnull hparents rfl
  | i :: path, true :: opened, hparents => exact hnull hparents.1 rfl
  | i :: path, false :: opened, hparents =>
      obtain ⟨hself, opened', hshape, hparents'⟩ := hparents.close
      simp only [CurrentParseState.closeCollection, hself, hshape]
      refine ⟨rfl, nofun, fun opened'' ho => ?_⟩
      obtain rfl := Option.some.inj ho
      exact ⟨path, rfl, hparents'⟩

/-- A step of the parser and the step of its shape: there is a fault exactly if there is no shape. -/
def Shapes (x : Except DescriptorFault (Bool × CurrentParseState)) (o : Option DescriptorShape) : Prop :=
  match x with
  | .ok (_, st) => ∃ s, o = some s ∧ HasShape st s
  | .error _ => o = none

/-- Global and local items. -/
theorem HasShape.fieldsOnly {x : Except DescriptorFault (Bool × FieldState)} {o : Option FieldShape}
    (h : HasShape st s) (hx : shapeAfter x (·.2.shape) = o) :
    Shapes (do let (result, fieldState) ← x; return (result, st.setFields fieldState))
      (o.map fun fields => { s with fields }) := by
  subst hx
  cases x with
  | error e => rfl
  | ok r => exact ⟨_, rfl, h.setFields⟩

theorem HasShape.mainItem {tag : HidShortTag} {itemData : BitVec 32} (h : HasShape st s)
    (hparents : Parents st.parentCollection path opened) :
    Shapes (st.handleMainItem path tag itemData) (s.mainItem opened tag itemData) := by
  have hreset : s.fields.reset = st.resetLocal.shape := by
    rw [h.fields]
    rfl
  have hparents' : Parents (st.setFields st.resetLocal).parentCollection path opened := hparents
  unfold CurrentParseState.handleMainItem DescriptorShape.mainItem
  rw [hreset]
  cases HidMainItem.ofTag tag.tag with
  | none => exact ⟨_, rfl, h.setFields⟩
  | some item =>
      cases item with
      | field type =>
          have hshape : _ = st.toFieldState.shape.fieldItem itemData := shape_addNewField type
          simp only [h.fields, ← hshape]
          cases hx : st.addNewField type itemData with
          | error e => rfl
          | ok r => exact ⟨_, rfl, rfl, h.closed, h.opened⟩
      | collection => exact ⟨_, rfl, HasShape.open hparents' _⟩
      | endCollection => exact ⟨_, rfl, HasShape.close hparents'⟩

theorem HasShape.next (overShift : BitVec 32) (item : HidItem) (h : HasShape st s) :
    Shapes (st.parseItem overShift item) (s.next overShift item) := by
  unfold CurrentParseState.parseItem DescriptorShape.next
  split
  next => rfl
  next =>
    unfold CurrentParseState.handleItem
    cases hopened : s.opened with
    | none =>
        rw [h.closed hopened]
        rfl
    | some opened =>
        obtain ⟨path, hpath, hparents⟩ := h.opened opened hopened
        rw [hpath]
        simp only
        cases HidType.ofType item.tag.type with
        | none => exact ⟨s, rfl, h⟩
        | some type =>
            cases type with
            | main => exact h.mainItem hparents
            | global =>
                have hglobal := h.fieldsOnly (shape_handleGlobalItem st.toFieldState item.tag (item.data overShift))
                rw [← h.fields, hopened] at hglobal
                exact hglobal
            | «local» =>
                have hlocal := h.fieldsOnly (shape_handleLocalItem st.toFieldState item.tag (item.data overShift))
                rw [← h.fields, hopened] at hlocal
                exact hlocal

theorem HasShape.after (overShift : BitVec 32) : ∀ (items : List HidItem) {st s}, HasShape st s →
    Shapes (st.parseItems overShift items) (s.after overShift items)
  | [], st, s, h => ⟨s, rfl, h⟩
  | item :: items, st, s, h => by
      have hitem := h.next overShift item
      rw [CurrentParseState.parseItems, DescriptorShape.after]
      cases hx : st.parseItem overShift item with
      | error e =>
          rw [hx] at hitem
          rw [show s.next overShift item = none from hitem]
          rfl
      | ok r =>
          obtain ⟨ok, st₁⟩ := r
          rw [hx] at hitem
          obtain ⟨s₁, hs₁, h₁⟩ := hitem
          have hrest := HasShape.after overShift items h₁
          rw [hs₁, ok_bind, Option.bind_some]
          simp only
          cases hy : st₁.parseItems overShift items with
          | error e =>
              rw [hy] at hrest
              exact hrest
          | ok r =>
              rw [hy] at hrest
              exact hrest

/-- The items of a descriptor are parsed without a fault exactly if each has a shape to come to. -/
theorem parseItems_ok_iff : (∃ ok st, ({} : CurrentParseState).parseItems overShift items = .ok (ok, st)) ↔
    Parsable overShift items := by
  have hstart : HasShape {} {} := by
    refine ⟨rfl, nofun, fun opened ho => ⟨[], rfl, ?_⟩⟩
    obtain rfl := Option.some.inj ho
    rfl
  have hshapes := hstart.after overShift items
  unfold Parsable
  cases hx : ({} : CurrentParseState).parseItems overShift items with
  | error e =>
      rw [hx] at hshapes
      rw [show DescriptorShape.after overShift {} items = none from hshapes]
      simp
  | ok r =>
      rw [hx] at hshapes
      obtain ⟨s, hs, -⟩ := hshapes
      rw [hs]
      exact ⟨fun _ => rfl, fun _ => ⟨r.1, r.2, rfl⟩⟩

end

/-! ### The descriptor -/

section
variable {overShift : BitVec 32} {raw : Nat → BitVec 8} {descriptorLength : BitVec 32} {fuel n : Nat}
  {r : ParsedDescriptor}

/-- `parse_descriptor` has come to its end. -/
theorem parseDescriptor_ok (hend : itemsEnd raw n 0 = descriptorLength.toNat)
    (hr : parseDescriptor overShift raw descriptorLength fuel = .ok r) :
    descriptorLength.toNat < 65536 ∧ ∃ ok st,
      ({} : CurrentParseState).parseItems overShift (itemsFrom raw n 0) = .ok (ok, st) ∧
      r.descriptor = ⟨st.rootCollection, st.allFields⟩ := by
  obtain ⟨s, hrun, hr⟩ := bind_ok.mp hr
  cases hr
  have hlen : descriptorLength.toNat < 65536 := by
    by_contra hlong
    exact DescriptorLoop.run_long (by omega) hrun
  obtain ⟨ok, hitems⟩ := DescriptorLoop.run_ok (s := {}) hlen rfl hend hrun
  exact ⟨hlen, ok, s.parser, hitems, rfl⟩

/-- `parse_descriptor` comes to its end if its items can be parsed. -/
theorem parseDescriptor_of_items {ok : Bool} {st : CurrentParseState} (hlen : descriptorLength.toNat < 65536)
    (hend : itemsEnd raw n 0 = descriptorLength.toNat)
    (hitems : ({} : CurrentParseState).parseItems overShift (itemsFrom raw n 0) = .ok (ok, st)) :
    ∃ r, parseDescriptor overShift raw descriptorLength n = .ok r ∧ r.result = ok ∧
      r.descriptor = ⟨st.rootCollection, st.allFields⟩ ∧
      (FitsIn raw descriptorLength.toNat n 0 → r.readTo ≤ descriptorLength.toNat) := by
  obtain ⟨s, hrun, rfl, hresult, hfits⟩ := DescriptorLoop.run_of_items (s := {}) hlen rfl hend hitems
  exact ⟨_, bind_ok.mpr ⟨s, hrun, rfl⟩, hresult.trans (Bool.true_and ok), rfl, hfits _ (Nat.zero_le _)⟩

/-- `parse_descriptor` ends without a fault and without reading past the end of the descriptor exactly if
that has less than 2^16 bytes and is made of items that can be dealt with, the last of them with four
bytes of data. -/
theorem parseDescriptor_total_iff (overShift : BitVec 32) (raw : Nat → BitVec 8) (descriptorLength : BitVec 32) :
    (∃ fuel r, parseDescriptor overShift raw descriptorLength fuel = .ok r ∧ r.readTo ≤ descriptorLength.toNat) ↔
      descriptorLength.toNat < 65536 ∧ ∃ n, itemsEnd raw n 0 = descriptorLength.toNat ∧
        (∀ item ∈ (itemsFrom raw n 0).getLast?, item.tag.dataLength = 4) ∧
        Parsable overShift (itemsFrom raw n 0) := by
  constructor
  · rintro ⟨fuel, r, hr, hread⟩
    obtain ⟨s, hrun, hs⟩ := bind_ok.mp hr
    have hlen : descriptorLength.toNat < 65536 := by
      by_contra hlong
      exact DescriptorLoop.run_long (by omega) hrun
    cases hs
    obtain ⟨n, hend, hfits⟩ := DescriptorLoop.fits_of_run (s := {}) hlen rfl (Nat.zero_le _) hrun hread
    obtain ⟨ok, hitems⟩ := DescriptorLoop.run_ok (s := {}) hlen rfl hend hrun
    exact ⟨hlen, n, hend, (fitsIn_iff hend).mp hfits, parseItems_ok_iff.mp ⟨ok, _, hitems⟩⟩
  · rintro ⟨hlen, n, hend, hlast, hparsable⟩
    obtain ⟨ok, st, hitems⟩ := parseItems_ok_iff.mpr hparsable
    obtain ⟨r, hr, -, -, hread⟩ := parseDescriptor_of_items hlen hend hitems
    exact ⟨n, r, hr, hread ((fitsIn_iff hend).mpr hlast)⟩

/-- The bytes of a descriptor, and zeros after it. -/
def bytesThenZeros (bytes : List (BitVec 8)) (n : Nat) : BitVec 8 := bytes.getD n 0

/-- Three collections, one in the other: the second `END_COLLECTION` leaves no current collection, and the
third trips an `ASSERT`. -/
def threeCollections : List (BitVec 8) := [0xA1, 0x01, 0xA1, 0x00, 0xA1, 0x02, 0xC0, 0xC0, 0xC0]

theorem parseDescriptor_three_collections : ¬ ∀ overShift raw descriptorLength,
    ∃ fuel r, parseDescriptor overShift raw descriptorLength fuel = .ok r ∧
      r.readTo ≤ descriptorLength.toNat := by
  intro h
  obtain ⟨fuel, r, hr, -⟩ := h 0 (bytesThenZeros threeCollections) 9
  obtain ⟨-, ok, st, hitems, -⟩ := parseDescriptor_ok (n := 6) (by decide) hr
  have hparsable := parseItems_ok_iff.mp ⟨ok, st, hitems⟩
  revert hparsable
  decide +kernel

end

end Azalea.Usb
