import Azalea.Usb.HidShape

/-!
# Usb — the collections of a HID report descriptor

`parse_descriptor` puts each collection inside the one that is open, with a pointer to the current
collection and from each collection to its parent.  A `Nesting` is a descriptor with its collections as a
tree, and `Nesting.tree` the tree that is to come out, in which each field is in the collection it stands
in.

* `parseItems_nesting`: if the items are parsed at all, that tree comes out.
* `parseDescriptor_nests_iff`: so it comes out of `parse_descriptor` exactly if the descriptor has less
  than 2^16 bytes and its items can be dealt with.  `END_COLLECTION` clears the wrong pointer to a parent,
  that of the collection it goes back to: a collection that has one inside has to be closed by the last
  item of the descriptor.
-/

namespace Azalea.Usb
open Azalea.Halts (bind_ok ok_bind)

/-- The main item that an item is, if it is one. -/
def HidItem.mainItem (item : HidItem) : Option HidMainItem :=
  match HidType.ofType item.tag.type with
  | some .main => HidMainItem.ofTag item.tag.tag
  | _ => none

/-! ### Descriptors as trees -/

/-- A sequence of items, with what is inside each collection. -/
inductive Nesting where
  | nil
  | item (item : HidItem) (rest : Nesting)
  | collection (first : HidItem) (inside : Nesting) (last : HidItem) (rest : Nesting)

namespace Nesting

/-- The items as they follow one another. -/
def items : Nesting → List HidItem
  | nil => []
  | item i rest => i :: rest.items
  | collection first inside last rest => first :: (inside.items ++ last :: rest.items)

/-- `COLLECTION` and `END_COLLECTION` stand where a collection begins and ends, and nowhere else. -/
def Ok : Nesting → Prop
  | nil => True
  | item i rest => i.mainItem ≠ some .collection ∧ i.mainItem ≠ some .endCollection ∧ rest.Ok
  | collection first inside last rest => first.mainItem = some .collection ∧ inside.Ok ∧
      last.mainItem = some .endCollection ∧ rest.Ok

end Nesting

/-- Inside `depth` collections, all of which are closed at the end. -/
def balancedFrom : Nat → List HidItem → Bool
  | depth, [] => depth = 0
  | depth, item :: items =>
      match item.mainItem with
      | some .collection => balancedFrom (depth + 1) items
      | some .endCollection => 0 < depth && balancedFrom (depth - 1) items
      | some (.field _) | none => balancedFrom depth items

/-- Every `COLLECTION` has its `END_COLLECTION`. -/
def Balanced (items : List HidItem) : Prop := balancedFrom 0 items

instance (items : List HidItem) : Decidable (Balanced items) := inferInstanceAs (Decidable (_ = true))

/-- The items up to the end of the innermost collection that is open. -/
def BeginsNested (depth : Nat) (items : List HidItem) : Prop :=
  ∃ N : Nesting, N.Ok ∧ ∃ rest, items = N.items ++ rest ∧
    (depth = 0 ∧ rest = [] ∨ ∃ last after, rest = last :: after ∧ last.mainItem = some .endCollection ∧
      0 < depth ∧ balancedFrom (depth - 1) after)

theorem beginsNested_of_balancedFrom : ∀ (k : Nat) {items : List HidItem} {depth : Nat}, items.length ≤ k →
    balancedFrom depth items → BeginsNested depth items := by
  intro k
  induction k with
  | zero =>
      intro items depth hk h
      obtain rfl := List.length_eq_zero_iff.mp (Nat.le_zero.mp hk)
      refine ⟨.nil, trivial, [], rfl, .inl ⟨?_, rfl⟩⟩
      simpa [balancedFrom] using h
  | succ k ih =>
      intro items depth hk h
      match items, h with
      | [], h =>
          refine ⟨.nil, trivial, [], rfl, .inl ⟨?_, rfl⟩⟩
          simpa [balancedFrom] using h
      | item :: items, h =>
          simp only [List.length_cons] at hk
          have hother (hfirst : item.mainItem ≠ some .collection) (hlast : item.mainItem ≠ some .endCollection)
              (h : balancedFrom depth items) : BeginsNested depth (item :: items) := by
            obtain ⟨N, hN, rest, rfl, hrest⟩ := ih (by omega) h
            exact ⟨.item item N, ⟨hfirst, hlast, hN⟩, rest, rfl, hrest⟩
          match hmain : item.mainItem with
          | none => exact hother (by simp [hmain]) (by simp [hmain]) (by simpa only [balancedFrom, hmain] using h)
          | some (.field type) =>
              exact hother (by simp [hmain]) (by simp [hmain]) (by simpa only [balancedFrom, hmain] using h)
          | some .collection =>
              simp only [balancedFrom, hmain] at h
              obtain ⟨N, hN, rest, rfl, ⟨hzero, -⟩ | ⟨last, after, rfl, hlast, -, hafter⟩⟩ := ih (by omega) h
              · omega
              · simp only [List.length_append, List.length_cons] at hk
                obtain ⟨M, hM, rest', rfl, hrest⟩ := ih (by omega) hafter
                refine ⟨.collection item N last M, ⟨hmain, hN, hlast, hM⟩, rest', ?_, hrest⟩
                simp [Nesting.items]
          | some .endCollection =>
              simp only [balancedFrom, hmain, Bool.and_eq_true, decide_eq_true_eq] at h
              exact ⟨.nil, trivial, _, rfl, .inr ⟨item, items, rfl, hmain, h⟩⟩

theorem nesting_of_balanced {items : List HidItem} (h : Balanced items) : ∃ N : Nesting, N.Ok ∧ N.items = items := by
  obtain ⟨N, hN, rest, rfl, ⟨-, rfl⟩ | ⟨last, after, -, -, hpos, -⟩⟩ :=
    beginsNested_of_balancedFrom _ (le_refl _) h
  · exact ⟨N, hN, (List.append_nil _).symm⟩
  · omega

/-! ### The tree that is to come out -/

/-- What an item does to the states, and the fields it makes. -/
def FieldState.fieldItem (overShift : BitVec 32) (st : FieldState) (item : HidItem) :
    Except DescriptorFault (FieldState × List ReportFieldDescription) :=
  match HidType.ofType item.tag.type with
  | some .main =>
      match HidMainItem.ofTag item.tag.tag with
      | some (.field type) => do
          let (st, fields) ← st.addNewField type (item.data overShift)
          return (st.resetLocal, fields)
      | some .collection | some .endCollection | none => .ok (st.resetLocal, [])
  | some .global => do
      let (_, st) ← st.handleGlobalItem item.tag (item.data overShift)
      return (st, [])
  | some .local => do
      let (_, st) ← st.handleLocalItem item.tag (item.data overShift)
      return (st, [])
  | none => .ok (st, [])

/-- Fields and collections are put into a collection. -/
def DecodedCollection.add (c : DecodedCollection) (fields : List ReportFieldDescription)
    (collections : List DecodedCollection) : DecodedCollection :=
  { c with
    reportFields := c.reportFields ++ fields
    childCollections := c.childCollections ++ collections }

theorem DecodedCollection.add_nil (c : DecodedCollection) : c.add [] [] = c := by
  cases c
  simp only [DecodedCollection.add, List.append_nil]

theorem DecodedCollection.add_add (c : DecodedCollection) (fields fields' : List ReportFieldDescription)
    (collections collections' : List DecodedCollection) :
    (c.add fields collections).add fields' collections' = c.add (fields ++ fields') (collections ++ collections') := by
  simp only [DecodedCollection.add, List.append_assoc]

/-- The fields and the collections of a sequence of items, with the states after it. -/
def Nesting.build (overShift : BitVec 32) : Nesting → FieldState →
    Except DescriptorFault (FieldState × List ReportFieldDescription × List DecodedCollection)
  | nil, st => .ok (st, [], [])
  | item i rest, st => do
      let (st, fields) ← st.fieldItem overShift i
      let (st, fields', collections) ← rest.build overShift st
      return (st, fields ++ fields', collections)
  | collection first inside _ rest, st => do
      let new := st.newCollection (first.data overShift)
      let (st, fields, collections) ← inside.build overShift st.resetLocal
      let (st, fields', collections') ← rest.build overShift st.resetLocal
      return (st, fields', new.add fields collections :: collections')

/-- The root with everything in it. -/
def Nesting.tree (overShift : BitVec 32) (N : Nesting) : Except DescriptorFault DecodedCollection := do
  let (_, fields, collections) ← N.build overShift {}
  return DecodedCollection.add {} fields collections

/-! ### A collection and those it is in -/

/-- A collection as the last one inside others, innermost first. -/
def plug : List DecodedCollection → DecodedCollection → DecodedCollection
  | [], c => c
  | around :: outer, c => plug outer (around.add [] [c])

/-- The path to it. -/
def pathOf : List DecodedCollection → CollectionPath
  | [] => []
  | around :: outer => around.childCollections.length :: pathOf outer

theorem get?_plug : ∀ (outer : List DecodedCollection) (c : DecodedCollection),
    (plug outer c).get? (pathOf outer) = some c
  | [], c => rfl
  | around :: outer, c => by
      rw [plug, pathOf, DecodedCollection.get?, get?_plug outer]
      simp [DecodedCollection.add]

theorem modify_plug : ∀ (outer : List DecodedCollection) (c : DecodedCollection)
    (f : DecodedCollection → DecodedCollection), (plug outer c).modify (pathOf outer) f = plug outer (f c)
  | [], c, f => rfl
  | around :: outer, c, f => by
      rw [plug, pathOf, DecodedCollection.modify, modify_plug outer, plug]
      congr 1
      simp only [DecodedCollection.add, List.append_nil]
      rw [List.modify_eq_take_cons_drop (by simp)]
      simp

section
variable {overShift : BitVec 32} {st st' : CurrentParseState} {item : HidItem} {ok : Bool}
  {outer : List DecodedCollection} {c : DecodedCollection} {path : CollectionPath}

/-- A pointer to a parent that is not null goes one collection up. -/
def PointsUp (st : CurrentParseState) : Prop :=
  ∀ path parent, st.parentCollection path = some parent → ∃ i, path = i :: parent

/-- The parser is in a collection, or has no current collection. -/
structure IsIn (st : CurrentParseState) (outer : List DecodedCollection) (c : DecodedCollection) : Prop where
  root : st.rootCollection = plug outer c
  current : ∀ path, st.currentCollection = some path → path = pathOf outer
  pointsUp : PointsUp st

/-- An item is only looked at in a collection. -/
theorem parseItem_current (hs : st.parseItem overShift item = .ok (ok, st')) :
    ∃ path, st.currentCollection = some path ∧ item.tag.raw ≠ 0xFE := by
  unfold CurrentParseState.parseItem CurrentParseState.handleItem at hs
  split at hs
  next => cases hs
  next hlong =>
    cases hpath : st.currentCollection with
    | none =>
        simp only [hpath] at hs
        cases hs
    | some path => exact ⟨path, rfl, hlong⟩

theorem IsIn.attach {fieldState : FieldState} {fields : List ReportFieldDescription} (h : IsIn st outer c)
    (hpath : st.currentCollection = some path) :
    IsIn ((st.setFields fieldState).attach path fields) outer (c.add fields []) where
  root := by
    obtain rfl := h.current path hpath
    change st.rootCollection.modify _ _ = _
    rw [h.root, modify_plug]
    simp only [DecodedCollection.add, List.append_nil]
  current := h.current
  pointsUp := h.pointsUp

theorem IsIn.setFields (h : IsIn st outer c) (fieldState : FieldState) : IsIn (st.setFields fieldState) outer c :=
  ⟨h.root, h.current, h.pointsUp⟩

theorem IsIn.open {new : DecodedCollection} (h : IsIn st outer c) (hpath : st.currentCollection = some path) :
    IsIn (st.openCollection path new) (c :: outer) new where
  root := by
    obtain rfl := h.current path hpath
    change st.rootCollection.modify _ _ = _
    rw [h.root, modify_plug, plug]
    simp only [DecodedCollection.add, List.append_nil]
  current path' hpath' := by
    obtain rfl := h.current path hpath
    obtain rfl := Option.some.inj hpath'
    rw [h.root, get?_plug]
    rfl
  pointsUp p parent hp := by
    simp only [CurrentParseState.openCollection, Function.update_apply] at hp
    split at hp
    next heq =>
      obtain rfl := Option.some.inj hp
      exact ⟨_, heq⟩
    next => exact h.pointsUp p parent hp

theorem IsIn.close {around : DecodedCollection} (h : IsIn st (around :: outer) c)
    (hpath : st.currentCollection = some path) : IsIn (st.closeCollection path) outer (around.add [] [c]) := by
  obtain rfl := h.current path hpath
  unfold CurrentParseState.closeCollection
  split
  next parent hparent =>
    obtain ⟨i, hi⟩ := h.pointsUp _ parent hparent
    refine ⟨h.root, fun path' hpath' => ?_, fun p q hp => ?_⟩
    · obtain rfl := Option.some.inj hpath'
      exact (List.cons.inj hi).2.symm
    · simp only [Function.update_apply] at hp
      split at hp
      next => cases hp
      next => exact h.pointsUp p q hp
  next => exact ⟨h.root, nofun, h.pointsUp⟩

/-- What an item has done. -/
inductive ItemStep (overShift : BitVec 32) (st : CurrentParseState) (item : HidItem) (path : CollectionPath) :
    CurrentParseState → Prop
  | field {fieldState fields} (hother : ∀ main, item.mainItem = some main → ∃ type, main = .field type)
      (hfields : st.toFieldState.fieldItem overShift item = .ok (fieldState, fields)) :
      ItemStep overShift st item path ((st.setFields fieldState).attach path fields)
  | fields {fieldState} (hother : item.mainItem = none)
      (hfields : st.toFieldState.fieldItem overShift item = .ok (fieldState, [])) :
      ItemStep overShift st item path (st.setFields fieldState)
  | collection (hitem : item.mainItem = some .collection) : ItemStep overShift st item path
      ((st.setFields st.resetLocal).openCollection path (st.newCollection (item.data overShift)))
  | endCollection (hitem : item.mainItem = some .endCollection) : ItemStep overShift st item path
      ((st.setFields st.resetLocal).closeCollection path)

theorem parseItem_step (hs : st.parseItem overShift item = .ok (ok, st')) :
    ∃ path, st.currentCollection = some path ∧ ItemStep overShift st item path st' := by
  obtain ⟨path, hpath, hlong⟩ := parseItem_current hs
  refine ⟨path, hpath, ?_⟩
  unfold CurrentParseState.parseItem CurrentParseState.handleItem at hs
  rw [if_neg hlong, hpath] at hs
  simp only at hs
  cases htype : HidType.ofType item.tag.type with
  | none =>
      simp only [htype] at hs
      cases hs
      exact .fields (by simp only [HidItem.mainItem, htype]) (by simp only [FieldState.fieldItem, htype])
  | some type =>
      have hnone (hne : type ≠ .main) : item.mainItem = none := by
        cases type <;> simp_all [HidItem.mainItem]
      cases type with
      | global =>
          simp only [htype] at hs
          obtain ⟨⟨result, fieldState⟩, hglobal, hs⟩ := bind_ok.mp hs
          cases hs
          exact .fields (hnone nofun) (by simp only [FieldState.fieldItem, htype, hglobal]; rfl)
      | «local» =>
          simp only [htype] at hs
          obtain ⟨⟨result, fieldState⟩, hlocal, hs⟩ := bind_ok.mp hs
          cases hs
          exact .fields (hnone nofun) (by simp only [FieldState.fieldItem, htype, hlocal]; rfl)
      | main =>
          have hmain : item.mainItem = HidMainItem.ofTag item.tag.tag := by simp only [HidItem.mainItem, htype]
          simp only [htype, CurrentParseState.handleMainItem] at hs
          cases htag : HidMainItem.ofTag item.tag.tag with
          | none =>
              simp only [htag] at hs
              cases hs
              exact .fields (hmain.trans htag) (by simp only [FieldState.fieldItem, htype, htag])
          | some main =>
              cases main with
              | field type =>
                  simp only [htag] at hs
                  obtain ⟨⟨fieldState, fields⟩, hfields, hs⟩ := bind_ok.mp hs
                  cases hs
                  refine .field (fun main hm => ⟨type, ?_⟩) ?_
                  · exact (Option.some.inj ((hmain.trans htag).symm.trans hm)).symm
                  · simp only [FieldState.fieldItem, htype, htag, hfields]
                    rfl
              | collection =>
                  simp only [htag] at hs
                  cases hs
                  exact .collection (hmain.trans htag)
              | endCollection =>
                  simp only [htag] at hs
                  cases hs
                  exact .endCollection (hmain.trans htag)

/-- Other items leave the parser in the collection it is in. -/
theorem IsIn.otherItem (h : IsIn st outer c) (hfirst : item.mainItem ≠ some .collection)
    (hlast : item.mainItem ≠ some .endCollection) (hs : st.parseItem overShift item = .ok (ok, st')) :
    ∃ fields, st.toFieldState.fieldItem overShift item = .ok (st'.toFieldState, fields) ∧
      IsIn st' outer (c.add fields []) := by
  obtain ⟨path, hpath, hstep⟩ := parseItem_step hs
  cases hstep with
  | field hother hfields => exact ⟨_, hfields, h.attach hpath⟩
  | fields hother hfields =>
      refine ⟨[], hfields, ?_⟩
      rw [c.add_nil]
      exact h.setFields _
  | collection hitem => exact absurd hitem hfirst
  | endCollection hitem => exact absurd hitem hlast

theorem IsIn.collection (h : IsIn st outer c) (hfirst : item.mainItem = some .collection)
    (hs : st.parseItem overShift item = .ok (ok, st')) :
    st'.toFieldState = st.resetLocal ∧ IsIn st' (c :: outer) (st.newCollection (item.data overShift)) := by
  obtain ⟨path, hpath, hstep⟩ := parseItem_step hs
  cases hstep with
  | field hother hfields => obtain ⟨type, htype⟩ := hother _ hfirst; cases htype
  | fields hother hfields => rw [hfirst] at hother; cases hother
  | collection hitem => exact ⟨rfl, IsIn.open (h.setFields st.resetLocal) hpath⟩
  | endCollection hitem => rw [hfirst] at hitem; cases hitem

theorem IsIn.endCollection {around : DecodedCollection} (h : IsIn st (around :: outer) c)
    (hlast : item.mainItem = some .endCollection) (hs : st.parseItem overShift item = .ok (ok, st')) :
    st'.toFieldState = st.resetLocal ∧ IsIn st' outer (around.add [] [c]) := by
  obtain ⟨path, hpath, hstep⟩ := parseItem_step hs
  cases hstep with
  | field hother hfields => obtain ⟨type, htype⟩ := hother _ hlast; cases htype
  | fields hother hfields => rw [hlast] at hother; cases hother
  | collection hitem => rw [hlast] at hitem; cases hitem
  | endCollection hitem =>
      refine ⟨?_, IsIn.close (h.setFields st.resetLocal) hpath⟩
      unfold CurrentParseState.closeCollection
      split <;> rfl

theorem parseItems_append {items items' : List HidItem} {st st' : CurrentParseState} {ok : Bool}
    (hs : st.parseItems overShift (items ++ items') = .ok (ok, st')) : ∃ ok₁ st₁ ok₂,
      st.parseItems overShift items = .ok (ok₁, st₁) ∧ st₁.parseItems overShift items' = .ok (ok₂, st') := by
  induction items generalizing st ok with
  | nil => exact ⟨true, st, ok, rfl, hs⟩
  | cons item items ih =>
      obtain ⟨ok₁, st₁, ok₂, hitem, hrest, -⟩ := CurrentParseState.parseItems_cons.mp hs
      obtain ⟨ok₃, st₂, ok₄, hitems, hitems'⟩ := ih hrest
      exact ⟨ok₁ && ok₃, st₂, ok₄, CurrentParseState.parseItems_cons.mpr ⟨ok₁, st₁, ok₃, hitem, hitems, rfl⟩, hitems'⟩

/-- If the items are parsed at all, what they make is put where they stand. -/
theorem parseItems_nesting : ∀ {N : Nesting} {outer c st ok st'}, N.Ok → IsIn st outer c →
    st.parseItems overShift N.items = .ok (ok, st') → ∃ fields collections,
      N.build overShift st.toFieldState = .ok (st'.toFieldState, fields, collections) ∧
      IsIn st' outer (c.add fields collections)
  | .nil, outer, c, st, ok, st', _, h, hs => by
      cases hs
      refine ⟨[], [], rfl, ?_⟩
      rw [c.add_nil]
      exact h
  | .item i rest, outer, c, st, ok, st', hN, h, hs => by
      obtain ⟨ok₁, st₁, ok₂, hitem, hrest, -⟩ := CurrentParseState.parseItems_cons.mp hs
      obtain ⟨fields, hfields, h₁⟩ := h.otherItem hN.1 hN.2.1 hitem
      obtain ⟨fields', collections, hbuild, h'⟩ := parseItems_nesting hN.2.2 h₁ hrest
      refine ⟨fields ++ fields', collections, ?_, ?_⟩
      · exact bind_ok.mpr ⟨_, hfields, bind_ok.mpr ⟨_, hbuild, rfl⟩⟩
      · rwa [c.add_add, List.nil_append] at h'
  | .collection first inside last rest, outer, c, st, ok, st', hN, h, hs => by
      obtain ⟨hfirst, hinside, hlast, hrestOk⟩ := hN
      obtain ⟨ok₁, st₁, ok₂, hitem, hs, -⟩ := CurrentParseState.parseItems_cons.mp hs
      obtain ⟨ok₃, st₂, ok₄, hitems, hs⟩ := parseItems_append hs
      obtain ⟨ok₅, st₃, ok₆, hend, hrest, -⟩ := CurrentParseState.parseItems_cons.mp hs
      obtain ⟨hfields₁, h₁⟩ := h.collection hfirst hitem
      obtain ⟨fields, collections, hbuild, h₂⟩ := parseItems_nesting hinside h₁ hitems
      obtain ⟨hfields₃, h₃⟩ := h₂.endCollection hlast hend
      obtain ⟨fields', collections', hbuild', h'⟩ := parseItems_nesting hrestOk h₃ hrest
      refine ⟨fields', (st.newCollection (first.data overShift)).add fields collections :: collections', ?_, ?_⟩
      · rw [hfields₁] at hbuild
        rw [hfields₃] at hbuild'
        exact bind_ok.mpr ⟨_, hbuild, bind_ok.mpr ⟨_, hbuild', rfl⟩⟩
      · rwa [c.add_add, List.nil_append, List.singleton_append] at h'

end

section
variable {overShift : BitVec 32} {raw : Nat → BitVec 8} {descriptorLength : BitVec 32} {n : Nat}

/-- The collections of a descriptor of whole items, with each `COLLECTION` closed, come out as they are
nested exactly if it has less than 2^16 bytes and its items can be dealt with. -/
theorem parseDescriptor_nests_iff (hend : itemsEnd raw n 0 = descriptorLength.toNat)
    (hbalanced : Balanced (itemsFrom raw n 0)) :
    (∃ N : Nesting, N.Ok ∧ N.items = itemsFrom raw n 0 ∧ ∃ fuel r,
      parseDescriptor overShift raw descriptorLength fuel = .ok r ∧
      N.tree overShift = .ok r.descriptor.rootCollection) ↔
    descriptorLength.toNat < 65536 ∧ Parsable overShift (itemsFrom raw n 0) := by
  constructor
  · rintro ⟨N, -, -, fuel, r, hr, -⟩
    obtain ⟨hlen, ok, st, hitems, -⟩ := parseDescriptor_ok hend hr
    exact ⟨hlen, parseItems_ok_iff.mp ⟨ok, st, hitems⟩⟩
  · rintro ⟨hlen, hparsable⟩
    obtain ⟨N, hN, hNitems⟩ := nesting_of_balanced hbalanced
    obtain ⟨ok, st, hitems⟩ := parseItems_ok_iff.mpr hparsable
    obtain ⟨r, hr, -, hdescriptor, -⟩ := parseDescriptor_of_items hlen hend hitems
    refine ⟨N, hN, hNitems, n, r, hr, ?_⟩
    have hstart : IsIn {} [] {} := ⟨rfl, fun path hpath => (Option.some.inj hpath).symm, nofun⟩
    rw [← hNitems] at hitems
    obtain ⟨fields, collections, hbuild, h⟩ := parseItems_nesting hN hstart hitems
    rw [hdescriptor]
    exact bind_ok.mpr ⟨_, hbuild, congrArg Except.ok h.root.symm⟩

/-- A collection with two fields inside another, closed by the last item. -/
def twoCollections : List (BitVec 8) :=
  [0xA1, 0x01, 0x05, 0x01, 0x09, 0x30, 0xA1, 0x00, 0x75, 0x08, 0x95, 0x02, 0x81, 0x02, 0xC0, 0xC0]

theorem parseDescriptor_nests_two : ∃ N : Nesting, N.Ok ∧
    N.items = itemsFrom (bytesThenZeros twoCollections) 9 0 ∧ ∃ fuel r,
      parseDescriptor 0 (bytesThenZeros twoCollections) 16 fuel = .ok r ∧
      N.tree 0 = .ok r.descriptor.rootCollection :=
  (parseDescriptor_nests_iff (by decide) (by decide +kernel)).mpr ⟨by decide, by decide +kernel⟩

/-- The third of three collections, one in the other, cannot be closed. -/
theorem parseDescriptor_not_nested : ¬ ∀ (overShift : BitVec 32) (raw : Nat → BitVec 8)
    (descriptorLength : BitVec 32) (n : Nat), itemsEnd raw n 0 = descriptorLength.toNat →
    Balanced (itemsFrom raw n 0) → ∃ N : Nesting, N.Ok ∧ N.items = itemsFrom raw n 0 ∧ ∃ fuel r,
      parseDescriptor overShift raw descriptorLength fuel = .ok r ∧
      N.tree overShift = .ok r.descriptor.rootCollection := by
  intro h
  obtain ⟨N, -, -, fuel, r, hr, -⟩ :=
    h 0 (bytesThenZeros threeCollections) 9 6 (by decide) (by decide +kernel)
  obtain ⟨-, ok, st, hitems, -⟩ := parseDescriptor_ok (n := 6) (by decide) hr
  have hparsable := parseItems_ok_iff.mp ⟨ok, st, hitems⟩
  revert hparsable
  decide +kernel

end

end Azalea.Usb
