import Azalea.Usb.HidDescriptor

/-!
# Usb — the usages of HID fields

The usages before a main item are queued, a range of them as one entry, and `add_new_field` takes the next
one for each variable field.  A `UsageGroup` is what the items say: a single usage, or a range, whose
minimum and maximum come in either order.

* `usages_iff`: the fields get the usages of the groups, one after the other and the last of them again
  and again, exactly if no range follows another and none ends at the top: a minimum or a maximum behind a
  range changes that range, and behind 2^32 - 1 the usages go on with 0.
-/

namespace Azalea.Usb
open Azalea.Halts (bind_ok ok_bind)

/-! ### What the items say -/

/-- A single usage, or a range; its maximum can come first. -/
inductive UsageGroup where
  | single (value : BitVec 32)
  | range (min max : BitVec 32) (maxFirst : Bool)

namespace UsageGroup

/-- The items of a group. -/
def items : UsageGroup → List (HidIndexPart × BitVec 32)
  | single value => [(.idx, value)]
  | range min max false => [(.min, min), (.max, max)]
  | range min max true => [(.max, max), (.min, min)]

/-- A range is not empty. -/
def Ok : UsageGroup → Prop
  | single _ => True
  | range min max _ => min.toNat ≤ max.toNat

/-- The usages of a group. -/
def values : UsageGroup → List (BitVec 32)
  | single value => [value]
  | range min max _ => (List.range (max.toNat - min.toNat + 1)).map fun i => min + BitVec.ofNat 32 i

/-- The entry of a queue for a group. -/
def entry : UsageGroup → ParserLocalStateField
  | single value => { item := value }
  | range min max _ => { item := min, itemMin := min, itemMax := max, isMinMax := true }

/-- No range follows another, nor one before the first group. -/
def Separate : Bool → List UsageGroup → Prop
  | _, [] => True
  | afterRange, g :: groups => (afterRange && g.entry.isMinMax) = false ∧ Separate g.entry.isMinMax groups

end UsageGroup

/-- An element of a list, and after its end the last one. -/
def repeatLast (vs : List (BitVec 32)) (i : Nat) : BitVec 32 := vs[i]?.getD (vs.getLast?.getD 0)

/-- As far as a number of fields, what follows a range that ends at the top is 0, 1 and so on. -/
def UsageGroup.TopsHarmless : List UsageGroup → Nat → Prop
  | [], _ => True
  | single _ :: groups, n => TopsHarmless groups (n - 1)
  | range min max maxFirst :: groups, n =>
      if max = BitVec.allOnes 32 then
        ∀ j, 2 ^ 32 - min.toNat + j < n →
          repeatLast ((range min max maxFirst :: groups).flatMap values) (2 ^ 32 - min.toNat + j) =
            BitVec.ofNat 32 j
      else TopsHarmless groups (n - (max.toNat - min.toNat + 1))

/-! ### What the parser does -/

/-- The part and the usage of a local item that is one. -/
def usageItem (usagePage : BitVec 32) (i : HidShortTag × BitVec 32) : Option (HidIndexPart × BitVec 32) :=
  match HidLocalItem.ofTag i.1.tag with
  | some (.index .usage part) =>
      some (part, if i.1.dataLength < 4 then i.2 ||| usagePage <<< 16 else i.2)
  | _ => none

/-- A number of local items. -/
def FieldState.handleLocals (st : FieldState) :
    List (HidShortTag × BitVec 32) → Except DescriptorFault FieldState
  | [] => .ok st
  | (tag, itemData) :: inputs => do
      let (_, st) ← st.handleLocalItem tag itemData
      st.handleLocals inputs

/-- The usages of the fields of a main item that comes after them. -/
def FieldState.usagesAfter (st : FieldState) (inputs : List (HidShortTag × BitVec 32)) (type : HidFieldType)
    (itemData : BitVec 32) : Except DescriptorFault (List (BitVec 32)) := do
  let st ← st.handleLocals inputs
  let (_, fields) ← st.addNewField type itemData
  return fields.map (·.usage)

/-- The usage that is taken from a queue at last. -/
def usageAt : List ParserLocalStateField → Nat → BitVec 32
  | queue, 0 => (getNextFieldIndexVal queue).1
  | queue, i + 1 => usageAt (getNextFieldIndexVal queue).2 i

/-! ### The queue -/

section
variable {groups : List UsageGroup} {queue : List ParserLocalStateField} {n : Nat}

theorem setBack_concat (queue : List ParserLocalStateField) (e : ParserLocalStateField)
    (f : ParserLocalStateField → ParserLocalStateField) :
    FieldState.setBack (queue ++ [e]) f = queue ++ [f e] := by
  have hlt : queue.length < (queue ++ [e]).length := by simp
  rw [FieldState.setBack, List.length_append, List.length_singleton, Nat.add_sub_cancel,
    List.modify_eq_take_cons_drop hlt, List.take_left, List.drop_eq_nil_of_le (by simp)]
  simp

/-- Whether there is a range at the back of a queue. -/
def backIsRange (queue : List ParserLocalStateField) : Bool := queue.getLast?.any (·.isMinMax)

@[simp] theorem backIsRange_concat (queue : List ParserLocalStateField) (e : ParserLocalStateField) :
    backIsRange (queue ++ [e]) = e.isMinMax := by
  simp [backIsRange]

theorem backMinMax_concat (queue : List ParserLocalStateField) {e : ParserLocalStateField}
    (h : e.isMinMax = true) : FieldState.backMinMax (queue ++ [e]) = queue ++ [e] :=
  if_pos ((backIsRange_concat queue e).trans h)

theorem backMinMax_of_not (h : backIsRange queue = false) :
    FieldState.backMinMax queue = queue ++ [{ isMinMax := true }] :=
  if_neg fun hback => Bool.false_ne_true (h.symm.trans hback)

/-- The items of a group are queued. -/
def pushGroup (queue : List ParserLocalStateField) (g : UsageGroup) : List ParserLocalStateField :=
  g.items.foldl (fun queue i => FieldState.pushLocal i.1 i.2 queue) queue

/-- A range is queued in an entry for ranges, whichever of its ends comes first. -/
theorem pushGroup_range (min max : BitVec 32) (maxFirst : Bool) {before : List ParserLocalStateField}
    {e : ParserLocalStateField} (h : FieldState.backMinMax queue = before ++ [e]) (he : e.isMinMax = true) :
    pushGroup queue (.range min max maxFirst) = before ++ [(UsageGroup.range min max maxFirst).entry] := by
  cases maxFirst
  all_goals
    simp only [pushGroup, UsageGroup.items, List.foldl_cons, List.foldl_nil, FieldState.pushLocal, h,
      setBack_concat]
    rw [backMinMax_concat _ (by exact he), setBack_concat, UsageGroup.entry]
    simp only [he]

/-- A group gets an entry of its own. -/
theorem pushGroup_new (g : UsageGroup) (h : (backIsRange queue && g.entry.isMinMax) = false) :
    pushGroup queue g = queue ++ [g.entry] := by
  cases g with
  | single value => rfl
  | range min max maxFirst =>
      have hback : backIsRange queue = false := by simpa [UsageGroup.entry] using h
      exact pushGroup_range min max maxFirst (backMinMax_of_not hback) rfl

/-- Or it takes the place of the range before. -/
theorem pushGroup_merged (g : UsageGroup) (h : (backIsRange queue && g.entry.isMinMax) = true) :
    (pushGroup queue g).length = queue.length ∧ backIsRange (pushGroup queue g) = g.entry.isMinMax := by
  rw [Bool.and_eq_true] at h
  obtain ⟨hback, hrange⟩ := h
  rcases List.eq_nil_or_concat queue with rfl | ⟨before, e, rfl⟩
  · cases hback
  · rw [List.concat_eq_append] at hback ⊢
    rw [backIsRange_concat] at hback
    cases g with
    | single value => cases hrange
    | range min max maxFirst =>
        rw [pushGroup_range min max maxFirst (backMinMax_concat before hback) hback]
        simp

open UsageGroup

/-- Groups that are separate have an entry each. -/
theorem foldl_pushGroup : ∀ {groups : List UsageGroup} {queue},
    Separate (backIsRange queue) groups → groups.foldl pushGroup queue = queue ++ groups.map entry
  | [], queue, _ => (List.append_nil queue).symm
  | g :: groups, queue, h => by
      rw [List.foldl_cons, pushGroup_new g h.1, foldl_pushGroup, List.map_cons, List.append_assoc]
      · rfl
      · rw [backIsRange_concat]
        exact h.2

theorem backIsRange_pushGroup (queue : List ParserLocalStateField) (g : UsageGroup) :
    backIsRange (pushGroup queue g) = g.entry.isMinMax ∧ (pushGroup queue g).length ≤ queue.length + 1 := by
  by_cases h : (backIsRange queue && g.entry.isMinMax) = true
  · exact ⟨(pushGroup_merged g h).2, (pushGroup_merged g h).1.le.trans (Nat.le_succ _)⟩
  · rw [pushGroup_new g (Bool.eq_false_iff.mpr h), backIsRange_concat]
    exact ⟨rfl, by simp⟩

theorem length_foldl_pushGroup : ∀ (groups : List UsageGroup) (queue),
    (groups.foldl pushGroup queue).length ≤ queue.length + groups.length
  | [], queue => le_rfl
  | g :: groups, queue => by
      have hle := length_foldl_pushGroup groups (pushGroup queue g)
      have hone := (backIsRange_pushGroup queue g).2
      rw [List.foldl_cons, List.length_cons]
      omega

/-- Groups that are not have less entries. -/
theorem length_foldl_pushGroup_lt : ∀ {groups : List UsageGroup} {queue},
    ¬ Separate (backIsRange queue) groups → (groups.foldl pushGroup queue).length < queue.length + groups.length
  | [], queue, h => absurd trivial h
  | g :: groups, queue, h => by
      obtain ⟨hback, hone⟩ := backIsRange_pushGroup queue g
      rw [List.foldl_cons, List.length_cons]
      by_cases hmerge : (backIsRange queue && g.entry.isMinMax) = true
      · have hle := length_foldl_pushGroup groups (pushGroup queue g)
        rw [(pushGroup_merged g hmerge).1] at hle
        omega
      · have hrest : ¬ Separate (backIsRange (pushGroup queue g)) groups := fun hsep =>
          h ⟨Bool.eq_false_iff.mpr hmerge, hback ▸ hsep⟩
        have hlt := length_foldl_pushGroup_lt hrest
        omega

theorem foldl_pushGroup_iff :
    groups.foldl pushGroup [] = groups.map entry ↔ Separate false groups := by
  constructor
  · intro h
    by_contra hsep
    have hlt := @length_foldl_pushGroup_lt groups [] hsep
    rw [h, List.length_map, List.length_nil, Nat.zero_add] at hlt
    exact Nat.lt_irrefl _ hlt
  · intro h
    exact @foldl_pushGroup groups [] h

/-! ### The usages that are taken -/

variable {rest : List ParserLocalStateField} {x m max : BitVec 32} {i : Nat}

theorem usageAt_nil : ∀ i, usageAt [] i = 0
  | 0 => rfl
  | i + 1 => usageAt_nil i

theorem usageAt_single (value : BitVec 32) : ∀ i, usageAt [(single value).entry] i = value
  | 0 => rfl
  | i + 1 => usageAt_single value i

theorem usageAt_single_cons (value : BitVec 32) (hrest : rest ≠ []) (i : Nat) :
    usageAt ((single value).entry :: rest) (i + 1) = usageAt rest i := by
  cases rest with
  | nil => exact absurd rfl hrest
  | cons e rest => rfl

/-- A range that has come to `x`. -/
def rangeAt (x m max : BitVec 32) : ParserLocalStateField :=
  { item := x, itemMin := m, itemMax := max, isMinMax := true }

theorem getNext_range (rest : List ParserLocalStateField) (x m max : BitVec 32) :
    getNextFieldIndexVal (rangeAt x m max :: rest) =
      (x, if x + 1 > max then if rest.isEmpty then [rangeAt (x + 1 - 1) m max] else rest
        else rangeAt (x + 1) m max :: rest) := by
  rw [getNextFieldIndexVal, rangeAt, if_pos rfl]
  dsimp only
  split_ifs <;> rfl

/-- Below the top of the usages a range has an end. -/
theorem usageAt_range (hmax : max.toNat + 1 < 2 ^ 32) : ∀ {i x rest}, x.toNat ≤ max.toNat →
    usageAt (rangeAt x m max :: rest) i =
      if i ≤ max.toNat - x.toNat then x + BitVec.ofNat 32 i
      else if rest = [] then max else usageAt rest (i - (max.toNat - x.toNat + 1))
  | 0, x, rest, hx => by
      rw [usageAt, getNext_range, if_pos (Nat.zero_le _)]
      exact (BitVec.add_zero x).symm
  | i + 1, x, rest, hx => by
      have hsucc : (x + 1).toNat = x.toNat + 1 := by
        rw [BitVec.toNat_add]
        exact Nat.mod_eq_of_lt (by change x.toNat + 1 < _; omega)
      rw [usageAt, getNext_range]
      dsimp only
      by_cases hlast : x.toNat = max.toNat
      · have hgt : x + 1 > max := by
          rw [gt_iff_lt, BitVec.lt_def]
          omega
        have hend : ¬ i + 1 ≤ max.toNat - x.toNat := by omega
        rw [if_pos hgt, if_neg hend]
        by_cases hrest : rest = []
        · subst hrest
          have heq : x = max := BitVec.eq_of_toNat_eq hlast
          rw [List.isEmpty_nil, if_pos rfl, if_pos rfl, BitVec.add_sub_cancel, usageAt_range hmax hx, heq]
          split
          next hzero =>
            obtain rfl : i = 0 := by omega
            exact BitVec.add_zero max
          next => exact if_pos rfl
        · rw [if_neg (by simpa using hrest), if_neg hrest]
          congr 1
          omega
      · have hle : ¬ x + 1 > max := by
          rw [gt_iff_lt, BitVec.lt_def]
          omega
        have hone : x + 1 + BitVec.ofNat 32 i = x + BitVec.ofNat 32 (i + 1) := by
          rw [Nat.add_comm i 1, BitVec.ofNat_add, BitVec.add_assoc]
          rfl
        rw [if_neg hle, usageAt_range hmax (by omega), hsucc, hone]
        have hindex : i - (max.toNat - (x.toNat + 1) + 1) = i + 1 - (max.toNat - x.toNat + 1) := by omega
        rw [hindex]
        exact if_congr (by omega) rfl rfl

/-- At the top of the usages it has none. -/
theorem usageAt_top : ∀ {i x}, usageAt (rangeAt x m (BitVec.allOnes 32) :: rest) i = x + BitVec.ofNat 32 i
  | 0, x => by
      rw [usageAt, getNext_range]
      exact (BitVec.add_zero x).symm
  | i + 1, x => by
      have hle : ¬ x + 1 > BitVec.allOnes 32 := by
        rw [gt_iff_lt, BitVec.lt_def, BitVec.toNat_allOnes]
        have := (x + 1).isLt
        omega
      rw [usageAt, getNext_range]
      dsimp only
      rw [if_neg hle, usageAt_top, BitVec.add_assoc, Nat.add_comm i 1, BitVec.ofNat_add]
      rfl

/-! ### The fields -/

theorem repeatLast_append_left {vs vs' : List (BitVec 32)} (h : i < vs.length) :
    repeatLast (vs ++ vs') i = vs[i] := by
  rw [repeatLast, List.getElem?_append_left h, List.getElem?_eq_getElem h]
  rfl

theorem repeatLast_append_right {vs vs' : List (BitVec 32)} (h : vs.length ≤ i) (hne : vs' ≠ []) :
    repeatLast (vs ++ vs') i = repeatLast vs' (i - vs.length) := by
  obtain ⟨before, last, rfl⟩ := (List.eq_nil_or_concat vs').resolve_left hne
  rw [repeatLast, repeatLast, List.getElem?_append_right h, List.concat_eq_append, ← List.append_assoc,
    List.getLast?_concat, List.getLast?_concat]

theorem repeatLast_of_le {vs : List (BitVec 32)} (h : vs.length ≤ i) :
    repeatLast vs i = vs.getLast?.getD 0 := by
  rw [repeatLast, List.getElem?_eq_none h]
  rfl

theorem length_range (min max : BitVec 32) (maxFirst : Bool) :
    (range min max maxFirst).values.length = max.toNat - min.toNat + 1 := by
  rw [values, List.length_map, List.length_range]

theorem getElem_range {min max : BitVec 32} {maxFirst : Bool}
    (h : i < (range min max maxFirst).values.length) :
    (range min max maxFirst).values[i] = min + BitVec.ofNat 32 i := by
  simp [values]

theorem getLast_range {min max : BitVec 32} {maxFirst : Bool} (h : min.toNat ≤ max.toNat) :
    (range min max maxFirst).values.getLast? = some max := by
  rw [values, List.range_succ, List.map_append, List.map_singleton, List.getLast?_concat]
  refine congrArg some (BitVec.eq_of_toNat_eq ?_)
  have hmax := max.isLt
  rw [BitVec.toNat_add, BitVec.toNat_ofNat]
  omega

theorem values_ne_nil (g : UsageGroup) : g.values ≠ [] := by
  cases g with
  | single value => exact List.cons_ne_nil _ _
  | range min max maxFirst => simp [values]

theorem flatMap_values_ne_nil (h : groups ≠ []) : groups.flatMap values ≠ [] := by
  cases groups with
  | nil => exact absurd rfl h
  | cons g groups => simp [values_ne_nil g]

/-- After its first part two sequences agree as far as the rest of them does. -/
theorem forall_lt_iff_shift {f g : Nat → BitVec 32} {k : Nat} (h : ∀ i < k, f i = g i) :
    (∀ i < n, f i = g i) ↔ ∀ j < n - k, f (k + j) = g (k + j) := by
  constructor
  · exact fun hall j hj => hall (k + j) (by omega)
  · intro hrest i hi
    by_cases hlt : i < k
    · exact h i hlt
    · have hj := hrest (i - k) (by omega)
      rwa [Nat.add_sub_cancel' (by omega)] at hj

/-- **The usages that are taken from the entries of groups.** -/
theorem usageAt_eq_iff : ∀ {groups n}, (∀ g ∈ groups, g.Ok) →
    ((∀ i < n, usageAt (groups.map entry) i = repeatLast (groups.flatMap values) i) ↔
      TopsHarmless groups n)
  | [], n, _ => iff_of_true (fun i _ => usageAt_nil i) trivial
  | single value :: groups, n, hok => by
      by_cases hnil : groups = []
      · subst hnil
        refine iff_of_true (fun i _ => ?_) trivial
        rw [List.map_singleton, usageAt_single, List.flatMap_singleton]
        cases i with
        | zero => rfl
        | succ i => rfl
      · have ih := @usageAt_eq_iff groups (n - 1) fun g hg => hok g (List.mem_cons_of_mem _ hg)
        have hmap : groups.map entry ≠ [] := by simpa using hnil
        rw [TopsHarmless, ← ih, List.map_cons, List.flatMap_cons, forall_lt_iff_shift (k := 1)]
        · refine forall_congr' fun j => imp_congr_right fun _ => ?_
          rw [Nat.add_comm 1 j, usageAt_single_cons value hmap,
            repeatLast_append_right (Nat.le_add_left 1 j) (flatMap_values_ne_nil hnil)]
          rfl
        · intro i hi
          obtain rfl : i = 0 := by omega
          rfl
  | range min max maxFirst :: groups, n, hok => by
      have hle : min.toNat ≤ max.toNat := hok _ List.mem_cons_self
      have hlen := length_range min max maxFirst
      have hmax := max.isLt
      have hbelow : max ≠ BitVec.allOnes 32 → max.toNat + 1 < 2 ^ 32 := fun h => by
        have hne : max.toNat ≠ 2 ^ 32 - 1 := fun heq =>
          h (BitVec.eq_of_toNat_eq (heq.trans BitVec.toNat_allOnes.symm))
        omega
      rw [TopsHarmless, List.map_cons, List.flatMap_cons,
        forall_lt_iff_shift (k := max.toNat - min.toNat + 1)]
      · split
        next htop =>
          subst htop
          rw [BitVec.toNat_allOnes] at hle ⊢
          have hk : 2 ^ 32 - 1 - min.toNat + 1 = 2 ^ 32 - min.toNat := by omega
          have hround : ∀ j, min + BitVec.ofNat 32 (2 ^ 32 - min.toNat + j) = BitVec.ofNat 32 j := by
            intro j
            refine BitVec.eq_of_toNat_eq ?_
            rw [BitVec.toNat_add, BitVec.toNat_ofNat, BitVec.toNat_ofNat]
            omega
          rw [hk]
          refine forall_congr' fun j => imp_congr (by omega) ?_
          rw [show (range min (BitVec.allOnes 32) maxFirst).entry = rangeAt min min (BitVec.allOnes 32) from rfl,
            usageAt_top, hround]
          exact eq_comm
        next htop =>
          have hentry : (range min max maxFirst).entry = rangeAt min min max := rfl
          have hbeyond : ∀ j, ¬ max.toNat - min.toNat + 1 + j ≤ max.toNat - min.toNat := fun j => by omega
          by_cases hnil : groups = []
          · subst hnil
            refine iff_of_true (fun j _ => ?_) trivial
            rw [hentry, usageAt_range (hbelow htop) hle, if_neg (hbeyond j), List.map_nil, if_pos rfl,
              List.flatMap_nil, List.append_nil, repeatLast_of_le (by omega), getLast_range hle]
            rfl
          · have ih := @usageAt_eq_iff groups (n - (max.toNat - min.toNat + 1))
              fun g hg => hok g (List.mem_cons_of_mem _ hg)
            have hmap : groups.map entry ≠ [] := by simpa using hnil
            rw [← ih]
            refine forall_congr' fun j => imp_congr_right fun _ => ?_
            rw [hentry, usageAt_range (hbelow htop) hle, if_neg (hbeyond j), if_neg hmap,
              repeatLast_append_right (by omega) (flatMap_values_ne_nil hnil), hlen,
              Nat.add_sub_cancel_left]
      · intro i hi
        have hentry : (range min max maxFirst).entry = rangeAt min min max := rfl
        rw [repeatLast_append_left (by omega), getElem_range, hentry]
        by_cases htop : max = BitVec.allOnes 32
        · rw [htop, usageAt_top]
        · rw [usageAt_range (hbelow htop) hle, if_pos (by omega)]

variable {st : FieldState} {g : ParserGlobalState} {stack : List ParserGlobalState}
  {inputs : List (HidShortTag × BitVec 32)}

/-- The queue of usages is another. -/
def withUsages (st : FieldState) (queue : List ParserLocalStateField) : FieldState :=
  { st with localState := { st.localState with queue := Function.update st.localState.queue .usage queue } }

@[simp] theorem withUsages_queue (st : FieldState) (queue : List ParserLocalStateField) :
    (withUsages st queue).localState.queue .usage = queue := by
  simp only [withUsages, Function.update_self]

/-- One usage is queued. -/
theorem handleLocalItem_usage (hstack : st.globalStateStack = g :: stack)
    (hdelimiter : st.localState.hasHadDelimiter = false) {input : HidShortTag × BitVec 32}
    {part : HidIndexPart × BitVec 32} (h : usageItem g.usagePage input = some part) :
    st.handleLocalItem input.1 input.2 =
      .ok (true, withUsages st (FieldState.pushLocal part.1 part.2 (st.localState.queue .usage))) := by
  rw [FieldState.handleLocalItem, if_neg (by rw [hdelimiter]; exact Bool.false_ne_true)]
  rw [usageItem] at h
  split at h
  next p htag =>
    obtain rfl := Option.some.inj h
    have htop : st.top = .ok g := by rw [FieldState.top, hstack]
    rw [htag]
    dsimp only
    rw [FieldState.indexData]
    by_cases hlong : input.1.dataLength < 4
    · rw [if_pos ⟨rfl, hlong⟩, if_pos hlong, htop]
      rfl
    · rw [if_neg fun hshort => hlong hshort.2, if_neg hlong]
      rfl
  next => cases h

/-- The usages are queued. -/
theorem handleLocals_usages : ∀ {inputs : List (HidShortTag × BitVec 32)}
    {parts : List (HidIndexPart × BitVec 32)} {st : FieldState},
    st.globalStateStack = g :: stack → st.localState.hasHadDelimiter = false →
    inputs.map (usageItem g.usagePage) = parts.map some →
    ∃ st', st.handleLocals inputs = .ok st' ∧ st'.globalStateStack = g :: stack ∧
      st'.localState.queue .usage =
        parts.foldl (fun queue i => FieldState.pushLocal i.1 i.2 queue) (st.localState.queue .usage)
  | [], [], st, hstack, _, _ => ⟨st, rfl, hstack, rfl⟩
  | [], _ :: _, st, _, _, h => by cases h
  | _ :: _, [], st, _, _, h => by cases h
  | input :: inputs, part :: parts, st, hstack, hdelimiter, h => by
      rw [List.map_cons, List.map_cons, List.cons.injEq] at h
      have hone := handleLocalItem_usage hstack hdelimiter h.1
      obtain ⟨st', hrun, hstack', hqueue⟩ := @handleLocals_usages inputs parts
        (withUsages st (FieldState.pushLocal part.1 part.2 (st.localState.queue .usage))) hstack hdelimiter h.2
      refine ⟨st', ?_, hstack', ?_⟩
      · rw [FieldState.handleLocals, hone]
        exact hrun
      · rw [hqueue, withUsages_queue, List.foldl_cons]

/-- A variable field takes a usage. -/
theorem addField_usage (st : FieldState) (type : HidFieldType) {flags : BitVec 16}
    (hconstant : flags.getLsbD 0 = false) (hvariable : flags.getLsbD 1 = true) :
    ∃ st' field, st.addField g type flags = .ok (st', field) ∧
      field.usage = (getNextFieldIndexVal (st.localState.queue .usage)).1 ∧
      st'.localState.queue .usage = (getNextFieldIndexVal (st.localState.queue .usage)).2 := by
  rw [FieldState.addField, FieldState.takeUsage, hconstant, hvariable]
  refine ⟨_, _, rfl, rfl, ?_⟩
  simp

theorem addFields_usages {type : HidFieldType} {flags : BitVec 16} (hconstant : flags.getLsbD 0 = false)
    (hvariable : flags.getLsbD 1 = true) : ∀ (n : Nat) (st : FieldState),
    ∃ st' fields, st.addFields g type flags n = .ok (st', fields) ∧
      fields.map (·.usage) = (List.range n).map (usageAt (st.localState.queue .usage))
  | 0, st => ⟨st, [], rfl, rfl⟩
  | n + 1, st => by
      obtain ⟨st₁, field, hfield, husage, hqueue⟩ :=
        addField_usage st type hconstant hvariable
      obtain ⟨st₂, fields, hrest, husages⟩ := addFields_usages hconstant hvariable n st₁
      refine ⟨st₂, field :: fields, bind_ok.mpr ⟨_, hfield, bind_ok.mpr ⟨_, hrest, rfl⟩⟩, ?_⟩
      rw [List.map_cons, husages, husage, hqueue, List.range_succ_eq_map, List.map_cons, List.map_map]
      rfl

/-- The state with another report count in force. -/
def withReportCount (st : FieldState) (count : BitVec 32) : FieldState :=
  { st with globalStateStack := st.globalStateStack.modifyHead fun g => { g with reportCount := count } }

/-- The fields of a main item behind the groups, whatever their number, get the usages one after the other;
and each group has an entry of its own in the queue. -/
structure UsagesRight (st : FieldState) (inputs : List (HidShortTag × BitVec 32)) (groups : List UsageGroup)
    (type : HidFieldType) (itemData : BitVec 32) : Prop where
  separate : ∃ st', st.handleLocals inputs = .ok st' ∧ st'.localState.queue .usage = groups.map entry
  usages : ∀ count : BitVec 32, (withReportCount st count).usagesAfter inputs type itemData =
    .ok ((List.range count.toNat).map (repeatLast (groups.flatMap values)))

/-- The fields take the usages of the entries. -/
theorem usagesAfter_separate (hstack : st.globalStateStack = g :: stack)
    (hdelimiter : st.localState.hasHadDelimiter = false) (hfresh : st.localState.queue .usage = [])
    (hinputs : inputs.map (usageItem g.usagePage) = (groups.flatMap items).map some)
    (hsep : Separate false groups) (type : HidFieldType) {itemData : BitVec 32}
    (hconstant : itemData.getLsbD 0 = false) (hvariable : itemData.getLsbD 1 = true) (count : BitVec 32) :
    (withReportCount st count).usagesAfter inputs type itemData =
      .ok ((List.range count.toNat).map (usageAt (groups.map entry))) := by
  have hstack' : (withReportCount st count).globalStateStack = { g with reportCount := count } :: stack := by
    rw [withReportCount, hstack]
    rfl
  obtain ⟨st', hrun, htop, hqueue⟩ :=
    @handleLocals_usages { g with reportCount := count } stack inputs (groups.flatMap items)
      (withReportCount st count) hstack' hdelimiter hinputs
  have hfold : st'.localState.queue .usage = groups.map entry := by
    rw [hqueue, show (withReportCount st count).localState = st.localState from rfl, hfresh,
      List.foldl_flatMap]
    exact foldl_pushGroup_iff.mpr hsep
  obtain ⟨st'', fields, hfields, husages⟩ :=
    @addFields_usages { g with reportCount := count } type (itemData.setWidth 16)
      (by simpa using hconstant) (by simpa using hvariable) count.toNat st'
  have hnew : st'.addNewField type itemData = .ok (st'', fields) := by
    rw [FieldState.addNewField, FieldState.top, htop]
    exact hfields
  refine bind_ok.mpr ⟨st', hrun, bind_ok.mpr ⟨_, hnew, ?_⟩⟩
  rw [← hfold, ← husages]
  rfl

/-- **Usages, exactly.** -/
theorem usages_iff (hstack : st.globalStateStack = g :: stack)
    (hdelimiter : st.localState.hasHadDelimiter = false) (hfresh : st.localState.queue .usage = [])
    (hinputs : inputs.map (usageItem g.usagePage) = (groups.flatMap items).map some)
    (hok : ∀ group ∈ groups, group.Ok) (type : HidFieldType) {itemData : BitVec 32}
    (hconstant : itemData.getLsbD 0 = false) (hvariable : itemData.getLsbD 1 = true) :
    UsagesRight st inputs groups type itemData ↔
      Separate false groups ∧ TopsHarmless groups (2 ^ 32 - 1) := by
  have hqueue : ((groups.flatMap items).foldl (fun queue i => FieldState.pushLocal i.1 i.2 queue) []) =
      groups.foldl pushGroup [] := List.foldl_flatMap
  have hseparate : (∃ st', st.handleLocals inputs = .ok st' ∧
      st'.localState.queue .usage = groups.map entry) ↔ Separate false groups := by
    obtain ⟨st', hrun, -, husages⟩ := handleLocals_usages hstack hdelimiter hinputs
    rw [hfresh, hqueue] at husages
    rw [← foldl_pushGroup_iff, ← husages, hrun]
    exact ⟨fun ⟨_, h, heq⟩ => Except.ok.inj h ▸ heq, fun h => ⟨st', rfl, h⟩⟩
  have husages : Separate false groups → ((∀ count : BitVec 32,
      (withReportCount st count).usagesAfter inputs type itemData =
        .ok ((List.range count.toNat).map (repeatLast (groups.flatMap values)))) ↔
      TopsHarmless groups (2 ^ 32 - 1)) := by
    intro hsep
    rw [← usageAt_eq_iff hok]
    simp only [usagesAfter_separate hstack hdelimiter hfresh hinputs hsep type hconstant hvariable,
      Except.ok.injEq, List.map_inj_left, List.mem_range]
    constructor
    · intro hall i hi
      refine hall (BitVec.ofNat 32 (i + 1)) i ?_
      rw [BitVec.toNat_ofNat]
      omega
    · intro hall count i hi
      have hlt := count.isLt
      exact hall i (by omega)
  constructor
  · rintro ⟨hsep, husage⟩
    exact ⟨hseparate.mp hsep, (husages (hseparate.mp hsep)).mp husage⟩
  · rintro ⟨hsep, htops⟩
    exact ⟨hseparate.mpr hsep, (husages hsep).mpr htops⟩

/-- `USAGE 5`, then `USAGE_MAX 3` and `USAGE_MIN 1`. -/
theorem usages_iff_three : UsagesRight {} [(⟨0x09⟩, 5), (⟨0x29⟩, 3), (⟨0x19⟩, 1)]
    [single 5, range 1 3 true] .input 2 :=
  (usages_iff rfl rfl rfl rfl (by simp [UsageGroup.Ok]) .input (by decide) (by decide)).mpr
    ⟨⟨rfl, rfl, trivial⟩, by simp [TopsHarmless]⟩

/-- Two ranges become one, and behind the top comes 0. -/
theorem usages_not_right :
    ¬ UsagesRight {} [(⟨0x19⟩, 1), (⟨0x29⟩, 3), (⟨0x19⟩, 7), (⟨0x29⟩, 9)]
        [range 1 3 false, range 7 9 false] .input 2 ∧
      ¬ UsagesRight {} [(⟨0x1B⟩, 0xFFFFFFFF), (⟨0x2B⟩, 0xFFFFFFFF)]
        [range 0xFFFFFFFF 0xFFFFFFFF false] .input 2 := by
  constructor
  · intro h
    have hone := congrArg Except.toOption (h.usages 1)
    revert hone
    decide +kernel
  · intro h
    have htwo := congrArg Except.toOption (h.usages 2)
    revert htwo
    decide +kernel

end

end Azalea.Usb
