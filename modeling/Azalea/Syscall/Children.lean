import Azalea.Support.Spans
import Azalea.Syscall.Pointers

/-!
# Syscall — enumerating the children of a branch

`syscall_enum_children` (`syscall/syscall_handles.cpp`) with what it writes: a table of pointers that ends
with a null pointer, and the names behind it.  The children of a branch are the keys of `children` of
`system_tree_simple_branch` or of `canonical_names` of a FAT folder, in the order of `std::string`; both
enumerate them in the same way (`system_tree/system_tree_simple_branch.cpp`, `fs/fat/fat_folder.cpp`).

* `enum_accesses`: the call is that of `Azalea.Syscall.Pointers`, with the data it writes.
* `Branch.enumChildren_eq`: what a branch enumerates.
* `storeChildren_layout`: what the buffer holds afterwards.
* `enum_children_complete`: one call, and the calls of a caller that goes on from the last name.
-/

namespace Azalea.Syscall.Children
open Azalea.Spans

/-! ### The source -/

/-- A branch.  Its names are in the upper half of the address space, each with more than a pointer and a
zero byte beside it. -/
structure Branch where
  names : List Name
  sorted : names.Pairwise (· < ·)
  inKernel : 8 + nameBytes names ≤ 2 ^ 63

/-- The loop of `enum_children`, from the iterator on. -/
def enumLoop (maxCount : BitVec 64) : Nat → List Name → List Name
  | _, [] => []
  | curCount, name :: it =>
      if maxCount = 0 ∨ maxCount.toNat > curCount then name :: enumLoop maxCount (curCount + 1) it else []

/-- `enum_children`; `lower_bound` is the first name that is not less. -/
def Branch.enumChildren (b : Branch) (startFrom : Name) (maxCount : BitVec 64) : ErrCode × List Name :=
  let it := if startFrom ≠ [] then b.names.dropWhile fun n => decide (n < startFrom) else b.names
  (.noError, enumLoop maxCount 0 it)

/-- The second loop of `syscall_enum_children`, from the name `i` on. -/
def storeNames (ptrTable : BitVec 64) : Nat → BitVec 64 → List Name → List (BitVec 64 × List UInt8)
  | _, _, [] => []
  | i, stringCopyPtr, n :: ns =>
      (ptrTable + BitVec.ofNat 64 (8 * i), bytesOf64 stringCopyPtr) ::
        (ptrTable + BitVec.ofNat 64 (8 * (i + 1)), bytesOf64 0) ::
        -- `ptr_table[i]` is the pointer that has just been written
        (stringCopyPtr, n) :: (stringCopyPtr + BitVec.ofNat 64 n.length, [0]) ::
        storeNames ptrTable (i + 1) (stringCopyPtr + BitVec.ofNat 64 (n.length + 1)) ns

/-- What is stored in `buffer`, and what is stored in `*buffer_size`. -/
def storeChildren (buffer : BitVec 64) (storedBufferSize : Nat) (names : List Name) :
    List (BitVec 64 × List UInt8) × Nat :=
  let fits := buffer ≠ 0 ∧ 8 ≤ storedBufferSize
  let count := names.foldl (NameCount.add storedBufferSize) ⟨8, 0, 8, decide fits⟩
  let first : List (BitVec 64 × List UInt8) := if fits then [(buffer, bytesOf64 0)] else []
  let names := names.take count.numToStore
  (first ++ storeNames buffer 0 (buffer + BitVec.ofNat 64 (8 * (count.numToStore + 1))) names,
    count.requiredSize)

/-- How a call ends: the writes to `buffer`, and the value written to `*buffer_size` after them. -/
structure EnumAnswer where
  result : ErrCode
  stored : List (BitVec 64 × List UInt8) := []
  reported : Option (BitVec 64) := none

/-- The arguments of a call, and the memory it finds. -/
structure EnumCall where
  mem : Memory
  startFrom : BitVec 64
  startFromLen : BitVec 64
  maxCount : BitVec 64
  buffer : BitVec 64
  bufferSize : BitVec 64

namespace EnumCall

/-- The pointers that the call refuses. -/
def BadPointers (c : EnumCall) : Prop :=
  (isUmAddress c.startFrom = false ∧ c.startFrom ≠ 0) ∨ (isUmAddress c.buffer = false ∧ c.buffer ≠ 0) ∨
    isUmAddress c.bufferSize = false ∨ c.bufferSize = 0

instance (c : EnumCall) : Decidable c.BadPointers := inferInstanceAs (Decidable (_ ∨ _))

/-- `start_from_s`. -/
def startFromS (c : EnumCall) : Name :=
  if c.startFrom ≠ 0 ∧ c.startFromLen ≠ 0 then stringOf c.mem c.startFrom c.startFromLen.toNat else []

/-- `stored_buffer_size`. -/
def storedBufferSize (c : EnumCall) : Nat := (load64 c.mem c.bufferSize).toNat

/-- `syscall_enum_children`. -/
def run (c : EnumCall) (target : EnumTarget) : EnumAnswer :=
  if c.BadPointers then { result := .invalidParam }
  else
    match target with
    | .notFound => { result := .notFound }
    | .empty => { result := .notFound }
    | .notBranch => { result := .invalidOp }
    | .branch enumChildren =>
        let res := enumChildren c.startFromS c.maxCount
        if res.1 = .noError then
          let s := storeChildren c.buffer c.storedBufferSize res.2
          { result := .noError, stored := s.1, reported := some (BitVec.ofNat 64 s.2) }
        else { result := res.1 }

/-- The memory when the names have been stored. -/
def storedMem (c : EnumCall) (b : Branch) : Memory :=
  storeAll c.mem (c.run (.branch b.enumChildren)).stored

/-- The memory after the call. -/
def after (c : EnumCall) (b : Branch) : Memory :=
  match (c.run (.branch b.enumChildren)).reported with
  | none => c.storedMem b
  | some size => store (c.storedMem b) c.bufferSize (bytesOf64 size)

end EnumCall

/-- The ranges of some writes. -/
def rangesOf (writes : List (BitVec 64 × List UInt8)) : List Range := writes.map fun w => ⟨w.1, w.2.length⟩

theorem rangesOf_storeNames (ptrTable : BitVec 64) (ns : List Name) : ∀ i stringCopyPtr,
    rangesOf (storeNames ptrTable i stringCopyPtr ns)
      = Syscall.storeNames ptrTable i stringCopyPtr ns := by
  induction ns with
  | nil => exact fun _ _ => rfl
  | cons n ns ih =>
    intro i stringCopyPtr
    have hrest := ih (i + 1) (stringCopyPtr + BitVec.ofNat 64 (n.length + 1))
    rw [storeNames, Syscall.storeNames, ← hrest]
    rfl

theorem storeChildren_ranges (buffer : BitVec 64) (size : Nat) (names : List Name) :
    (rangesOf (storeChildren buffer size names).1, (storeChildren buffer size names).2)
      = Syscall.storeChildren buffer size names := by
  refine Prod.ext ?_ rfl
  simp only [storeChildren, Syscall.storeChildren, rangesOf, List.map_append]
  refine congrArg₂ _ ?_ (rangesOf_storeNames buffer _ _ _)
  split <;> rfl

/-- What the call reads through its pointers before it stores anything. -/
def EnumCall.reads (c : EnumCall) : EnumTarget → List Range
  | .branch _ =>
      if c.BadPointers then []
      else
        (if c.startFrom ≠ 0 ∧ c.startFromLen ≠ 0 then [⟨c.startFrom, c.startFromLen.toNat⟩] else [])
          ++ [⟨c.bufferSize, 8⟩]
  | _ => []

/-- The call accesses what it accesses in `Azalea.Syscall.Pointers`. -/
theorem enum_accesses (c : EnumCall) (target : EnumTarget) :
    syscallEnumChildren target c.mem c.startFrom c.startFromLen c.maxCount c.buffer c.bufferSize
      = ((c.run target).result, c.reads target ++ rangesOf (c.run target).stored
        ++ rangesOf ((c.run target).reported.toList.map fun size => (c.bufferSize, bytesOf64 size))) := by
  unfold syscallEnumChildren EnumCall.run
  by_cases hbad : (isUmAddress c.startFrom = false ∧ c.startFrom ≠ 0) ∨
      (isUmAddress c.buffer = false ∧ c.buffer ≠ 0) ∨ isUmAddress c.bufferSize = false ∨ c.bufferSize = 0
  · have hrefused : c.BadPointers := hbad
    rw [if_pos hbad, if_pos hrefused]
    cases target with
    | branch enumChildren => rw [EnumCall.reads, if_pos hrefused]; rfl
    | _ => rfl
  have haccepted : ¬ c.BadPointers := hbad
  rw [if_neg hbad, if_neg haccepted]
  cases target with
  | notFound => rfl
  | empty => rfl
  | notBranch => rfl
  | branch enumChildren =>
    have hstored := congrArg Prod.fst
      (storeChildren_ranges c.buffer c.storedBufferSize (enumChildren c.startFromS c.maxCount).2)
    rw [EnumCall.reads, if_neg haccepted]
    dsimp only at hstored ⊢
    by_cases hres : (enumChildren c.startFromS c.maxCount).1 = .noError
    · have hres' : (enumChildren (if c.startFrom ≠ 0 ∧ c.startFromLen ≠ 0 then
          stringOf c.mem c.startFrom c.startFromLen.toNat else []) c.maxCount).1 = .noError := hres
      rw [if_pos hres, if_pos hres', hstored]
      rfl
    · have hres' : ¬ (enumChildren (if c.startFrom ≠ 0 ∧ c.startFromLen ≠ 0 then
          stringOf c.mem c.startFrom c.startFromLen.toNat else []) c.maxCount).1 = .noError := hres
      have hnone : ∀ r : List Range, r = r ++ rangesOf [] ++ rangesOf [] := fun r => by simp [rangesOf]
      rw [if_neg hres, if_neg hres']
      exact congrArg _ (hnone _)

/-! ### What a branch enumerates -/

/-- At most `maxCount` names, or all of them. -/
def limited (maxCount : BitVec 64) (names : List Name) : List Name :=
  if maxCount = 0 then names else names.take maxCount.toNat

/-- The names that are not less than `start`. -/
def Branch.notLess (b : Branch) (start : Name) : List Name := b.names.filter fun n => decide (¬ n < start)

theorem limited_initial (maxCount : BitVec 64) (names : List Name) : limited maxCount names <+: names := by
  rw [limited]
  split
  · exact List.prefix_refl names
  · exact List.take_prefix _ names

theorem enumLoop_eq (maxCount : BitVec 64) (it : List Name) : ∀ curCount, enumLoop maxCount curCount it
    = if maxCount = 0 then it else it.take (maxCount.toNat - curCount) := by
  induction it with
  | nil => simp [enumLoop]
  | cons name it ih =>
    intro curCount
    rw [enumLoop]
    by_cases hmax : maxCount = 0
    · rw [if_pos (.inl hmax), if_pos hmax, ih, if_pos hmax]
    · by_cases hmore : maxCount.toNat > curCount
      · rw [if_pos (.inr hmore), if_neg hmax, ih, if_neg hmax,
          show maxCount.toNat - curCount = (maxCount.toNat - (curCount + 1)) + 1 by omega,
          List.take_succ_cons]
      · rw [if_neg (not_or.2 ⟨hmax, hmore⟩), if_neg hmax,
          Nat.sub_eq_zero_of_le (Nat.not_lt.1 hmore), List.take_zero]

/-- In a sorted list the names from `lower_bound` on are those that are not less. -/
theorem dropWhile_lt_eq_filter {names : List Name} (h : names.Pairwise (· < ·)) (start : Name) :
    names.dropWhile (fun n => decide (n < start)) = names.filter fun n => decide (¬ n < start) := by
  induction names with
  | nil => rfl
  | cons n names ih =>
    rw [List.pairwise_cons] at h
    by_cases hlt : n < start
    · rw [List.dropWhile_cons_of_pos (by simpa using hlt), List.filter_cons_of_neg (by simpa using hlt),
        ih h.2]
    · rw [List.dropWhile_cons_of_neg (by simpa using hlt), List.filter_cons_of_pos (by simpa using hlt),
        List.filter_eq_self.2]
      intro m hm
      exact decide_eq_true fun hm' => hlt (List.lt_trans (h.1 m hm) hm')

theorem Branch.enumChildren_eq (b : Branch) (startFrom : Name) (maxCount : BitVec 64) :
    b.enumChildren startFrom maxCount = (.noError, limited maxCount (b.notLess startFrom)) := by
  have hit : (if startFrom ≠ [] then b.names.dropWhile fun n => decide (n < startFrom) else b.names)
      = b.notLess startFrom := by
    split
    · exact dropWhile_lt_eq_filter b.sorted startFrom
    · next hempty =>
      rw [not_not.1 hempty, notLess, List.filter_eq_self.2]
      exact fun m _ => decide_eq_true (List.not_lt_nil m)
  rw [enumChildren, hit, enumLoop_eq]
  rfl

theorem Branch.notLess_nil (b : Branch) : b.notLess [] = b.names :=
  List.filter_eq_self.2 fun m _ => decide_eq_true (List.not_lt_nil m)

/-- From one of the names on. -/
theorem Branch.notLess_name (b : Branch) {pre post : List Name} {name : Name}
    (h : b.names = pre ++ name :: post) : b.notLess name = name :: post := by
  have hsorted := b.sorted
  rw [h, List.pairwise_append, List.pairwise_cons] at hsorted
  obtain ⟨-, ⟨hpost, -⟩, hpre⟩ := hsorted
  have hless : pre.filter (fun n => decide (¬ n < name)) = [] := by
    refine List.filter_eq_nil_iff.2 fun m hm => ?_
    simpa using hpre m hm name List.mem_cons_self
  have hmore : (name :: post).filter (fun n => decide (¬ n < name)) = name :: post := by
    refine List.filter_eq_self.2 fun m hm => decide_eq_true fun hlt => ?_
    rcases List.mem_cons.1 hm with rfl | hm
    · exact List.lt_irrefl m hlt
    · exact List.lt_irrefl name (List.lt_trans (hpost m hm) hlt)
  rw [notLess, h, List.filter_append, hless, hmore, List.nil_append]

/-! ### What fits -/

/-- The longest prefix whose names take up no more than `space`, each with a pointer and a zero byte. -/
def fitting : Nat → List Name → List Name
  | _, [] => []
  | space, n :: ns => if n.length + 9 ≤ space then n :: fitting (space - (n.length + 9)) ns else []

theorem fitting_initial (ns : List Name) : ∀ space, fitting space ns <+: ns := by
  induction ns with
  | nil => exact fun _ => List.prefix_refl []
  | cons n ns ih =>
    intro space
    rw [fitting]
    split
    · exact List.cons_prefix_cons.2 ⟨rfl, ih _⟩
    · exact List.nil_prefix

theorem nameBytes_cons (n : Name) (ns : List Name) : nameBytes (n :: ns) = n.length + 9 + nameBytes ns := rfl

theorem nameBytes_sublist {ns ms : List Name} (h : ns.Sublist ms) : nameBytes ns ≤ nameBytes ms := by
  induction h with
  | slnil => exact Nat.le_refl _
  | cons n _ ih =>
    rw [nameBytes_cons]
    omega
  | cons_cons n _ ih =>
    rw [nameBytes_cons, nameBytes_cons]
    omega

theorem nameBytes_fitting (ns : List Name) : ∀ space, nameBytes (fitting space ns) ≤ space := by
  induction ns with
  | nil => exact fun _ => Nat.zero_le _
  | cons n ns ih =>
    intro space
    rw [fitting]
    split
    · have hrest := ih (space - (n.length + 9))
      rw [nameBytes_cons]
      omega
    · exact Nat.zero_le _

/-- No longer prefix fits. -/
theorem fitting_longest (ns : List Name) : ∀ space ms, ms <+: ns → nameBytes ms ≤ space →
    ms <+: fitting space ns := by
  induction ns with
  | nil => exact fun _ _ h _ => h
  | cons n ns ih =>
    intro space ms hms hbytes
    cases ms with
    | nil => exact List.nil_prefix
    | cons m ms =>
      obtain ⟨rfl, hrest⟩ := List.cons_prefix_cons.1 hms
      rw [nameBytes_cons] at hbytes
      rw [fitting, if_pos (by omega)]
      exact List.cons_prefix_cons.2 ⟨rfl, ih _ ms hrest (by omega)⟩

/-- The first loop, once a name has not fitted. -/
theorem foldl_add_full (size : Nat) (ns : List Name) : ∀ used num required,
    ns.foldl (NameCount.add size) ⟨used, num, required, false⟩
      = ⟨used, num, required + nameBytes ns, false⟩ := by
  induction ns with
  | nil => exact fun _ _ _ => rfl
  | cons n ns ih =>
    intro used num required
    have hadd : NameCount.add size ⟨used, num, required, false⟩ n
        = ⟨used, num, required + (n.length + 8 + 1), false⟩ := rfl
    rw [List.foldl_cons, hadd, ih, nameBytes_cons]
    refine congrArg (fun r => (⟨used, num, r, false⟩ : NameCount)) ?_
    omega

/-- The first loop counts the names that fit and adds up what all take. -/
theorem foldl_add_eq (size : Nat) (ns : List Name) : ∀ used num required, used ≤ size →
    (ns.foldl (NameCount.add size) ⟨used, num, required, true⟩).numToStore
        = num + (fitting (size - used) ns).length ∧
      (ns.foldl (NameCount.add size) ⟨used, num, required, true⟩).requiredSize = required + nameBytes ns := by
  induction ns with
  | nil => exact fun _ _ _ _ => ⟨rfl, rfl⟩
  | cons n ns ih =>
    intro used num required hused
    rw [List.foldl_cons, fitting, nameBytes_cons]
    by_cases hfit : n.length + 9 ≤ size - used
    · have hadd : NameCount.add size ⟨used, num, required, true⟩ n
          = ⟨used + (n.length + 8 + 1), num + 1, required + (n.length + 8 + 1), true⟩ := by
        simp only [NameCount.add, Bool.true_and]
        rw [if_pos (decide_eq_true (by omega))]
      obtain ⟨hnum, hrequired⟩ := ih (used + (n.length + 8 + 1)) (num + 1) (required + (n.length + 8 + 1))
        (by omega)
      rw [hadd, hnum, hrequired, if_pos hfit, List.length_cons,
        show size - (used + (n.length + 8 + 1)) = size - used - (n.length + 9) by omega]
      omega
    · have hadd : NameCount.add size ⟨used, num, required, true⟩ n
          = ⟨used, num, required + (n.length + 8 + 1), false⟩ := by
        simp only [NameCount.add, Bool.true_and]
        rw [if_neg (by simp; omega)]
      rw [hadd, foldl_add_full, if_neg hfit]
      refine ⟨rfl, ?_⟩
      dsimp only
      omega

/-! ### The table and the names behind it -/

theorem length_bytesOf64 (v : BitVec 64) : (bytesOf64 v).length = 8 := by simp [bytesOf64]

theorem sum_bytes (v k : Nat) :
    ((List.range k).map fun i => v / 256 ^ i % 256 * 256 ^ i).sum = v % 256 ^ k := by
  induction k with
  | zero => simp [Nat.mod_one]
  | succ k ih =>
    rw [List.range_succ, List.map_append, List.sum_append, ih, Nat.mod_pow_succ, List.map_singleton,
      List.sum_singleton, Nat.mul_comm]

theorem load64_of_load {mem : Memory} {p v : BitVec 64} (h : load mem p 8 = bytesOf64 v) :
    load64 mem p = v := by
  have hbytes : ∀ i ∈ List.range 8, mem (p + BitVec.ofNat 64 i) = UInt8.ofNat (v.toNat / 256 ^ i) :=
    List.map_inj_left.1 h
  have hsum : ((List.range 8).map fun i => (mem (p + BitVec.ofNat 64 i)).toNat * 256 ^ i).sum
      = v.toNat % 256 ^ 8 := by
    rw [← sum_bytes]
    refine congrArg List.sum (List.map_congr_left fun i hi => ?_)
    rw [hbytes i hi, UInt8.toNat_ofNat']
  have hword : v.toNat % 256 ^ 8 = v.toNat := Nat.mod_eq_of_lt v.isLt
  rw [load64, hsum, hword, BitVec.ofNat_toNat, BitVec.setWidth_eq]

/-- The bytes of names, each with its zero byte. -/
def text (ns : List Name) : List UInt8 := ns.flatMap (· ++ [0])

/-- The entries of the table for names that start at the offset `q`. -/
def pointers (buffer : BitVec 64) : Nat → List Name → List UInt8
  | _, [] => []
  | q, n :: ns => bytesOf64 (buffer + BitVec.ofNat 64 q) ++ pointers buffer (q + (n.length + 1)) ns

theorem text_cons (n : Name) (ns : List Name) : text (n :: ns) = n ++ [0] ++ text ns := rfl

theorem length_text_cons (n : Name) (ns : List Name) :
    (text (n :: ns)).length = n.length + 1 + (text ns).length := by
  rw [text_cons, List.length_append, List.length_append, List.length_singleton]

theorem nameBytes_eq_text (ns : List Name) : nameBytes ns = 8 * ns.length + (text ns).length := by
  induction ns with
  | nil => rfl
  | cons n ns ih =>
    rw [nameBytes_cons, length_text_cons, List.length_cons]
    omega

/-- What the second loop leaves in the memory `mem'`, from the entry `i` and the offset `q` on. -/
structure Laid (buffer : BitVec 64) (mem mem' : Memory) (i q : Nat) (ns : List Name) : Prop where
  table : load mem' (buffer + BitVec.ofNat 64 (8 * i)) (8 * (ns.length + 1))
    = pointers buffer q ns ++ bytesOf64 0
  names : load mem' (buffer + BitVec.ofNat 64 q) (text ns).length = text ns
  frame : ∀ o n, o + n ≤ 2 ^ 64 →
    (o + n ≤ 8 * i ∨ (8 * (i + ns.length + 1) ≤ o ∧ o + n ≤ q) ∨ q + (text ns).length ≤ o) →
      load mem' (buffer + BitVec.ofNat 64 o) n = load mem (buffer + BitVec.ofNat 64 o) n

section Layout

variable {buffer : BitVec 64} {mem : Memory} {i q : Nat} {n : Name}

/-- The four writes of one turn of the second loop. -/
def storeName (buffer : BitVec 64) (mem : Memory) (i q : Nat) (n : Name) : Memory :=
  storeAll mem [(buffer + BitVec.ofNat 64 (8 * i), bytesOf64 (buffer + BitVec.ofNat 64 q)),
    (buffer + BitVec.ofNat 64 (8 * (i + 1)), bytesOf64 0), (buffer + BitVec.ofNat 64 q, n),
    (buffer + BitVec.ofNat 64 (q + n.length), [0])]

theorem storeName_frame (hq : 8 * (i + 2) ≤ q) (hend : q + n.length + 1 ≤ 2 ^ 64) {o k : Nat}
    (hk : o + k ≤ 2 ^ 64)
    (hapart : o + k ≤ 8 * i ∨ (8 * (i + 2) ≤ o ∧ o + k ≤ q) ∨ q + n.length + 1 ≤ o) :
    load (storeName buffer mem i q n) (buffer + BitVec.ofNat 64 o) k
      = load mem (buffer + BitVec.ofNat 64 o) k := by
  have hlen := length_bytesOf64
  simp only [storeName, storeAll_cons, storeAll_nil]
  rw [load_store_apart (by rw [List.length_singleton]; omega) hk (by rw [List.length_singleton]; omega),
    load_store_apart (by omega) hk (by omega),
    load_store_apart (by rw [hlen]; omega) hk (by rw [hlen]; omega),
    load_store_apart (by rw [hlen]; omega) hk (by rw [hlen]; omega)]

theorem storeName_entry (hq : 8 * (i + 2) ≤ q) (hend : q + n.length + 1 ≤ 2 ^ 64) :
    load (storeName buffer mem i q n) (buffer + BitVec.ofNat 64 (8 * i)) 8
      = bytesOf64 (buffer + BitVec.ofNat 64 q) := by
  have hlen := length_bytesOf64
  simp only [storeName, storeAll_cons, storeAll_nil]
  rw [load_store_apart (by rw [List.length_singleton]; omega) (by omega) (by omega),
    load_store_apart (by omega) (by omega) (by omega),
    load_store_apart (by rw [hlen]; omega) (by omega) (by omega)]
  have hsame := @load_store_same 64 UInt8 mem buffer (bytesOf64 (buffer + BitVec.ofNat 64 q)) (8 * i)
    (by rw [hlen]; omega)
  rwa [hlen] at hsame

theorem storeName_end (hq : 8 * (i + 2) ≤ q) (hend : q + n.length + 1 ≤ 2 ^ 64) :
    load (storeName buffer mem i q n) (buffer + BitVec.ofNat 64 (8 * (i + 1))) 8 = bytesOf64 0 := by
  have hlen := length_bytesOf64
  simp only [storeName, storeAll_cons, storeAll_nil]
  rw [load_store_apart (by rw [List.length_singleton]; omega) (by omega) (by omega),
    load_store_apart (by omega) (by omega) (by omega)]
  have hsame := @load_store_same 64 UInt8
    (store mem (buffer + BitVec.ofNat 64 (8 * i)) (bytesOf64 (buffer + BitVec.ofNat 64 q))) buffer
    (bytesOf64 0) (8 * (i + 1)) (by rw [hlen]; omega)
  rwa [hlen] at hsame

theorem storeName_name (hend : q + n.length + 1 ≤ 2 ^ 64) :
    load (storeName buffer mem i q n) (buffer + BitVec.ofNat 64 q) (n.length + 1) = n ++ [0] := by
  simp only [storeName, storeAll_cons, storeAll_nil]
  rw [load_offset_add]
  refine congrArg₂ _ ?_ ?_
  · rw [load_store_apart (by rw [List.length_singleton]; omega) (by omega) (by omega)]
    exact load_store_same (by omega)
  · exact load_store_same (by rw [List.length_singleton]; omega)

theorem storeNames_cons (ns : List Name) :
    storeAll mem (storeNames buffer i (buffer + BitVec.ofNat 64 q) (n :: ns))
      = storeAll (storeName buffer mem i q n)
          (storeNames buffer (i + 1) (buffer + BitVec.ofNat 64 (q + (n.length + 1))) ns) := by
  have hshift : ∀ k, buffer + BitVec.ofNat 64 q + BitVec.ofNat 64 k = buffer + BitVec.ofNat 64 (q + k) :=
    fun k => by rw [BitVec.add_assoc, ← BitVec.ofNat_add]
  rw [storeNames, hshift, hshift]
  rfl

theorem storeNames_laid (ns : List Name) : ∀ (mem : Memory) (i q : Nat), 8 * (i + ns.length + 1) ≤ q →
    q + (text ns).length ≤ 2 ^ 64 → load mem (buffer + BitVec.ofNat 64 (8 * i)) 8 = bytesOf64 0 →
    Laid buffer mem (storeAll mem (storeNames buffer i (buffer + BitVec.ofNat 64 q) ns)) i q ns := by
  induction ns with
  | nil => exact fun mem i q _ _ hzero => ⟨hzero, rfl, fun _ _ _ _ => rfl⟩
  | cons n ns ih =>
    intro mem i q hq hend hzero
    rw [List.length_cons] at hq
    rw [length_text_cons] at hend
    rw [storeNames_cons]
    obtain ⟨htable, hnames, hframe⟩ := ih (storeName buffer mem i q n) (i + 1) (q + (n.length + 1))
      (by omega) (by omega) (storeName_end (by omega) (by omega))
    generalize storeAll (storeName buffer mem i q n)
      (storeNames buffer (i + 1) (buffer + BitVec.ofNat 64 (q + (n.length + 1))) ns) = mem'
      at htable hnames hframe ⊢
    refine ⟨?_, ?_, ?_⟩
    · rw [List.length_cons, show 8 * (ns.length + 1 + 1) = 8 + 8 * (ns.length + 1) by omega,
        load_offset_add, show 8 * i + 8 = 8 * (i + 1) by omega, htable, pointers, List.append_assoc,
        hframe (8 * i) 8 (by omega) (by omega), storeName_entry (by omega) (by omega)]
    · rw [length_text_cons, load_offset_add, hnames, text_cons,
        hframe q (n.length + 1) (by omega) (by omega), storeName_name (by omega)]
    · intro o k hk hapart
      rw [List.length_cons, length_text_cons] at hapart
      rw [hframe o k hk (by omega), storeName_frame (by omega) (by omega) hk (by omega)]

end Layout

/-! ### One call -/

/-- `kept` is the longest part of `names`, from the first on, that fits in `size` bytes. -/
structure Longest (size : Nat) (names kept : List Name) : Prop where
  initial : kept <+: names
  fits : 8 + nameBytes kept ≤ size
  longest : ∀ ms, ms <+: names → 8 + nameBytes ms ≤ size → ms <+: kept

theorem longest_fitting {size : Nat} (h : 8 ≤ size) (names : List Name) :
    Longest size names (fitting (size - 8) names) := by
  refine ⟨fitting_initial names _, ?_, fun ms hms hbytes => fitting_longest names _ ms hms (by omega)⟩
  have hbytes := nameBytes_fitting names (size - 8)
  omega

/-- The buffer starts with the table for `kept`, its null pointer, and the names one behind the other. -/
def Filled (buffer : BitVec 64) (mem : Memory) (kept : List Name) : Prop :=
  load mem buffer (8 + nameBytes kept)
    = pointers buffer (8 * (kept.length + 1)) kept ++ bytesOf64 0 ++ text kept

theorem storeChildren_eq (buffer : BitVec 64) (size : Nat) (names : List Name) :
    storeChildren buffer size names
      = if buffer ≠ 0 ∧ 8 ≤ size then
          ((buffer, bytesOf64 0) :: storeNames buffer 0
            (buffer + BitVec.ofNat 64 (8 * ((fitting (size - 8) names).length + 1)))
            (fitting (size - 8) names), 8 + nameBytes names)
        else ([], 8 + nameBytes names) := by
  rw [storeChildren]
  by_cases hfits : buffer ≠ 0 ∧ 8 ≤ size
  · obtain ⟨hnum, hrequired⟩ := foldl_add_eq size names 8 0 8 hfits.2
    simp only [if_pos hfits, decide_eq_true hfits, hnum, hrequired, Nat.zero_add]
    rw [← List.prefix_iff_eq_take.1 (fitting_initial names (size - 8))]
    rfl
  · simp only [if_neg hfits, decide_eq_false hfits, foldl_add_full, List.take_zero, storeNames,
      List.append_nil]

/-- The second loop writes to the table and behind it. -/
theorem storeNames_inside (buffer : BitVec 64) (total : Nat) (ns : List Name) : ∀ i q,
    8 * (i + ns.length + 1) ≤ total → q + (text ns).length ≤ total →
    ∀ s ∈ storeNames buffer i (buffer + BitVec.ofNat 64 q) ns,
      ∃ o, s.1 = buffer + BitVec.ofNat 64 o ∧ o + s.2.length ≤ total := by
  induction ns with
  | nil => exact fun _ _ _ _ _ hs => absurd hs (List.not_mem_nil)
  | cons n ns ih =>
    intro i q htable hnames s hs
    rw [List.length_cons] at htable
    rw [length_text_cons] at hnames
    have hshift : ∀ k, buffer + BitVec.ofNat 64 q + BitVec.ofNat 64 k = buffer + BitVec.ofNat 64 (q + k) :=
      fun k => by rw [BitVec.add_assoc, ← BitVec.ofNat_add]
    have hlen := length_bytesOf64
    simp only [storeNames, List.mem_cons, hshift] at hs
    rcases hs with rfl | rfl | rfl | rfl | hs
    · exact ⟨8 * i, rfl, by rw [hlen]; omega⟩
    · exact ⟨8 * (i + 1), rfl, by rw [hlen]; omega⟩
    · exact ⟨q, rfl, by dsimp only; omega⟩
    · exact ⟨q + n.length, rfl, by rw [List.length_singleton]; omega⟩
    · exact ih (i + 1) (q + (n.length + 1)) (by omega) (by omega) s hs

/-- What the buffer holds once the names have been stored. -/
theorem storeChildren_layout {buffer : BitVec 64} {size : Nat} (mem : Memory) (names : List Name)
    (hbuffer : buffer ≠ 0) (hsize : 8 ≤ size) (hbytes : 8 + nameBytes names ≤ 2 ^ 64) :
    Filled buffer (storeAll mem (storeChildren buffer size names).1) (fitting (size - 8) names) := by
  rw [storeChildren_eq, if_pos ⟨hbuffer, hsize⟩, storeAll_cons]
  have hkept := nameBytes_sublist (fitting_initial names (size - 8)).sublist
  generalize fitting (size - 8) names = kept at hkept ⊢
  have htext := nameBytes_eq_text kept
  have hbase : buffer + BitVec.ofNat 64 (8 * 0) = buffer := BitVec.add_zero buffer
  have hzero : load (store mem buffer (bytesOf64 0)) (buffer + BitVec.ofNat 64 (8 * 0)) 8 = bytesOf64 0 := by
    have hsame := @load_store_same 64 UInt8 mem buffer (bytesOf64 0) (8 * 0) (by rw [length_bytesOf64]; omega)
    rw [length_bytesOf64, hbase] at hsame
    rw [hbase, hsame]
  have hlaid := storeNames_laid kept (store mem buffer (bytesOf64 0)) 0 (8 * (kept.length + 1)) (by omega)
    (by omega) hzero
  have htable := hlaid.table
  rw [hbase] at htable
  dsimp only
  rw [Filled, show 8 + nameBytes kept = 8 * (kept.length + 1) + (text kept).length by omega, load_add,
    htable, hlaid.names]

/-- The names a call is about. -/
def EnumCall.wanted (c : EnumCall) (b : Branch) : List Name :=
  limited c.maxCount (b.notLess c.startFromS)

/-- A call ends well, with the longest part of the names that fits in the buffer, and the size that all of
them take. -/
structure EnumCall.Answers (c : EnumCall) (b : Branch) : Prop where
  result : (c.run (.branch b.enumChildren)).result = .noError
  fills : c.buffer ≠ 0 → 8 ≤ c.storedBufferSize →
    ∃ kept, Longest c.storedBufferSize (c.wanted b) kept ∧ Filled c.buffer (c.storedMem b) kept
  inside : ∀ s ∈ (c.run (.branch b.enumChildren)).stored,
    ∃ o, s.1 = c.buffer + BitVec.ofNat 64 o ∧ o + s.2.length ≤ c.storedBufferSize
  bare : c.buffer = 0 ∨ c.storedBufferSize < 8 → (c.run (.branch b.enumChildren)).stored = []
  reports : ∃ size, (c.run (.branch b.enumChildren)).reported = some size ∧
    ∀ n, size.toNat ≤ n → Longest n (c.wanted b) (c.wanted b)

section Calls

variable {b : Branch} {c : EnumCall}

theorem run_branch (h : ¬ c.BadPointers) :
    c.run (.branch b.enumChildren)
      = { result := .noError
          stored := (storeChildren c.buffer c.storedBufferSize (c.wanted b)).1
          reported := some (BitVec.ofNat 64 (8 + nameBytes (c.wanted b))) } := by
  have hreported : (storeChildren c.buffer c.storedBufferSize (c.wanted b)).2 = 8 + nameBytes (c.wanted b) := by
    rw [storeChildren_eq]
    split <;> rfl
  rw [EnumCall.run, if_neg h, ← hreported]
  dsimp only
  rw [b.enumChildren_eq, if_pos rfl]
  rfl

theorem wanted_bytes (b : Branch) (c : EnumCall) : 8 + nameBytes (c.wanted b) ≤ 2 ^ 63 := by
  have hsublist : (c.wanted b).Sublist b.names :=
    (limited_initial _ _).sublist.trans List.filter_sublist
  have hbytes := nameBytes_sublist hsublist
  have hall := b.inKernel
  omega

theorem answers (h : ¬ c.BadPointers) : c.Answers b := by
  have hrun : c.run (.branch b.enumChildren) = _ := run_branch h
  have hbytes := wanted_bytes b c
  refine ⟨by rw [hrun], fun hbuffer hsize => ?_, ?_, fun hnone => ?_, ?_⟩
  · refine ⟨fitting (c.storedBufferSize - 8) (c.wanted b), longest_fitting hsize _, ?_⟩
    rw [EnumCall.storedMem, hrun]
    exact storeChildren_layout c.mem _ hbuffer hsize (by omega)
  · rw [hrun, storeChildren_eq]
    intro s hs
    split at hs
    · next hfits =>
      have hkept := nameBytes_fitting (c.wanted b) (c.storedBufferSize - 8)
      have htext := nameBytes_eq_text (fitting (c.storedBufferSize - 8) (c.wanted b))
      rcases List.mem_cons.1 hs with rfl | hs
      · refine ⟨0, ?_, by rw [length_bytesOf64]; omega⟩
        rw [BitVec.ofNat_eq_ofNat, BitVec.add_zero]
      · exact storeNames_inside c.buffer c.storedBufferSize _ 0 _ (by omega) (by omega) s hs
    · exact absurd hs List.not_mem_nil
  · have hsmall : ¬ (c.buffer ≠ 0 ∧ 8 ≤ c.storedBufferSize) := by
      rintro ⟨hbuffer, hsize⟩
      rcases hnone with hzero | hlt
      · exact hbuffer hzero
      · omega
    rw [hrun, storeChildren_eq, if_neg hsmall]
  · refine ⟨_, by rw [hrun], fun n hn => ?_⟩
    rw [BitVec.toNat_ofNat, Nat.mod_eq_of_lt (by omega)] at hn
    exact ⟨List.prefix_refl _, hn, fun ms hms _ => hms⟩

end Calls

/-! ### A caller -/

/-- The names that the table at `table` points to, up to its null pointer, as strings up to their zero
byte. -/
def namesIn (mem : Memory) : Nat → BitVec 64 → List Name
  | 0, _ => []
  | fuel + 1, table =>
      if load64 mem table = 0 then []
      else cString mem (load64 mem table) :: namesIn mem fuel (table + 8)

theorem cStringFrom_of_load {mem : Memory} (n : Name) : ∀ fuel (p : BitVec 64),
    load mem p (n.length + 1) = n ++ [0] → 0 ∉ n → n.length < fuel → cStringFrom mem fuel p = n := by
  induction n with
  | nil =>
    intro fuel p hload _ hfuel
    obtain ⟨fuel, rfl⟩ := Nat.exists_eq_succ_of_ne_zero (Nat.ne_of_gt hfuel)
    rw [load_succ] at hload
    rw [cStringFrom, if_pos (List.cons.inj hload).1]
  | cons byte n ih =>
    intro fuel p hload hfree hfuel
    obtain ⟨fuel, rfl⟩ := Nat.exists_eq_succ_of_ne_zero (Nat.ne_of_gt (Nat.zero_lt_of_lt hfuel))
    rw [List.length_cons, load_succ, List.cons_append] at hload
    obtain ⟨hbyte, hrest⟩ := List.cons.inj hload
    rw [List.mem_cons, not_or] at hfree
    rw [cStringFrom, hbyte, if_neg (Ne.symm hfree.1),
      ih fuel (p + 1) hrest hfree.2 (Nat.lt_of_succ_lt_succ hfuel)]

/-- A caller finds the names that the layout is made of. -/
theorem namesIn_laid {mem : Memory} {buffer : BitVec 64} (hbuffer : 0 < buffer.toNat) (ns : List Name) :
    ∀ fuel i q, load mem (buffer + BitVec.ofNat 64 (8 * i)) (8 * (ns.length + 1))
        = pointers buffer q ns ++ bytesOf64 0 →
      load mem (buffer + BitVec.ofNat 64 q) (text ns).length = text ns → (∀ n ∈ ns, 0 ∉ n) →
      buffer.toNat + q + (text ns).length < 2 ^ 64 → ns.length < fuel →
      namesIn mem fuel (buffer + BitVec.ofNat 64 (8 * i)) = ns := by
  have hlen := length_bytesOf64
  induction ns with
  | nil =>
    intro fuel i q htable _ _ _ hfuel
    obtain ⟨fuel, rfl⟩ := Nat.exists_eq_succ_of_ne_zero (Nat.ne_of_gt hfuel)
    rw [namesIn, if_pos (load64_of_load htable)]
  | cons n ns ih =>
    intro fuel i q htable hnames hfree hend hfuel
    obtain ⟨fuel, rfl⟩ := Nat.exists_eq_succ_of_ne_zero (Nat.ne_of_gt (Nat.zero_lt_of_lt hfuel))
    rw [List.forall_mem_cons] at hfree
    rw [length_text_cons] at hend
    rw [List.length_cons, show 8 * (ns.length + 1 + 1) = 8 + 8 * (ns.length + 1) by omega, load_offset_add,
      pointers, List.append_assoc] at htable
    obtain ⟨hfirst, htable⟩ := List.append_inj htable (by rw [length_load, hlen])
    rw [length_text_cons, load_offset_add, text_cons] at hnames
    obtain ⟨hname, hnames⟩ := List.append_inj hnames (by simp)
    have hpointer := load64_of_load hfirst
    have hnonzero : buffer + BitVec.ofNat 64 q ≠ 0 := by
      intro hzero
      have hnat := congrArg BitVec.toNat hzero
      rw [BitVec.toNat_add, BitVec.toNat_ofNat, Nat.mod_eq_of_lt (show q < 2 ^ 64 by omega),
        Nat.mod_eq_of_lt (by omega)] at hnat
      exact absurd hnat (by simp; omega)
    have hstring : cString mem (buffer + BitVec.ofNat 64 q) = n :=
      cStringFrom_of_load n _ _ hname hfree.1 (by omega)
    have hnext : buffer + BitVec.ofNat 64 (8 * i) + 8 = buffer + BitVec.ofNat 64 (8 * (i + 1)) := by
      rw [Nat.mul_succ, BitVec.ofNat_add, BitVec.add_assoc]
      rfl
    rw [namesIn, hpointer, if_neg hnonzero, hstring, hnext]
    rw [show 8 * i + 8 = 8 * (i + 1) by omega] at htable
    rw [ih fuel (i + 1) (q + (n.length + 1)) htable hnames hfree.2 (by omega)
      (Nat.lt_of_succ_lt_succ hfuel)]

namespace EnumCall

/-- A call with a buffer for a table, and with the size kept outside of the buffer. -/
structure Proper (c : EnumCall) : Prop where
  accepted : ¬ c.BadPointers
  buffer : c.buffer ≠ 0
  size : 8 ≤ c.storedBufferSize
  apart : ∀ i < 8, ∀ j < c.storedBufferSize,
    c.buffer + BitVec.ofNat 64 j ≠ c.bufferSize + BitVec.ofNat 64 i

/-- The names that the caller finds after the call.  A table has fewer entries than the buffer has bytes. -/
def received (c : EnumCall) (b : Branch) : List Name := namesIn (c.after b) c.storedBufferSize c.buffer

end EnumCall

/-- A caller receives what the call stores, if no name has a zero byte. -/
theorem received_eq {b : Branch} {c : EnumCall} (h : c.Proper) (hfree : ∀ n ∈ b.names, 0 ∉ n) :
    Longest c.storedBufferSize (c.wanted b) (c.received b) := by
  obtain ⟨kept, hlongest, hfilled⟩ := (answers (b := b) h.accepted).fills h.buffer h.size
  have hkept : nameBytes kept ≤ nameBytes (c.wanted b) := nameBytes_sublist hlongest.initial.sublist
  have hbytes := wanted_bytes b c
  have htext := nameBytes_eq_text kept
  have hum : c.buffer.toNat < 2 ^ 63 := by
    by_contra hnot
    refine h.accepted (.inr (.inl ⟨?_, h.buffer⟩))
    exact isUmAddress_eq_false.2 (Nat.not_lt.1 hnot)
  have hpos : 0 < c.buffer.toNat := by
    refine Nat.pos_of_ne_zero fun hzero => h.buffer ?_
    exact BitVec.eq_of_toNat_eq hzero
  -- The size is written elsewhere.
  have hafter : load (c.after b) c.buffer (8 + nameBytes kept)
      = load (c.storedMem b) c.buffer (8 + nameBytes kept) := by
    refine load_congr fun j hj => ?_
    have hfits := hlongest.fits
    rw [EnumCall.after, run_branch h.accepted]
    refine store_of_forall_ne fun i hi => h.apart i ?_ j (by omega)
    rwa [length_bytesOf64] at hi
  rw [Filled, ← hafter, show 8 + nameBytes kept = 8 * (kept.length + 1) + (text kept).length by omega,
    load_add] at hfilled
  have hpointers : ∀ (ns : List Name) q, (pointers c.buffer q ns).length = 8 * ns.length := by
    intro ns
    induction ns with
    | nil => exact fun _ => rfl
    | cons n ns ih =>
      intro q
      rw [pointers, List.length_append, length_bytesOf64, ih, List.length_cons]
      omega
  obtain ⟨htable, hnames⟩ := List.append_inj hfilled
    (by rw [length_load, List.length_append, hpointers, length_bytesOf64]; omega)
  have hmem : ∀ n ∈ kept, n ∈ b.names := fun n hn =>
    (List.mem_filter.1 ((limited_initial _ _).subset (hlongest.initial.subset hn))).1
  have hbase : c.buffer + BitVec.ofNat 64 (8 * 0) = c.buffer := BitVec.add_zero c.buffer
  have hfuel : kept.length < c.storedBufferSize := by
    have hfits := hlongest.fits
    omega
  have hread := namesIn_laid hpos kept c.storedBufferSize 0 (8 * (kept.length + 1)) (by rwa [hbase]) hnames
    (fun n hn => hfree n (hmem n hn)) (by omega) hfuel
  rw [hbase] at hread
  rwa [EnumCall.received, hread]

/-- A caller that goes on from the last name it has received, with any buffer and any `max_count`, as long
as each call gives it two names, or all there are. -/
def PagesFrom (b : Branch) : Name → List EnumCall → Prop
  | _, [] => True
  | start, c :: cs =>
      c.Proper ∧ c.startFromS = start ∧ (2 ≤ (c.received b).length ∨ c.received b = b.notLess start) ∧
        (c.received b = [] → cs = []) ∧ ∀ last ∈ (c.received b).getLast?, PagesFrom b last cs

/-- What the calls after the first add: each starts with a name that is known. -/
def added (b : Branch) (cs : List EnumCall) : List Name := cs.flatMap fun c => (c.received b).tail

/-- What a caller has received. -/
def collected (b : Branch) : List EnumCall → List Name
  | [] => []
  | c :: cs => c.received b ++ added b cs

/-- A caller has received names of the branch in order, each once: more names than it has made calls, or
all of them, and all of them once a call has given it the rest. -/
structure Collects (b : Branch) (calls : List EnumCall) : Prop where
  inOrder : collected b calls <+: b.names
  progress : calls.length < (collected b calls).length ∨ collected b calls = b.names
  complete : ∀ c ∈ calls.getLast?, c.received b = b.notLess c.startFromS → collected b calls = b.names

section Pages

variable {b : Branch}

theorem added_cons (b : Branch) (c : EnumCall) (cs : List EnumCall) :
    added b (c :: cs) = (c.received b).tail ++ added b cs := rfl

/-- What a caller receives is the beginning of what is not less than where it starts. -/
theorem received_initial {c : EnumCall} (h : c.Proper) (hfree : ∀ n ∈ b.names, 0 ∉ n) :
    c.received b <+: b.notLess c.startFromS :=
  (received_eq h hfree).initial.trans (limited_initial _ _)

/-- The calls that follow one that ended with the name `s`. -/
theorem pages_from (hfree : ∀ n ∈ b.names, 0 ∉ n) (cs : List EnumCall) : ∀ pre s post,
    b.names = pre ++ s :: post → PagesFrom b s cs →
      added b cs <+: post ∧ (cs.length ≤ (added b cs).length ∨ added b cs = post) ∧
        ∀ c ∈ cs.getLast?, c.received b = b.notLess c.startFromS → added b cs = post := by
  induction cs with
  | nil =>
    intro pre s post _ _
    exact ⟨ List.nil_prefix, .inl (Nat.le_refl _), fun c hc => absurd hc (by simp)⟩
  | cons c cs ih =>
    intro pre s post hnames hpages
    obtain ⟨hproper, hstart, hmany, -, hnext⟩ := hpages
    have hrest : b.notLess s = s :: post := b.notLess_name hnames
    have hreceived := received_initial hproper hfree
    rw [hstart, hrest] at hreceived
    rw [hrest] at hmany
    -- The call gives `s` again, and `t` after it.
    obtain ⟨t, hst⟩ : ∃ t, c.received b = s :: t := by
      cases hr : c.received b with
      | nil => rw [hr] at hmany; simp at hmany
      | cons s' t =>
        rw [hr] at hreceived
        exact ⟨t, by rw [(List.cons_prefix_cons.1 hreceived).1]⟩
    rw [hst] at hreceived hmany hnext
    obtain ⟨post', rfl⟩ := (List.cons_prefix_cons.1 hreceived).2
    rw [added_cons, hst, List.tail_cons]
    have hlast : ∀ c' ∈ (c :: cs).getLast?, c'.received b = b.notLess c'.startFromS →
        (cs = [] ∧ post' = []) ∨ ∃ c'' ∈ cs.getLast?, c''.received b = b.notLess c''.startFromS := by
      intro c' hc' hall
      cases cs with
      | nil =>
        obtain rfl : c = c' := by simpa using hc'
        rw [hst, hstart, hrest] at hall
        exact .inl ⟨rfl, by simpa using hall⟩
      | cons d ds => exact .inr ⟨c', by simpa using hc', hall⟩
    rcases List.eq_nil_or_concat t with rfl | ⟨t', last, rfl⟩
    · -- Only `s` is left.
      obtain rfl : post' = [] := by simpa using hmany
      obtain ⟨hadded, -, -⟩ := ih pre s [] (by simpa using hnames) (hnext s (by simp))
      have hnone : added b cs = [] := List.prefix_nil.1 hadded
      simp [hnone]
    · rw [List.concat_eq_append] at hnames hnext ⊢
      obtain ⟨hadded, hcount, hcomplete⟩ := ih (pre ++ s :: t') last post' (by simp [hnames])
        (hnext last (by rw [← List.cons_append, List.getLast?_concat]; rfl))
      refine ⟨(List.prefix_append_right_inj _).2 hadded, ?_, fun c' hc' hall => ?_⟩
      · rcases hcount with hcount | hcount
        · left
          simp only [List.length_cons, List.length_append, List.length_nil]
          omega
        · exact .inr (by rw [hcount])
      · rcases hlast c' hc' hall with ⟨rfl, rfl⟩ | ⟨c'', hc'', hall'⟩
        · simp [added]
        · rw [hcomplete c'' hc'' hall']

theorem pages_collect (hfree : ∀ n ∈ b.names, 0 ∉ n) (c : EnumCall) (cs : List EnumCall)
    (hpages : PagesFrom b [] (c :: cs)) : Collects b (c :: cs) := by
  obtain ⟨hproper, hstart, hmany, hnone, hnext⟩ := hpages
  have hreceived := received_initial hproper hfree
  rw [hstart, b.notLess_nil] at hreceived
  rw [b.notLess_nil] at hmany
  rcases List.eq_nil_or_concat (c.received b) with hempty | ⟨t, last, hst⟩
  · -- No names at all.
    have hcs : cs = [] := hnone hempty
    rw [hempty] at hmany
    have hnames : b.names = [] := by simpa using hmany.symm
    have hcollected : collected b (c :: cs) = b.names := by
      rw [collected, hempty, hnames, hcs]
      rfl
    exact ⟨hcollected ▸ List.prefix_refl _, .inr hcollected, fun _ _ _ => hcollected⟩
  · rw [List.concat_eq_append] at hst
    rw [hst] at hreceived hmany hnext
    obtain ⟨post, hpost⟩ := hreceived
    obtain ⟨hadded, hcount, hcomplete⟩ := pages_from hfree cs t last post (by simp [← hpost])
      (hnext last (by rw [List.getLast?_concat]; rfl))
    have hcollected : collected b (c :: cs) = t ++ [last] ++ added b cs := by rw [collected, hst]
    refine ⟨?_, ?_, fun c' hc' hall => ?_⟩
    · rw [hcollected, ← hpost]
      exact (List.prefix_append_right_inj _).2 hadded
    · rcases hcount with hcount | hcount
      · rcases hmany with hmany | hmany
        · left
          rw [hcollected]
          simp only [List.length_cons, List.length_append, List.length_nil] at hmany ⊢
          omega
        · right
          obtain rfl : post = [] := by simpa [← hpost] using hmany
          rw [hcollected, List.prefix_nil.1 hadded, ← hpost]
      · exact .inr (by rw [hcollected, hcount, hpost])
    · cases cs with
      | nil =>
        obtain rfl : c = c' := by simpa using hc'
        rw [hstart, b.notLess_nil, hst] at hall
        rw [hcollected, hall]
        simp [added]
      | cons d ds => rw [hcollected, hcomplete c' (by simpa using hc') hall, hpost]

/-- **One call** stores the longest part that fits and reports the size of all, whatever the names are, and
**a caller** that goes on from the last name receives every child once, in order, if no name has a zero byte
in it. -/
theorem enum_children_complete (b : Branch) :
    (∀ c : EnumCall, ¬ c.BadPointers → c.Answers b) ∧
      ((∀ n ∈ b.names, 0 ∉ n) → ∀ c cs, PagesFrom b [] (c :: cs) → Collects b (c :: cs)) :=
  ⟨fun _ => answers, fun hfree c cs => pages_collect hfree c cs⟩

/-- A buffer of 64 bytes at `0x2000`, the string `a` at `0x3000`. -/
def pageMem : Memory := fun a => if a = 0x1000 then 64 else if a = 0x3000 then 97 else 0

/-- The children `a` and `b`. -/
def letters : Branch := ⟨[[97], [98]], by decide, by decide⟩

theorem letters_received : EnumCall.Answers ⟨pageMem, 0, 0, 0, 0x2000, 0x1000⟩ letters ∧
    Collects letters [⟨pageMem, 0, 0, 0, 0x2000, 0x1000⟩] := by
  have hreceived : EnumCall.received ⟨pageMem, 0, 0, 0, 0x2000, 0x1000⟩ letters = [[97], [98]] := by
    decide +kernel
  have hproper : EnumCall.Proper ⟨pageMem, 0, 0, 0, 0x2000, 0x1000⟩ :=
    ⟨by decide, by decide, by decide +kernel, by decide +kernel⟩
  refine ⟨(enum_children_complete letters).1 _ hproper.accepted,
    (enum_children_complete letters).2 (by decide) _ [] ⟨hproper, rfl, .inl ?_, ?_, ?_⟩⟩
  · rw [hreceived]
    decide
  · exact fun _ => rfl
  · exact fun _ _ => trivial

/-- Three children whose names have a zero byte behind the same letter. -/
def twins : Branch := ⟨[[97, 0, 98], [97, 0, 99], [97, 0, 100]], by decide, by decide⟩

/-- Two names at a time, the caller receives `a` again and again. -/
theorem twins_repeated : PagesFrom twins []
      [⟨pageMem, 0, 0, 2, 0x2000, 0x1000⟩, ⟨pageMem, 0x3000, 1, 2, 0x2000, 0x1000⟩] ∧
    ¬ Collects twins [⟨pageMem, 0, 0, 2, 0x2000, 0x1000⟩, ⟨pageMem, 0x3000, 1, 2, 0x2000, 0x1000⟩] := by
  have hfirst : EnumCall.received ⟨pageMem, 0, 0, 2, 0x2000, 0x1000⟩ twins = [[97], [97]] := by
    decide +kernel
  have hsecond : EnumCall.received ⟨pageMem, 0x3000, 1, 2, 0x2000, 0x1000⟩ twins = [[97], [97]] := by
    decide +kernel
  refine ⟨?_, fun h => ?_⟩
  · refine ⟨⟨by decide, by decide, by decide +kernel, by decide +kernel⟩, rfl, ?_, ?_, ?_⟩
    · rw [hfirst]
      exact .inl (by decide)
    · rw [hfirst]
      exact fun h => absurd h (by decide)
    · rw [hfirst]
      rintro last hlast
      obtain rfl : [97] = last := by simpa using hlast
      refine ⟨⟨by decide, by decide, by decide +kernel, by decide +kernel⟩, by decide, ?_, ?_, ?_⟩
      · rw [hsecond]
        exact .inl (by decide)
      · exact fun _ => rfl
      · exact fun _ _ => trivial
  · have horder := h.inOrder
    simp only [collected, added, List.flatMap_cons, List.flatMap_nil, hfirst, hsecond] at horder
    revert horder
    decide

end Pages

end Azalea.Syscall.Children
