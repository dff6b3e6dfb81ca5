import Mathlib.Logic.Function.Basic
import Azalea.Syscall.Validation

/-!
# Tree — the branches of the system tree

`system_tree_simple_branch` (`system_tree/system_tree_simple_branch.cpp`): a branch keeps its children in a map
and passes a call on to a child branch with what is behind the first backslash of the name.  `level` is what each
of the four functions does in one branch while it has the branch's lock, `call` the whole call.

* `level_pass`: a call is passed on to a child, with a shorter name.
* `call_done`, `call_pass`: a call level by level.
-/

namespace Azalea.Tree
open Azalea.Syscall (ErrCode)

/-! ### Names -/

abbrev Name := List UInt8

/-- The backslash. -/
def separator : UInt8 := 0x5C

/-- `name.find("\\")`; nothing is `std::string::npos`. -/
def find (name : Name) : Option Nat := name.findIdx? (· == separator)

/-- `name.find_last_of("\\")`. -/
def findLastOf (name : Name) : Option Nat := (find name.reverse).map (name.length - 1 - ·)

/-- `split_name`. -/
def splitName (nameToSplit : Name) (splitFromEnd : Bool) : Name × Name :=
  match if splitFromEnd then findLastOf nameToSplit else find nameToSplit with
  | none => (nameToSplit, [])
  | some splitPos => (nameToSplit.take splitPos, nameToSplit.drop (splitPos + 1))

theorem find_lt {name : Name} {i : Nat} (h : find name = some i) : i < name.length :=
  (List.findIdx?_eq_some_iff_findIdx_eq.mp h).1

/-! ### The source -/

/-- Of which class the objects are. -/
structure Classes (ο : Type*) where
  /-- It is an `ISystemTreeBranch`. -/
  isBranch : ο → Bool
  /-- Its `create_child_here` makes a leaf, as that of `mem_fs_branch` does. -/
  createsLeaves : ο → Bool

/-- `children` of a branch. -/
abbrev ChildMap (ο : Type*) := Name → Option ο

/-- `children` of every branch. -/
abbrev Forest (ο : Type*) := ο → ChildMap ο

/-- The functions of a branch that take its lock. -/
inductive Call (ο : Type*) where
  | getChild (name : Name)
  | addChild (name : Name) (child : Option ο)
  | renameChild (oldName newName : Name)
  | deleteChild (name : Name)
  deriving DecidableEq

/-- An error code, and what `child` is then. -/
abbrev Answer (ο : Type*) := ErrCode × Option ο

/-- What a call does in one branch. -/
inductive Level (ο : Type*) where
  /-- It answers, and these are the children then. -/
  | done (answer : Answer ο) (children : ChildMap ο)
  /-- It calls a child branch. -/
  | pass (branch : ο) (call : Call ο)

variable {ο : Type*}

/-- `children.insert`, which leaves a child that is there as it is. -/
def ChildMap.insert (children : ChildMap ο) (name : Name) (child : Option ο) : ChildMap ο :=
  if (children name).isSome then children else Function.update children name child

/-- `children.erase`. -/
def ChildMap.erase (children : ChildMap ο) (name : Name) : ChildMap ο := Function.update children name none

/-- `get_child_branch`. -/
def getChildBranch (k : Classes ο) (children : ChildMap ο) (name : Name) : Option ο :=
  (children name).filter k.isBranch

/-- `get_child`, `add_child`, `rename_child` and `delete_child` in one branch, between the lock and the unlock of
`child_tree_lock`. -/
def level (k : Classes ο) (children : ChildMap ο) : Call ο → Level ο
  | .getChild name =>
      let (ourPart, childPart) := splitName name false
      match children ourPart with
      | some directChild =>
          if childPart ≠ [] then
            if k.isBranch directChild then .pass directChild (.getChild childPart)
            else .done (.notFound, none) children
          else .done (.noError, some directChild) children
      | none => .done (.notFound, none) children
  | .addChild name child =>
      if child.isNone then .done (.invalidParam, child) children
      else if name = [] then .done (.invalidName, child) children
      else match find name with
        | some splitPos =>
            let nextBranchName := name.take splitPos
            let continuationName := name.drop (splitPos + 1)
            match children nextBranchName with
            | none => .done (.notFound, child) children
            | some childBranch =>
                if k.isBranch childBranch then .pass childBranch (.addChild continuationName child)
                else .done (.invalidOp, child) children
        | none =>
            if (children name).isSome then .done (.alreadyExists, child) children
            else .done (.noError, child) (children.insert name child)
  | .renameChild oldName newName =>
      match find oldName, find newName with
      | some oldDirSplit, some newDirSplit =>
          if oldDirSplit = newDirSplit then
            let childBranch := oldName.take oldDirSplit
            if newName.take oldDirSplit ≠ childBranch then .done (.invalidOp, none) children
            else if (children childBranch).isNone then .done (.notFound, none) children
            else match getChildBranch k children childBranch with
              | some b => .pass b (.renameChild (oldName.drop (oldDirSplit + 1)) (newName.drop (newDirSplit + 1)))
              | none => .done (.notFound, none) children
          else .done (.invalidOp, none) children
      | some _, none | none, some _ => .done (.invalidOp, none) children
      | none, none =>
          match children oldName with
          | some l => .done (.noError, none) ((children.erase oldName).insert newName (some l))
          | none => .done (.notFound, none) children
  | .deleteChild name =>
      match find name with
      | none =>
          if (children name).isSome then .done (.noError, none) (children.erase name)
          else .done (.notFound, none) children
      | some splitPos =>
          match getChildBranch k children (name.take splitPos) with
          | some branch => .pass branch (.deleteChild (name.drop (splitPos + 1)))
          | none => .done (.notFound, none) children

/-- The object a call adds. -/
def Call.added : Call ο → Option ο
  | .addChild _ child => child
  | _ => none

/-- How long the name still is. -/
def Call.size : Call ο → Nat
  | .getChild name | .addChild name _ | .renameChild name _ | .deleteChild name => name.length

/-! ### One level -/

variable {k : Classes ο} {children : ChildMap ο} {b b' : ο} {c c' : Call ο} {name : Name} {i : Nat}

theorem drop_length_lt (h : find name = some i) : (name.drop (i + 1)).length < name.length := by
  have hi := find_lt h
  rw [List.length_drop]
  omega

theorem splitName_snd_length_lt (h : (splitName name false).2 ≠ []) :
    (splitName name false).2.length < name.length := by
  unfold splitName at h ⊢
  rw [if_neg Bool.false_ne_true] at h ⊢
  cases hfind : find name with
  | none =>
      rw [hfind] at h
      exact absurd rfl h
  | some i => exact drop_length_lt hfind

theorem getChildBranch_eq_some : getChildBranch k children name = some b ↔
    children name = some b ∧ k.isBranch b = true := by
  rw [getChildBranch, Option.filter_eq_some_iff]

/-- A call is passed on to a branch that is a child, and its name is shorter. -/
theorem level_pass (h : level k children c = .pass b' c') :
    (∃ name, children name = some b') ∧ k.isBranch b' = true ∧ c'.size < c.size ∧ c'.added = c.added := by
  cases c with
  | getChild name =>
      simp only [level] at h
      split at h
      next directChild hchild =>
        split at h
        next hpart =>
          split at h
          next hbranch =>
            cases h
            exact ⟨⟨_, hchild⟩, hbranch, splitName_snd_length_lt hpart, rfl⟩
          next => cases h
        next => cases h
      next => cases h
  | addChild name child =>
      simp only [level] at h
      split at h
      next => cases h
      next =>
        split at h
        next => cases h
        next =>
          split at h
          next i hfind =>
            split at h
            next => cases h
            next childBranch hchild =>
              split at h
              next hbranch =>
                cases h
                exact ⟨⟨_, hchild⟩, hbranch, drop_length_lt hfind, rfl⟩
              next => cases h
          next => split at h <;> cases h
  | renameChild oldName newName =>
      simp only [level] at h
      split at h
      next i j hold hnew =>
        split at h
        next =>
          split at h
          next => cases h
          next =>
            split at h
            next => cases h
            next =>
              split at h
              next b hb =>
                cases h
                obtain ⟨hchild, hbranch⟩ := getChildBranch_eq_some.mp hb
                exact ⟨⟨_, hchild⟩, hbranch, drop_length_lt hold, rfl⟩
              next => cases h
        next => cases h
      next => cases h
      next => cases h
      next => split at h <;> cases h
  | deleteChild name =>
      simp only [level] at h
      split at h
      next => split at h <;> cases h
      next i hfind =>
        split at h
        next b hb =>
          cases h
          obtain ⟨hchild, hbranch⟩ := getChildBranch_eq_some.mp hb
          exact ⟨⟨_, hchild⟩, hbranch, drop_length_lt hfind, rfl⟩
        next => cases h

/-- What a call that goes no further down leaves of the children. -/
inductive Changes (children : ChildMap ο) : Call ο → ChildMap ο → Prop where
  | same {c : Call ο} : Changes children c children
  | insert {name : Name} {child : Option ο} : children name = none →
      Changes children (.addChild name child) (children.insert name child)
  | rename {oldName newName : Name} {l : ο} : children oldName = some l →
      Changes children (.renameChild oldName newName) ((children.erase oldName).insert newName (some l))
  | erase {name : Name} : Changes children (.deleteChild name) (children.erase name)

variable {children' : ChildMap ο} {answer : Answer ο}

theorem level_changes (h : level k children c = .done answer children') : Changes children c children' := by
  cases c with
  | getChild name =>
      simp only [level] at h
      split at h
      next =>
        split at h
        next =>
          split at h
          next => cases h
          next =>
            cases h
            exact .same
        next =>
          cases h
          exact .same
      next =>
        cases h
        exact .same
  | addChild name child =>
      simp only [level] at h
      split at h
      next =>
        cases h
        exact .same
      next =>
        split at h
        next =>
          cases h
          exact .same
        next =>
          split at h
          next =>
            split at h
            next =>
              cases h
              exact .same
            next =>
              split at h
              next => cases h
              next =>
                cases h
                exact .same
          next =>
            split at h
            next =>
              cases h
              exact .same
            next hnone =>
              cases h
              exact .insert (Option.not_isSome_iff_eq_none.mp hnone)
  | renameChild oldName newName =>
      simp only [level] at h
      split at h
      next =>
        split at h
        next =>
          split at h
          next =>
            cases h
            exact .same
          next =>
            split at h
            next =>
              cases h
              exact .same
            next =>
              split at h
              next => cases h
              next =>
                cases h
                exact .same
        next =>
          cases h
          exact .same
      next =>
        cases h
        exact .same
      next =>
        cases h
        exact .same
      next =>
        split at h
        next l hl =>
          cases h
          exact .rename hl
        next =>
          cases h
          exact .same
  | deleteChild name =>
      simp only [level] at h
      split at h
      next =>
        split at h
        next =>
          cases h
          exact .erase
        next =>
          cases h
          exact .same
      next =>
        split at h
        next => cases h
        next =>
          cases h
          exact .same

variable {n : Name}

theorem insert_eq_some {child : Option ο} (h : children.insert name child n = some b) :
    children n = some b ∨ n = name ∧ child = some b := by
  unfold ChildMap.insert at h
  split at h
  next => exact .inl h
  next =>
    by_cases hn : n = name
    · subst hn
      rw [Function.update_self] at h
      exact .inr ⟨rfl, h⟩
    · rw [Function.update_of_ne hn] at h
      exact .inl h

theorem erase_eq_some : children.erase name n = some b ↔ n ≠ name ∧ children n = some b := by
  unfold ChildMap.erase
  by_cases hn : n = name
  · subst hn
    rw [Function.update_self]
    exact iff_of_false (by simp) fun h => h.1 rfl
  · rw [Function.update_of_ne hn]
    exact (and_iff_right hn).symm

/-- What a branch has as a child it had before, or it is added. -/
theorem Changes.child (h : Changes children c children') (hb : children' n = some b) :
    (∃ m, children m = some b) ∨ c.added = some b := by
  cases h with
  | same => exact .inl ⟨n, hb⟩
  | insert => exact (insert_eq_some hb).imp (fun h => ⟨n, h⟩) And.right
  | @rename oldName newName l hl =>
      rcases insert_eq_some hb with hb | ⟨-, hb⟩
      · exact .inl ⟨n, (erase_eq_some.mp hb).2⟩
      · exact .inl ⟨oldName, hl.trans hb⟩
  | erase => exact .inl ⟨n, (erase_eq_some.mp hb).2⟩

/-! ### The whole call -/

variable [DecidableEq ο]

/-- A call on the branch `b`. -/
def call (k : Classes ο) (t : Forest ο) (b : ο) (c : Call ο) : Answer ο × Forest ο :=
  match h : level k (t b) c with
  | .done answer children => (answer, Function.update t b children)
  | .pass b' c' => call k t b' c'
termination_by c.size
decreasing_by exact (level_pass h).2.2.1

variable {t : Forest ο}

theorem call_done (h : level k (t b) c = .done answer children) :
    call k t b c = (answer, Function.update t b children) := by
  rw [call]
  split
  next h' =>
    rw [h] at h'
    cases h'
    rfl
  next h' =>
    rw [h] at h'
    cases h'

theorem call_pass (h : level k (t b) c = .pass b' c') : call k t b c = call k t b' c' := by
  rw [call]
  split
  next h' =>
    rw [h] at h'
    cases h'
  next h' =>
    rw [h] at h'
    cases h'
    rfl

/-- A root, a branch of the memory file system, and two leaves. -/
def smallTree : Classes (Fin 4) where
  isBranch o := o < 2
  createsLeaves o := o = 1

end Azalea.Tree
