import Azalea.Support.Paths
import Azalea.Support.Runs
import Azalea.Tree.SimpleBranch

/-!
# Tree — the system tree as a map from paths

What the branches hold is a map from paths, `view`; `PathMap.call` says what the functions of a branch do to such
a map, and `PathMap.rootCall` those of `system_tree_root`.

* `level_view`: what a call does in one branch.
* `call_view`: what it does to the map, if every branch is in one place only.
* `system_tree_refines`: in every run in which a branch is added only when it is nowhere in the tree yet, each call
  on the root does what it does to the map.
-/

namespace Azalea.Tree
open Azalea.Syscall (ErrCode)
open Azalea.Runs Azalea.Paths Function

/-! ### `system_tree_root` -/

variable {ο : Type*} [DecidableEq ο]

/-- `create_child` of the branch `b`, with no other thread at work; `new` is the object that `std::make_shared`
gives. -/
def createChildCall (k : Classes ο) (t : Forest ο) (b : ο) (name : Name) (new : ο) : Answer ο × Forest ο :=
  if (splitName name false).2 = [] then
    if k.createsLeaves b then call k t b (.addChild name (some new)) else ((.invalidOp, none), t)
  else
    match call k t b (.getChild (splitName name false).1) with
    | ((.noError, directChild), t) =>
        match directChild.filter k.isBranch with
        | some descendant => createChildCall k t descendant (splitName name false).2 new
        | none => ((.invalidOp, none), t)
    | ((result, _), t) => ((result, none), t)
termination_by name.length
decreasing_by exact splitName_snd_length_lt ‹_›

/-- The functions of `system_tree_root`. -/
inductive RootCall (ο : Type*) where
  | of (call : Call ο)
  | createChild (name : Name) (new : ο)

/-- The object a call adds. -/
def RootCall.added : RootCall ο → Option ο
  | .of c => c.added
  | .createChild _ new => some new

/-- A call on the `system_tree_root` whose branch is `root`. -/
def rootCall (k : Classes ο) (t : Forest ο) (root : ο) : RootCall ο → Answer ο × Forest ο
  | .of (.getChild name) =>
      if name.head? ≠ some separator then ((.notFound, none), t)
      else if name = [separator] then ((.noError, some root), t)
      else call k t root (.getChild (name.drop 1))
  | .of (.addChild name child) =>
      if name.head? ≠ some separator then ((.invalidOp, child), t)
      else call k t root (.addChild (name.drop 1) child)
  | .createChild name new =>
      if name.head? ≠ some separator then ((.notFound, none), t)
      else createChildCall k t root (name.drop 1) new
  | .of (.renameChild oldName newName) =>
      if oldName.head? ≠ some separator ∨ newName.head? ≠ some separator then ((.notFound, none), t)
      else call k t root (.renameChild (oldName.drop 1) (newName.drop 1))
  | .of (.deleteChild name) =>
      if name.head? ≠ some separator then ((.notFound, none), t)
      else if name = [separator] then ((.invalidOp, none), t)
      else call k t root (.deleteChild (name.drop 1))

/-! ### A map from paths -/

/-- What is found from `b` on along a path. -/
def view (k : Classes ο) (t : Forest ο) (b : ο) : List Name → Option ο
  | [] => some b
  | n :: ns => if k.isBranch b then (t b n).bind fun c => view k t c ns else none

/-- The parts of a name between the backslashes. -/
def components (name : Name) : List Name := name.splitOn separator

/-- Without an empty part at the end. -/
def dropEmptyEnd : List Name → List Name
  | [] => []
  | [n, []] => [n]
  | n :: ns => n :: dropEmptyEnd ns

/-- The path `get_child` looks for: a backslash at the end says nothing. -/
def getPath (name : Name) : List Name := dropEmptyEnd (components name)

namespace PathMap

/-- Whether there is a branch at every step of a path; if there is something else, `leafError` is the answer. -/
def route (k : Classes ο) (leafError : ErrCode) (m : List Name → Option ο) : List Name → ErrCode
  | [] => .noError
  | n :: ns =>
      match m [n] with
      | none => .notFound
      | some o => if k.isBranch o then route k leafError (below m [n]) ns else leafError

/-- Whether two paths are in the same branch. -/
def routeBoth (k : Classes ο) (m : List Name → Option ο) : List Name → List Name → ErrCode
  | o :: o' :: os, n :: n' :: ns =>
      if o = n then
        match m [o] with
        | none => .notFound
        | some b => if k.isBranch b then routeBoth k (below m [o]) (o' :: os) (n' :: ns) else .notFound
      else .invalidOp
  | [_], [_] => .noError
  | _, _ => .invalidOp

/-- The object at the path `p` is then at `p'`; if something is there already, that stays, and the object is in no
place any more. -/
def rename (m : List Name → Option ο) (p p' : List Name) : List Name → Option ο :=
  let m' := graft m p fun _ => none
  if (m' p').isSome then m' else graft m' p' (below m p)

/-- A call; `sub` is what is below an object that is added. -/
def call (k : Classes ο) (sub : ο → List Name → Option ο) (m : List Name → Option ο) :
    Call ο → Answer ο × (List Name → Option ο)
  | .getChild name =>
      let found := m (getPath name)
      ((if found.isSome then .noError else .notFound, found), m)
  | .addChild name child =>
      let p := components name
      match child with
      | none => ((.invalidParam, child), m)
      | some c =>
          let r := route k .invalidOp m p.dropLast
          if r ≠ .noError then ((r, child), m)
          else if p.getLast? = some [] then ((.invalidName, child), m)
          else if (m p).isSome then ((.alreadyExists, child), m)
          else ((.noError, child), graft m p (sub c))
  | .renameChild oldName newName =>
      let p := components oldName
      let p' := components newName
      let r := routeBoth k m p p'
      if r ≠ .noError then ((r, none), m)
      else if (m p).isSome then ((.noError, none), rename m p p')
      else ((.notFound, none), m)
  | .deleteChild name =>
      let p := components name
      let r := route k .notFound m p.dropLast
      if r ≠ .noError then ((r, none), m)
      else if (m p).isSome then ((.noError, none), graft m p fun _ => none)
      else ((.notFound, none), m)

/-- `create_child`: the branch at the path in front of the last part has to make leaves. -/
def createChild (k : Classes ο) (sub : ο → List Name → Option ο) (m : List Name → Option ο) (name : Name)
    (new : ο) : Answer ο × (List Name → Option ο) :=
  let p := (getPath name).dropLast
  let r := route k .invalidOp m p
  if r ≠ .noError then ((r, none), m)
  else if ((m p).filter k.createsLeaves).isNone then ((.invalidOp, none), m)
  else call k sub m (.addChild name (some new))

/-- A call on the root. -/
def rootCall (k : Classes ο) (sub : ο → List Name → Option ο) (m : List Name → Option ο) :
    RootCall ο → Answer ο × (List Name → Option ο)
  | .of (.getChild name) =>
      if name.head? ≠ some separator then ((.notFound, none), m)
      else if name = [separator] then ((.noError, m []), m)
      else call k sub m (.getChild (name.drop 1))
  | .of (.addChild name child) =>
      if name.head? ≠ some separator then ((.invalidOp, child), m)
      else call k sub m (.addChild (name.drop 1) child)
  | .createChild name new =>
      if name.head? ≠ some separator then ((.notFound, none), m)
      else createChild k sub m (name.drop 1) new
  | .of (.renameChild oldName newName) =>
      if oldName.head? ≠ some separator ∨ newName.head? ≠ some separator then ((.notFound, none), m)
      else call k sub m (.renameChild (oldName.drop 1) (newName.drop 1))
  | .of (.deleteChild name) =>
      if name.head? ≠ some separator then ((.notFound, none), m)
      else if name = [separator] then ((.invalidOp, none), m)
      else call k sub m (.deleteChild (name.drop 1))

end PathMap

/-! ### Names and paths -/

variable {name n : Name} {i : Nat} {p q : List Name}

theorem find_eq_none : find name = none ↔ separator ∉ name := by
  simp only [find, List.findIdx?_eq_none_iff, beq_eq_false_iff_ne]
  exact ⟨fun h hmem => h _ hmem rfl, fun h x hx heq => h (heq ▸ hx)⟩

theorem find_eq_some (h : find name = some i) :
    name = name.take i ++ separator :: name.drop (i + 1) ∧ separator ∉ name.take i := by
  obtain ⟨hi, hget, hbefore⟩ := List.findIdx?_eq_some_iff_getElem.mp h
  constructor
  · conv_lhs => rw [← List.take_append_drop i name, List.drop_eq_getElem_cons hi]
    rw [eq_of_beq hget]
  · intro hmem
    obtain ⟨j, hj, heq⟩ := List.mem_take_iff_getElem.mp hmem
    have := hbefore j (by omega)
    simp [heq] at this

theorem components_of_none (h : find name = none) : components name = [name] :=
  List.splitOn_eq_singleton (find_eq_none.mp h)

theorem components_of_some (h : find name = some i) :
    components name = name.take i :: components (name.drop (i + 1)) := by
  obtain ⟨heq, hnot⟩ := find_eq_some h
  conv_lhs => rw [components, heq]
  exact List.splitOn_append_cons_self_of_not_mem hnot _

theorem components_ne_nil (name : Name) : components name ≠ [] := List.splitOn_ne_nil _ _

theorem components_eq_empty : components name = [[]] ↔ name = [] := by
  constructor
  · intro h
    have hjoin : [separator].intercalate (name.splitOn separator) = name := List.intercalate_splitOn separator
    rw [show name.splitOn separator = [[]] from h] at hjoin
    simpa using hjoin.symm
  · rintro rfl
    exact List.splitOn_nil _

theorem dropEmptyEnd_cons (h : p ≠ [[]]) (hp : p ≠ []) : dropEmptyEnd (n :: p) = n :: dropEmptyEnd p := by
  cases p with
  | nil => exact absurd rfl hp
  | cons n' ns =>
      cases ns with
      | nil =>
          cases n' with
          | nil => exact absurd rfl h
          | cons x xs => rfl
      | cons _ _ => simp only [dropEmptyEnd]

theorem getPath_of_none (h : find name = none) : getPath name = [name] := by
  rw [getPath, components_of_none h]
  rfl

theorem getPath_of_some (h : find name = some i) : getPath name =
    name.take i :: if name.drop (i + 1) = [] then [] else getPath (name.drop (i + 1)) := by
  rw [getPath, components_of_some h]
  split
  next hrest =>
    rw [components_eq_empty.mpr hrest]
    rfl
  next hrest => exact dropEmptyEnd_cons (mt components_eq_empty.mp hrest) (components_ne_nil _)

theorem getPath_ne_nil (name : Name) : getPath name ≠ [] := by
  cases hfind : find name with
  | none => simp [getPath_of_none hfind]
  | some i => simp [getPath_of_some hfind]

/-! ### What is found -/

variable {k : Classes ο} {t t' : Forest ο} {b b' x y c root : ο} {ch : ChildMap ο}

section
omit [DecidableEq ο]

theorem view_cons (hb : k.isBranch b = true) (n : Name) (ns : List Name) :
    view k t b (n :: ns) = (t b n).bind fun c => view k t c ns := by
  rw [view, if_pos hb]

theorem view_leaf (hb : k.isBranch b = false) (hp : p ≠ []) : view k t b p = none := by
  cases p with
  | nil => exact absurd rfl hp
  | cons n ns => rw [view, hb, if_neg Bool.false_ne_true]

theorem view_single (hb : k.isBranch b = true) (n : Name) : view k t b [n] = t b n := by
  rw [view_cons hb]
  cases t b n <;> rfl

theorem view_append : view k t b (p ++ q) = (view k t b p).bind fun x => view k t x q := by
  induction p generalizing b with
  | nil => rfl
  | cons n ns ih =>
      rw [List.cons_append, view, view]
      split
      next =>
        rw [Option.bind_assoc]
        exact congrArg _ (funext fun c => ih)
      next => rfl

theorem below_view (h : view k t b p = some x) : below (view k t b) p = view k t x := by
  funext q
  rw [below, view_append, h, Option.bind_some]

end

/-- What is found from a branch that has these children, when nothing below them has changed. -/
def viewOf (k : Classes ο) (t : Forest ο) (b : ο) (ch : ChildMap ο) : List Name → Option ο
  | [] => some b
  | n :: ns => (ch n).bind fun c => view k t c ns

section
omit [DecidableEq ο]

theorem viewOf_self (hb : k.isBranch b = true) : viewOf k t b (t b) = view k t b := by
  funext p
  cases p with
  | nil => rfl
  | cons n ns => rw [view_cons hb, viewOf]

theorem viewOf_erase (hb : k.isBranch b = true) (n : Name) :
    viewOf k t b (ChildMap.erase (t b) n) = graft (view k t b) [n] fun _ => none := by
  funext p
  cases p with
  | nil =>
      rw [graft_single_nil]
      rfl
  | cons m ms =>
      rw [graft_single_cons, viewOf, ChildMap.erase]
      split
      next h => rw [h, update_self, Option.bind_none]
      next h => rw [update_of_ne h, view_cons hb]

theorem viewOf_insert (n : Name) (c : ο) : viewOf k t b (ch.insert n (some c)) =
    if (ch n).isSome then viewOf k t b ch else graft (viewOf k t b ch) [n] (view k t c) := by
  unfold ChildMap.insert
  split
  next => rfl
  next =>
    funext p
    cases p with
    | nil => exact graft_single_nil.symm
    | cons m ms =>
        rw [graft_single_cons, viewOf]
        split
        next h => rw [h, update_self, Option.bind_some]
        next h => rw [update_of_ne h, viewOf]

end

/-! ### One branch -/

section
omit [DecidableEq ο]

theorem route_none {leafError : ErrCode} {m : List Name → Option ο} (h : m [n] = none) :
    PathMap.route k leafError m (n :: p) = .notFound := by
  rw [PathMap.route, h]

theorem route_leaf {leafError : ErrCode} {m : List Name → Option ο} (h : m [n] = some x)
    (hx : k.isBranch x = false) : PathMap.route k leafError m (n :: p) = leafError := by
  rw [PathMap.route, h]
  exact if_neg (by rw [hx]; exact Bool.false_ne_true)

theorem route_branch {leafError : ErrCode} {m : List Name → Option ο} (h : m [n] = some x)
    (hx : k.isBranch x = true) :
    PathMap.route k leafError m (n :: p) = PathMap.route k leafError (below m [n]) p := by
  rw [PathMap.route, h]
  exact if_pos hx

end

theorem dropLast_components_of_some (h : find name = some i) : (components name).dropLast =
    name.take i :: (components (name.drop (i + 1))).dropLast := by
  rw [components_of_some h, List.dropLast_cons_of_ne_nil (components_ne_nil _)]

theorem getLast_components_of_some (h : find name = some i) : (components name).getLast? =
    (components (name.drop (i + 1))).getLast? := by
  rw [components_of_some h, List.getLast?_cons_of_ne_nil (components_ne_nil _)]

variable {answer : Answer ο} {oldName newName : Name} {child : Option ο}

section
omit [DecidableEq ο]

/-- `get_child`, where it does not go further down. -/
theorem level_view_get (hb : k.isBranch b = true) (h : level k (t b) (.getChild name) = .done answer ch) :
    PathMap.call k (view k t) (view k t b) (.getChild name) = (answer, viewOf k t b ch) := by
  simp only [level, splitName, Bool.false_eq_true, if_false] at h
  simp only [PathMap.call]
  cases hfind : find name with
  | none =>
      simp only [hfind, ne_eq, not_true_eq_false, if_false] at h
      rw [getPath_of_none hfind, view_single hb]
      cases hchild : t b name with
      | none =>
          rw [hchild] at h
          cases h
          rw [viewOf_self hb]
          rfl
      | some x =>
          rw [hchild] at h
          cases h
          rw [viewOf_self hb]
          rfl
  | some i =>
      simp only [hfind] at h
      rw [getPath_of_some hfind, view_cons hb]
      cases hchild : t b (name.take i) with
      | none =>
          rw [hchild] at h
          cases h
          rw [viewOf_self hb]
          rfl
      | some x =>
          simp only [hchild] at h
          rw [Option.bind_some]
          split at h
          next hrest =>
            split at h
            next => cases h
            next hx =>
              cases h
              rw [if_neg hrest, view_leaf (Bool.eq_false_iff.mpr hx) (getPath_ne_nil _), viewOf_self hb]
              rfl
          next hrest =>
            cases h
            rw [if_pos (not_not.mp hrest), viewOf_self hb]
            rfl

theorem level_view_add (hb : k.isBranch b = true) (h : level k (t b) (.addChild name child) = .done answer ch) :
    PathMap.call k (view k t) (view k t b) (.addChild name child) = (answer, viewOf k t b ch) := by
  simp only [level] at h
  simp only [PathMap.call]
  cases child with
  | none =>
      cases h
      rw [viewOf_self hb]
  | some c =>
      simp only [Option.isNone_some, Bool.false_eq_true, if_false] at h
      split at h
      next hname =>
        cases h
        subst hname
        rw [viewOf_self hb]
        rfl
      next hname =>
        split at h
        next i hfind =>
          rw [dropLast_components_of_some hfind]
          have hsingle := view_single (t := t) hb (name.take i)
          split at h
          next hchild =>
            cases h
            rw [route_none (hsingle.trans hchild), viewOf_self hb]
            rfl
          next x hchild =>
            split at h
            next => cases h
            next hx =>
              cases h
              rw [route_leaf (hsingle.trans hchild) (Bool.eq_false_iff.mpr hx), viewOf_self hb]
              rfl
        next hfind =>
          have hlast : ([name] : List Name).getLast? ≠ some [] := by simpa using hname
          simp only [components_of_none hfind, List.dropLast_singleton, PathMap.route, if_neg hlast,
            view_single hb, ne_eq, not_true_eq_false, if_false]
          split at h
          next hthere =>
            cases h
            rw [if_pos hthere, viewOf_self hb]
          next hthere =>
            cases h
            rw [if_neg hthere, viewOf_insert, if_neg hthere, viewOf_self hb]

theorem level_view_delete (hb : k.isBranch b = true) (h : level k (t b) (.deleteChild name) = .done answer ch) :
    PathMap.call k (view k t) (view k t b) (.deleteChild name) = (answer, viewOf k t b ch) := by
  simp only [level] at h
  simp only [PathMap.call]
  split at h
  next hfind =>
    simp only [components_of_none hfind, List.dropLast_singleton, PathMap.route, view_single hb, ne_eq,
      not_true_eq_false, if_false]
    split at h
    next hthere =>
      cases h
      rw [if_pos hthere, viewOf_erase hb]
    next hthere =>
      cases h
      rw [if_neg hthere, viewOf_self hb]
  next i hfind =>
    rw [dropLast_components_of_some hfind]
    have hsingle := view_single (t := t) hb (name.take i)
    split at h
    next => cases h
    next hbranch =>
      cases h
      rw [viewOf_self hb]
      cases hchild : t b (name.take i) with
      | none =>
          rw [route_none (hsingle.trans hchild)]
          rfl
      | some x =>
          rw [getChildBranch, hchild] at hbranch
          have hx : k.isBranch x = false := by simpa using hbranch
          rw [route_leaf (hsingle.trans hchild) hx]
          rfl

end

theorem length_take_find (h : find name = some i) : (name.take i).length = i := by
  have hi := find_lt h
  rw [List.length_take]
  omega

/-- A path of a name with a backslash. -/
theorem components_cons_of_some (h : find name = some i) : ∃ n ns,
    components name = name.take i :: n :: ns ∧ components (name.drop (i + 1)) = n :: ns := by
  obtain ⟨n, ns, hrest⟩ := List.exists_cons_of_ne_nil (components_ne_nil (name.drop (i + 1)))
  exact ⟨n, ns, by rw [components_of_some h, hrest], hrest⟩

omit [DecidableEq ο] in
theorem level_view_rename (hb : k.isBranch b = true)
    (h : level k (t b) (.renameChild oldName newName) = .done answer ch) :
    PathMap.call k (view k t) (view k t b) (.renameChild oldName newName) = (answer, viewOf k t b ch) := by
  simp only [level] at h
  simp only [PathMap.call]
  split at h
  next i j hold hnew =>
    obtain ⟨o', os, hos, -⟩ := components_cons_of_some hold
    obtain ⟨n', ns, hns, -⟩ := components_cons_of_some hnew
    have hsingle := view_single (t := t) hb (oldName.take i)
    rw [hos, hns, PathMap.routeBoth]
    split at h
    next heq =>
      subst heq
      split at h
      next hne =>
        cases h
        rw [if_neg (Ne.symm hne), viewOf_self hb]
        rfl
      next heq =>
        rw [if_pos (not_not.mp heq).symm]
        split at h
        next hnone =>
          cases h
          rw [hsingle, Option.isNone_iff_eq_none.mp hnone, viewOf_self hb]
          rfl
        next hsome =>
          split at h
          next => cases h
          next hbranch =>
            cases h
            obtain ⟨x, hx⟩ := Option.ne_none_iff_exists'.mp (mt Option.isNone_iff_eq_none.mpr hsome)
            rw [getChildBranch, hx] at hbranch
            have hleaf : k.isBranch x = false := by simpa using hbranch
            simp only [hsingle, hx, hleaf, Bool.false_eq_true, if_false]
            rw [viewOf_self hb]
            rfl
    next hne =>
      have hparts : oldName.take i ≠ newName.take j := by
        intro heq
        have hlength := congrArg List.length heq
        rw [length_take_find hold, length_take_find hnew] at hlength
        exact hne hlength
      cases h
      rw [if_neg hparts, viewOf_self hb]
      rfl
  next i hold hnew =>
    cases h
    obtain ⟨o', os, hos, -⟩ := components_cons_of_some hold
    rw [hos, components_of_none hnew, viewOf_self hb]
    rfl
  next j hold hnew =>
    cases h
    obtain ⟨n', ns, hns, -⟩ := components_cons_of_some hnew
    rw [hns, components_of_none hold, viewOf_self hb]
    rfl
  next hold hnew =>
    simp only [components_of_none hold, components_of_none hnew, PathMap.routeBoth, ne_eq, not_true_eq_false,
      if_false]
    rw [view_single hb]
    split at h
    next l hl =>
      cases h
      rw [hl, Option.isSome_some, if_pos rfl, viewOf_insert, viewOf_erase hb, PathMap.rename]
      have hfound : view k t b [oldName] = some l := (view_single hb _).trans hl
      have hthere : graft (view k t b) [oldName] (fun _ => none) [newName] =
          ChildMap.erase (t b) oldName newName := by
        rw [← viewOf_erase hb, viewOf]
        cases ChildMap.erase (t b) oldName newName <;> rfl
      simp only [hthere, below_view hfound]
    next hl =>
      cases h
      rw [hl, viewOf_self hb]
      rfl

omit [DecidableEq ο] in
/-- **What a call does in one branch**, if it goes no further down. -/
theorem level_view {c : Call ο} (hb : k.isBranch b = true) (h : level k (t b) c = .done answer ch) :
    PathMap.call k (view k t) (view k t b) c = (answer, viewOf k t b ch) := by
  cases c with
  | getChild name => exact level_view_get hb h
  | addChild name child => exact level_view_add hb h
  | renameChild oldName newName => exact level_view_rename hb h
  | deleteChild name => exact level_view_delete hb h

/-! ### Further down -/

/-- The part of the name that is the child a call is passed on to. -/
def Call.firstPart : Call ο → Name
  | .getChild name | .addChild name _ | .renameChild name _ | .deleteChild name => (splitName name false).1

theorem splitName_fst_of_some (h : find name = some i) : (splitName name false).1 = name.take i := by
  rw [splitName, if_neg Bool.false_ne_true, h]

omit [DecidableEq ο] in
theorem rename_cons (m : List Name → Option ο) (n : Name) (p p' : List Name) :
    PathMap.rename m (n :: p) (n :: p') = graft m [n] (PathMap.rename (below m [n]) p p') := by
  have herase : graft m (n :: p) (fun _ => none) = graft m [n] (graft (below m [n]) p fun _ => none) :=
    graft_append (p := [n])
  have hmoved : below m (n :: p) = below (below m [n]) p := (below_below (p := [n])).symm
  have hthere : ∀ sub : List Name → Option ο, graft m [n] sub (n :: p') = sub p' := fun sub =>
    graft_append_self (p := [n]) p'
  simp only [PathMap.rename, herase, hmoved, hthere]
  split
  next => rfl
  next => rw [show n :: p' = [n] ++ p' from rfl, graft_append, below_graft, graft_graft]

variable {call₀ call₁ : Call ο} {sub : ο → List Name → Option ο}

section
omit [DecidableEq ο]

/-- What is below a child branch, in its place. -/
theorem graft_view (hb : k.isBranch b = true) (h : t b n = some b') :
    graft (view k t b) [n] (view k t b') = view k t b := by
  have hfound : view k t b [n] = some b' := (view_single hb n).trans h
  rw [← below_view hfound, graft_below]

theorem level_pass_get (hb : k.isBranch b = true) (h : level k (t b) (.getChild name) = .pass b' call₁) :
    t b (splitName name false).1 = some b' ∧ PathMap.call k sub (view k t b) (.getChild name) =
      ((PathMap.call k sub (view k t b') call₁).1,
        graft (view k t b) [(splitName name false).1] (PathMap.call k sub (view k t b') call₁).2) := by
  simp only [level, splitName, Bool.false_eq_true, if_false] at h ⊢
  cases hfind : find name with
  | none =>
      simp only [hfind, ne_eq, not_true_eq_false, if_false] at h
      split at h <;> cases h
  | some i =>
      simp only [hfind] at h ⊢
      split at h
      next x hchild =>
        split at h
        next hrest =>
          split at h
          next hx =>
            cases h
            refine ⟨hchild, ?_⟩
            have hpath : view k t b (getPath name) = view k t b' (getPath (name.drop (i + 1))) := by
              rw [getPath_of_some hfind, if_neg hrest, view_cons hb, hchild, Option.bind_some]
            simp only [PathMap.call, hpath, graft_view hb hchild]
          next => cases h
        next => cases h
      next => cases h

theorem level_pass_add (hb : k.isBranch b = true) (h : level k (t b) (.addChild name child) = .pass b' call₁) :
    t b (splitName name false).1 = some b' ∧ PathMap.call k sub (view k t b) (.addChild name child) =
      ((PathMap.call k sub (view k t b') call₁).1,
        graft (view k t b) [(splitName name false).1] (PathMap.call k sub (view k t b') call₁).2) := by
  simp only [level] at h
  split at h
  next => cases h
  next hchild =>
    obtain ⟨c, rfl⟩ := Option.ne_none_iff_exists'.mp (mt Option.isNone_iff_eq_none.mpr hchild)
    split at h
    next => cases h
    next =>
      split at h
      next i hfind =>
        split at h
        next => cases h
        next x hx =>
          split at h
          next hbranch =>
            cases h
            rw [splitName_fst_of_some hfind]
            refine ⟨hx, ?_⟩
            have hfound : view k t b [name.take i] = some b' := (view_single hb _).trans hx
            have hpath : view k t b (components name) = view k t b' (components (name.drop (i + 1))) := by
              rw [components_of_some hfind, view_cons hb, hx, Option.bind_some]
            have hgraft : graft (view k t b) (components name) (sub c) = graft (view k t b) [name.take i]
                (graft (view k t b') (components (name.drop (i + 1))) (sub c)) := by
              rw [components_of_some hfind, ← below_view hfound]
              exact graft_append (p := [name.take i])
            have hself := graft_view hb hx
            simp only [PathMap.call, dropLast_components_of_some hfind, route_branch hfound hbranch,
              below_view hfound, getLast_components_of_some hfind, hpath]
            split_ifs
            · rw [hself]
            · rw [hself]
            · rw [hself]
            · rw [hgraft]
          next => cases h
      next => split at h <;> cases h

theorem level_pass_delete (hb : k.isBranch b = true) (h : level k (t b) (.deleteChild name) = .pass b' call₁) :
    t b (splitName name false).1 = some b' ∧ PathMap.call k sub (view k t b) (.deleteChild name) =
      ((PathMap.call k sub (view k t b') call₁).1,
        graft (view k t b) [(splitName name false).1] (PathMap.call k sub (view k t b') call₁).2) := by
  simp only [level] at h
  split at h
  next => split at h <;> cases h
  next i hfind =>
    split at h
    next x hbranch =>
      cases h
      obtain ⟨hx, hbranch⟩ := getChildBranch_eq_some.mp hbranch
      rw [splitName_fst_of_some hfind]
      refine ⟨hx, ?_⟩
      have hfound : view k t b [name.take i] = some b' := (view_single hb _).trans hx
      have hpath : view k t b (components name) = view k t b' (components (name.drop (i + 1))) := by
        rw [components_of_some hfind, view_cons hb, hx, Option.bind_some]
      have hgraft : graft (view k t b) (components name) (fun _ => none) = graft (view k t b) [name.take i]
          (graft (view k t b') (components (name.drop (i + 1))) fun _ => none) := by
        rw [components_of_some hfind, ← below_view hfound]
        exact graft_append (p := [name.take i])
      have hself := graft_view hb hx
      simp only [PathMap.call, dropLast_components_of_some hfind, route_branch hfound hbranch,
        below_view hfound, hpath]
      split_ifs
      · rw [hself]
      · rw [hgraft]
      · rw [hself]
    next => cases h

theorem level_pass_rename (hb : k.isBranch b = true)
    (h : level k (t b) (.renameChild oldName newName) = .pass b' call₁) :
    t b (splitName oldName false).1 = some b' ∧
      PathMap.call k sub (view k t b) (.renameChild oldName newName) =
        ((PathMap.call k sub (view k t b') call₁).1,
          graft (view k t b) [(splitName oldName false).1] (PathMap.call k sub (view k t b') call₁).2) := by
  simp only [level] at h
  split at h
  next i j hold hnew =>
    split at h
    next heq =>
      subst heq
      split at h
      next => cases h
      next htake =>
        split at h
        next => cases h
        next =>
          split at h
          next x hbranch =>
            cases h
            obtain ⟨hx, hbranch⟩ := getChildBranch_eq_some.mp hbranch
            rw [splitName_fst_of_some hold]
            refine ⟨hx, ?_⟩
            obtain ⟨o', os, hos, hos'⟩ := components_cons_of_some hold
            obtain ⟨n', ns, hns, hns'⟩ := components_cons_of_some hnew
            rw [not_not.mp htake] at hns
            have hfound : view k t b [oldName.take i] = some b' := (view_single hb _).trans hx
            have hpath : view k t b (components oldName) = view k t b' (components (oldName.drop (i + 1))) := by
              rw [components_of_some hold, view_cons hb, hx, Option.bind_some]
            have hself := graft_view hb hx
            have hrename : PathMap.rename (view k t b) (components oldName) (components newName) =
                graft (view k t b) [oldName.take i] (PathMap.rename (view k t b')
                  (components (oldName.drop (i + 1))) (components (newName.drop (i + 1)))) := by
              rw [hos, hns, rename_cons, below_view hfound, hos', hns']
            have hroute : PathMap.routeBoth k (view k t b) (components oldName) (components newName) =
                PathMap.routeBoth k (view k t b') (components (oldName.drop (i + 1)))
                  (components (newName.drop (i + 1))) := by
              rw [hos, hns, hos', hns', PathMap.routeBoth, if_pos rfl, hfound, below_view hfound]
              exact if_pos hbranch
            simp only [PathMap.call, hroute, hpath]
            split_ifs
            · rw [hself]
            · rw [hrename]
            · rw [hself]
          next => cases h
    next => cases h
  next => cases h
  next => cases h
  next => split at h <;> cases h

/-- A call that is passed on to a child branch does to the map what it does below that branch. -/
theorem level_pass_view (hb : k.isBranch b = true) (h : level k (t b) call₀ = .pass b' call₁) :
    t b call₀.firstPart = some b' ∧ PathMap.call k sub (view k t b) call₀ =
      ((PathMap.call k sub (view k t b') call₁).1,
        graft (view k t b) [call₀.firstPart] (PathMap.call k sub (view k t b') call₁).2) := by
  cases call₀ with
  | getChild name => exact level_pass_get hb h
  | addChild name child => exact level_pass_add hb h
  | renameChild oldName newName => exact level_pass_rename hb h
  | deleteChild name => exact level_pass_delete hb h

end

/-! ### The whole tree -/

/-- Every branch is in one place of the tree at most, and the root in none. -/
structure IsTree (k : Classes ο) (t : Forest ο) (root : ο) : Prop where
  branch : k.isBranch root = true
  top : ∀ b n, k.isBranch b = true → t b n ≠ some root
  unique : ∀ b b' n n' c, k.isBranch b = true → k.isBranch b' = true → k.isBranch c = true →
    t b n = some c → t b' n' = some c → b = b' ∧ n = n'

section
omit [DecidableEq ο]

theorem view_concat : view k t b (p ++ [n]) =
    (view k t b p).bind fun y => if k.isBranch y then t y n else none := by
  rw [view_append]
  refine congrArg _ (funext fun y => ?_)
  rw [view]
  split
  next => cases t y n <;> rfl
  next => rfl

theorem view_concat_eq_some (h : view k t b (p ++ [n]) = some x) :
    ∃ y, view k t b p = some y ∧ k.isBranch y = true ∧ t y n = some x := by
  rw [view_concat] at h
  obtain ⟨y, hy, hx⟩ := Option.bind_eq_some_iff.mp h
  split at hx
  next hbranch => exact ⟨y, hy, hbranch, hx⟩
  next => cases hx

/-- There is one way to a branch. -/
theorem IsTree.path_unique (h : IsTree k t root) (hx : k.isBranch x = true) (hp : view k t root p = some x)
    (hq : view k t root q = some x) : p = q := by
  induction p using List.reverseRecOn generalizing q x with
  | nil =>
      cases hp
      rcases List.eq_nil_or_concat' q with rfl | ⟨q, n, rfl⟩
      · rfl
      · obtain ⟨y, -, hy, hroot⟩ := view_concat_eq_some hq
        exact absurd hroot (h.top y n hy)
  | append_singleton p n ih =>
      obtain ⟨y, hy, hbranch, hxn⟩ := view_concat_eq_some hp
      rcases List.eq_nil_or_concat' q with rfl | ⟨q, m, rfl⟩
      · cases hq
        exact absurd hxn (h.top y n hbranch)
      · obtain ⟨z, hz, hbranch', hxm⟩ := view_concat_eq_some hq
        obtain ⟨rfl, rfl⟩ := h.unique y z n m x hbranch hbranch' hx hxn hxm
        rw [ih hbranch hy hz]

/-- An object that is nowhere in the tree: no branch of the tree is below it. -/
theorem IsTree.not_below (h : IsTree k t root) (hc : c ≠ root)
    (hnew : ∀ b n, k.isBranch b = true → t b n ≠ some c) (hx : k.isBranch x = true)
    (hp : view k t root p = some x) (d : List Name) : view k t c d ≠ some x := by
  intro hd
  induction d using List.reverseRecOn generalizing p x with
  | nil =>
      cases hd
      rcases List.eq_nil_or_concat' p with rfl | ⟨p, n, rfl⟩
      · cases hp
        exact hc rfl
      · obtain ⟨y, -, hy, hcn⟩ := view_concat_eq_some hp
        exact hnew y n hy hcn
  | append_singleton d n ih =>
      obtain ⟨y, hy, hbranch, hxn⟩ := view_concat_eq_some hd
      rcases List.eq_nil_or_concat' p with rfl | ⟨p, m, rfl⟩
      · cases hp
        exact h.top y n hbranch hxn
      · obtain ⟨z, hz, hbranch', hxm⟩ := view_concat_eq_some hp
        obtain ⟨rfl, -⟩ := h.unique y z n m x hbranch hbranch' hx hxn hxm
        exact ih hbranch hz hy

end

/-- Other branches are looked through as before. -/
theorem view_update_of_not_below (h : ∀ d, view k t y d ≠ some x) : view k (update t x ch) y = view k t y := by
  funext q
  induction q using List.reverseRecOn with
  | nil => rfl
  | append_singleton q n ih =>
      rw [view_concat, view_concat, ih]
      cases hz : view k t y q with
      | none => rfl
      | some z =>
          have hne : z ≠ x := by
            rintro rfl
            exact h q hz
          rw [Option.bind_some, Option.bind_some, update_of_ne hne]

theorem IsTree.view_update_of_not_prefix (h : IsTree k t root) (hx : k.isBranch x = true)
    (hp : view k t root p = some x) (hq : ∀ r ≠ [], q ≠ p ++ r) :
    view k (update t x ch) root q = view k t root q := by
  induction q using List.reverseRecOn with
  | nil => rfl
  | append_singleton q n ih =>
      have hbefore : ∀ r ≠ [], q ≠ p ++ r := by
        rintro r hr rfl
        exact hq (r ++ [n]) (by simp) (List.append_assoc ..)
      rw [view_concat, view_concat, ih hbefore]
      cases hz : view k t root q with
      | none => rfl
      | some z =>
          have hne : z ≠ x := by
            rintro rfl
            rw [h.path_unique hx hz hp] at hq
            exact hq [n] (by simp) rfl
          rw [Option.bind_some, Option.bind_some, update_of_ne hne]

/-- The children of one branch have changed. -/
theorem IsTree.view_update (h : IsTree k t root) (hx : k.isBranch x = true) (hp : view k t root p = some x)
    (hch : ∀ n c, ch n = some c → ∀ d, view k t c d ≠ some x) :
    view k (update t x ch) root = graft (view k t root) p (viewOf k t x ch) := by
  funext q
  by_cases hq : p <+: q
  · obtain ⟨r, rfl⟩ := hq
    have hfound : view k (update t x ch) root p = some x := by
      rw [h.view_update_of_not_prefix hx hp, hp]
      intro r hr heq
      exact hr (List.append_right_eq_self.mp heq.symm)
    rw [graft_append_self, view_append, hfound, Option.bind_some]
    cases r with
    | nil => rfl
    | cons n ns =>
        rw [view_cons hx, update_self, viewOf]
        cases hc : ch n with
        | none => rfl
        | some c => rw [Option.bind_some, Option.bind_some, view_update_of_not_below (hch n c hc)]
  · rw [graft_of_not hq, h.view_update_of_not_prefix hx hp]
    rintro r - rfl
    exact hq (List.prefix_append p r)

/-! ### Runs -/

/-- A branch that a call adds is nowhere in the tree yet. -/
def New (k : Classes ο) (t : Forest ο) (root : ο) (c : Call ο) : Prop :=
  ∀ y, c.added = some y → k.isBranch y = true → y ≠ root ∧ ∀ b n, k.isBranch b = true → t b n ≠ some y

/-- A call comes to a branch in which it ends. -/
theorem call_ends (hb : k.isBranch b = true) (c : Call ο) : ∃ p x c' answer ch,
    view k t b p = some x ∧ k.isBranch x = true ∧ level k (t x) c' = .done answer ch ∧ c'.added = c.added ∧
      call k t b c = (answer, update t x ch) ∧ ∀ sub, PathMap.call k sub (view k t b) c =
        ((PathMap.call k sub (view k t x) c').1,
          graft (view k t b) p (PathMap.call k sub (view k t x) c').2) := by
  induction hsize : c.size using Nat.strongRecOn generalizing b c with
  | _ size ih =>
      cases hlevel : level k (t b) c with
      | done answer ch =>
          refine ⟨[], b, c, answer, ch, rfl, hb, hlevel, rfl, call_done hlevel, fun sub => ?_⟩
          rw [graft_nil]
      | pass b' c' =>
          obtain ⟨-, hb', hlt, hadded⟩ := level_pass hlevel
          obtain ⟨p, x, c'', answer, ch, hp, hx, hdone, hadded', hcall, hview⟩ := ih _ (hsize ▸ hlt) hb' c' rfl
          obtain ⟨hfound, -⟩ := @level_pass_view ο k t b b' c c' (fun _ _ => none) hb hlevel
          have hbelow : below (view k t b) [c.firstPart] = view k t b' :=
            below_view ((view_single hb _).trans hfound)
          refine ⟨c.firstPart :: p, x, c'', answer, ch, ?_, hx, hdone, hadded'.trans hadded,
            (call_pass hlevel).trans hcall, fun sub => ?_⟩
          · rw [view_cons hb, hfound, Option.bind_some, hp]
          · have hgraft : ∀ m, graft (view k t b) (c.firstPart :: p) m =
                graft (view k t b) [c.firstPart] (graft (view k t b') p m) := by
              intro m
              rw [← hbelow]
              exact graft_append (p := [c.firstPart])
            rw [(level_pass_view hb hlevel).2, hview sub, hgraft]

/-- **A call does to the map what `PathMap.call` says.** -/
theorem call_view {c : Call ο} (h : IsTree k t root) (hnew : New k t root c) :
    PathMap.call k (view k t) (view k t root) c =
      ((call k t root c).1, view k (call k t root c).2 root) := by
  obtain ⟨p, x, c', answer, ch, hp, hx, hdone, hadded, hcall, hview⟩ := call_ends h.branch c
  rw [hview, level_view hx hdone, hcall, h.view_update hx hp]
  intro n y hy d hd
  rcases (level_changes hdone).child hy with ⟨m, hm⟩ | hy
  · have hback : view k t root (p ++ m :: d) = some x := by
      rw [view_append, hp, Option.bind_some, view_cons hx, hm, Option.bind_some, hd]
    have := congrArg List.length (h.path_unique hx hback hp)
    simp at this
  · cases hbranch : k.isBranch y with
    | false =>
        by_cases hd' : d = []
        · subst hd'
          cases hd
          rw [hx] at hbranch
          cases hbranch
        · rw [view_leaf hbranch hd'] at hd
          cases hd
    | true =>
        obtain ⟨hne, hplace⟩ := hnew y (hadded ▸ hy) hbranch
        exact h.not_below hne hplace hx hp d hd

variable {c₀ : Call ο}

omit [DecidableEq ο] in
/-- In one branch a child branch has one name. -/
theorem Changes.injective (h : Changes (t x) c₀ ch) (hx : k.isBranch x = true) (ht : IsTree k t root)
    (hnew : New k t root c₀) (hy : k.isBranch y = true) {n n' : Name} (hn : ch n = some y)
    (hn' : ch n' = some y) : n = n' := by
  have hinj : ∀ m m', t x m = some y → t x m' = some y → m = m' := fun m m' hm hm' =>
    (ht.unique x x m m' y hx hx hy hm hm').2
  cases h with
  | same => exact hinj n n' hn hn'
  | insert =>
      rcases insert_eq_some hn with hm | ⟨rfl, hm⟩ <;> rcases insert_eq_some hn' with hm' | ⟨rfl, hm'⟩
      · exact hinj n n' hm hm'
      · exact absurd hm ((hnew y hm' hy).2 x n hx)
      · exact absurd hm' ((hnew y hm hy).2 x n' hx)
      · rfl
  | rename hl =>
      rcases insert_eq_some hn with hm | ⟨rfl, hm⟩ <;> rcases insert_eq_some hn' with hm' | ⟨rfl, hm'⟩
      · exact hinj n n' (erase_eq_some.mp hm).2 (erase_eq_some.mp hm').2
      · exact absurd (hinj n _ (erase_eq_some.mp hm).2 (hl.trans hm')) (erase_eq_some.mp hm).1
      · exact absurd (hinj n' _ (erase_eq_some.mp hm').2 (hl.trans hm)) (erase_eq_some.mp hm').1
      · rfl
  | erase => exact hinj n n' (erase_eq_some.mp hn).2 (erase_eq_some.mp hn').2

theorem IsTree.update (h : IsTree k t root) (hx : k.isBranch x = true) (hch : Changes (t x) c₀ ch)
    (hnew : New k t root c₀) : IsTree k (update t x ch) root := by
  have hplace : ∀ b n y, Function.update t x ch b n = some y →
      (∃ m, t b m = some y) ∨ b = x ∧ c₀.added = some y := by
    intro b n y hn
    by_cases hb : b = x
    · subst hb
      rw [update_self] at hn
      exact (hch.child hn).imp id fun hy => ⟨rfl, hy⟩
    · rw [update_of_ne hb] at hn
      exact .inl ⟨n, hn⟩
  refine ⟨h.branch, fun b n hb hn => ?_, fun b b' n n' y hb hb' hy hn hn' => ?_⟩
  · rcases hplace b n root hn with ⟨m, hm⟩ | ⟨-, hadded⟩
    · exact h.top b m hb hm
    · exact (hnew root hadded h.branch).1 rfl
  · have hsame : b = b' := by
      rcases hplace b n y hn with ⟨m, hm⟩ | ⟨rfl, hadded⟩ <;>
        rcases hplace b' n' y hn' with ⟨m', hm'⟩ | ⟨rfl, hadded'⟩
      · exact (h.unique b b' m m' y hb hb' hy hm hm').1
      · exact absurd hm ((hnew y hadded' hy).2 b m hb)
      · exact absurd hm' ((hnew y hadded hy).2 b' m' hb')
      · rfl
    subst hsame
    refine ⟨rfl, ?_⟩
    by_cases hbx : b = x
    · subst hbx
      rw [update_self] at hn hn'
      exact hch.injective hb h hnew hy hn hn'
    · rw [update_of_ne hbx] at hn hn'
      exact (h.unique b b n n' y hb hb hy hn hn').2

theorem IsTree.call (h : IsTree k t root) (hb : k.isBranch b = true) (hnew : New k t root c₀) :
    IsTree k (call k t b c₀).2 root := by
  obtain ⟨p, x, c', answer, ch, -, hx, hdone, hadded, hcall, -⟩ := call_ends (t := t) hb c₀
  rw [hcall]
  exact h.update hx (level_changes hdone) fun y hy => hnew y (hadded ▸ hy)

/-- A call on a branch. -/
def callStep (k : Classes ο) (t : Forest ο) (i : ο × Call ο) : Option (Forest ο) := some (call k t i.1 i.2).2

/-- What is called is a branch, and no branch is added that is in the tree already. -/
def Proper (k : Classes ο) (root : ο) (t : Forest ο) (i : ο × Call ο) : Prop :=
  k.isBranch i.1 = true ∧ New k t root i.2

/-- `get_child` of a child of the branch itself. -/
theorem call_getChild (hname : find n = none) : call k t b (.getChild n) =
    ((if (t b n).isSome then .noError else .notFound, t b n), t) := by
  have hsplit : splitName n false = (n, []) := by
    rw [splitName, if_neg Bool.false_ne_true, hname]
  have hlevel : level k (t b) (.getChild n) =
      .done (if (t b n).isSome then .noError else .notFound, t b n) (t b) := by
    simp only [level, hsplit]
    cases t b n <;> rfl
  rw [call_done hlevel, update_eq_self]

/-- **`create_child`** finds the branch at the path in front of the last part, and adds the new object there. -/
theorem createChildCall_eq (hb : k.isBranch b = true) (name : Name) (new : ο) :
    createChildCall k t b name new =
      if PathMap.route k .invalidOp (view k t b) (getPath name).dropLast ≠ .noError then
        ((PathMap.route k .invalidOp (view k t b) (getPath name).dropLast, none), t)
      else if ((view k t b (getPath name).dropLast).filter k.createsLeaves).isNone then ((.invalidOp, none), t)
      else call k t b (.addChild name (some new)) := by
  induction hsize : name.length using Nat.strongRecOn generalizing b name with
  | _ size ih =>
      rw [createChildCall]
      have hhere : (splitName name false).2 = [] → (getPath name).dropLast = [] := by
        intro hrest
        rw [splitName, if_neg Bool.false_ne_true] at hrest
        cases hfind : find name with
        | none => rw [getPath_of_none hfind]; rfl
        | some i =>
            rw [hfind] at hrest
            rw [getPath_of_some hfind, if_pos hrest]
            rfl
      by_cases hrest : (splitName name false).2 = []
      · rw [if_pos hrest, hhere hrest]
        change _ = if ErrCode.noError ≠ .noError then _ else
          if ((some b).filter k.createsLeaves).isNone then _ else _
        rw [if_neg (not_not.mpr rfl), Option.filter_some]
        cases k.createsLeaves b <;> rfl
      · rw [if_neg hrest]
        cases hfind : find name with
        | none =>
            rw [splitName, if_neg Bool.false_ne_true, hfind] at hrest
            exact absurd rfl hrest
        | some i =>
            have hsplit : splitName name false = (name.take i, name.drop (i + 1)) := by
              rw [splitName, if_neg Bool.false_ne_true, hfind]
            rw [hsplit] at hrest ⊢
            dsimp only at hrest ⊢
            have hpath : (getPath name).dropLast = name.take i :: (getPath (name.drop (i + 1))).dropLast := by
              rw [getPath_of_some hfind, if_neg hrest, List.dropLast_cons_of_ne_nil (getPath_ne_nil _)]
            have hsingle := view_single (t := t) hb (name.take i)
            rw [call_getChild (find_eq_none.mpr (find_eq_some hfind).2), hpath]
            cases hchild : t b (name.take i) with
            | none => rw [route_none (hsingle.trans hchild)]; rfl
            | some x =>
                rw [hchild] at hsingle
                cases hx : k.isBranch x with
                | false =>
                    rw [route_leaf hsingle hx]
                    simp [Option.filter_some, hx]
                | true =>
                    have hpass : level k (t b) (.addChild name (some new)) =
                        .pass x (.addChild (name.drop (i + 1)) (some new)) := by
                      have hne : name ≠ [] := by
                        rintro rfl
                        cases hfind
                      simp [level, hne, hfind, hchild, hx]
                    rw [route_branch hsingle hx, below_view hsingle, view_cons hb, hchild, Option.bind_some,
                      call_pass hpass, ← ih _ (hsize ▸ drop_length_lt hfind) hx _ rfl]
                    simp [Option.filter_some, hx]

theorem createChild_view {new : ο} (h : IsTree k t root) (hnew : New k t root (.addChild name (some new))) :
    PathMap.createChild k (view k t) (view k t root) name new =
      ((createChildCall k t root name new).1, view k (createChildCall k t root name new).2 root) := by
  rw [createChildCall_eq h.branch, PathMap.createChild]
  split_ifs
  · rfl
  · rfl
  · exact call_view h hnew

/-- A branch that a call on the root adds is nowhere in the tree yet. -/
def NewInTree (k : Classes ο) (t : Forest ο) (root : ο) (c : RootCall ο) : Prop :=
  ∀ y, c.added = some y → k.isBranch y = true → y ≠ root ∧ ∀ b n, k.isBranch b = true → t b n ≠ some y

theorem rootCall_view {c : RootCall ο} (h : IsTree k t root) (hnew : NewInTree k t root c) :
    PathMap.rootCall k (view k t) (view k t root) c =
      ((rootCall k t root c).1, view k (rootCall k t root c).2 root) := by
  cases c with
  | createChild name new =>
      simp only [PathMap.rootCall, rootCall]
      split_ifs
      · rfl
      · exact createChild_view h hnew
  | of c =>
      have hcall : ∀ c', c'.added = c.added → PathMap.call k (view k t) (view k t root) c' =
          ((call k t root c').1, view k (call k t root c').2 root) :=
        fun c' hadded => call_view h fun y hy => hnew y (hadded.symm.trans hy)
      cases c with
      | getChild name =>
          simp only [PathMap.rootCall, rootCall]
          split_ifs
          · rfl
          · rfl
          · exact hcall _ rfl
      | addChild name child =>
          simp only [PathMap.rootCall, rootCall]
          split_ifs
          · rfl
          · exact hcall _ rfl
      | renameChild oldName newName =>
          simp only [PathMap.rootCall, rootCall]
          split_ifs
          · rfl
          · exact hcall _ rfl
      | deleteChild name =>
          simp only [PathMap.rootCall, rootCall]
          split_ifs
          · rfl
          · rfl
          · exact hcall _ rfl

/-- **The system tree is a map from paths.**  After any calls on branches, those that `create_child` makes too, as
long as no branch is put in a second place, what a call on `system_tree_root` answers and what it changes is what
`PathMap.rootCall` says of the map, and of the map alone. -/
theorem system_tree_refines {t₀ : Forest ο} (h₀ : IsTree k t₀ root)
    (h : Reach (callStep k) (Proper k root) t₀ t) :
    IsTree k t root ∧ ∀ c, NewInTree k t root c → PathMap.rootCall k (view k t) (view k t root) c =
      ((rootCall k t root c).1, view k (rootCall k t root c).2 root) := by
  have htree : IsTree k t root := by
    refine h.invariant (I := fun t => IsTree k t root) h₀ ?_
    rintro t ⟨b, c⟩ t' h ⟨hb, hnew⟩ hs
    cases hs
    exact h.call hb hnew
  exact ⟨htree, fun c hnew => rootCall_view htree hnew⟩

/-- A branch has been added, and a file is created in it. -/
theorem system_tree_refines_add : ∃ t : Forest (Fin 4), t 0 [97] = some 1 ∧
    PathMap.rootCall smallTree (view smallTree t) (view smallTree t 0) (.createChild [92, 97, 92, 120] 2) =
      ((rootCall smallTree t 0 (.createChild [92, 97, 92, 120] 2)).1,
        view smallTree (rootCall smallTree t 0 (.createChild [92, 97, 92, 120] 2)).2 0) := by
  have hempty : IsTree smallTree (fun _ _ => none) 0 := ⟨rfl, by simp, by simp⟩
  have hstep : Reach (callStep smallTree) (Proper smallTree 0) (fun _ _ => none)
      (call smallTree (fun _ _ => none) 0 (.addChild [97] (some 1))).2 := by
    refine .step (0, .addChild [97] (some 1)) .refl ⟨rfl, fun y hy _ => ?_⟩ rfl
    cases hy
    exact ⟨by decide, by simp⟩
  refine ⟨_, ?_, (system_tree_refines hempty hstep).2 _ fun y hy hbranch => ?_⟩
  · rw [call_done (by rfl)]
    rfl
  · cases hy
    cases hbranch

end Azalea.Tree
