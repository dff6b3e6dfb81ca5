import Azalea.Syscall.Validation

/-!
# Syscall — handles and paths

The calls of `syscall/syscall_handles.cpp` that are given a path: `syscall_open_handle`,
`syscall_create_obj_and_handle`, `syscall_rename_object` and `syscall_delete_object`.  The system tree is
a parameter, with what its operations answer; a path is read from the memory of the caller.

`paths_bounded_iff`: two memories that agree on the bytes of the path arguments give the same outcome
exactly if the strings that the source makes of the pointers up to the next zero byte agree too, and
opening looks up the name it creates exactly if that string is as long as `path_len` says.  The source
makes the bounded strings, and gives the tree the pointers (`paths_unbounded`).
-/

namespace Azalea.Syscall

/-- A name, as the bytes of a string. -/
abbrev Name := List UInt8

/-- `std::string(path, length)`. -/
def stringOf (mem : Memory) (path : BitVec 64) (length : Nat) : Name :=
  (List.range length).map fun i => mem (path + BitVec.ofNat 64 i)

/-- The bytes before the first zero byte, of the next `n`. -/
def cStringFrom (mem : Memory) : Nat → BitVec 64 → Name
  | 0, _ => []
  | n + 1, path => if mem path = 0 then [] else mem path :: cStringFrom mem n (path + 1)

/-- `std::string(path)`.  A memory without a zero byte is read once round. -/
def cString (mem : Memory) (path : BitVec 64) : Name := cStringFrom mem (2 ^ 64) path

/-- What a lookup or a creation in the tree leaves behind. -/
structure TreeAnswer (τ ℓ : Type*) where
  result : ErrCode
  leaf : ℓ
  tree : τ

/-- `system_tree()`. -/
structure SystemTree (τ ℓ : Type*) where
  getChild : τ → Name → TreeAnswer τ ℓ
  createChild : τ → Name → TreeAnswer τ ℓ
  renameChild : τ → Name → Name → ErrCode × τ
  deleteChild : τ → Name → ErrCode × τ

/-- What a call leaves behind. -/
structure PathOutcome (τ ℓ : Type*) where
  result : ErrCode
  tree : τ
  /-- The object a handle has been made for, which is stored through `handle`. -/
  opened : Option ℓ
  /-- What has been accessed through the pointers. -/
  accesses : List Range

variable {τ ℓ : Type*}

/-- `syscall_create_obj_and_handle`; the string is made before the parameters are looked at. -/
def syscallCreateObjAndHandle (T : SystemTree τ ℓ) (mem : Memory) (path pathLen handle : BitVec 64)
    (t : τ) : PathOutcome τ ℓ :=
  let reqPath := stringOf mem path pathLen.toNat
  let accesses : List Range := [⟨path, pathLen.toNat⟩]
  if path = 0 ∨ isUmAddress path = false ∨ pathLen = 0 ∨ handle = 0 ∨ isUmAddress handle = false then
    ⟨.invalidParam, t, none, accesses⟩
  else
    let r := T.createChild t reqPath
    if r.result = .noError then ⟨.noError, r.tree, some r.leaf, accesses ++ [⟨handle, 8⟩]⟩
    else ⟨r.result, r.tree, none, accesses⟩

/-- `H_CREATE_IF_NEW`. -/
def hCreateIfNew : BitVec 32 := 1

/-- `syscall_open_handle`; the copy in `buf` is made and not used. -/
def syscallOpenHandle (T : SystemTree τ ℓ) (curThread : Bool) (mem : Memory)
    (path pathLen handle : BitVec 64) (flags : BitVec 32) (t : τ) : PathOutcome τ ℓ :=
  if path = 0 ∨ isUmAddress path = false then ⟨.invalidParam, t, none, []⟩
  else if handle = 0 ∨ isUmAddress handle = false then ⟨.invalidParam, t, none, []⟩
  else if pathLen = 0 then ⟨.invalidParam, t, none, []⟩
  else if curThread = false then ⟨.invalidOp, t, none, []⟩
  else
    let strPath := cString mem path
    let accesses : List Range := [⟨path, pathLen.toNat⟩, ⟨path, strPath.length + 1⟩]
    let r := T.getChild t strPath
    if r.result = .noError then ⟨.noError, r.tree, some r.leaf, accesses ++ [⟨handle, 8⟩]⟩
    else if r.result = .notFound ∧ flags &&& hCreateIfNew ≠ 0 then
      let made := syscallCreateObjAndHandle T mem path pathLen handle r.tree
      { made with accesses := accesses ++ made.accesses }
    else ⟨r.result, r.tree, none, accesses⟩

/-- `syscall_rename_object`; the strings of the given lengths are made and not used. -/
def syscallRenameObject (T : SystemTree τ ℓ) (mem : Memory)
    (oldName oldNameLen newName newNameLen : BitVec 64) (t : τ) : PathOutcome τ ℓ :=
  if isUmAddress oldName = false ∨ isUmAddress newName = false ∨ oldName = 0 ∨ newName = 0 then
    ⟨.invalidParam, t, none, []⟩
  else
    let r := T.renameChild t (cString mem oldName) (cString mem newName)
    ⟨r.1, r.2, none, [⟨oldName, oldNameLen.toNat⟩, ⟨newName, newNameLen.toNat⟩,
      ⟨oldName, (cString mem oldName).length + 1⟩, ⟨newName, (cString mem newName).length + 1⟩]⟩

/-- `syscall_delete_object`; the string of the given length is made and not used. -/
def syscallDeleteObject (T : SystemTree τ ℓ) (mem : Memory) (path pathLen : BitVec 64) (t : τ) :
    PathOutcome τ ℓ :=
  if isUmAddress path = false ∨ path = 0 then ⟨.invalidParam, t, none, []⟩
  else
    let r := T.deleteChild t (cString mem path)
    ⟨r.1, r.2, none, [⟨path, pathLen.toNat⟩, ⟨path, (cString mem path).length + 1⟩]⟩

/-! ### Two memories -/

/-- A call with path arguments. -/
inductive PathCall where
  | openHandle (path pathLen handle : BitVec 64) (flags : BitVec 32)
  | create (path pathLen handle : BitVec 64)
  | rename (oldName oldNameLen newName newNameLen : BitVec 64)
  | delete (path pathLen : BitVec 64)

/-- The outcome of a call. -/
def PathCall.run (T : SystemTree τ ℓ) (curThread : Bool) (mem : Memory) (t : τ) :
    PathCall → PathOutcome τ ℓ
  | .openHandle path pathLen handle flags =>
      syscallOpenHandle T curThread mem path pathLen handle flags t
  | .create path pathLen handle => syscallCreateObjAndHandle T mem path pathLen handle t
  | .rename oldName oldNameLen newName newNameLen =>
      syscallRenameObject T mem oldName oldNameLen newName newNameLen t
  | .delete path pathLen => syscallDeleteObject T mem path pathLen t

/-- The memories agree on the bytes of the path arguments. -/
def PathCall.Agree (mem mem' : Memory) : PathCall → Prop
  | .openHandle path pathLen _ _ | .create path pathLen _ | .delete path pathLen =>
      stringOf mem path pathLen.toNat = stringOf mem' path pathLen.toNat
  | .rename oldName oldNameLen newName newNameLen =>
      stringOf mem oldName oldNameLen.toNat = stringOf mem' oldName oldNameLen.toNat ∧
        stringOf mem newName newNameLen.toNat = stringOf mem' newName newNameLen.toNat

instance (mem mem' : Memory) (call : PathCall) : Decidable (call.Agree mem mem') :=
  match call with
  | .openHandle .. | .create .. | .delete .. => inferInstanceAs (Decidable (_ = _))
  | .rename .. => inferInstanceAs (Decidable (_ ∧ _))

/-- Two outcomes are the same for the caller and for the tree. -/
structure PathOutcome.Same (o o' : PathOutcome τ ℓ) : Prop where
  result : o.result = o'.result
  tree : o.tree = o'.tree
  opened : o.opened = o'.opened

/-- Whatever is in the tree, the call does the same with both memories. -/
def PathCall.SameOutcome (mem mem' : Memory) (call : PathCall) : Prop :=
  ∀ (τ ℓ : Type) (T : SystemTree τ ℓ) (curThread : Bool) (t : τ),
    (call.run T curThread mem t).Same (call.run T curThread mem' t)

/-- A name the tree has been given. -/
inductive TreeCall where
  | get (name : Name)
  | create (name : Name)
  | rename (oldName newName : Name)
  | delete (name : Name)
  deriving DecidableEq

/-- A tree that finds nothing, and keeps the names it is given. -/
def logTree : SystemTree (List TreeCall) Unit where
  getChild log name := ⟨.notFound, (), log ++ [.get name]⟩
  createChild log name := ⟨.noError, (), log ++ [.create name]⟩
  renameChild log oldName newName := (.noError, log ++ [.rename oldName newName])
  deleteChild log name := (.noError, log ++ [.delete name])

/-- What a call looks up, and then creates, has one name. -/
def PathCall.OneName (mem : Memory) (call : PathCall) : Prop :=
  ∀ name name', (call.run logTree true mem []).tree = [.get name, .create name'] → name = name'

/-- The checks of `syscall_open_handle`. -/
def OpenAccepted (path pathLen handle : BitVec 64) : Prop :=
  ¬ (path = 0 ∨ isUmAddress path = false) ∧ ¬ (handle = 0 ∨ isUmAddress handle = false) ∧ pathLen ≠ 0

/-- The condition: the strings up to the next zero byte are the same in both memories, and one that may
be created ends where `path_len` says. -/
def PathCall.Terminated (mem mem' : Memory) : PathCall → Prop
  | .openHandle path pathLen handle flags =>
      OpenAccepted path pathLen handle → cString mem path = cString mem' path ∧
        (flags &&& hCreateIfNew ≠ 0 → cString mem path = stringOf mem path pathLen.toNat)
  | .create _ _ _ => True
  | .rename oldName _ newName _ =>
      ¬ (isUmAddress oldName = false ∨ isUmAddress newName = false ∨ oldName = 0 ∨ newName = 0) →
        cString mem oldName = cString mem' oldName ∧ cString mem newName = cString mem' newName
  | .delete path _ =>
      ¬ (isUmAddress path = false ∨ path = 0) → cString mem path = cString mem' path

section TwoMemories

variable {mem mem' : Memory} {path pathLen handle : BitVec 64} {flags : BitVec 32}

theorem PathOutcome.Same.rfl {o : PathOutcome τ ℓ} : o.Same o := ⟨Eq.refl _, Eq.refl _, Eq.refl _⟩

/-- Creating uses the bytes of the path only. -/
theorem create_same (T : SystemTree τ ℓ) (t : τ)
    (hagree : stringOf mem path pathLen.toNat = stringOf mem' path pathLen.toNat) :
    syscallCreateObjAndHandle T mem path pathLen handle t =
      syscallCreateObjAndHandle T mem' path pathLen handle t := by
  simp only [syscallCreateObjAndHandle, hagree]

theorem open_accepted (T : SystemTree τ ℓ) (t : τ) (h : OpenAccepted path pathLen handle) :
    syscallOpenHandle T true mem path pathLen handle flags t =
      let strPath := cString mem path
      let accesses : List Range := [⟨path, pathLen.toNat⟩, ⟨path, strPath.length + 1⟩]
      let r := T.getChild t strPath
      if r.result = .noError then ⟨.noError, r.tree, some r.leaf, accesses ++ [⟨handle, 8⟩]⟩
      else if r.result = .notFound ∧ flags &&& hCreateIfNew ≠ 0 then
        let made := syscallCreateObjAndHandle T mem path pathLen handle r.tree
        { made with accesses := accesses ++ made.accesses }
      else ⟨r.result, r.tree, none, accesses⟩ := by
  obtain ⟨hpath, hhandle, hlen⟩ := h
  simp only [syscallOpenHandle, if_neg hpath, if_neg hhandle, if_neg hlen, Bool.true_eq_false, if_false]

theorem open_refused (T : SystemTree τ ℓ) (curThread : Bool) (t : τ)
    (h : ¬ OpenAccepted path pathLen handle) :
    syscallOpenHandle T curThread mem path pathLen handle flags t = ⟨.invalidParam, t, none, []⟩ := by
  unfold syscallOpenHandle
  split
  · rfl
  split
  · rfl
  split
  · rfl
  next hpath hhandle hlen => exact absurd ⟨hpath, hhandle, hlen⟩ h

theorem open_no_thread (T : SystemTree τ ℓ) (t : τ) (h : OpenAccepted path pathLen handle) :
    syscallOpenHandle T false mem path pathLen handle flags t = ⟨.invalidOp, t, none, []⟩ := by
  obtain ⟨hpath, hhandle, hlen⟩ := h
  simp only [syscallOpenHandle, if_neg hpath, if_neg hhandle, if_neg hlen, if_true]

/-- The names that opening gives the tree. -/
theorem open_logTree (h : OpenAccepted path pathLen handle) :
    (syscallOpenHandle logTree true mem path pathLen handle flags []).tree =
      .get (cString mem path) ::
        if flags &&& hCreateIfNew ≠ 0 then [.create (stringOf mem path pathLen.toNat)] else [] := by
  have hcreate : ¬ (path = 0 ∨ isUmAddress path = false ∨ pathLen = 0 ∨ handle = 0 ∨
      isUmAddress handle = false) := by
    obtain ⟨hpath, hhandle, hlen⟩ := h
    tauto
  simp only [open_accepted _ _ h, syscallCreateObjAndHandle, if_neg hcreate, logTree, reduceCtorEq,
    if_false, if_true, true_and, List.nil_append]
  split
  · simp
  · simp

theorem openHandle_same_iff
    (hagree : stringOf mem path pathLen.toNat = stringOf mem' path pathLen.toNat) :
    PathCall.SameOutcome mem mem' (.openHandle path pathLen handle flags) ↔
      (OpenAccepted path pathLen handle → cString mem path = cString mem' path) := by
  constructor
  · intro hsame hacc
    -- a tree that keeps the names it looks up tells the two strings apart
    have htree := (hsame _ _ logTree true []).tree
    rw [PathCall.run, PathCall.run, open_logTree hacc, open_logTree hacc] at htree
    exact TreeCall.get.inj (List.cons.inj htree).1
  · intro h τ ℓ T curThread t
    by_cases hacc : OpenAccepted path pathLen handle
    · cases curThread with
      | false =>
          simp only [PathCall.run, open_no_thread _ _ hacc]
          exact .rfl
      | true =>
          simp only [PathCall.run, open_accepted _ _ hacc, h hacc, create_same T _ hagree]
          exact .rfl
    · simp only [PathCall.run, open_refused _ _ _ hacc]
      exact .rfl

theorem openHandle_oneName_iff :
    PathCall.OneName mem (.openHandle path pathLen handle flags) ↔
      (OpenAccepted path pathLen handle → flags &&& hCreateIfNew ≠ 0 →
        cString mem path = stringOf mem path pathLen.toNat) := by
  constructor
  · intro hone hacc hflags
    refine hone _ _ ?_
    rw [PathCall.run, open_logTree hacc, if_pos hflags]
  · intro h name name' htree
    by_cases hacc : OpenAccepted path pathLen handle
    · rw [PathCall.run, open_logTree hacc] at htree
      by_cases hflags : flags &&& hCreateIfNew ≠ 0
      · rw [if_pos hflags] at htree
        obtain ⟨hname, htree⟩ := List.cons.inj htree
        rw [← TreeCall.get.inj hname, ← TreeCall.create.inj (List.cons.inj htree).1]
        exact h hacc hflags
      · rw [if_neg hflags] at htree
        cases (List.cons.inj htree).2
    · rw [PathCall.run, open_refused _ _ _ hacc] at htree
      cases htree

theorem rename_same_iff {oldName oldNameLen newName newNameLen : BitVec 64} :
    PathCall.SameOutcome mem mem' (.rename oldName oldNameLen newName newNameLen) ↔
      PathCall.Terminated mem mem' (.rename oldName oldNameLen newName newNameLen) := by
  constructor
  · intro hsame hacc
    have htree := (hsame _ _ logTree true []).tree
    simp only [PathCall.run, syscallRenameObject, if_neg hacc, logTree, List.nil_append] at htree
    exact TreeCall.rename.inj (List.cons.inj htree).1
  · intro h τ ℓ T curThread t
    simp only [PathCall.run, syscallRenameObject]
    split
    next => exact .rfl
    next hacc =>
      obtain ⟨hold, hnew⟩ := h hacc
      rw [hold, hnew]
      exact .rfl

theorem delete_same_iff :
    PathCall.SameOutcome mem mem' (.delete path pathLen) ↔
      PathCall.Terminated mem mem' (.delete path pathLen) := by
  constructor
  · intro hsame hacc
    have htree := (hsame _ _ logTree true []).tree
    simp only [PathCall.run, syscallDeleteObject, if_neg hacc, logTree, List.nil_append] at htree
    exact TreeCall.delete.inj (List.cons.inj htree).1
  · intro h τ ℓ T curThread t
    simp only [PathCall.run, syscallDeleteObject]
    split
    next => exact .rfl
    next hacc =>
      rw [h hacc]
      exact .rfl

end TwoMemories

/-- A call that does not look a name up before it creates it. -/
theorem oneName_of_not_open {mem : Memory} {call : PathCall}
    (h : ∀ name, (call.run logTree true mem []).tree.head? ≠ some (.get name)) : call.OneName mem := by
  intro name name' htree
  exact absurd (by rw [htree]; rfl) (h name)

/-- Two memories that agree on the path arguments give the same outcome, and opening looks up the name it
creates, exactly if the strings that the pointers lead to are the same and of the given length. -/
theorem paths_bounded_iff {mem mem' : Memory} (call : PathCall) (hagree : call.Agree mem mem') :
    (call.SameOutcome mem mem' ∧ call.OneName mem ∧ call.OneName mem') ↔
      call.Terminated mem mem' := by
  cases call with
  | openHandle path pathLen handle flags =>
      rw [openHandle_same_iff hagree, openHandle_oneName_iff, openHandle_oneName_iff,
        PathCall.Terminated]
      constructor
      · rintro ⟨hsame, hone, -⟩ hacc
        exact ⟨hsame hacc, hone hacc⟩
      · intro h
        refine ⟨fun hacc => (h hacc).1, fun hacc => (h hacc).2, fun hacc hflags => ?_⟩
        rw [← (h hacc).1, (h hacc).2 hflags]
        exact hagree
  | create path pathLen handle =>
      have hone (mem : Memory) : PathCall.OneName mem (.create path pathLen handle) := by
        refine oneName_of_not_open fun name => ?_
        simp only [PathCall.run, syscallCreateObjAndHandle, logTree, List.nil_append]
        split
        · simp
        · simp
      refine iff_of_true ⟨fun τ ℓ T curThread t => ?_, hone mem, hone mem'⟩ trivial
      rw [PathCall.run, PathCall.run, create_same T t hagree]
      exact .rfl
  | rename oldName oldNameLen newName newNameLen =>
      have hone (mem : Memory) :
          PathCall.OneName mem (.rename oldName oldNameLen newName newNameLen) := by
        refine oneName_of_not_open fun name => ?_
        simp only [PathCall.run, syscallRenameObject, logTree, List.nil_append]
        split
        · simp
        · simp
      rw [rename_same_iff]
      exact ⟨fun h => h.1, fun h => ⟨h, hone mem, hone mem'⟩⟩
  | delete path pathLen =>
      have hone (mem : Memory) : PathCall.OneName mem (.delete path pathLen) := by
        refine oneName_of_not_open fun name => ?_
        simp only [PathCall.run, syscallDeleteObject, logTree, List.nil_append]
        split
        · simp
        · simp
      rw [delete_same_iff]
      exact ⟨fun h => h.1, fun h => ⟨h, hone mem, hone mem'⟩⟩

/-- A memory that holds `bytes` at `base`, and zeroes elsewhere. -/
def memoryWith (base : Nat) (bytes : List UInt8) : Memory :=
  fun a => if base ≤ a.toNat then bytes.getD (a.toNat - base) 0 else 0

/-- Behind `a\b` and its zero byte the memories may differ. -/
theorem paths_bounded_with_zero :
    let call : PathCall := .openHandle 0x1000 3 0x2000 1
    let mem := memoryWith 0x1000 [97, 92, 98, 0, 1]
    let mem' := memoryWith 0x1000 [97, 92, 98, 0, 2]
    call.SameOutcome mem mem' ∧ call.OneName mem ∧ call.OneName mem' :=
  (paths_bounded_iff _ (by decide +kernel)).mpr fun _ => by decide +kernel

/-- The byte behind a path decides which object is opened. -/
theorem paths_unbounded :
    ¬ ∀ (call : PathCall) (mem mem' : Memory), call.Agree mem mem' →
      call.SameOutcome mem mem' ∧ call.OneName mem ∧ call.OneName mem' := by
  intro h
  have hsame := (h (.openHandle 0x1000 1 0x2000 0) (memoryWith 0x1000 [97, 0])
    (memoryWith 0x1000 [97, 98, 0]) (by decide +kernel)).1
  have hlog := (hsame _ _ logTree true []).tree
  exact absurd hlog (by decide +kernel)

end Azalea.Syscall
