import Mathlib.Algebra.Order.BigOperators.Group.Finset
import Mathlib.Data.List.ReduceOption
import Mathlib.Logic.Relation
import Azalea.Support.Runs
import Azalea.Tree.SimpleBranch

/-!
# Tree — threads that call the branches

The functions of `system_tree_simple_branch` on any number of threads, with the spinlock `child_tree_lock` of each
branch.  A call that is passed on to a child keeps the lock of the branch it comes from until it has its answer;
`create_child` has no lock itself, and calls `get_child` and `add_child`.

* `tree_calls_atomic`: with the locks each of the four calls takes effect in one step, and so do, one after the
  other, those that `create_child` makes.
* `tree_calls_end`: as long as no branch is put below itself, some thread can go on until all calls have come
  back, and they come back after a number of steps that is known.
-/

namespace Azalea.Tree
open Azalea.Runs Function

/-! ### The source -/

/-- Where a thread is, but for the inside of a call. -/
inductive Control (ο : Type*) where
  | outside
  /-- In `get_child`, `add_child`, `rename_child` or `delete_child`; with the `second_part` of `create_child`, if
  that has called `get_child`. -/
  | calling (branch : ο) (call : Call ο) (creating : Option Name)
  /-- The call has its answer. -/
  | answered (answer : Answer ο) (creating : Option Name)
  /-- At the start of `create_child`. -/
  | create (branch : ο) (name : Name)
  deriving DecidableEq

variable {ο θ : Type*}

/-- `create_child` up to the function that it calls; `new` is the object that `std::make_shared` gives. -/
def createChild (k : Classes ο) (branch : ο) (name : Name) (new : ο) : Control ο :=
  let (firstPart, secondPart) := splitName name false
  if secondPart = [] then
    if k.createsLeaves branch then .calling branch (.addChild name (some new)) none
    else .answered (.invalidOp, none) none
  else .calling branch (.getChild firstPart) (some secondPart)

/-- What comes behind a call. -/
def resume (k : Classes ο) (answer : Answer ο) : Option Name → Control ο
  | none => .outside
  | some secondPart =>
      match answer with
      | (.noError, directChild) =>
          match directChild.filter k.isBranch with
          | some descendant => .create descendant secondPart
          | none => .answered (.invalidOp, none) none
      | (result, _) => .answered (result, none) none

/-- Where a thread is within a call. -/
inductive Place (ο : Type*) where
  | away
  /-- At `klib_synch_spinlock_lock(child_tree_lock)` of a branch. -/
  | lock (branch : ο) (call : Call ο)
  /-- It has the lock. -/
  | locked (branch : ο) (call : Call ο)

structure Thread (ο : Type*) where
  control : Control ο
  place : Place ο
  /-- The branches it has locked, the last one first. -/
  held : List ο

/-- At the start of a call, or outside of one. -/
def Thread.enter (control : Control ο) : Thread ο where
  control := control
  place := match control with
    | .calling branch call _ => .lock branch call
    | _ => .away
  held := []

structure TreeState (θ ο : Type*) where
  children : Forest ο
  childTreeLock : ο → Bool
  thread : θ → Thread ο

/-- A thread makes a call, or takes its next step. -/
inductive TreeAct (θ ο : Type*) where
  | call (t : θ) (branch : ο) (call : Call ο)
  | createChild (t : θ) (branch : ο) (name : Name)
  | step (t : θ) (new : ο)

variable [DecidableEq θ] [DecidableEq ο]

namespace TreeState

def start (children : Forest ο) : TreeState θ ο where
  children := children
  childTreeLock _ := false
  thread _ := .enter .outside

def setThread (s : TreeState θ ο) (t : θ) (thread : Thread ο) : TreeState θ ο :=
  { s with thread := update s.thread t thread }

/-- The next step of a thread. -/
def stepThread (k : Classes ο) (s : TreeState θ ο) (t : θ) (new : ο) : Option (TreeState θ ο) :=
  let thread := s.thread t
  match thread.control with
  | .outside => none
  | .create branch name => some (s.setThread t (.enter (createChild k branch name new)))
  | .calling _ _ creating =>
      match thread.place with
      | .away => none
      | .lock branch call =>
          if s.childTreeLock branch then none
          else some
            { s with
              childTreeLock := update s.childTreeLock branch true
              thread := update s.thread t
                { thread with place := .locked branch call, held := branch :: thread.held } }
      | .locked branch call =>
          match level k (s.children branch) call with
          | .done answer children => some
              { s with
                children := update s.children branch children
                thread := update s.thread t
                  { thread with control := .answered answer creating, place := .away } }
          | .pass branch' call' => some (s.setThread t { thread with place := .lock branch' call' })
  | .answered answer creating =>
      match thread.held with
      | branch :: held => some
          { s with
            childTreeLock := update s.childTreeLock branch false
            thread := update s.thread t { thread with held := held } }
      | [] => some (s.setThread t (.enter (resume k answer creating)))

def step (k : Classes ο) (s : TreeState θ ο) : TreeAct θ ο → Option (TreeState θ ο)
  | .call t branch call =>
      match (s.thread t).control with
      | .outside => some (s.setThread t (.enter (.calling branch call none)))
      | _ => none
  | .createChild t branch name =>
      match (s.thread t).control with
      | .outside => some (s.setThread t (.enter (.create branch name)))
      | _ => none
  | .step t new => s.stepThread k t new

end TreeState

/-! ### What the callers see -/

/-- A call begins, or comes back.  Of the calls that `create_child` makes only the answers are seen, with the
`second_part` if it is not the last one. -/
inductive Event (θ ο : Type*) where
  | call (t : θ) (branch : ο) (call : Call ο)
  | createChild (t : θ) (branch : ο) (name : Name)
  | answer (t : θ) (answer : Answer ο) (creating : Option Name)
  deriving DecidableEq

/-- What is seen of a step. -/
def TreeState.event (s : TreeState θ ο) : TreeAct θ ο → Option (Event θ ο)
  | .call t branch call => some (.call t branch call)
  | .createChild t branch name => some (.createChild t branch name)
  | .step t _ =>
      match (s.thread t).control, (s.thread t).held with
      | .answered answer creating, [] => some (.answer t answer creating)
      | _, _ => none

/-- The machine, with what is seen of its steps. -/
def TreeState.seen (k : Classes ο) (s : TreeState θ ο) (act : TreeAct θ ο) :
    Option (TreeState θ ο × Option (Event θ ο)) :=
  (s.step k act).map fun s' => (s', s.event act)

/-! ### Calls in one step -/

/-- The children, and where the threads are. -/
structure AtomicState (θ ο : Type*) where
  children : Forest ο
  control : θ → Control ο

namespace AtomicState

def start (children : Forest ο) : AtomicState θ ο where
  children := children
  control _ := .outside

def setControl (s : AtomicState θ ο) (t : θ) (control : Control ο) : AtomicState θ ο :=
  { s with control := update s.control t control }

/-- A machine without locks, in which a call is carried out at once. -/
def step (k : Classes ο) (s : AtomicState θ ο) : TreeAct θ ο → Option (AtomicState θ ο)
  | .call t branch call =>
      match s.control t with
      | .outside => some (s.setControl t (.calling branch call none))
      | _ => none
  | .createChild t branch name =>
      match s.control t with
      | .outside => some (s.setControl t (.create branch name))
      | _ => none
  | .step t new =>
      match s.control t with
      | .outside => none
      | .create branch name => some (s.setControl t (createChild k branch name new))
      | .calling branch c creating =>
          let (answer, children) := call k s.children branch c
          some { s with children := children, control := update s.control t (.answered answer creating) }
      | .answered answer creating => some (s.setControl t (resume k answer creating))

/-- What is seen of a step. -/
def event (s : AtomicState θ ο) : TreeAct θ ο → Option (Event θ ο)
  | .call t branch call => some (.call t branch call)
  | .createChild t branch name => some (.createChild t branch name)
  | .step t _ =>
      match s.control t with
      | .answered answer creating => some (.answer t answer creating)
      | _ => none

/-- The machine, with what is seen of its steps. -/
def seen (k : Classes ο) (s : AtomicState θ ο) (act : TreeAct θ ο) :
    Option (AtomicState θ ο × Option (Event θ ο)) :=
  (s.step k act).map fun s' => (s', s.event act)

end AtomicState

/-- The state as it is without the locks. -/
def TreeState.atomic (s : TreeState θ ο) : AtomicState θ ο where
  children := s.children
  control t := (s.thread t).control

/-! ### What a call has locked -/

/-- The call `c₀` on `b₀` has come to `c` on `b`, through the branches of the list. -/
inductive Path (k : Classes ο) (t : Forest ο) (b₀ : ο) (c₀ : Call ο) : List ο → ο → Call ο → Prop where
  | start : Path k t b₀ c₀ [] b₀ c₀
  | pass {held : List ο} {b b' : ο} {c c' : Call ο} : Path k t b₀ c₀ held b c →
      level k (t b) c = .pass b' c' → Path k t b₀ c₀ (b :: held) b' c'

variable {k : Classes ο} {t t' : Forest ο} {b b' b₀ x : ο} {c c' c₀ : Call ο} {held : List ο}

theorem Path.call_eq (h : Path k t b₀ c₀ held b c) : call k t b₀ c₀ = call k t b c := by
  induction h with
  | start => rfl
  | pass _ hpass ih => rw [ih, call_pass hpass]

omit [DecidableEq ο] in
theorem Path.congr (h : Path k t b₀ c₀ held b c) (ht : ∀ x ∈ held, t' x = t x) : Path k t' b₀ c₀ held b c := by
  induction h with
  | start => exact .start
  | pass _ hpass ih =>
      obtain ⟨hb, hheld⟩ := List.forall_mem_cons.mp ht
      exact .pass (ih hheld) (by rw [hb, hpass])

/-- A thread that has locked the branches its call has come through. -/
def Thread.Ok (k : Classes ο) (t : Forest ο) (thread : Thread ο) : Prop :=
  match thread.control with
  | .calling b₀ c₀ _ =>
      match thread.place with
      | .away => False
      | .lock b c => Path k t b₀ c₀ thread.held b c
      | .locked b c => ∃ held, thread.held = b :: held ∧ Path k t b₀ c₀ held b c
  | .answered _ _ => True
  | .outside | .create _ _ => thread.held = []

omit [DecidableEq ο] in
theorem Thread.Ok.congr {thread : Thread ο} (h : thread.Ok k t) (ht : ∀ x ∈ thread.held, t' x = t x) :
    thread.Ok k t' := by
  unfold Thread.Ok at h ⊢
  split at h
  next hcontrol =>
    split at h
    next => exact h.elim
    next => exact Path.congr h ht
    next =>
      obtain ⟨held, hheld, hpath⟩ := h
      refine ⟨held, hheld, hpath.congr fun x hx => ht x ?_⟩
      rw [hheld]
      exact List.mem_cons_of_mem _ hx
  next => trivial
  next => exact h
  next => exact h

omit [DecidableEq ο] in
theorem Thread.enter_ok (control : Control ο) : (Thread.enter control).Ok k t := by
  cases control with
  | outside | create => rfl
  | answered => trivial
  | calling b c creating => exact Path.start

/-- Who has locked a branch. -/
structure Owned (s : TreeState θ ο) : Prop where
  locked : ∀ x, s.childTreeLock x = true ↔ ∃ t, x ∈ (s.thread t).held
  exclusive : ∀ t u x, x ∈ (s.thread t).held → x ∈ (s.thread u).held → t = u
  nodup : ∀ t, (s.thread t).held.Nodup

structure Inv (k : Classes ο) (s : TreeState θ ο) : Prop where
  owned : Owned s
  ok : ∀ t, (s.thread t).Ok k s.children

omit [DecidableEq θ] [DecidableEq ο] in
theorem Inv.start (children : Forest ο) : Inv k (TreeState.start (θ := θ) children) where
  owned := by
    constructor
    · intro x
      simp [TreeState.start, Thread.enter]
    · intro t u x h
      cases h
    · exact fun _ => List.nodup_nil
  ok _ := Thread.enter_ok _

variable {s s' : TreeState θ ο} {p u : θ} {thread : Thread ο}

omit [DecidableEq θ] [DecidableEq ο] in
/-- A thread that changes no lock. -/
theorem Owned.congr (h : Owned s) (hlock : s'.childTreeLock = s.childTreeLock)
    (hheld : ∀ u, (s'.thread u).held = (s.thread u).held) : Owned s' := by
  constructor
  · intro x
    simp only [hlock, hheld]
    exact h.locked x
  · intro t u x
    rw [hheld, hheld]
    exact h.exclusive t u x
  · intro t
    rw [hheld]
    exact h.nodup t

omit [DecidableEq ο] in
theorem held_update (hheld : thread.held = (s.thread p).held) (u : θ) :
    (update s.thread p thread u).held = (s.thread u).held := by
  by_cases hu : u = p
  · subst hu
    rw [update_self, hheld]
  · rw [update_of_ne hu]

/-- A branch that nobody has locked. -/
theorem Owned.lock (h : Owned s) (hfree : s.childTreeLock b = false)
    (hheld : thread.held = b :: (s.thread p).held) (hlock : s'.childTreeLock = update s.childTreeLock b true)
    (hthread : s'.thread = update s.thread p thread) : Owned s' := by
  have hnot : ∀ u, b ∉ (s.thread u).held := by
    intro u hu
    have := (h.locked b).mpr ⟨u, hu⟩
    rw [hfree] at this
    cases this
  have hmem : ∀ u x, x ∈ (s'.thread u).held ↔ x ∈ (s.thread u).held ∨ u = p ∧ x = b := by
    intro u x
    rw [hthread]
    by_cases hu : u = p
    · subst hu
      rw [update_self, hheld, List.mem_cons, or_comm]
      simp
    · rw [update_of_ne hu]
      simp [hu]
  constructor
  · intro x
    simp only [hmem]
    by_cases hx : x = b
    · subst hx
      rw [hlock, update_self]
      exact iff_of_true rfl ⟨p, .inr ⟨rfl, rfl⟩⟩
    · rw [hlock, update_of_ne hx, h.locked x]
      simp [hx]
  · intro t u x
    rw [hmem, hmem]
    rintro (ht | ⟨rfl, rfl⟩) (hu | ⟨rfl, hx⟩)
    · exact h.exclusive t u x ht hu
    · exact absurd (hx ▸ ht) (hnot t)
    · exact absurd hu (hnot u)
    · rfl
  · intro t
    rw [hthread]
    by_cases ht : t = p
    · subst ht
      rw [update_self, hheld]
      exact List.nodup_cons.mpr ⟨hnot t, h.nodup t⟩
    · rw [update_of_ne ht]
      exact h.nodup t

/-- The branch that a thread has locked last. -/
theorem Owned.unlock (h : Owned s) (hold : (s.thread p).held = b :: held) (hheld : thread.held = held)
    (hlock : s'.childTreeLock = update s.childTreeLock b false)
    (hthread : s'.thread = update s.thread p thread) : Owned s' := by
  have hnodup := h.nodup p
  rw [hold, List.nodup_cons] at hnodup
  have hmem : ∀ u x, x ∈ (s'.thread u).held ↔ x ∈ (s.thread u).held ∧ x ≠ b := by
    intro u x
    rw [hthread]
    by_cases hu : u = p
    · subst hu
      rw [update_self, hheld, hold, List.mem_cons]
      constructor
      · intro hx
        refine ⟨.inr hx, ?_⟩
        rintro rfl
        exact hnodup.1 hx
      · rintro ⟨hx, hne⟩
        exact hx.resolve_left hne
    · rw [update_of_ne hu]
      refine (and_iff_left_of_imp fun hx => ?_).symm
      rintro rfl
      exact hu (h.exclusive u p x hx (hold ▸ List.mem_cons_self ..))
  constructor
  · intro x
    simp only [hmem]
    by_cases hx : x = b
    · subst hx
      simp [hlock]
    · rw [hlock, update_of_ne hx, h.locked x]
      simp [hx]
  · intro t u x
    rw [hmem, hmem]
    rintro ⟨ht, -⟩ ⟨hu, -⟩
    exact h.exclusive t u x ht hu
  · intro t
    rw [hthread]
    by_cases ht : t = p
    · subst ht
      rw [update_self, hheld]
      exact hnodup.2
    · rw [update_of_ne ht]
      exact h.nodup t

/-! ### What a step does -/

/-- The steps of a thread. -/
inductive Stepped (k : Classes ο) (s : TreeState θ ο) (p : θ) (new : ο) : TreeState θ ο → Prop where
  | create {b : ο} {name : Name} : (s.thread p).control = .create b name →
      Stepped k s p new (s.setThread p (.enter (createChild k b name new)))
  | lock {b₀ b : ο} {c₀ c : Call ο} {creating : Option Name} :
      (s.thread p).control = .calling b₀ c₀ creating → (s.thread p).place = .lock b c → s.childTreeLock b = false →
      Stepped k s p new
        { s with
          childTreeLock := update s.childTreeLock b true
          thread := update s.thread p
            { s.thread p with place := .locked b c, held := b :: (s.thread p).held } }
  | done {b₀ b : ο} {c₀ c : Call ο} {creating : Option Name} {answer : Answer ο} {children : ChildMap ο} :
      (s.thread p).control = .calling b₀ c₀ creating → (s.thread p).place = .locked b c →
      level k (s.children b) c = .done answer children →
      Stepped k s p new
        { s with
          children := update s.children b children
          thread := update s.thread p { s.thread p with control := .answered answer creating, place := .away } }
  | pass {b₀ b b' : ο} {c₀ c c' : Call ο} {creating : Option Name} :
      (s.thread p).control = .calling b₀ c₀ creating → (s.thread p).place = .locked b c →
      level k (s.children b) c = .pass b' c' →
      Stepped k s p new (s.setThread p { s.thread p with place := .lock b' c' })
  | unlock {answer : Answer ο} {creating : Option Name} {b : ο} {held : List ο} :
      (s.thread p).control = .answered answer creating → (s.thread p).held = b :: held →
      Stepped k s p new
        { s with
          childTreeLock := update s.childTreeLock b false
          thread := update s.thread p { s.thread p with held := held } }
  | resume {answer : Answer ο} {creating : Option Name} :
      (s.thread p).control = .answered answer creating → (s.thread p).held = [] →
      Stepped k s p new (s.setThread p (.enter (resume k answer creating)))

variable {new : ο}

theorem stepThread_stepped (h : s.stepThread k p new = some s') : Stepped k s p new s' := by
  simp only [TreeState.stepThread] at h
  split at h
  next => cases h
  next hcontrol =>
    cases h
    exact .create hcontrol
  next hcontrol =>
    split at h
    next => cases h
    next hplace =>
      split at h
      next => cases h
      next hfree =>
        cases h
        exact .lock hcontrol hplace (Bool.eq_false_iff.mpr hfree)
    next hplace =>
      split at h
      next hlevel =>
        cases h
        exact .done hcontrol hplace hlevel
      next hlevel =>
        cases h
        exact .pass hcontrol hplace hlevel
  next hcontrol =>
    split at h
    next hheld =>
      cases h
      exact .unlock hcontrol hheld
    next hheld =>
      cases h
      exact .resume hcontrol hheld

/-! ### Atomicity -/

omit [DecidableEq ο] in
theorem Thread.Ok.update {ts : θ → Thread ο} (h : ∀ u ≠ p, (ts u).Ok k t) (hp : thread.Ok k t) (u : θ) :
    (Function.update ts p thread u).Ok k t := by
  by_cases hu : u = p
  · subst hu
    rwa [update_self]
  · rw [update_of_ne hu]
    exact h u hu

theorem Inv.stepped (h : Inv k s) (hs : Stepped k s p new s') : Inv k s' := by
  have hp := h.ok p
  cases hs with
  | create hcontrol =>
      rw [Thread.Ok, hcontrol] at hp
      exact ⟨h.owned.congr rfl (held_update hp.symm), Thread.Ok.update (fun u _ => h.ok u) (Thread.enter_ok _)⟩
  | lock hcontrol hplace hfree =>
      simp only [Thread.Ok, hcontrol, hplace] at hp
      refine ⟨h.owned.lock hfree rfl rfl rfl, Thread.Ok.update (fun u _ => h.ok u) ?_⟩
      simp only [Thread.Ok, hcontrol]
      exact ⟨_, rfl, hp⟩
  | @done b₀ b c₀ c creating answer children hcontrol hplace hlevel =>
      simp only [Thread.Ok, hcontrol, hplace] at hp
      obtain ⟨held, hheld, -⟩ := hp
      refine ⟨h.owned.congr rfl (held_update rfl), Thread.Ok.update (fun u hu => ?_) trivial⟩
      refine (h.ok u).congr fun x hx => update_of_ne ?_ _ _
      rintro rfl
      exact hu (h.owned.exclusive u p x hx (hheld ▸ List.mem_cons_self ..))
  | pass hcontrol hplace hlevel =>
      simp only [Thread.Ok, hcontrol, hplace] at hp
      obtain ⟨held, hheld, hpath⟩ := hp
      refine ⟨h.owned.congr rfl (held_update rfl), Thread.Ok.update (fun u _ => h.ok u) ?_⟩
      simp only [Thread.Ok, hcontrol, hheld]
      exact hpath.pass hlevel
  | unlock hcontrol hheld =>
      refine ⟨h.owned.unlock hheld rfl rfl rfl, Thread.Ok.update (fun u _ => h.ok u) ?_⟩
      simp only [Thread.Ok, hcontrol]
  | resume hcontrol hheld =>
      exact ⟨h.owned.congr rfl (held_update hheld.symm), Thread.Ok.update (fun u _ => h.ok u) (Thread.enter_ok _)⟩

theorem Inv.step {act : TreeAct θ ο} (h : Inv k s) (hs : s.step k act = some s') : Inv k s' := by
  cases act with
  | call t branch call | createChild t branch name =>
      simp only [TreeState.step] at hs
      split at hs
      next hcontrol =>
        cases hs
        have ht := h.ok t
        rw [Thread.Ok, hcontrol] at ht
        exact ⟨h.owned.congr rfl (held_update ht.symm), Thread.Ok.update (fun u _ => h.ok u) (Thread.enter_ok _)⟩
      next => cases hs
  | step t new => exact h.stepped (stepThread_stepped hs)

omit [DecidableEq ο] in
theorem control_update (ts : θ → Thread ο) (p : θ) (thread : Thread ο) :
    (fun u => (update ts p thread u).control) = update (fun u => (ts u).control) p thread.control :=
  comp_update Thread.control ts p thread

omit [DecidableEq ο] in
theorem atomic_setThread (s : TreeState θ ο) (p : θ) (thread : Thread ο) :
    (s.setThread p thread).atomic = s.atomic.setControl p thread.control :=
  congrArg (AtomicState.mk s.children) (control_update s.thread p thread)

omit [DecidableEq θ] [DecidableEq ο] in
theorem reduceOption_cons_eq (e : Option (Event θ ο)) (es : List (Option (Event θ ο))) :
    (e :: es).reduceOption = e.toList ++ es.reduceOption := by
  cases e <;> rfl

/-- A step within a call changes nothing, or carries out the call. -/
theorem Inv.simulates_stepped (h : Inv k s) (hs : Stepped k s p new s') :
    s'.atomic = s.atomic ∧ s.event (.step p new) = none ∨
      s.atomic.step k (.step p new) = some s'.atomic ∧
        s.atomic.event (.step p new) = s.event (.step p new) := by
  have hp := h.ok p
  have hsame : ∀ thread : Thread ο, thread.control = (s.thread p).control →
      (fun u => (update s.thread p thread u).control) = fun u => (s.thread u).control := by
    intro thread hthread
    rw [control_update, hthread]
    exact update_eq_self ..
  have hstep : ∀ control, (s.thread p).control = control → s.atomic.control p = control := fun _ => id
  cases hs with
  | create hcontrol =>
      right
      rw [atomic_setThread]
      simp only [AtomicState.step, AtomicState.event, TreeState.event, hstep _ hcontrol, hcontrol]
      exact ⟨rfl, trivial⟩
  | lock hcontrol hplace hfree =>
      refine .inl ⟨congrArg (AtomicState.mk s.children) (hsame _ rfl), ?_⟩
      simp only [TreeState.event, hcontrol]
  | @done b₀ b c₀ c creating answer children hcontrol hplace hlevel =>
      simp only [Thread.Ok, hcontrol, hplace] at hp
      obtain ⟨held, -, hpath⟩ := hp
      have hcall : call k s.atomic.children b₀ c₀ = (answer, update s.children b children) :=
        hpath.call_eq.trans (call_done hlevel)
      right
      simp only [AtomicState.step, AtomicState.event, TreeState.event, hstep _ hcontrol, hcontrol, hcall]
      simp only [TreeState.atomic, control_update, and_self]
  | pass hcontrol hplace hlevel =>
      refine .inl ⟨congrArg (AtomicState.mk s.children) (hsame _ rfl), ?_⟩
      simp only [TreeState.event, hcontrol]
  | unlock hcontrol hheld =>
      refine .inl ⟨congrArg (AtomicState.mk s.children) (hsame _ rfl), ?_⟩
      simp only [TreeState.event, hcontrol, hheld]
  | resume hcontrol hheld =>
      right
      rw [atomic_setThread]
      simp only [AtomicState.step, AtomicState.event, TreeState.event, hstep _ hcontrol, hcontrol, hheld]
      exact ⟨rfl, trivial⟩

theorem Inv.simulates {act : TreeAct θ ο} (h : Inv k s) (hs : s.step k act = some s') :
    s'.atomic = s.atomic ∧ s.event act = none ∨
      s.atomic.step k act = some s'.atomic ∧ s.atomic.event act = s.event act := by
  cases act with
  | call t branch call | createChild t branch name =>
      simp only [TreeState.step] at hs
      split at hs
      next hcontrol =>
        cases hs
        right
        have hstep : s.atomic.control t = .outside := hcontrol
        rw [atomic_setThread]
        simp only [AtomicState.step, hstep]
        exact ⟨rfl, rfl⟩
      next => cases hs
  | step t new => exact h.simulates_stepped (stepThread_stepped hs)

/-- **The locks make the calls atomic.**  Whatever any number of threads do with the branches, with calls that are
each carried out at one of their steps they can begin the same calls, get the same answers in the same order, and
come to the same tree. -/
theorem tree_calls_atomic {children : Forest ο} {acts : List (TreeAct θ ο)}
    (h : run (TreeState.step k) anyInput (.start children) acts = some s) :
    ∃ acts', acts'.Sublist acts ∧
      run (AtomicState.step k) anyInput (.start children) acts' = some s.atomic ∧
      (outputs (AtomicState.seen k) (.start children) acts').map List.reduceOption =
        (outputs (TreeState.seen k) (.start children) acts).map List.reduceOption := by
  suffices hrun : ∀ (s₀ : TreeState θ ο), Inv k s₀ → run (TreeState.step k) anyInput s₀ acts = some s →
      ∃ acts', acts'.Sublist acts ∧ run (AtomicState.step k) anyInput s₀.atomic acts' = some s.atomic ∧
        (outputs (AtomicState.seen k) s₀.atomic acts').map List.reduceOption =
          (outputs (TreeState.seen k) s₀ acts).map List.reduceOption from
    hrun _ (.start children) h
  clear h
  induction acts with
  | nil =>
      rintro s₀ - ⟨⟩
      exact ⟨[], .slnil, rfl, rfl⟩
  | cons act acts ih =>
      intro s₀ hinv hrun
      rw [run, if_pos (show anyInput s₀ act from trivial)] at hrun
      obtain ⟨s₁, hs, hrun⟩ := Option.bind_eq_some_iff.mp hrun
      obtain ⟨acts', hsub, hrun', hseen⟩ := ih s₁ (hinv.step hs) hrun
      have hout : (outputs (TreeState.seen k) s₀ (act :: acts)).map List.reduceOption =
          ((outputs (TreeState.seen k) s₁ acts).map List.reduceOption).map
            ((s₀.event act).toList ++ ·) := by
        rw [outputs, TreeState.seen, hs, Option.map_some, Option.bind_some, Option.map_map, Option.map_map]
        exact congrArg (Option.map · _) (funext fun os => reduceOption_cons_eq _ os)
      rw [hout, ← hseen]
      rcases hinv.simulates hs with ⟨hsame, hnone⟩ | ⟨hstep, hevent⟩
      · refine ⟨acts', hsub.cons act, hsame ▸ hrun', ?_⟩
        rw [hnone, hsame]
        cases outputs (AtomicState.seen k) s₀.atomic acts' <;> rfl
      · refine ⟨act :: acts', hsub.cons_cons act, ?_, ?_⟩
        · rw [run, if_pos (show anyInput s₀.atomic act from trivial), hstep, Option.bind_some, hrun']
        · rw [outputs, AtomicState.seen, hstep, Option.map_some, Option.bind_some, Option.map_map, Option.map_map,
            hevent]
          exact congrArg (Option.map · _) (funext fun os => reduceOption_cons_eq _ os)

/-- A file is created in a branch while another thread is on its way to it, and finds it. -/
theorem tree_calls_atomic_create : ∃ (s : TreeState Bool (Fin 4)) (acts : List (TreeAct Bool (Fin 4))),
    (s.thread false).control = .answered (.noError, some 2) none ∧
      ∃ acts', acts'.Sublist acts ∧
        run (AtomicState.step smallTree) anyInput (.start fun _ _ => none) acts' = some s.atomic ∧
        (outputs (AtomicState.seen smallTree) (.start fun _ _ => none) acts').map List.reduceOption =
          (outputs (TreeState.seen smallTree) (.start fun _ _ => none) acts).map List.reduceOption := by
  obtain ⟨s, hs, hfound⟩ := (by decide : ∃ s ∈ run (TreeState.step smallTree) anyInput
      (.start (θ := Bool) fun _ _ => none)
      (.call false 0 (.addChild [97] (some 1)) :: List.replicate 4 (.step false 2) ++
        .createChild true 0 [97, 92, 120] :: List.replicate 5 (.step true 2) ++
        .call false 0 (.getChild [97, 92, 120]) :: List.replicate 2 (.step false 3) ++
        List.replicate 4 (.step true 2) ++ List.replicate 2 (.step false 3)),
    (s.thread false).control = .answered (.noError, some 2) none)
  exact ⟨s, _, hfound, tree_calls_atomic hs⟩

/-! ### No deadlock -/

open Relation in
/-- A relation stays well-founded if `b` gets something below it that is not above it. -/
theorem wellFounded_of_below {α : Type*} {r r' : α → α → Prop} {b : α} (h : WellFounded r)
    (hr : ∀ x y, r' x y → r x y ∨ y = b ∧ ¬ ReflTransGen r b x) : WellFounded r' := by
  have hbeside : ∀ x, ¬ ReflTransGen r b x → Acc r' x := by
    intro x
    induction x using h.induction with
    | _ x ih =>
        refine fun hx => ⟨x, fun y hyx => ?_⟩
        rcases hr y x hyx with hyx | ⟨rfl, -⟩
        · exact ih y hyx fun hy => hx (hy.tail hyx)
        · exact absurd .refl hx
  refine ⟨fun x => ?_⟩
  induction x using h.induction with
  | _ x ih =>
      refine ⟨x, fun y hyx => ?_⟩
      rcases hr y x hyx with hyx | ⟨rfl, hy⟩
      · exact ih y hyx
      · exact hbeside y hy

/-- A branch that is a child of `b`. -/
def ChildOf (k : Classes ο) (t : Forest ο) (c b : ο) : Prop :=
  k.isBranch c = true ∧ ∃ name, t b name = some c

/-- No branch is added that the branch it is added to is, or is below. -/
def NoLoop (k : Classes ο) (s : TreeState θ ο) : TreeAct θ ο → Prop
  | .step p _ => ∀ b c x, (s.thread p).place = .locked b c → c.added = some x → k.isBranch x = true →
      ¬ Relation.ReflTransGen (ChildOf k s.children) b x
  | _ => True

/-- No branch is below itself. -/
theorem Stepped.wellFounded (hs : Stepped k s p new s') (hok : NoLoop k s (.step p new))
    (hwf : WellFounded (ChildOf k s.children)) : WellFounded (ChildOf k s'.children) := by
  cases hs with
  | create | lock | pass | unlock | resume => exact hwf
  | @done b₀ b c₀ c creating answer children hcontrol hplace hlevel =>
      refine wellFounded_of_below (b := b) hwf fun x y hxy => ?_
      obtain ⟨hbranch, name, hname⟩ := hxy
      by_cases hy : y = b
      · subst hy
        have hname : children name = some x := (congrFun (update_self ..) name).symm.trans hname
        rcases (level_changes hlevel).child hname with ⟨m, hm⟩ | hadded
        · exact .inl ⟨hbranch, m, hm⟩
        · exact .inr ⟨rfl, hok _ _ _ hplace hadded hbranch⟩
      · exact .inl ⟨hbranch, name, (congrFun (update_of_ne hy ..) name).symm.trans hname⟩

omit [DecidableEq ο] in
/-- The branches a call has locked are above the one it is at. -/
theorem Path.descends (h : Path k t b₀ c₀ held b c) (hx : x ∈ held) : Relation.TransGen (ChildOf k t) b x := by
  induction h with
  | start => cases hx
  | pass _ hpass ih =>
      obtain ⟨hname, hbranch, -, -⟩ := level_pass hpass
      rcases List.mem_cons.mp hx with rfl | hx
      · exact .single ⟨hbranch, hname⟩
      · exact .head ⟨hbranch, hname⟩ (ih hx)

/-- A thread that cannot go on waits for a lock. -/
theorem Inv.steps_or_waits (h : Inv k s) (hp : (s.thread p).control ≠ .outside) (new : ο) :
    (∃ s', s.stepThread k p new = some s') ∨
      ∃ b, s.childTreeLock b = true ∧ ∀ x ∈ (s.thread p).held, Relation.TransGen (ChildOf k s.children) b x := by
  have hok := h.ok p
  unfold Thread.Ok at hok
  simp only [TreeState.stepThread]
  cases hcontrol : (s.thread p).control with
  | outside => exact absurd hcontrol hp
  | create branch name => exact .inl ⟨_, rfl⟩
  | calling b₀ c₀ creating =>
      simp only [hcontrol] at hok
      cases hplace : (s.thread p).place with
      | away =>
          rw [hplace] at hok
          exact hok.elim
      | lock b c =>
          rw [hplace] at hok
          cases hlock : s.childTreeLock b with
          | false =>
              left
              simp only [hlock]
              exact ⟨_, rfl⟩
          | true => exact .inr ⟨b, hlock, fun x hx => hok.descends hx⟩
      | locked b c =>
          left
          dsimp only
          split <;> exact ⟨_, rfl⟩
  | answered answer creating =>
      left
      dsimp only
      split <;> exact ⟨_, rfl⟩

/-- Who has the lock of a branch can go on, or waits for one further down. -/
theorem Inv.progress_locked (h : Inv k s) (hwf : WellFounded (ChildOf k s.children)) (new b : ο)
    (hb : s.childTreeLock b = true) : ∃ u s', s.stepThread k u new = some s' := by
  induction b using hwf.transGen.induction with
  | _ b ih =>
      obtain ⟨u, hu⟩ := (h.owned.locked b).mp hb
      have hinside : (s.thread u).control ≠ .outside := by
        intro hcontrol
        have hok := h.ok u
        rw [Thread.Ok, hcontrol] at hok
        rw [hok] at hu
        cases hu
      rcases h.steps_or_waits hinside new with hstep | ⟨b', hb', hbelow⟩
      · exact ⟨u, hstep⟩
      · exact ih b' (hbelow b hu) hb'

theorem Inv.progress (h : Inv k s) (hwf : WellFounded (ChildOf k s.children)) (new : ο)
    (hp : (s.thread p).control ≠ .outside) : ∃ u s', s.stepThread k u new = some s' := by
  rcases h.steps_or_waits hp new with hstep | ⟨b, hb, -⟩
  · exact ⟨p, hstep⟩
  · exact h.progress_locked hwf new b hb

/-! ### How long a call takes -/

def creatingWork : Option Name → Nat
  | none => 0
  | some secondPart => 5 * secondPart.length + 5

/-- More steps than this a thread does not take. -/
def Thread.work (thread : Thread ο) : Nat :=
  match thread.control with
  | .outside => 0
  | .create _ name => 5 * name.length + 5
  | .answered _ creating => creatingWork creating + thread.held.length + 1
  | .calling _ _ creating => creatingWork creating + thread.held.length +
      match thread.place with
      | .away => 0
      | .lock _ c => 3 * c.size + 4
      | .locked _ c => 3 * c.size + 2

def TreeState.work [Fintype θ] (s : TreeState θ ο) : Nat := ∑ p, (s.thread p).work

theorem splitName_length (name : Name) (h : (splitName name false).2 ≠ []) :
    (splitName name false).1.length + (splitName name false).2.length + 1 = name.length := by
  unfold splitName at h ⊢
  rw [if_neg Bool.false_ne_true] at h ⊢
  cases hfind : find name with
  | none =>
      rw [hfind] at h
      exact absurd rfl h
  | some i =>
      have hi := find_lt hfind
      simp only [List.length_take, List.length_drop]
      omega

omit [DecidableEq ο] in
theorem createChild_work (b : ο) (name : Name) (new : ο) :
    (Thread.enter (createChild k b name new)).work < 5 * name.length + 5 := by
  simp only [createChild]
  split
  next =>
    split
    next =>
      simp only [Thread.enter, Thread.work, creatingWork, Call.size, List.length_nil]
      omega
    next =>
      simp only [Thread.enter, Thread.work, creatingWork, List.length_nil]
      omega
  next hpart =>
    have hlength := splitName_length name hpart
    simp only [Thread.enter, Thread.work, creatingWork, Call.size, List.length_nil]
    omega

omit [DecidableEq ο] in
theorem resume_work (answer : Answer ο) (creating : Option Name) :
    (Thread.enter (resume k answer creating)).work < creatingWork creating + 1 := by
  cases creating with
  | none => exact Nat.one_pos
  | some secondPart =>
      simp only [resume]
      split
      next => split <;> simp [Thread.enter, Thread.work, creatingWork]
      next => simp [Thread.enter, Thread.work, creatingWork]

/-- A step uses up work of its thread. -/
theorem Stepped.work_lt (hs : Stepped k s p new s') :
    ∃ thread, s'.thread = update s.thread p thread ∧ thread.work < (s.thread p).work := by
  cases hs with
  | create hcontrol =>
      refine ⟨_, rfl, Nat.lt_of_lt_of_eq (createChild_work ..) ?_⟩
      simp only [Thread.work, hcontrol]
  | lock hcontrol hplace hfree =>
      refine ⟨_, rfl, ?_⟩
      simp only [Thread.work, hcontrol, hplace, List.length_cons]
      omega
  | done hcontrol hplace hlevel =>
      refine ⟨_, rfl, ?_⟩
      simp only [Thread.work, hcontrol, hplace]
      omega
  | pass hcontrol hplace hlevel =>
      have hsize := (level_pass hlevel).2.2.1
      refine ⟨_, rfl, ?_⟩
      simp only [Thread.work, hcontrol, hplace]
      omega
  | unlock hcontrol hheld =>
      refine ⟨_, rfl, ?_⟩
      simp only [Thread.work, hcontrol, hheld, List.length_cons]
      omega
  | resume hcontrol hheld =>
      refine ⟨_, rfl, ?_⟩
      refine Nat.lt_of_lt_of_le (resume_work ..) ?_
      simp only [Thread.work, hcontrol, hheld, List.length_nil]
      omega

theorem Stepped.total_work_lt [Fintype θ] (hs : Stepped k s p new s') : s'.work < s.work := by
  obtain ⟨thread, hthread, hlt⟩ := hs.work_lt
  unfold TreeState.work
  rw [hthread]
  refine Finset.sum_lt_sum (fun u _ => ?_) ⟨p, Finset.mem_univ p, ?_⟩
  · by_cases hu : u = p
    · subst hu
      rw [update_self]
      exact hlt.le
    · rw [update_of_ne hu]
  · rw [update_self]
    exact hlt

/-- **No call hangs.**  As long as no branch is put below itself, in every interleaving some thread can go on until
every call has come back, and no more steps than `work` are left until then. -/
theorem tree_calls_end [Fintype θ] {children : Forest ο} (hwf : WellFounded (ChildOf k children))
    (h : Reach (TreeState.step k) (NoLoop k) (.start children) s) :
    (∀ p, (s.thread p).control ≠ .outside → ∀ new, ∃ u s', s.step k (.step u new) = some s') ∧
      ∀ (steps : List (θ × ο)) (s' : TreeState θ ο),
        run (TreeState.step k) anyInput s (steps.map fun i => .step i.1 i.2) = some s' →
          steps.length + s'.work ≤ s.work := by
  have hinv : Inv k s ∧ WellFounded (ChildOf k s.children) := by
    refine h.invariant (I := fun s => Inv k s ∧ WellFounded (ChildOf k s.children)) ⟨.start children, hwf⟩ ?_
    rintro s act s' ⟨hinv, hwf⟩ hok hs
    refine ⟨hinv.step hs, ?_⟩
    cases act with
    | call t branch call | createChild t branch name =>
        simp only [TreeState.step] at hs
        split at hs
        next =>
          cases hs
          exact hwf
        next => cases hs
    | step p new => exact (stepThread_stepped hs).wellFounded hok hwf
  refine ⟨fun p hp new => hinv.1.progress hinv.2 new hp, fun steps => ?_⟩
  clear h hwf hinv
  induction steps generalizing s with
  | nil =>
      rintro s' ⟨⟩
      exact (Nat.zero_add _).le
  | cons i steps ih =>
      intro s' hrun
      rw [List.map_cons, run, if_pos (show anyInput s (TreeAct.step i.1 i.2) from trivial)] at hrun
      obtain ⟨s₁, hs, hrun⟩ := Option.bind_eq_some_iff.mp hrun
      have hlt := (stepThread_stepped hs).total_work_lt
      have hrest := ih s' hrun
      rw [List.length_cons]
      omega

/-- Two threads at the lock of the root. -/
theorem tree_calls_end_two : ∃ s : TreeState Bool (Fin 4),
    (∀ p, (s.thread p).control ≠ .outside) ∧ ∃ u s', s.step smallTree (.step u 2) = some s' := by
  have hreach : Reach (TreeState.step smallTree) (NoLoop smallTree) (.start fun _ _ => none) _ :=
    .step (.call true 0 (.getChild [97])) (.step (.call false 0 (.deleteChild [97])) .refl trivial rfl) trivial rfl
  refine ⟨_, by decide, (tree_calls_end ⟨fun x => ⟨x, ?_⟩⟩ hreach).1 true (by decide) 2⟩
  rintro y ⟨-, name, hname⟩
  cases hname

end Azalea.Tree
