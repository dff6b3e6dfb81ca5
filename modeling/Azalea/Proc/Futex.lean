import Mathlib.Logic.Function.Basic
import Azalea.Proc.ThreadCycle
import Azalea.Support.Runs

/-!
# Proc — futexes

`processor/futexes.cpp`: the threads of a process that call `futex_wait` and `futex_wake`, and that
store to the words they wait for.  A waiter reads the word again outside `map_ops_lock`, and keeps the
reference `v` into `futex_map` across the unlock.  The entries of the map are numbered, so that a
reference to one that has been erased is not mistaken for one to a later entry of the same address.

* `futex_ok`: nobody sleeps through a wake, and the map lists the threads that are stopped, as long as
  a thread that stops itself has no deadline left, no thread is destroyed that is queued, and a waiter
  that looks for itself in `v` does so before a wake has erased it (`futex_fails`).
-/

namespace Azalea.Proc.Futexes
open Azalea.Runs

/-- `ERR_CODE`, as far as `futex_wake` returns it. -/
inductive WakeResult where
  | noError
  | notFound
  deriving DecidableEq

/-- Where a thread stands.  `f` is the address of the futex, `v` is `req_value`, and `e` the number of
the entry that the reference `v` of the source refers to. -/
inductive FutexPc where
  | running
  /-- `futex_wait`, before it reads the word. -/
  | enter (f : UInt64) (v : Int32)
  /-- Waits for `map_ops_lock`. -/
  | lockWait (f : UInt64) (v : Int32)
  /-- Holds `map_ops_lock`, as up to `unlock`. -/
  | pushBack (f : UInt64) (v : Int32)
  | stop (f : UInt64) (v : Int32) (e : Nat)
  | unlock (f : UInt64) (v : Int32) (e : Nat)
  /-- Reads the word again. -/
  | recheck (f : UInt64) (v : Int32) (e : Nat)
  /-- Waits for `map_ops_lock` again. -/
  | relock (f : UInt64) (v : Int32) (e : Nat)
  /-- Holds `map_ops_lock`, as up to `unlockAgain`. -/
  | find (f : UInt64) (v : Int32) (e : Nat)
  | unlockAgain (f : UInt64) (v : Int32)
  | start (f : UInt64) (v : Int32)
  /-- In `task_yield`. -/
  | asleep (f : UInt64) (v : Int32)
  /-- Has used a reference to an entry that was erased. -/
  | dangling
  /-- `futex_wake`, waits for `map_ops_lock`. -/
  | lockWake (f : UInt64)
  /-- Holds `map_ops_lock`, as up to the end of the call. -/
  | wake (f : UInt64)
  | leave (res : WakeResult)
  deriving DecidableEq

/-- An entry of `futex_map`. -/
structure Entry (τ : Type*) where
  no : Nat
  threads : List τ

/-- A process and its threads; `word` is the memory the futexes are in.  The last two fields say that
there has been a wake for a thread since it queued, and one for an address since the last store to it;
no function of the source reads them. -/
structure FutexState (τ : Type*) where
  word : UInt64 → Int32
  futexMap : UInt64 → Option (Entry τ)
  nextEntry : Nat
  mapOpsLock : Option τ
  thread : τ → Thread
  pc : τ → FutexPc
  wokenSince : τ → Bool
  wokenAfterStore : UInt64 → Bool

/-- A step of one thread, or of the scheduler. -/
inductive FutexAct (τ : Type*) where
  | callWait (t : τ) (f : UInt64) (v : Int32)
  | callWake (t : τ) (f : UInt64)
  | store (t : τ) (f : UInt64) (x : Int32)
  /-- The next step of a call. -/
  | next (t : τ)
  /-- `task_get_next_thread` considers a thread. -/
  | considerThread (t : τ) (scheduleStartTime : Nat)
  /-- An earlier wait of another kind has left a deadline. -/
  | otherWait (t : τ) (wakeThreadAfter : Nat)
  | destroyThread (t : τ)

variable {τ : Type*} [DecidableEq τ]

/-- The address a thread has queued for and not left again. -/
def FutexPc.queued : FutexPc → Option UInt64
  | .stop f _ _ | .unlock f _ _ | .recheck f _ _ | .relock f _ _ | .find f _ _ | .asleep f _ => some f
  | _ => none

namespace FutexState

/-- Threads that are running, some with a deadline of an earlier wait. -/
def init (word : UInt64 → Int32) (deadline : τ → Nat) : FutexState τ where
  word := word
  futexMap _ := none
  nextEntry := 0
  mapOpsLock := none
  thread t := { permitRunning := true, wakeThreadAfter := deadline t }
  pc _ := .running
  wokenSince _ := false
  wokenAfterStore _ := false

variable (s : FutexState τ)

/-- The threads that `futex_map` lists for an address. -/
def sleepers (f : UInt64) : List τ := ((s.futexMap f).map Entry.threads).getD []

def setPc (t : τ) (pc : FutexPc) : FutexState τ := { s with pc := Function.update s.pc t pc }

def setThread (t : τ) (g : Thread → Thread) : FutexState τ :=
  { s with thread := Function.update s.thread t (g (s.thread t)) }

def setEntry (f : UInt64) (e : Option (Entry τ)) : FutexState τ :=
  { s with futexMap := Function.update s.futexMap f e }

@[simp, grind =] theorem pc_setPc (t u : τ) (pc) :
    (s.setPc t pc).pc u = if u = t then pc else s.pc u := Function.update_apply ..
@[simp, grind =] theorem word_setPc (t : τ) (pc f) : (s.setPc t pc).word f = s.word f := rfl
@[simp, grind =] theorem futexMap_setPc (t : τ) (pc f) : (s.setPc t pc).futexMap f = s.futexMap f := rfl
@[simp, grind =] theorem mapOpsLock_setPc (t : τ) (pc) : (s.setPc t pc).mapOpsLock = s.mapOpsLock := rfl
@[simp, grind =] theorem thread_setPc (t u : τ) (pc) : (s.setPc t pc).thread u = s.thread u := rfl
@[simp, grind =] theorem wokenSince_setPc (t u : τ) (pc) :
    (s.setPc t pc).wokenSince u = s.wokenSince u := rfl
@[simp, grind =] theorem wokenAfterStore_setPc (t : τ) (pc f) :
    (s.setPc t pc).wokenAfterStore f = s.wokenAfterStore f := rfl

@[simp, grind =] theorem thread_setThread (t u : τ) (g) :
    (s.setThread t g).thread u = if u = t then g (s.thread t) else s.thread u := Function.update_apply ..
@[simp, grind =] theorem pc_setThread (t u : τ) (g) : (s.setThread t g).pc u = s.pc u := rfl
@[simp, grind =] theorem word_setThread (t : τ) (g f) : (s.setThread t g).word f = s.word f := rfl
@[simp, grind =] theorem futexMap_setThread (t : τ) (g f) :
    (s.setThread t g).futexMap f = s.futexMap f := rfl
@[simp, grind =] theorem mapOpsLock_setThread (t : τ) (g) :
    (s.setThread t g).mapOpsLock = s.mapOpsLock := rfl
@[simp, grind =] theorem wokenSince_setThread (t u : τ) (g) :
    (s.setThread t g).wokenSince u = s.wokenSince u := rfl
@[simp, grind =] theorem wokenAfterStore_setThread (t : τ) (g f) :
    (s.setThread t g).wokenAfterStore f = s.wokenAfterStore f := rfl

section
omit [DecidableEq τ]

@[simp, grind =] theorem futexMap_setEntry (f f' : UInt64) (e) :
    (s.setEntry f e).futexMap f' = if f' = f then e else s.futexMap f' := Function.update_apply ..
@[simp, grind =] theorem pc_setEntry (f : UInt64) (u : τ) (e) : (s.setEntry f e).pc u = s.pc u := rfl
@[simp, grind =] theorem word_setEntry (f f' : UInt64) (e) : (s.setEntry f e).word f' = s.word f' := rfl
@[simp, grind =] theorem mapOpsLock_setEntry (f : UInt64) (e) :
    (s.setEntry f e).mapOpsLock = s.mapOpsLock := rfl
@[simp, grind =] theorem thread_setEntry (f : UInt64) (u : τ) (e) :
    (s.setEntry f e).thread u = s.thread u := rfl
@[simp, grind =] theorem wokenSince_setEntry (f : UInt64) (u : τ) (e) :
    (s.setEntry f e).wokenSince u = s.wokenSince u := rfl
@[simp, grind =] theorem wokenAfterStore_setEntry (f f' : UInt64) (e) :
    (s.setEntry f e).wokenAfterStore f' = s.wokenAfterStore f' := rfl

end

/-- `klib_synch_spinlock_lock(cur_process->map_ops_lock)`, once it is free. -/
def lock (t : τ) (pc : FutexPc) : Option (FutexState τ) :=
  if s.mapOpsLock = none then some ({ s with mapOpsLock := some t }.setPc t pc) else none

/-- `futex_wait` queues, with a new entry if there is none; also gives the number of the entry. -/
def pushBack (t : τ) (f : UInt64) : FutexState τ × Nat :=
  match s.futexMap f with
  | none => ({ s with nextEntry := s.nextEntry + 1, wokenSince := Function.update s.wokenSince t false
      }.setEntry f (some ⟨s.nextEntry, [t]⟩), s.nextEntry)
  | some x => ({ s with wokenSince := Function.update s.wokenSince t false }.setEntry f
      (some ⟨x.no, x.threads ++ [t]⟩), x.no)

/-- `futex_wait` takes the thread out of the vector `v`, and the entry out of the map if that was the
last one. -/
def eraseSelf (t : τ) (f : UInt64) (x : Entry τ) : FutexState τ :=
  if t ∈ x.threads then
    if x.threads.erase t = [] then s.setEntry f none
    else s.setEntry f (some ⟨x.no, x.threads.erase t⟩)
  else s

/-- `futex_wake`: all sleepers are started, and the entry is erased. -/
def wakeAll (f : UInt64) : FutexState τ × WakeResult :=
  let woken : FutexState τ :=
    { s with
      wokenSince := fun u => s.wokenSince u || (s.pc u).queued = some f
      wokenAfterStore := Function.update s.wokenAfterStore f true }
  match s.futexMap f with
  | some x => ({ woken with thread := fun u =>
      if u ∈ x.threads then (s.thread u).startThread else s.thread u }.setEntry f none, .noError)
  | none => (woken, .notFound)

/-- The next step of a thread's call. -/
def next (t : τ) : Option (FutexState τ) :=
  match s.pc t with
  | .running | .dangling => none
  | .enter f v => some (s.setPc t (if s.word f = v then .lockWait f v else .running))
  | .lockWait f v => s.lock t (.pushBack f v)
  | .pushBack f v =>
      let (s', e) := s.pushBack t f
      some (s'.setPc t (.stop f v e))
  | .stop f v e => some ((s.setThread t Thread.stopThread).setPc t (.unlock f v e))
  | .unlock f v e => some ({ s with mapOpsLock := none }.setPc t (.recheck f v e))
  | .recheck f v e => some (s.setPc t (if s.word f ≠ v then .relock f v e else .asleep f v))
  | .relock f v e => s.lock t (.find f v e)
  | .find f v e =>
      match s.futexMap f with
      | some x =>
          if x.no = e then some ((s.eraseSelf t f x).setPc t (.unlockAgain f v))
          else some (s.setPc t .dangling)
      | none => some (s.setPc t .dangling)
  | .unlockAgain f v => some ({ s with mapOpsLock := none }.setPc t (.start f v))
  | .start f v => some ((s.setThread t Thread.startThread).setPc t (.asleep f v))
  | .asleep _ _ => if (s.thread t).permitRunning then some (s.setPc t .running) else none
  | .lockWake f => s.lock t (.wake f)
  | .wake f =>
      let (s', res) := s.wakeAll f
      some (s'.setPc t (.leave res))
  | .leave _ => some ({ s with mapOpsLock := none }.setPc t .running)

/-- One step of the machine.  A thread that has been destroyed takes no more steps. -/
def step (s : FutexState τ) : FutexAct τ → Option (FutexState τ)
  | .callWait t f v =>
      if s.pc t = .running ∧ !(s.thread t).threadDestroyed then some (s.setPc t (.enter f v)) else none
  | .callWake t f =>
      if s.pc t = .running ∧ !(s.thread t).threadDestroyed then some (s.setPc t (.lockWake f)) else none
  | .store t f x =>
      if s.pc t = .running ∧ !(s.thread t).threadDestroyed then
        some { s with
          word := Function.update s.word f x
          wokenAfterStore := Function.update s.wokenAfterStore f false }
      else none
  | .next t => if !(s.thread t).threadDestroyed then s.next t else none
  | .considerThread t now => some (s.setThread t fun x => x.timedWake now)
  | .otherWait t d =>
      if s.pc t = .running then some (s.setThread t fun x => { x with wakeThreadAfter := d })
      else none
  | .destroyThread t =>
      some (s.setThread t fun x => { x with threadDestroyed := true, permitRunning := false })

end FutexState

/-! ### What a place in the source means -/

/-- A thread holds `map_ops_lock`. -/
def FutexPc.holds : FutexPc → Bool
  | .pushBack _ _ | .stop _ _ _ | .unlock _ _ _ | .find _ _ _ | .unlockAgain _ _ | .wake _
  | .leave _ => true
  | _ => false

/-- The address for which a thread has stopped itself. -/
def FutexPc.sleeps : FutexPc → Option UInt64
  | .unlock f _ _ | .recheck f _ _ | .relock f _ _ | .find f _ _ | .asleep f _ => some f
  | _ => none

/-- The entry a thread refers to. -/
def FutexPc.refers : FutexPc → Option (UInt64 × Nat)
  | .stop f _ e | .unlock f _ e | .recheck f _ e | .relock f _ e | .find f _ e => some (f, e)
  | _ => none

/-- What a thread needs for its next step: no deadline if it stops itself, and the entry it queued in
if it looks for itself there. -/
def FutexPc.Ready (s : FutexState τ) (t : τ) : FutexPc → Prop
  | .stop _ _ _ => (s.thread t).wakeThreadAfter = 0
  | .find f _ e => (s.futexMap f).map Entry.no = some e
  | _ => True

/-- Every thread that takes a step of a call is ready for it, and none is destroyed while it is queued. -/
def NoSurprise (s : FutexState τ) : FutexAct τ → Prop
  | .next t => (s.pc t).Ready s t
  | .destroyThread t => (s.pc t).queued = none
  | _ => True

instance (s : FutexState τ) (t : τ) (pc : FutexPc) : Decidable (pc.Ready s t) :=
  match pc with
  | .stop .. => inferInstanceAs (Decidable ((s.thread t).wakeThreadAfter = 0))
  | .find f _ e => inferInstanceAs (Decidable ((s.futexMap f).map Entry.no = some e))
  | .running | .enter .. | .lockWait .. | .pushBack .. | .unlock .. | .recheck .. | .relock ..
  | .unlockAgain .. | .start .. | .asleep .. | .dangling | .lockWake _ | .wake _ | .leave _ =>
      .isTrue trivial

instance (s : FutexState τ) (i : FutexAct τ) : Decidable (NoSurprise s i) :=
  match i with
  | .next t => inferInstanceAs (Decidable ((s.pc t).Ready s t))
  | .destroyThread t => inferInstanceAs (Decidable ((s.pc t).queued = none))
  | .callWait .. | .callWake .. | .store .. | .considerThread .. | .otherWait .. => .isTrue trivial

/-- What holds of a thread. -/
structure ThreadOk (s : FutexState τ) (t : τ) : Prop where
  lock : s.mapOpsLock = some t ↔ (s.pc t).holds
  alive : (s.pc t).queued ≠ none → (s.thread t).threadDestroyed = false
  refers : s.pc t ≠ .dangling
  list : ∀ f, t ∈ s.sleepers f → (s.pc t).queued = some f
  entry : ∀ f e, (s.pc t).refers = some (f, e) → t ∈ s.sleepers f →
    (s.futexMap f).map Entry.no = some e
  stop : ∀ f v e, s.pc t = .stop f v e → t ∈ s.sleepers f
  sleeps : ∀ f, (s.pc t).sleeps = some f →
    (t ∈ s.sleepers f ↔ (s.thread t).permitRunning = false)
  deadline : ∀ f, (s.pc t).sleeps = some f → (s.thread t).permitRunning = false →
    (s.thread t).wakeThreadAfter = 0
  woken : ∀ f, (s.pc t).sleeps = some f → (s.thread t).permitRunning = false → s.wokenSince t = false
  fresh : ∀ f v e, s.pc t = .stop f v e → s.wokenSince t = false
  word : ∀ f v, s.pc t = .asleep f v → (s.thread t).permitRunning = false → s.word f ≠ v →
    s.wokenAfterStore f = false

/-- What holds of an address. -/
structure WordOk (s : FutexState τ) (f : UInt64) : Prop where
  nonempty : ∀ x, s.futexMap f = some x → x.threads ≠ []
  nodup : (s.sleepers f).Nodup

/-- The invariant of a process. -/
structure Inv (s : FutexState τ) : Prop where
  word : ∀ f, WordOk s f
  thread : ∀ t, ThreadOk s t

variable {s s' : FutexState τ} {t : τ} {f : UInt64} {v : Int32} {e : Nat}

attribute [local grind =] FutexPc.holds FutexPc.queued FutexPc.sleeps FutexPc.refers
  FutexState.sleepers Function.update_apply

section
omit [DecidableEq τ]

theorem Inv.init {word : UInt64 → Int32} {deadline : τ → Nat} : Inv (.init word deadline) := by
  constructor
  · intro f
    constructor <;> simp [FutexState.init, FutexState.sleepers]
  · intro t
    constructor <;> simp [FutexState.init, FutexState.sleepers, FutexPc.holds, FutexPc.sleeps,
      FutexPc.refers]

/-- A step that leaves the map as it is. -/
theorem Inv.same (h : Inv s) (hmap : s'.futexMap = s.futexMap) (hthread : ∀ t, ThreadOk s' t) :
    Inv s' := by
  refine ⟨fun f => ⟨?_, ?_⟩, hthread⟩
  · rw [hmap]
    exact (h.word f).nonempty
  · have := (h.word f).nodup
    unfold FutexState.sleepers at this ⊢
    rwa [hmap]

theorem FutexState.sleepers_eq {x : Entry τ} (h : s.futexMap f = some x) :
    s.sleepers f = x.threads := by
  simp [FutexState.sleepers, h]

theorem FutexState.sleepers_none (h : s.futexMap f = none) : s.sleepers f = [] := by
  simp [FutexState.sleepers, h]

/-- One entry of the map is set or erased. -/
theorem Inv.update {o : Option (Entry τ)} (h : Inv s)
    (hmap : s'.futexMap = Function.update s.futexMap f o)
    (ho : ∀ x, o = some x → x.threads ≠ [] ∧ x.threads.Nodup) (hthread : ∀ t, ThreadOk s' t) :
    Inv s' := by
  refine ⟨fun g => ?_, hthread⟩
  obtain ⟨hnonempty, hnodup⟩ := h.word g
  unfold FutexState.sleepers at hnodup
  by_cases hg : g = f
  · subst hg
    constructor
    · intro x hx
      rw [hmap, Function.update_self] at hx
      exact (ho x hx).1
    · rw [FutexState.sleepers, hmap, Function.update_self]
      cases o with
      | none => exact List.nodup_nil
      | some x => exact (ho x rfl).2
  · constructor
    · rwa [hmap, Function.update_of_ne hg]
    · rwa [FutexState.sleepers, hmap, Function.update_of_ne hg]

end

theorem Inv.pushBack (h : Inv s) (hpc : s.pc t = .pushBack f v)
    (halive : (s.thread t).threadDestroyed = false) :
    Inv ((s.pushBack t f).1.setPc t (.stop f v (s.pushBack t f).2)) := by
  have hnew : t ∉ s.sleepers f := fun hmem => by
    have := (h.thread t).list f hmem
    rw [hpc] at this
    cases this
  have hlock := (h.thread t).lock
  unfold FutexState.pushBack
  split
  next hnone =>
    refine h.update rfl (by simp) fun u => ?_
    obtain ⟨g1, g2, g3, g4, g5, g6, g7, g8, g9, g10, g11⟩ := h.thread u
    constructor <;> grind -linarith
  next x hsome =>
    have heq := FutexState.sleepers_eq hsome
    have hnodup := (h.word f).nodup
    refine h.update rfl (by grind -linarith) fun u => ?_
    obtain ⟨g1, g2, g3, g4, g5, g6, g7, g8, g9, g10, g11⟩ := h.thread u
    constructor <;> grind -linarith

/-- A waiter takes itself from the vector it queued in. -/
theorem Inv.find {x : Entry τ} (h : Inv s) (hpc : s.pc t = .find f v e) (hx : s.futexMap f = some x) :
    Inv ((s.eraseSelf t f x).setPc t (.unlockAgain f v)) := by
  have hlock := (h.thread t).lock
  have heq := FutexState.sleepers_eq hx
  have hnodup := (h.word f).nodup
  rw [heq] at hnodup
  unfold FutexState.eraseSelf
  split
  next hmem =>
    split
    next hlast =>
      refine h.update rfl (by simp) fun u => ?_
      obtain ⟨g1, g2, g3, g4, g5, g6, g7, g8, g9, g10, g11⟩ := h.thread u
      constructor <;> grind -linarith
    next hmore =>
      refine h.update rfl (by grind -linarith) fun u => ?_
      obtain ⟨g1, g2, g3, g4, g5, g6, g7, g8, g9, g10, g11⟩ := h.thread u
      constructor <;> grind -linarith
  next hmem =>
    refine h.same rfl fun u => ?_
    obtain ⟨g1, g2, g3, g4, g5, g6, g7, g8, g9, g10, g11⟩ := h.thread u
    constructor <;> grind -linarith

theorem FutexPc.queued_of_sleeps {pc : FutexPc} (h : pc.sleeps = some f) : pc.queued = some f := by
  unfold FutexPc.sleeps at h
  split at h <;> simp_all [FutexPc.queued]

theorem FutexPc.sleeps_of_queued {pc : FutexPc} (h : pc.queued = some f) (hfree : pc.holds = false) :
    pc.sleeps = some f := by
  unfold FutexPc.queued at h
  split at h <;> simp_all [FutexPc.sleeps, FutexPc.holds]

/-- Nobody stays stopped after a wake. -/
theorem Inv.wake (h : Inv s) (hpc : s.pc t = .wake f) :
    Inv ((s.wakeAll f).1.setPc t (.leave (s.wakeAll f).2)) := by
  have hlock := (h.thread t).lock
  have hasleep : ∀ u g v, s.pc u = .asleep g v → (s.pc u).sleeps = some g := by
    rintro u g v hu
    rw [hu]
    rfl
  unfold FutexState.wakeAll
  split
  next x hx =>
    have heq := FutexState.sleepers_eq hx
    refine h.update rfl (by simp) fun u => ?_
    have hqueued : ∀ g, (s.pc u).sleeps = some g → (s.pc u).queued = some g := fun _ =>
      FutexPc.queued_of_sleeps
    obtain ⟨g1, g2, g3, g4, g5, g6, g7, g8, g9, g10, g11⟩ := h.thread u
    constructor <;> grind -linarith [Thread.startThread]
  next hnone =>
    have hnil := FutexState.sleepers_none hnone
    refine h.same rfl fun u => ?_
    have hqueued : ∀ g, (s.pc u).sleeps = some g → (s.pc u).queued = some g := fun _ =>
      FutexPc.queued_of_sleeps
    obtain ⟨g1, g2, g3, g4, g5, g6, g7, g8, g9, g10, g11⟩ := h.thread u
    constructor <;> grind -linarith

theorem Inv.next (h : Inv s) (hok : (s.pc t).Ready s t) (halive : (s.thread t).threadDestroyed = false)
    (hs : s.next t = some s') : Inv s' := by
  have hlock := (h.thread t).lock
  simp only [FutexState.next] at hs
  cases hpc : s.pc t with
  | running => simp [hpc] at hs
  | dangling => simp [hpc] at hs
  | enter f v =>
      simp only [hpc, Option.some.injEq] at hs
      subst hs
      refine h.same rfl fun u => ?_
      obtain ⟨g1, g2, g3, g4, g5, g6, g7, g8, g9, g10, g11⟩ := h.thread u
      constructor <;> grind -linarith
  | lockWait f v =>
      simp only [hpc, FutexState.lock, Option.ite_none_right_eq_some, Option.some.injEq] at hs
      obtain ⟨hfree, rfl⟩ := hs
      refine h.same rfl fun u => ?_
      obtain ⟨g1, g2, g3, g4, g5, g6, g7, g8, g9, g10, g11⟩ := h.thread u
      constructor <;> grind -linarith
  | pushBack f v =>
      simp only [hpc, Option.some.injEq] at hs
      subst hs
      exact h.pushBack hpc halive
  | stop f v e =>
      rw [hpc] at hok
      simp only [FutexPc.Ready] at hok
      simp only [hpc, Option.some.injEq] at hs
      subst hs
      refine h.same rfl fun u => ?_
      obtain ⟨g1, g2, g3, g4, g5, g6, g7, g8, g9, g10, g11⟩ := h.thread u
      constructor <;> grind -linarith [Thread.stopThread]
  | unlock f v e =>
      simp only [hpc, Option.some.injEq] at hs
      subst hs
      refine h.same rfl fun u => ?_
      obtain ⟨g1, g2, g3, g4, g5, g6, g7, g8, g9, g10, g11⟩ := h.thread u
      constructor <;> grind -linarith
  | recheck f v e =>
      simp only [hpc, Option.some.injEq] at hs
      subst hs
      refine h.same rfl fun u => ?_
      obtain ⟨g1, g2, g3, g4, g5, g6, g7, g8, g9, g10, g11⟩ := h.thread u
      constructor <;> grind -linarith
  | relock f v e =>
      simp only [hpc, FutexState.lock, Option.ite_none_right_eq_some, Option.some.injEq] at hs
      obtain ⟨hfree, rfl⟩ := hs
      refine h.same rfl fun u => ?_
      obtain ⟨g1, g2, g3, g4, g5, g6, g7, g8, g9, g10, g11⟩ := h.thread u
      constructor <;> grind -linarith
  | find f v e =>
      rw [hpc] at hok
      obtain ⟨x, hx, hno⟩ := Option.map_eq_some_iff.mp hok
      simp only [hpc, hx, hno, if_true, Option.some.injEq] at hs
      subst hs
      exact h.find hpc hx
  | unlockAgain f v =>
      simp only [hpc, Option.some.injEq] at hs
      subst hs
      refine h.same rfl fun u => ?_
      obtain ⟨g1, g2, g3, g4, g5, g6, g7, g8, g9, g10, g11⟩ := h.thread u
      constructor <;> grind -linarith
  | start f v =>
      simp only [hpc, Option.some.injEq] at hs
      subst hs
      refine h.same rfl fun u => ?_
      obtain ⟨g1, g2, g3, g4, g5, g6, g7, g8, g9, g10, g11⟩ := h.thread u
      constructor <;> grind -linarith [Thread.startThread]
  | asleep f v =>
      simp only [hpc, Option.ite_none_right_eq_some, Option.some.injEq] at hs
      obtain ⟨hpermit, rfl⟩ := hs
      have hsleeps := (h.thread t).sleeps f (by rw [hpc]; rfl)
      refine h.same rfl fun u => ?_
      obtain ⟨g1, g2, g3, g4, g5, g6, g7, g8, g9, g10, g11⟩ := h.thread u
      constructor <;> grind -linarith
  | lockWake f =>
      simp only [hpc, FutexState.lock, Option.ite_none_right_eq_some, Option.some.injEq] at hs
      obtain ⟨hfree, rfl⟩ := hs
      refine h.same rfl fun u => ?_
      obtain ⟨g1, g2, g3, g4, g5, g6, g7, g8, g9, g10, g11⟩ := h.thread u
      constructor <;> grind -linarith
  | wake f =>
      simp only [hpc, Option.some.injEq] at hs
      subst hs
      exact h.wake hpc
  | leave res =>
      simp only [hpc, Option.some.injEq] at hs
      subst hs
      refine h.same rfl fun u => ?_
      obtain ⟨g1, g2, g3, g4, g5, g6, g7, g8, g9, g10, g11⟩ := h.thread u
      constructor <;> grind -linarith

theorem Inv.step {i : FutexAct τ} (h : Inv s) (hok : NoSurprise s i) (hs : s.step i = some s') :
    Inv s' := by
  cases i with
  | callWait t f v =>
      simp only [FutexState.step, Option.ite_none_right_eq_some, Option.some.injEq] at hs
      obtain ⟨⟨hpc, halive⟩, rfl⟩ := hs
      refine h.same rfl fun u => ?_
      obtain ⟨g1, g2, g3, g4, g5, g6, g7, g8, g9, g10, g11⟩ := h.thread u
      constructor <;> grind -linarith
  | callWake t f =>
      simp only [FutexState.step, Option.ite_none_right_eq_some, Option.some.injEq] at hs
      obtain ⟨⟨hpc, halive⟩, rfl⟩ := hs
      refine h.same rfl fun u => ?_
      obtain ⟨g1, g2, g3, g4, g5, g6, g7, g8, g9, g10, g11⟩ := h.thread u
      constructor <;> grind -linarith
  | store t f x =>
      simp only [FutexState.step, Option.ite_none_right_eq_some, Option.some.injEq] at hs
      obtain ⟨⟨hpc, halive⟩, rfl⟩ := hs
      refine h.same rfl fun u => ?_
      obtain ⟨g1, g2, g3, g4, g5, g6, g7, g8, g9, g10, g11⟩ := h.thread u
      constructor <;> grind -linarith
  | next t =>
      simp only [FutexState.step, Option.ite_none_right_eq_some] at hs
      exact h.next hok (by simpa using hs.1) hs.2
  | considerThread t now =>
      cases hs
      refine h.same rfl fun u => ?_
      obtain ⟨g1, g2, g3, g4, g5, g6, g7, g8, g9, g10, g11⟩ := h.thread u
      constructor <;> grind -linarith [Thread.timedWake, Thread.shouldWake]
  | otherWait t d =>
      simp only [FutexState.step, Option.ite_none_right_eq_some, Option.some.injEq] at hs
      obtain ⟨hpc, rfl⟩ := hs
      refine h.same rfl fun u => ?_
      obtain ⟨g1, g2, g3, g4, g5, g6, g7, g8, g9, g10, g11⟩ := h.thread u
      constructor <;> grind -linarith
  | destroyThread t =>
      simp only [NoSurprise] at hok
      have hsleeps : ∀ g, (s.pc t).sleeps ≠ some g := fun g hg => by
        rw [FutexPc.queued_of_sleeps hg] at hok
        cases hok
      cases hs
      refine h.same rfl fun u => ?_
      obtain ⟨g1, g2, g3, g4, g5, g6, g7, g8, g9, g10, g11⟩ := h.thread u
      constructor <;> grind -linarith

/-! ### What a futex is for -/

/-- A thread is stopped in `futex_wait(f, v)`. -/
def Stopped (s : FutexState τ) (t : τ) (f : UInt64) (v : Int32) : Prop :=
  s.pc t = .asleep f v ∧ (s.thread t).permitRunning = false

/-- What should hold of a process at any moment. -/
structure FutexOk (s : FutexState τ) : Prop where
  /-- Nobody who was stopped at a wake stays so, -/
  woken : ∀ t f v, Stopped s t f v → s.wokenSince t = false
  /-- and nobody is stopped who waits for another value than that of the last store, if there has been
  a wake after it. -/
  stored : ∀ t f v, Stopped s t f v → s.word f ≠ v → s.wokenAfterStore f = false
  /-- No reference to an erased entry is used. -/
  refers : ∀ t, s.pc t ≠ .dangling
  nonempty : s.mapOpsLock = none → ∀ f x, s.futexMap f = some x → x.threads ≠ []
  nodup : s.mapOpsLock = none → ∀ f, (s.sleepers f).Nodup
  /-- The map lists the threads that are stopped. -/
  lists : s.mapOpsLock = none → ∀ t f, t ∈ s.sleepers f ↔
    (s.pc t).sleeps = some f ∧ (s.thread t).permitRunning = false
  alive : s.mapOpsLock = none → ∀ t f, t ∈ s.sleepers f → (s.thread t).threadDestroyed = false

omit [DecidableEq τ] in
theorem Inv.ok (h : Inv s) : FutexOk s where
  woken t f v hstop := (h.thread t).woken f (by rw [hstop.1]; rfl) hstop.2
  stored t f v hstop hne := (h.thread t).word f v hstop.1 hstop.2 hne
  refers t := (h.thread t).refers
  nonempty _ f := (h.word f).nonempty
  nodup _ f := (h.word f).nodup
  lists hfree t f := by
    obtain ⟨g1, g2, g3, g4, g5, g6, g7, g8, g9, g10, g11⟩ := h.thread t
    constructor
    · intro hmem
      have hsleeps := FutexPc.sleeps_of_queued (g4 f hmem) (by grind -linarith)
      exact ⟨hsleeps, (g7 f hsleeps).1 hmem⟩
    · rintro ⟨hsleeps, hpermit⟩
      exact (g7 f hsleeps).2 hpermit
  alive _ t f hmem := by
    have hq := (h.thread t).list f hmem
    exact (h.thread t).alive (by simp [hq])

/-- In every run in which no waiter is disturbed. -/
theorem futex_ok {word : UInt64 → Int32} {deadline : τ → Nat}
    (h : Reach FutexState.step NoSurprise (.init word deadline) s) : FutexOk s :=
  Inv.ok (h.invariant .init fun _ _ _ h hok hs => h.step hok hs)

/-- A process of two threads, and all words 0. -/
abbrev twoThreads : FutexState Bool := .init (fun _ => 0) fun _ => 0

/-- The first thread waits for the word at 8 to be no longer 0, and takes so many steps of the call. -/
def waits (steps : Nat) : List (FutexAct Bool) :=
  .callWait false 8 0 :: List.replicate steps (.next false)

/-- The first thread is stopped, and has seen no wake. -/
theorem futex_ok_stopped : ∃ s : FutexState Bool,
    Reach FutexState.step NoSurprise twoThreads s ∧ Stopped s false 8 0 ∧ s.wokenSince false = false := by
  obtain ⟨s, hs, hpc, hpermit⟩ := Reach.exists_of_run
    (by decide +kernel : ∃ s ∈ run FutexState.step NoSurprise twoThreads (waits 6),
      s.pc false = .asleep 8 0 ∧ (s.thread false).permitRunning = false)
  exact ⟨s, hs, ⟨hpc, hpermit⟩, (futex_ok hs).woken false 8 0 ⟨hpc, hpermit⟩⟩

/-- A thread that is woken by the deadline of an earlier wait returns, and one that is destroyed never
will; both stay in the map.  And a thread that finds the word changed looks for itself in a vector that
`futex_wake` has erased. -/
theorem futex_fails :
    (¬ ∀ s : FutexState Bool, Reach FutexState.step anyInput twoThreads s → FutexOk s) ∧
    (¬ ∀ s : FutexState Bool, Reach FutexState.step anyInput twoThreads s → s.mapOpsLock = none →
      ∀ t f, t ∈ s.sleepers f → (s.thread t).threadDestroyed = false) ∧
    ¬ ∀ s : FutexState Bool, Reach FutexState.step anyInput twoThreads s → ∀ t, s.pc t ≠ .dangling := by
  refine ⟨fun h => ?_, fun h => ?_, fun h => ?_⟩
  · obtain ⟨s, hs, hlock, hpc, hmem⟩ := Reach.exists_of_run
      (by decide +kernel : ∃ s ∈ run FutexState.step anyInput twoThreads
        (.otherWait false 1000 :: waits 6 ++ [.considerThread false 2000, .next false]),
        s.mapOpsLock = none ∧ s.pc false = .running ∧ false ∈ s.sleepers 8)
    have := (((h s hs).lists hlock false 8).1 hmem).1
    rw [hpc] at this
    cases this
  · obtain ⟨s, hs, hlock, hdead, hmem⟩ := Reach.exists_of_run
      (by decide +kernel : ∃ s ∈ run FutexState.step anyInput twoThreads
        (waits 6 ++ [.destroyThread false]),
        s.mapOpsLock = none ∧ (s.thread false).threadDestroyed ∧ false ∈ s.sleepers 8)
    have := h s hs hlock false 8 hmem
    rw [hdead] at this
    cases this
  · obtain ⟨s, hs, hpc⟩ := Reach.exists_of_run
      (by decide +kernel : ∃ s ∈ run FutexState.step anyInput twoThreads
        (waits 5 ++ [.store true 8 1, .callWake true 8, .next true, .next true, .next true,
          .next false, .next false, .next false]),
        s.pc false = .dangling)
    exact h s hs false hpc

end Azalea.Proc.Futexes
