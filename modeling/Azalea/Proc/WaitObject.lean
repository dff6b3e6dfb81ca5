import Mathlib.Algebra.Order.Ring.Nat
import Mathlib.Logic.Function.Basic
import Azalea.Proc.ThreadCycle
import Azalea.Support.Runs

/-!
# Proc — objects that threads wait for

`processor/synch_objects.cpp`: any threads that call `wait_for_signal`, `trigger_next_thread` and
`trigger_all_threads` on a `WaitObject` or a `WaitForFirstTriggerObject`.  A thread is the place in
the source it stands at; it looks at `already_triggered` and sleeps outside `_list_lock`, so that a
trigger can come in between.  A thread in `task_yield` goes on once it is permitted to run.
-/

namespace Azalea.Proc.Waits
open Azalea.Runs

/-- `WaitObject::MAX_WAIT`. -/
def maxWait : Nat := 2 ^ 64 - 1

/-- The two classes, which differ in `should_still_sleep` and `before_wake_cb`. -/
inductive WaitKind where
  | waitObject
  | waitForFirstTrigger
  deriving DecidableEq

/-- Where a thread stands; `w` is `max_wait`, and `slept` that it went on with its sleep. -/
inductive WaitPc where
  | running
  /-- `wait_for_signal`, waits for `_list_lock`. -/
  | enter (w : Nat)
  /-- Holds `_list_lock`, as up to `unlock`. -/
  | stop (w : Nat)
  | addTail (w : Nat)
  | unlock (w : Nat)
  /-- `should_still_sleep`. -/
  | check (w : Nat)
  | setDeadline (w : Nat)
  /-- In `task_yield`. -/
  | asleep
  /-- Aborts its sleep. -/
  | start
  /-- `cancel_waiting_thread`, waits for `_list_lock`. -/
  | cancel (slept : Bool)
  /-- Holds `_list_lock`, as up to the end of the call. -/
  | search (slept : Bool)
  | leave (res : Bool)
  /-- `trigger_all_threads` or `trigger_next_thread`, waits for `_list_lock`. -/
  | trigger (all : Bool)
  /-- Holds `_list_lock`, as up to the end of the call. -/
  | beforeAll
  | loop
  /-- The `before_wake_cb` of `trigger_next_thread`. -/
  | beforeNext (all : Bool)
  | wake (all : Bool)
  | triggered (all : Bool)
  deriving DecidableEq

/-- A `WaitObject` and the threads.  The last three fields number the waits in the order they were
queued, and say that a `trigger_all_threads` has returned; no function of the source reads them. -/
structure WaitState (τ : Type*) where
  kind : WaitKind
  waitingThreads : List τ
  listLock : Option τ
  alreadyTriggered : Bool
  thread : τ → Thread
  pc : τ → WaitPc
  ticket : τ → Nat
  nextTicket : Nat
  allTriggered : Bool

/-- A step of one thread, or of the scheduler. -/
inductive WaitAct (τ : Type*) where
  | callWait (t : τ) (w : Nat)
  | callTrigger (t : τ) (all : Bool)
  /-- The next step of a call; `count` is what `time_get_system_timer_count()` gives. -/
  | next (t : τ) (count : Nat)
  /-- A wait for something else has left a deadline. -/
  | otherWait (t : τ) (wakeThreadAfter : Nat)
  /-- `task_get_next_thread` considers a thread. -/
  | considerThread (t : τ) (scheduleStartTime : Nat)

variable {τ : Type*} [DecidableEq τ]

namespace WaitState

/-- A new object, and threads that are in no call. -/
def init (kind : WaitKind) (thread : τ → Thread) : WaitState τ where
  kind := kind
  waitingThreads := []
  listLock := none
  alreadyTriggered := false
  thread := thread
  pc _ := .running
  ticket _ := 0
  nextTicket := 0
  allTriggered := false

variable (s : WaitState τ)

def setPc (t : τ) (pc : WaitPc) : WaitState τ := { s with pc := Function.update s.pc t pc }

def setThread (t : τ) (f : Thread → Thread) : WaitState τ :=
  { s with thread := Function.update s.thread t (f (s.thread t)) }

@[simp, grind =] theorem pc_setPc (t u : τ) (pc) :
    (s.setPc t pc).pc u = if u = t then pc else s.pc u := Function.update_apply ..
@[simp, grind =] theorem kind_setPc (t : τ) (pc) : (s.setPc t pc).kind = s.kind := rfl
@[simp, grind =] theorem waitingThreads_setPc (t : τ) (pc) :
    (s.setPc t pc).waitingThreads = s.waitingThreads := rfl
@[simp, grind =] theorem listLock_setPc (t : τ) (pc) : (s.setPc t pc).listLock = s.listLock := rfl
@[simp, grind =] theorem alreadyTriggered_setPc (t : τ) (pc) :
    (s.setPc t pc).alreadyTriggered = s.alreadyTriggered := rfl
@[simp, grind =] theorem thread_setPc (t u : τ) (pc) : (s.setPc t pc).thread u = s.thread u := rfl
@[simp, grind =] theorem ticket_setPc (t u : τ) (pc) : (s.setPc t pc).ticket u = s.ticket u := rfl
@[simp, grind =] theorem nextTicket_setPc (t : τ) (pc) : (s.setPc t pc).nextTicket = s.nextTicket := rfl
@[simp, grind =] theorem allTriggered_setPc (t : τ) (pc) :
    (s.setPc t pc).allTriggered = s.allTriggered := rfl

@[simp, grind =] theorem thread_setThread (t u : τ) (f) :
    (s.setThread t f).thread u = if u = t then f (s.thread t) else s.thread u := Function.update_apply ..
@[simp, grind =] theorem pc_setThread (t u : τ) (f) : (s.setThread t f).pc u = s.pc u := rfl
@[simp, grind =] theorem kind_setThread (t : τ) (f) : (s.setThread t f).kind = s.kind := rfl
@[simp, grind =] theorem waitingThreads_setThread (t : τ) (f) :
    (s.setThread t f).waitingThreads = s.waitingThreads := rfl
@[simp, grind =] theorem listLock_setThread (t : τ) (f) : (s.setThread t f).listLock = s.listLock := rfl
@[simp, grind =] theorem alreadyTriggered_setThread (t : τ) (f) :
    (s.setThread t f).alreadyTriggered = s.alreadyTriggered := rfl
@[simp, grind =] theorem ticket_setThread (t u : τ) (f) : (s.setThread t f).ticket u = s.ticket u := rfl
@[simp, grind =] theorem nextTicket_setThread (t : τ) (f) :
    (s.setThread t f).nextTicket = s.nextTicket := rfl
@[simp, grind =] theorem allTriggered_setThread (t : τ) (f) :
    (s.setThread t f).allTriggered = s.allTriggered := rfl

/-- `klib_synch_spinlock_lock(this->_list_lock)`, once it is free. -/
def lock (t : τ) (pc : WaitPc) : Option (WaitState τ) :=
  if s.listLock = none then some ({ s with listLock := some t }.setPc t pc) else none

/-- `klib_list_add_tail(&this->_waiting_threads, list_item)`. -/
def addTail (t : τ) : WaitState τ :=
  { s with
    waitingThreads := s.waitingThreads ++ [t]
    ticket := Function.update s.ticket t s.nextTicket
    nextTicket := s.nextTicket + 1 }

@[simp, grind =] theorem waitingThreads_addTail (t : τ) :
    (s.addTail t).waitingThreads = s.waitingThreads ++ [t] := rfl
@[simp, grind =] theorem ticket_addTail (t u : τ) :
    (s.addTail t).ticket u = if u = t then s.nextTicket else s.ticket u := Function.update_apply ..
@[simp, grind =] theorem nextTicket_addTail (t : τ) :
    (s.addTail t).nextTicket = s.nextTicket + 1 := rfl
@[simp, grind =] theorem pc_addTail (t : τ) : (s.addTail t).pc = s.pc := rfl
@[simp, grind =] theorem thread_addTail (t : τ) : (s.addTail t).thread = s.thread := rfl
@[simp, grind =] theorem kind_addTail (t : τ) : (s.addTail t).kind = s.kind := rfl
@[simp, grind =] theorem listLock_addTail (t : τ) : (s.addTail t).listLock = s.listLock := rfl
@[simp, grind =] theorem alreadyTriggered_addTail (t : τ) :
    (s.addTail t).alreadyTriggered = s.alreadyTriggered := rfl
@[simp, grind =] theorem allTriggered_addTail (t : τ) :
    (s.addTail t).allTriggered = s.allTriggered := rfl

def shouldStillSleep : Bool :=
  match s.kind with
  | .waitObject => true
  | .waitForFirstTrigger => !s.alreadyTriggered

def beforeWakeCb : WaitState τ :=
  match s.kind with
  | .waitObject => s
  | .waitForFirstTrigger => { s with alreadyTriggered := true }

/-- `cancel_waiting_thread`, in the lock; also says whether the thread was found. -/
def cancelWaitingThread (t : τ) : WaitState τ × Bool :=
  if t ∈ s.waitingThreads then
    ({ s with waitingThreads := s.waitingThreads.erase t }.setThread t Thread.startThread, true)
  else (s, false)

/-- `trigger_next_thread`, in the lock and after `before_wake_cb`. -/
def triggerNextThread : WaitState τ :=
  match s.waitingThreads with
  | [] => s
  | u :: rest => { s with waitingThreads := rest }.setThread u Thread.startThread

/-- The next step of a thread's call. -/
def next (t : τ) (count : Nat) : Option (WaitState τ) :=
  match s.pc t with
  | .running => none
  | .enter w => s.lock t (.stop w)
  | .stop w => some ((s.setThread t Thread.stopThread).setPc t (.addTail w))
  | .addTail w => some ((s.addTail t).setPc t (.unlock w))
  | .unlock w => some ({ s with listLock := none }.setPc t (.check w))
  | .check w => some (s.setPc t (if s.shouldStillSleep then .setDeadline w else .start))
  | .setDeadline w =>
      if w ≠ maxWait then
        some ((s.setThread t fun x => { x with wakeThreadAfter := (count + w * 1000) % 2 ^ 64 }).setPc t
          .asleep)
      else some (s.setPc t .asleep)
  | .asleep => if (s.thread t).permitRunning then some (s.setPc t (.cancel true)) else none
  | .start => some ((s.setThread t Thread.startThread).setPc t (.cancel false))
  | .cancel slept => s.lock t (.search slept)
  | .search slept =>
      let (s', found) := s.cancelWaitingThread t
      some (s'.setPc t (.leave !(slept && found)))
  | .leave _ => some ({ s with listLock := none }.setPc t .running)
  | .trigger all => s.lock t (if all then .beforeAll else .beforeNext false)
  | .beforeAll => some (s.beforeWakeCb.setPc t .loop)
  | .loop =>
      some (s.setPc t (if s.waitingThreads.length ≠ 0 then .beforeNext true else .triggered true))
  | .beforeNext all => some (s.beforeWakeCb.setPc t (.wake all))
  | .wake all => some (s.triggerNextThread.setPc t (if all then .loop else .triggered false))
  | .triggered all =>
      some ({ s with listLock := none, allTriggered := s.allTriggered || all }.setPc t .running)

/-- One step of the machine. -/
def step (s : WaitState τ) : WaitAct τ → Option (WaitState τ)
  | .callWait t w => if s.pc t = .running then some (s.setPc t (.enter w)) else none
  | .callTrigger t all => if s.pc t = .running then some (s.setPc t (.trigger all)) else none
  | .next t count => s.next t count
  | .otherWait t d =>
      if s.pc t = .running then some (s.setThread t fun x => { x with wakeThreadAfter := d }) else none
  | .considerThread t now => some (s.setThread t fun x => x.timedWake now)

end WaitState

/-! ### What a place in the source means -/

/-- A thread holds `_list_lock`. -/
def WaitPc.holds : WaitPc → Bool
  | .stop _ | .addTail _ | .unlock _ | .search _ | .leave _ | .beforeAll | .loop | .beforeNext _
  | .wake _ | .triggered _ => true
  | _ => false

/-- A thread has queued and not yet been taken from the list by itself. -/
def WaitPc.queued : WaitPc → Bool
  | .unlock _ | .check _ | .setDeadline _ | .asleep | .start | .cancel _ | .search _ => true
  | _ => false

/-- A thread has queued and is going to sleep. -/
def WaitPc.stops : WaitPc → Bool
  | .unlock _ | .check _ | .setDeadline _ | .asleep => true
  | _ => false

/-- A thread has found that it should still sleep. -/
def WaitPc.slept : WaitPc → Bool
  | .setDeadline _ | .asleep | .cancel true | .search true => true
  | _ => false

/-- A thread has found that it should not sleep. -/
def WaitPc.aborts : WaitPc → Bool
  | .start | .cancel false | .search false => true
  | _ => false

/-- A trigger has called `before_wake_cb`. -/
def WaitPc.called : WaitPc → Bool
  | .loop | .beforeNext true | .wake _ | .triggered _ => true
  | _ => false

/-- The limit a thread gave, as long as the source still looks at it. -/
def WaitPc.limit : WaitPc → Option Nat
  | .enter w | .stop w | .addTail w | .unlock w | .check w | .setDeadline w => some w
  | _ => none

/-- A thread has stopped itself. -/
def WaitPc.stopped : WaitPc → Bool
  | .addTail _ | .unlock _ | .check _ | .setDeadline _ | .asleep => true
  | _ => false

/-- What holds of a thread.  If no thread that stops itself has a deadline, then those in the list are
stopped. -/
structure ThreadOk (noDeadline : Prop) (s : WaitState τ) (t : τ) : Prop where
  lock : s.listLock = some t ↔ (s.pc t).holds
  list : t ∈ s.waitingThreads → (s.pc t).queued
  stops : (s.pc t).stops → t ∈ s.waitingThreads ∨ (s.thread t).permitRunning
  alive : (s.thread t).threadDestroyed = false
  called : s.kind = .waitForFirstTrigger → (s.pc t).called → s.alreadyTriggered
  emptied : s.pc t = .triggered true → s.waitingThreads = []
  done : s.kind = .waitForFirstTrigger → s.allTriggered → s.alreadyTriggered ∧
    ((s.pc t).slept → t ∉ s.waitingThreads) ∧ s.pc t ≠ .leave false
  plain : s.kind = .waitObject → (s.pc t).aborts = false
  deadline : noDeadline → ((s.pc t).stopped → (s.thread t).wakeThreadAfter = 0) ∧
    ∀ w ∈ (s.pc t).limit, w = maxWait
  stopped : noDeadline → ∀ w, s.pc t = .addTail w → (s.thread t).permitRunning = false
  waits : noDeadline → t ∈ s.waitingThreads →
    (s.pc t).aborts ∨ (s.pc t).stops ∧ (s.thread t).permitRunning = false
  signalled : noDeadline → s.pc t ≠ .leave false

/-- A wait is unlimited. -/
def Unlimited (_ : WaitState τ) : WaitAct τ → Prop
  | .callWait _ w => w = maxWait
  | _ => True

instance (s : WaitState τ) (i : WaitAct τ) : Decidable (Unlimited s i) :=
  match i with
  | .callWait _ w => inferInstanceAs (Decidable (w = maxWait))
  | .callTrigger .. | .next .. | .otherWait .. | .considerThread .. => .isTrue trivial

/-- What a thread needs for its next step: when it stops itself, no deadline is left. -/
def WaitPc.Ready (thread : Thread) : WaitPc → Prop
  | .stop _ => thread.wakeThreadAfter = 0
  | _ => True

/-- A wait is unlimited, and a thread that stops itself for it has no deadline left from an earlier one. -/
def NoDeadlineLeft (s : WaitState τ) : WaitAct τ → Prop
  | .next t _ => (s.pc t).Ready (s.thread t)
  | i => Unlimited s i

instance (pc : WaitPc) (thread : Thread) : Decidable (pc.Ready thread) := by
  unfold WaitPc.Ready
  split <;> infer_instance

instance (s : WaitState τ) (i : WaitAct τ) : Decidable (NoDeadlineLeft s i) := by
  unfold NoDeadlineLeft
  split <;> infer_instance

/-- The invariant of a wait object. -/
structure Inv (noDeadline : Prop) (s : WaitState τ) : Prop where
  nodup : s.waitingThreads.Nodup
  sorted : s.waitingThreads.Pairwise (s.ticket · < s.ticket ·)
  numbered : ∀ t ∈ s.waitingThreads, s.ticket t < s.nextTicket
  thread : ∀ t, ThreadOk noDeadline s t

variable {s s' : WaitState τ} {t : τ} {w now count : Nat} {kind : WaitKind} {thread : τ → Thread}
  {noDeadline : Prop}

attribute [local grind =] WaitPc.holds WaitPc.queued WaitPc.stops WaitPc.slept WaitPc.aborts
  WaitPc.called WaitPc.limit WaitPc.stopped

theorem WaitPc.stopped_of_stops {pc : WaitPc} (h : pc.stops = true) : pc.stopped = true := by
  cases pc with
  | unlock | check | setDeadline | asleep => rfl
  | _ => cases h

section
omit [DecidableEq τ]

theorem Inv.init (halive : ∀ t, (thread t).threadDestroyed = false) :
    Inv noDeadline (.init kind thread) := by
  refine ⟨List.nodup_nil, List.Pairwise.nil, by simp [WaitState.init], fun t => ?_⟩
  constructor <;> simp [WaitState.init, WaitPc.holds, WaitPc.queued, WaitPc.stops, WaitPc.slept,
    WaitPc.called, WaitPc.aborts, WaitPc.limit, WaitPc.stopped, halive]

/-- A step that leaves the list as it is. -/
theorem Inv.same (h : Inv noDeadline s) (hthread : ∀ t, ThreadOk noDeadline s' t)
    (hlist : s'.waitingThreads = s.waitingThreads) (hticket : s'.ticket = s.ticket)
    (hnext : s'.nextTicket = s.nextTicket) : Inv noDeadline s' := by
  obtain ⟨g1, g2, g3, -⟩ := h
  exact ⟨by rwa [hlist], by rwa [hlist, hticket], by rwa [hlist, hticket, hnext], hthread⟩

/-- A step that takes a thread from the list. -/
theorem Inv.fewer (h : Inv noDeadline s) (hthread : ∀ t, ThreadOk noDeadline s' t)
    (hlist : s'.waitingThreads.Sublist s.waitingThreads) (hticket : s'.ticket = s.ticket)
    (hnext : s'.nextTicket = s.nextTicket) : Inv noDeadline s' := by
  obtain ⟨g1, g2, g3, -⟩ := h
  refine ⟨g1.sublist hlist, ?_, fun t ht => ?_, hthread⟩
  · rw [hticket]
    exact g2.sublist hlist
  · rw [hticket, hnext]
    exact g3 t (hlist.subset ht)

end

theorem Inv.addTail (h : Inv noDeadline s) (hpc : s.pc t = .addTail w) :
    Inv noDeadline ((s.addTail t).setPc t (.unlock w)) := by
  have hnew : t ∉ s.waitingThreads := fun hmem => by
    have := (h.thread t).list hmem
    rw [hpc] at this
    cases this
  have hlock := (h.thread t).lock
  obtain ⟨hnodup, hsorted, hnumbered, hthread⟩ := h
  refine ⟨?_, ?_, ?_, fun u => ?_⟩
  · simp only [WaitState.waitingThreads_setPc, WaitState.waitingThreads_addTail]
    refine List.nodup_append.2 ⟨hnodup, List.pairwise_singleton _ _, ?_⟩
    rintro u hu v hv rfl
    exact hnew (List.mem_singleton.mp hv ▸ hu)
  · have hne : ∀ u ∈ s.waitingThreads, u ≠ t := fun u hu e => hnew (e ▸ hu)
    simp only [WaitState.ticket_setPc, WaitState.waitingThreads_setPc,
      WaitState.waitingThreads_addTail, List.pairwise_append, List.mem_singleton]
    refine ⟨hsorted.imp_of_mem fun {u v} hu hv huv => ?_, List.pairwise_singleton _ _, ?_⟩
    · simpa [hne u hu, hne v hv] using huv
    · rintro u hu v rfl
      simpa [hne u hu] using hnumbered u hu
  · intro u hu
    by_cases hut : u = t
    · simp [hut]
    · have hmem : u ∈ s.waitingThreads := by simpa [hut] using hu
      simpa [hut] using Nat.lt_succ_of_lt (hnumbered u hmem)
  · obtain ⟨g1, g2, g3, g4, g5, g6, g7, g8, g9, g10, g11, g12⟩ := hthread u
    constructor <;> grind -linarith

/-- `cancel_waiting_thread` at the end of a wait. -/
theorem Inv.search {slept : Bool} (h : Inv noDeadline s) (hpc : s.pc t = .search slept) :
    Inv noDeadline ((s.cancelWaitingThread t).1.setPc t (.leave !(slept && (s.cancelWaitingThread t).2))) := by
  have hlock := (h.thread t).lock
  have hnodup := h.nodup
  unfold WaitState.cancelWaitingThread
  split
  next hmem =>
    refine h.fewer (fun u => ?_) List.erase_sublist rfl rfl
    obtain ⟨g1, g2, g3, g4, g5, g6, g7, g8, g9, g10, g11, g12⟩ := h.thread u
    constructor <;> grind -linarith [Thread.startThread]
  next hmem =>
    refine h.same (fun u => ?_) rfl rfl rfl
    obtain ⟨g1, g2, g3, g4, g5, g6, g7, g8, g9, g10, g11, g12⟩ := h.thread u
    constructor <;> grind -linarith

theorem Inv.wake {all : Bool} (h : Inv noDeadline s) (hpc : s.pc t = .wake all) :
    Inv noDeadline (s.triggerNextThread.setPc t (if all then .loop else .triggered false)) := by
  have hlock := (h.thread t).lock
  have hnodup := h.nodup
  have hcalled := (h.thread t).called
  unfold WaitState.triggerNextThread
  split
  next hnil =>
    refine h.same (fun u => ?_) rfl rfl rfl
    obtain ⟨g1, g2, g3, g4, g5, g6, g7, g8, g9, g10, g11, g12⟩ := h.thread u
    constructor <;> grind -linarith
  next v rest hcons =>
    refine h.fewer (fun u => ?_) (by simp [hcons]) rfl rfl
    obtain ⟨g1, g2, g3, g4, g5, g6, g7, g8, g9, g10, g11, g12⟩ := h.thread u
    constructor <;> grind -linarith [Thread.startThread]

theorem Inv.beforeWakeCb {pc : WaitPc} (h : Inv noDeadline s)
    (hold : s.pc t = .beforeAll ∨ ∃ all, s.pc t = .beforeNext all)
    (hnew : pc = .loop ∨ ∃ all, pc = .wake all) :
    Inv noDeadline (s.beforeWakeCb.setPc t pc) := by
  have hlock := (h.thread t).lock
  unfold WaitState.beforeWakeCb
  split <;>
  · refine h.same (fun u => ?_) rfl rfl rfl
    obtain ⟨g1, g2, g3, g4, g5, g6, g7, g8, g9, g10, g11, g12⟩ := h.thread u
    constructor <;> grind -linarith

theorem Inv.triggered {all : Bool} (h : Inv noDeadline s) (hpc : s.pc t = .triggered all) :
    Inv noDeadline
      ({ s with listLock := none, allTriggered := s.allTriggered || all }.setPc t .running) := by
  have hlock := (h.thread t).lock
  have hcalled := (h.thread t).called
  have hemptied := (h.thread t).emptied
  refine h.same (fun u => ?_) rfl rfl rfl
  obtain ⟨g1, g2, g3, g4, g5, g6, g7, g8, g9, g10, g11, g12⟩ := h.thread u
  constructor
  case done =>
    intro hkind hall
    have hflag : s.alreadyTriggered := hcalled hkind (by rw [hpc]; rfl)
    have hleave : u ≠ t → s.pc u ≠ .leave false := fun hut e => hut (by grind -linarith)
    obtain hall | rfl : s.allTriggered ∨ all := by simpa using hall
    · have := g7 hkind hall
      grind -linarith
    · have := hemptied hpc
      grind -linarith
  all_goals grind

theorem Inv.next (h : Inv noDeadline s) (hok : noDeadline → (s.pc t).Ready (s.thread t))
    (hs : s.next t count = some s') : Inv noDeadline s' := by
  have hlock := (h.thread t).lock
  simp only [WaitState.next] at hs
  cases hpc : s.pc t with
  | running => simp [hpc] at hs
  | enter w =>
      simp only [hpc, WaitState.lock, Option.ite_none_right_eq_some, Option.some.injEq] at hs
      obtain ⟨hfree, rfl⟩ := hs
      refine h.same (fun u => ?_) rfl rfl rfl
      obtain ⟨g1, g2, g3, g4, g5, g6, g7, g8, g9, g10, g11, g12⟩ := h.thread u
      constructor <;> grind -linarith
  | stop w =>
      rw [hpc] at hok
      simp only [hpc, Option.some.injEq] at hs
      subst hs
      refine h.same (fun u => ?_) rfl rfl rfl
      obtain ⟨g1, g2, g3, g4, g5, g6, g7, g8, g9, g10, g11, g12⟩ := h.thread u
      constructor <;> grind -linarith [Thread.stopThread, WaitPc.Ready]
  | addTail w =>
      simp only [hpc, Option.some.injEq] at hs
      subst hs
      exact h.addTail hpc
  | unlock w =>
      simp only [hpc, Option.some.injEq] at hs
      subst hs
      refine h.same (fun u => ?_) rfl rfl rfl
      obtain ⟨g1, g2, g3, g4, g5, g6, g7, g8, g9, g10, g11, g12⟩ := h.thread u
      constructor <;> grind -linarith
  | check w =>
      simp only [hpc, Option.some.injEq] at hs
      subst hs
      refine h.same (fun u => ?_) rfl rfl rfl
      obtain ⟨g1, g2, g3, g4, g5, g6, g7, g8, g9, g10, g11, g12⟩ := h.thread u
      constructor <;> grind -linarith [WaitState.shouldStillSleep]
  | setDeadline w =>
      have hw : noDeadline → w = maxWait := fun hn => ((h.thread t).deadline hn).2 w (by rw [hpc]; rfl)
      simp only [hpc] at hs
      split at hs <;>
      · cases hs
        refine h.same (fun u => ?_) rfl rfl rfl
        obtain ⟨g1, g2, g3, g4, g5, g6, g7, g8, g9, g10, g11, g12⟩ := h.thread u
        constructor <;> grind -linarith
  | asleep =>
      simp only [hpc, Option.ite_none_right_eq_some, Option.some.injEq] at hs
      obtain ⟨hpermit, rfl⟩ := hs
      refine h.same (fun u => ?_) rfl rfl rfl
      obtain ⟨g1, g2, g3, g4, g5, g6, g7, g8, g9, g10, g11, g12⟩ := h.thread u
      constructor <;> grind -linarith
  | start =>
      simp only [hpc, Option.some.injEq] at hs
      subst hs
      refine h.same (fun u => ?_) rfl rfl rfl
      obtain ⟨g1, g2, g3, g4, g5, g6, g7, g8, g9, g10, g11, g12⟩ := h.thread u
      constructor <;> grind -linarith [Thread.startThread]
  | cancel slept =>
      simp only [hpc, WaitState.lock, Option.ite_none_right_eq_some, Option.some.injEq] at hs
      obtain ⟨hfree, rfl⟩ := hs
      refine h.same (fun u => ?_) rfl rfl rfl
      obtain ⟨g1, g2, g3, g4, g5, g6, g7, g8, g9, g10, g11, g12⟩ := h.thread u
      constructor <;> grind -linarith
  | search slept =>
      simp only [hpc, Option.some.injEq] at hs
      subst hs
      exact h.search hpc
  | leave res =>
      simp only [hpc, Option.some.injEq] at hs
      subst hs
      refine h.same (fun u => ?_) rfl rfl rfl
      obtain ⟨g1, g2, g3, g4, g5, g6, g7, g8, g9, g10, g11, g12⟩ := h.thread u
      constructor <;> grind -linarith
  | trigger all =>
      simp only [hpc, WaitState.lock, Option.ite_none_right_eq_some, Option.some.injEq] at hs
      obtain ⟨hfree, rfl⟩ := hs
      refine h.same (fun u => ?_) rfl rfl rfl
      obtain ⟨g1, g2, g3, g4, g5, g6, g7, g8, g9, g10, g11, g12⟩ := h.thread u
      constructor <;> grind -linarith
  | beforeAll =>
      simp only [hpc, Option.some.injEq] at hs
      subst hs
      exact h.beforeWakeCb (by simp [hpc]) (by simp)
  | loop =>
      simp only [hpc, Option.some.injEq] at hs
      subst hs
      refine h.same (fun u => ?_) rfl rfl rfl
      obtain ⟨g1, g2, g3, g4, g5, g6, g7, g8, g9, g10, g11, g12⟩ := h.thread u
      constructor <;> grind -linarith
  | beforeNext all =>
      simp only [hpc, Option.some.injEq] at hs
      subst hs
      exact h.beforeWakeCb (by simp [hpc]) (by simp)
  | wake all =>
      simp only [hpc, Option.some.injEq] at hs
      subst hs
      exact h.wake hpc
  | triggered all =>
      simp only [hpc, Option.some.injEq] at hs
      subst hs
      exact h.triggered hpc

theorem Inv.step {i : WaitAct τ} (h : Inv noDeadline s) (hok : noDeadline → NoDeadlineLeft s i)
    (hs : s.step i = some s') : Inv noDeadline s' := by
  cases i with
  | callWait t w =>
      simp only [WaitState.step, Option.ite_none_right_eq_some, Option.some.injEq] at hs
      obtain ⟨hpc, rfl⟩ := hs
      simp only [NoDeadlineLeft, Unlimited] at hok
      refine h.same (fun u => ?_) rfl rfl rfl
      obtain ⟨g1, g2, g3, g4, g5, g6, g7, g8, g9, g10, g11, g12⟩ := h.thread u
      constructor <;> grind -linarith
  | callTrigger t all =>
      simp only [WaitState.step, Option.ite_none_right_eq_some, Option.some.injEq] at hs
      obtain ⟨hpc, rfl⟩ := hs
      refine h.same (fun u => ?_) rfl rfl rfl
      obtain ⟨g1, g2, g3, g4, g5, g6, g7, g8, g9, g10, g11, g12⟩ := h.thread u
      constructor <;> grind -linarith
  | next t count => exact h.next hok hs
  | otherWait t d =>
      simp only [WaitState.step, Option.ite_none_right_eq_some, Option.some.injEq] at hs
      obtain ⟨hpc, rfl⟩ := hs
      refine h.same (fun u => ?_) rfl rfl rfl
      obtain ⟨g1, g2, g3, g4, g5, g6, g7, g8, g9, g10, g11, g12⟩ := h.thread u
      constructor <;> grind -linarith
  | considerThread t now =>
      cases hs
      refine h.same (fun u => ?_) rfl rfl rfl
      have hstopped := @WaitPc.stopped_of_stops (s.pc u)
      obtain ⟨g1, g2, g3, g4, g5, g6, g7, g8, g9, g10, g11, g12⟩ := h.thread u
      constructor <;> grind -linarith [Thread.timedWake, Thread.shouldWake]

end Azalea.Proc.Waits
