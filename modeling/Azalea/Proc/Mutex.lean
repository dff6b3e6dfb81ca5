import Mathlib.Algebra.Order.Ring.Nat
import Mathlib.Data.Fintype.Basic
import Azalea.Proc.ThreadCycle
import Azalea.Support.Runs

/-!
# Proc — kernel mutexes

`klib/synch/kernel_mutexes.cpp`: `klib_synch_mutex_acquire` and `klib_synch_mutex_release`, by any
threads on any mutexes.  A thread is the place in the source it stands at.  `access_lock` is taken
and given back as the source does it, because the scheduler looks at a thread's deadline, in no lock,
while the thread is still on its way to sleep.  A thread in `task_yield` goes on once it is permitted
to run.  An ASSERT that trips ends the run.
-/

namespace Azalea.Proc.Mutexes
open Azalea.Runs

/-- `MUTEX_MAX_WAIT`. -/
def mutexMaxWait : Nat := 2 ^ 64 - 1

/-- `SYNC_ACQ_RESULT`. -/
inductive SyncAcqResult where
  | acquired
  | alreadyOwned
  | timeout
  deriving DecidableEq

/-- A `klib_mutex`. -/
structure Mutex (τ : Type*) where
  mutexLocked : Bool := false
  ownerThread : Option τ := none
  waitingThreadsList : List τ := []
  accessLock : Option τ := none

/-- Where a thread stands.  `m` is the mutex of the call, `w` its `max_wait`. -/
inductive MutexPc (μ : Type*) where
  | running
  /-- `klib_synch_mutex_acquire`, waits for `access_lock`. -/
  | acquire (m : μ) (w : Nat)
  /-- Holds `access_lock`, as up to `unlock`. -/
  | look (m : μ) (w : Nat)
  | stop (m : μ) (w : Nat)
  | setDeadline (m : μ) (w : Nat)
  | unlock (m : μ) (w : Nat)
  /-- In `task_yield`. -/
  | asleep (m : μ) (w : Nat)
  /-- Waits for `access_lock` again. -/
  | awake (m : μ) (w : Nat)
  /-- Holds `access_lock`, as up to the end of the call. -/
  | resumed (m : μ) (w : Nat)
  | leave (m : μ) (res : SyncAcqResult)
  /-- `klib_synch_mutex_release`, waits for `access_lock`. -/
  | release (m : μ) (disregardOwner : Bool)
  /-- Holds `access_lock`. -/
  | handOver (m : μ) (disregardOwner : Bool)
  deriving DecidableEq

/-- The threads and the mutexes.  `listObj` is `synch_list_item->list_obj`.  A thread believes that
it holds a mutex from the return of an acquire that says so to its next release.  The last two
fields number the waits in the order they were queued; no function of the source reads the last
three. -/
structure MutexState (τ μ : Type*) where
  thread : τ → Thread
  mutex : μ → Mutex τ
  pc : τ → MutexPc μ
  listObj : τ → Option μ
  believes : τ → μ → Bool
  ticket : τ → Nat
  nextTicket : Nat

/-- A step of one thread, or of the scheduler. -/
inductive MutexAct (τ μ : Type*) where
  | callAcquire (t : τ) (m : μ) (w : Nat)
  | callRelease (t : τ) (m : μ) (disregardOwner : Bool)
  /-- The next step of a call; `now` is what `time_get_system_timer_count(true)` gives. -/
  | next (t : τ) (now : Nat)
  /-- `task_get_next_thread` considers a thread. -/
  | considerThread (t : τ) (scheduleStartTime : Nat)
  /-- An earlier wait of another kind has left a deadline. -/
  | otherWait (t : τ) (wakeThreadAfter : Nat)

variable {τ μ : Type*} [DecidableEq τ] [DecidableEq μ]

namespace MutexState

/-- Threads that are in no call, and mutexes that nobody holds. -/
def start (thread : τ → Thread) : MutexState τ μ where
  thread := thread
  mutex _ := {}
  pc _ := .running
  listObj _ := none
  believes _ _ := false
  ticket _ := 0
  nextTicket := 0

variable (s : MutexState τ μ)

def setPc (t : τ) (pc : MutexPc μ) : MutexState τ μ := { s with pc := Function.update s.pc t pc }

def setThread (t : τ) (f : Thread → Thread) : MutexState τ μ :=
  { s with thread := Function.update s.thread t (f (s.thread t)) }

def setMutex (m : μ) (f : Mutex τ → Mutex τ) : MutexState τ μ :=
  { s with mutex := Function.update s.mutex m (f (s.mutex m)) }

section
omit [DecidableEq μ]

@[simp, grind =] theorem pc_setPc (t u : τ) (pc) :
    (s.setPc t pc).pc u = if u = t then pc else s.pc u := Function.update_apply ..
@[simp, grind =] theorem thread_setPc (t u : τ) (pc) : (s.setPc t pc).thread u = s.thread u := rfl
@[simp, grind =] theorem mutex_setPc (t : τ) (m : μ) (pc) : (s.setPc t pc).mutex m = s.mutex m := rfl
@[simp, grind =] theorem listObj_setPc (t u : τ) (pc) : (s.setPc t pc).listObj u = s.listObj u := rfl
@[simp, grind =] theorem believes_setPc (t u : τ) (m : μ) (pc) :
    (s.setPc t pc).believes u m = s.believes u m := rfl
@[simp, grind =] theorem ticket_setPc (t u : τ) (pc) : (s.setPc t pc).ticket u = s.ticket u := rfl
@[simp, grind =] theorem nextTicket_setPc (t : τ) (pc) : (s.setPc t pc).nextTicket = s.nextTicket := rfl

@[simp, grind =] theorem thread_setThread (t u : τ) (f) :
    (s.setThread t f).thread u = if u = t then f (s.thread t) else s.thread u :=
  Function.update_apply ..
@[simp, grind =] theorem pc_setThread (t u : τ) (f) : (s.setThread t f).pc u = s.pc u := rfl
@[simp, grind =] theorem mutex_setThread (t : τ) (m : μ) (f) : (s.setThread t f).mutex m = s.mutex m := rfl
@[simp, grind =] theorem listObj_setThread (t u : τ) (f) :
    (s.setThread t f).listObj u = s.listObj u := rfl
@[simp, grind =] theorem believes_setThread (t u : τ) (m : μ) (f) :
    (s.setThread t f).believes u m = s.believes u m := rfl
@[simp, grind =] theorem ticket_setThread (t u : τ) (f) : (s.setThread t f).ticket u = s.ticket u := rfl
@[simp, grind =] theorem nextTicket_setThread (t : τ) (f) :
    (s.setThread t f).nextTicket = s.nextTicket := rfl

end

section
omit [DecidableEq τ]

@[simp, grind =] theorem mutex_setMutex (m m' : μ) (f) :
    (s.setMutex m f).mutex m' = if m' = m then f (s.mutex m) else s.mutex m' :=
  Function.update_apply ..
@[simp, grind =] theorem pc_setMutex (m : μ) (u : τ) (f) : (s.setMutex m f).pc u = s.pc u := rfl
@[simp, grind =] theorem thread_setMutex (m : μ) (u : τ) (f) :
    (s.setMutex m f).thread u = s.thread u := rfl
@[simp, grind =] theorem listObj_setMutex (m : μ) (u : τ) (f) :
    (s.setMutex m f).listObj u = s.listObj u := rfl
@[simp, grind =] theorem believes_setMutex (m m' : μ) (u : τ) (f) :
    (s.setMutex m f).believes u m' = s.believes u m' := rfl
@[simp, grind =] theorem ticket_setMutex (m : μ) (u : τ) (f) :
    (s.setMutex m f).ticket u = s.ticket u := rfl
@[simp, grind =] theorem nextTicket_setMutex (m : μ) (f) :
    (s.setMutex m f).nextTicket = s.nextTicket := rfl

end

/-- `klib_synch_spinlock_lock(mutex.access_lock)`, once it is free. -/
def lock (t : τ) (m : μ) (pc : MutexPc μ) : Option (MutexState τ μ) :=
  if (s.mutex m).accessLock = none then
    some ((s.setMutex m fun x => { x with accessLock := some t }).setPc t pc)
  else none

/-- `klib_list_add_tail(&mutex.waiting_threads_list, this_thread->synch_list_item)`. -/
def enqueue (t : τ) (m : μ) : MutexState τ μ :=
  { s.setMutex m fun x => { x with waitingThreadsList := x.waitingThreadsList ++ [t] } with
    listObj := Function.update s.listObj t (some m)
    ticket := Function.update s.ticket t s.nextTicket
    nextTicket := s.nextTicket + 1 }

/-- `klib_list_remove(this_thread->synch_list_item)`; it trips an ASSERT if the item is in no list. -/
def dequeue (t : τ) : Option (MutexState τ μ) :=
  (s.listObj t).map fun m =>
    { s.setMutex m fun x => { x with waitingThreadsList := x.waitingThreadsList.erase t } with
      listObj := Function.update s.listObj t none }

/-- `klib_synch_mutex_acquire`, up to the first ASSERT of a thread that has to wait. -/
def look (t : τ) (m : μ) (w : Nat) : Option (MutexState τ μ) :=
  let x := s.mutex m
  if x.mutexLocked ∧ x.ownerThread = some t then some (s.setPc t (.leave m .alreadyOwned))
  else if !x.mutexLocked then
    some ((s.setMutex m fun x => { x with mutexLocked := true, ownerThread := some t }).setPc t
      (.leave m .acquired))
  else if w = 0 then some (s.setPc t (.leave m .timeout))
  else if s.listObj t = none ∧ x.ownerThread ≠ none then
    some ((s.enqueue t m).setPc t (.stop m w))
  else none

/-- `klib_synch_mutex_acquire`, after `task_yield`. -/
def resume (t : τ) (m : μ) (w : Nat) : Option (MutexState τ μ) :=
  let x := s.mutex m
  if x.mutexLocked ∧ (w ≠ mutexMaxWait ∨ x.ownerThread = some t) then
    if x.ownerThread = some t then some (s.setPc t (.leave m .acquired))
    else (s.dequeue t).map fun s => s.setPc t (.leave m .timeout)
  else none

/-- The end of `klib_synch_mutex_acquire`, with its last ASSERT. -/
def leave (t : τ) (m : μ) (res : SyncAcqResult) : Option (MutexState τ μ) :=
  let x := s.mutex m
  if res = .acquired ∧ ¬ (x.mutexLocked ∧ x.ownerThread = some t) then none
  else
    let s := (s.setMutex m fun x => { x with accessLock := none }).setPc t .running
    if res = .timeout then some s
    else some { s with believes := fun t' m' => if t' = t ∧ m' = m then true else s.believes t' m' }

/-- `klib_synch_mutex_release`. -/
def handOver (t : τ) (m : μ) (disregardOwner : Bool) : Option (MutexState τ μ) :=
  let x := s.mutex m
  if x.mutexLocked ∧ (disregardOwner ∨ x.ownerThread = some t) then
    match x.waitingThreadsList with
    | [] => some ((s.setMutex m fun x =>
        { x with mutexLocked := false, ownerThread := none, accessLock := none }).setPc t .running)
    | u :: _ =>
        let s := s.setMutex m fun x => { x with ownerThread := some u }
        (s.dequeue u).map fun s =>
          ((s.setThread u Thread.startThread).setMutex m fun x => { x with accessLock := none }).setPc
            t .running
  else none

/-- The next step of a thread's call. -/
def next (t : τ) (now : Nat) : Option (MutexState τ μ) :=
  match s.pc t with
  | .running => none
  | .acquire m w => s.lock t m (.look m w)
  | .look m w => s.look t m w
  | .stop m w => some ((s.setThread t Thread.stopThread).setPc t (.setDeadline m w))
  | .setDeadline m w =>
      if w ≠ mutexMaxWait then
        some ((s.setThread t fun x => { x with wakeThreadAfter := (now + 1000 * w) % 2 ^ 64 }).setPc t
          (.unlock m w))
      else some (s.setPc t (.unlock m w))
  | .unlock m w => some ((s.setMutex m fun x => { x with accessLock := none }).setPc t (.asleep m w))
  | .asleep m w => if (s.thread t).permitRunning then some (s.setPc t (.awake m w)) else none
  | .awake m w => s.lock t m (.resumed m w)
  | .resumed m w => s.resume t m w
  | .leave m res => s.leave t m res
  | .release m d => s.lock t m (.handOver m d)
  | .handOver m d => s.handOver t m d

/-- One step of the machine. -/
def step (s : MutexState τ μ) : MutexAct τ μ → Option (MutexState τ μ)
  | .callAcquire t m w =>
      if s.pc t = .running then some (s.setPc t (.acquire m w)) else none
  | .callRelease t m d =>
      if s.pc t = .running then
        some { s.setPc t (.release m d) with
          believes := fun t' m' => if t' = t ∧ m' = m then false else s.believes t' m' }
      else none
  | .next t now => s.next t now
  | .considerThread t now => some (s.setThread t fun x => x.timedWake now)
  | .otherWait t d =>
      if s.pc t = .running then some (s.setThread t fun x => { x with wakeThreadAfter := d })
      else none

end MutexState

end Azalea.Proc.Mutexes
