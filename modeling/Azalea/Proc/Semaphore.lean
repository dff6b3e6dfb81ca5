import Mathlib.Algebra.Order.Ring.Nat
import Mathlib.Data.Fintype.Basic
import Azalea.Proc.ThreadCycle
import Azalea.Support.Runs

/-!
# Proc — kernel semaphores

`klib/synch/kernel_semaphores.cpp`: any threads that call `klib_synch_semaphore_wait` and
`klib_synch_semaphore_clear` on a semaphore, between any two of whose steps the scheduler may
consider a thread.  As with mutexes, a thread is the place in the source it stands at, a thread in
`task_yield` goes on once it is permitted to run, and an ASSERT that trips ends the run.

* `semaphore_safe`: no slot is lost or given twice, from a start with no more users than slots, as
  long as no wait is finite and no wait begins with the deadline of an earlier one.  A thread that
  is woken asks whether its `synch_list_item` is in a list, but `klib_synch_semaphore_wait` queues
  an item of its own: whatever wakes it, it takes for a slot (`semaphore_safe_fails`).
-/

namespace Azalea.Proc.Semaphores
open Azalea.Runs

/-- `SEMAPHORE_MAX_WAIT`. -/
def semaphoreMaxWait : Nat := 2 ^ 64 - 1

/-- `SYNC_ACQ_RESULT`, as far as a semaphore returns it. -/
inductive SyncAcqResult where
  | acquired
  | timeout
  deriving DecidableEq

/-- Where a thread stands; `w` is `max_wait`. -/
inductive SemPc where
  | running
  /-- `klib_synch_semaphore_wait`, before the ASSERT on `max_wait`. -/
  | enter (w : Nat)
  /-- Waits for `access_lock`. -/
  | wait (w : Nat)
  /-- Holds `access_lock`, as up to `unlock`. -/
  | look (w : Nat)
  | stop (w : Nat)
  | setDeadline (w : Nat)
  | unlock (w : Nat)
  /-- In `task_yield`. -/
  | asleep
  /-- Waits for `access_lock` again. -/
  | awake
  /-- Holds `access_lock`, as up to the end of the call. -/
  | resumed
  | leave (res : SyncAcqResult)
  /-- `klib_synch_semaphore_clear`, waits for `access_lock`. -/
  | clear
  /-- Holds `access_lock`. -/
  | handOver
  deriving DecidableEq

/-- A `klib_semaphore` and the threads.  `waitingThreadsList` has the thread of each item, and
`inAnyList` says whether the `synch_list_item` of a thread is in a list.  `slot`: the last wait of a
thread has found a free slot, or was handed one; no function of the source reads it. -/
structure SemState (τ : Type*) where
  curUserCount : Nat
  maxUsers : Nat
  waitingThreadsList : List τ
  accessLock : Option τ
  thread : τ → Thread
  inAnyList : τ → Bool
  pc : τ → SemPc
  slot : τ → Bool

/-- A step of one thread, or of the scheduler. -/
inductive SemAct (τ : Type*) where
  | callWait (t : τ) (w : Nat)
  | callClear (t : τ)
  /-- The next step of a call; `now` is what `time_get_system_timer_count(true)` gives. -/
  | next (t : τ) (now : Nat)
  /-- `task_get_next_thread` considers a thread. -/
  | considerThread (t : τ) (scheduleStartTime : Nat)
  /-- An earlier wait of another kind has left a deadline. -/
  | otherWait (t : τ) (wakeThreadAfter : Nat)

variable {τ : Type*} [DecidableEq τ]

namespace SemState

/-- `klib_synch_semaphore_init`, with threads that are in no call. -/
def init (maxUsers startUsers : Nat) (thread : τ → Thread) : SemState τ where
  curUserCount := startUsers
  maxUsers := maxUsers
  waitingThreadsList := []
  accessLock := none
  thread := thread
  inAnyList _ := false
  pc _ := .running
  slot _ := false

variable (s : SemState τ)

def setPc (t : τ) (pc : SemPc) : SemState τ := { s with pc := Function.update s.pc t pc }

def setThread (t : τ) (f : Thread → Thread) : SemState τ :=
  { s with thread := Function.update s.thread t (f (s.thread t)) }

def setSlot (t : τ) (b : Bool) : SemState τ := { s with slot := Function.update s.slot t b }

@[simp, grind =] theorem pc_setPc (t u : τ) (pc) :
    (s.setPc t pc).pc u = if u = t then pc else s.pc u := Function.update_apply ..
@[simp, grind =] theorem thread_setPc (t u : τ) (pc) : (s.setPc t pc).thread u = s.thread u := rfl
@[simp, grind =] theorem slot_setPc (t u : τ) (pc) : (s.setPc t pc).slot u = s.slot u := rfl
@[simp, grind =] theorem inAnyList_setPc (t u : τ) (pc) : (s.setPc t pc).inAnyList u = s.inAnyList u := rfl
@[simp, grind =] theorem curUserCount_setPc (t : τ) (pc) :
    (s.setPc t pc).curUserCount = s.curUserCount := rfl
@[simp, grind =] theorem maxUsers_setPc (t : τ) (pc) : (s.setPc t pc).maxUsers = s.maxUsers := rfl
@[simp, grind =] theorem waitingThreadsList_setPc (t : τ) (pc) :
    (s.setPc t pc).waitingThreadsList = s.waitingThreadsList := rfl
@[simp, grind =] theorem accessLock_setPc (t : τ) (pc) :
    (s.setPc t pc).accessLock = s.accessLock := rfl

@[simp, grind =] theorem thread_setThread (t u : τ) (f) :
    (s.setThread t f).thread u = if u = t then f (s.thread t) else s.thread u := Function.update_apply ..
@[simp, grind =] theorem pc_setThread (t u : τ) (f) : (s.setThread t f).pc u = s.pc u := rfl
@[simp, grind =] theorem slot_setThread (t u : τ) (f) : (s.setThread t f).slot u = s.slot u := rfl
@[simp, grind =] theorem inAnyList_setThread (t u : τ) (f) : (s.setThread t f).inAnyList u = s.inAnyList u := rfl
@[simp, grind =] theorem curUserCount_setThread (t : τ) (f) :
    (s.setThread t f).curUserCount = s.curUserCount := rfl
@[simp, grind =] theorem maxUsers_setThread (t : τ) (f) :
    (s.setThread t f).maxUsers = s.maxUsers := rfl
@[simp, grind =] theorem waitingThreadsList_setThread (t : τ) (f) :
    (s.setThread t f).waitingThreadsList = s.waitingThreadsList := rfl
@[simp, grind =] theorem accessLock_setThread (t : τ) (f) :
    (s.setThread t f).accessLock = s.accessLock := rfl

@[simp, grind =] theorem slot_setSlot (t u : τ) (b) :
    (s.setSlot t b).slot u = if u = t then b else s.slot u := Function.update_apply ..
@[simp, grind =] theorem pc_setSlot (t u : τ) (b) : (s.setSlot t b).pc u = s.pc u := rfl
@[simp, grind =] theorem thread_setSlot (t u : τ) (b) : (s.setSlot t b).thread u = s.thread u := rfl
@[simp, grind =] theorem inAnyList_setSlot (t u : τ) (b) : (s.setSlot t b).inAnyList u = s.inAnyList u := rfl
@[simp, grind =] theorem curUserCount_setSlot (t : τ) (b) :
    (s.setSlot t b).curUserCount = s.curUserCount := rfl
@[simp, grind =] theorem maxUsers_setSlot (t : τ) (b) : (s.setSlot t b).maxUsers = s.maxUsers := rfl
@[simp, grind =] theorem waitingThreadsList_setSlot (t : τ) (b) :
    (s.setSlot t b).waitingThreadsList = s.waitingThreadsList := rfl
@[simp, grind =] theorem accessLock_setSlot (t : τ) (b) :
    (s.setSlot t b).accessLock = s.accessLock := rfl

/-- `klib_synch_spinlock_lock(semaphore.access_lock)`, once it is free. -/
def lock (t : τ) (pc : SemPc) : Option (SemState τ) :=
  if s.accessLock = none then some ({ s with accessLock := some t }.setPc t pc) else none

/-- `klib_synch_semaphore_wait`, up to the list. -/
def look (t : τ) (w : Nat) : Option (SemState τ) :=
  if s.curUserCount < s.maxUsers then
    some (({ s with curUserCount := s.curUserCount + 1 }.setSlot t true).setPc t (.leave .acquired))
  else if w = 0 then some (s.setPc t (.leave .timeout))
  else if s.curUserCount = s.maxUsers then
    some ({ s with waitingThreadsList := s.waitingThreadsList ++ [t] }.setPc t (.stop w))
  else none

/-- `klib_synch_semaphore_wait`, after `task_yield`. -/
def resume (t : τ) : SemState τ :=
  if !s.inAnyList t then s.setPc t (.leave .acquired)
  else { s with waitingThreadsList := s.waitingThreadsList.erase t }.setPc t (.leave .timeout)

/-- `klib_synch_semaphore_clear`. -/
def handOver (t : τ) : Option (SemState τ) :=
  match s.waitingThreadsList with
  | [] =>
      if s.curUserCount > 0 then
        some ({ s with curUserCount := s.curUserCount - 1, accessLock := none }.setPc t .running)
      else none
  | u :: rest =>
      if s.curUserCount = s.maxUsers then
        some (((({ s with waitingThreadsList := rest, accessLock := none }).setThread u
          Thread.startThread).setSlot u true).setPc t .running)
      else none

/-- The next step of a thread's call. -/
def next (t : τ) (now : Nat) : Option (SemState τ) :=
  match s.pc t with
  | .running => none
  | .enter w => if w = 0 ∨ w = semaphoreMaxWait then some (s.setPc t (.wait w)) else none
  | .wait w => s.lock t (.look w)
  | .look w => s.look t w
  | .stop w => some ((s.setThread t Thread.stopThread).setPc t (.setDeadline w))
  | .setDeadline w =>
      if w ≠ semaphoreMaxWait then
        some ((s.setThread t fun x => { x with wakeThreadAfter := (now + 1000 * w) % 2 ^ 64 }).setPc t
          (.unlock w))
      else some (s.setPc t (.unlock w))
  | .unlock _ => some ({ s with accessLock := none }.setPc t .asleep)
  | .asleep => if (s.thread t).permitRunning then some (s.setPc t .awake) else none
  | .awake => s.lock t .resumed
  | .resumed => some (s.resume t)
  | .leave _ => some ({ s with accessLock := none }.setPc t .running)
  | .clear => s.lock t .handOver
  | .handOver => s.handOver t

/-- One step of the machine. -/
def step (s : SemState τ) : SemAct τ → Option (SemState τ)
  | .callWait t w =>
      if s.pc t = .running then some ((s.setSlot t false).setPc t (.enter w)) else none
  | .callClear t => if s.pc t = .running then some (s.setPc t .clear) else none
  | .next t now => s.next t now
  | .considerThread t now => some (s.setThread t fun x => x.timedWake now)
  | .otherWait t d =>
      if s.pc t = .running then some (s.setThread t fun x => { x with wakeThreadAfter := d })
      else none

end SemState

/-! ### What a place in the source means -/

/-- A thread holds `access_lock`. -/
def SemPc.holds : SemPc → Bool
  | .look _ | .stop _ | .setDeadline _ | .unlock _ | .resumed | .leave _ | .handOver => true
  | _ => false

/-- A thread has queued and not yet been told how its wait ended. -/
def SemPc.waits : SemPc → Bool
  | .stop _ | .setDeadline _ | .unlock _ | .asleep | .awake | .resumed => true
  | _ => false

/-- A thread has stopped itself. -/
def SemPc.sleeps : SemPc → Bool
  | .setDeadline _ | .unlock _ | .asleep => true
  | _ => false

/-- The limit a thread gave, as long as the source still looks at it. -/
def SemPc.limit : SemPc → Option Nat
  | .enter w | .wait w | .look w | .stop w | .setDeadline w | .unlock w => some w
  | _ => none

/-- A wait has not yet come to the semaphore. -/
def SemPc.asks : SemPc → Bool
  | .enter _ | .wait _ | .look _ => true
  | _ => false

/-- A thread has been told that it has a slot, or is about to be. -/
def SemPc.served : SemPc → Bool
  | .awake | .resumed | .leave .acquired => true
  | _ => false

/-- A wait is unlimited or no wait at all, and a thread that has to wait has no deadline left. -/
def NoDeadline (s : SemState τ) : SemAct τ → Prop
  | .callWait _ w => w = 0 ∨ w = semaphoreMaxWait
  | .next t _ => s.pc t = .look semaphoreMaxWait → s.maxUsers ≤ s.curUserCount →
      (s.thread t).wakeThreadAfter = 0
  | _ => True

instance (s : SemState τ) (i : SemAct τ) : Decidable (NoDeadline s i) :=
  match i with
  | .callWait _ _ => inferInstanceAs (Decidable (_ ∨ _))
  | .next _ _ => inferInstanceAs (Decidable (_ → _ → _))
  | .callClear _ | .considerThread .. | .otherWait .. => .isTrue trivial

/-- What holds of a thread. -/
structure ThreadOk (s : SemState τ) (t : τ) : Prop where
  lock : s.accessLock = some t ↔ (s.pc t).holds
  list : t ∈ s.waitingThreadsList ↔ (s.pc t).waits ∧ s.slot t = false
  limit : ∀ w ∈ (s.pc t).limit, (w = 0 ∧ (s.pc t).waits = false) ∨ w = semaphoreMaxWait
  asks : (s.pc t).asks → s.slot t = false
  timedOut : s.pc t = .leave .timeout → s.slot t = false
  served : (s.pc t).served → s.slot t
  stop : ∀ w, s.pc t = .stop w → (s.thread t).wakeThreadAfter = 0
  sleeps : (s.pc t).sleeps → (s.thread t).wakeThreadAfter = 0 ∧
    ((s.thread t).permitRunning → s.slot t)
  ownItem : s.inAnyList t = false

/-- The invariant of a semaphore. -/
structure Inv (s : SemState τ) : Prop where
  count : s.curUserCount ≤ s.maxUsers
  full : s.waitingThreadsList ≠ [] → s.curUserCount = s.maxUsers
  nodup : s.waitingThreadsList.Nodup
  thread : ∀ t, ThreadOk s t

variable {s s' : SemState τ} {t : τ} {w now maxUsers startUsers : Nat} {thread : τ → Thread}

attribute [local grind =] SemPc.holds SemPc.waits SemPc.sleeps SemPc.limit SemPc.asks SemPc.served

omit [DecidableEq τ] in
theorem Inv.init (hstart : startUsers ≤ maxUsers) : Inv (.init maxUsers startUsers thread) := by
  refine ⟨hstart, by simp [SemState.init], List.nodup_nil, fun t => ?_⟩
  constructor <;> simp [SemState.init, SemPc.holds, SemPc.waits, SemPc.sleeps, SemPc.limit,
    SemPc.asks, SemPc.served]

theorem Inv.look (h : Inv s) (hpc : s.pc t = .look w) (hs : s.look t w = some s')
    (hno : NoDeadline s (.next t now)) : Inv s' := by
  have ht := h.thread t
  obtain ⟨hcount, hfull, hnodup, hthread⟩ := h
  unfold SemState.look at hs
  split at hs
  next hfree =>
    cases hs
    refine ⟨by grind, by grind, hnodup, fun u => ?_⟩
    obtain ⟨g1, g2, g3, g4, g5, g6, g7, g8, g9⟩ := hthread u
    constructor <;> grind -linarith
  next hused =>
    split at hs
    next hw =>
      cases hs
      refine ⟨hcount, hfull, hnodup, fun u => ?_⟩
      obtain ⟨g1, g2, g3, g4, g5, g6, g7, g8, g9⟩ := hthread u
      constructor <;> grind -linarith
    next hw =>
      simp only [Option.ite_none_right_eq_some, Option.some.injEq] at hs
      obtain ⟨heq, rfl⟩ := hs
      have hwait : w = semaphoreMaxWait := by
        have := ht.limit w (by rw [hpc]; rfl)
        grind -linarith
      subst hwait
      have hzero := hno hpc (not_lt.mp hused)
      have hnew := ht.list
      refine ⟨hcount, fun _ => heq, by grind, fun u => ?_⟩
      obtain ⟨g1, g2, g3, g4, g5, g6, g7, g8, g9⟩ := hthread u
      constructor <;> grind -linarith

omit [DecidableEq τ] in
/-- A step that leaves the semaphore and its list as they are. -/
theorem Inv.same (h : Inv s) (hthread : ∀ t, ThreadOk s' t)
    (hcount : s'.curUserCount = s.curUserCount) (hmax : s'.maxUsers = s.maxUsers)
    (hlist : s'.waitingThreadsList = s.waitingThreadsList) : Inv s' := by
  obtain ⟨g1, g2, g3, -⟩ := h
  refine ⟨?_, ?_, ?_, hthread⟩
  · rwa [hcount, hmax]
  · rwa [hcount, hmax, hlist]
  · rwa [hlist]

theorem Inv.lock {pc : SemPc} (h : Inv s) (hs : s.lock t pc = some s')
    (hold : (s.pc t).holds = false) (hnew : pc.holds) (hwaits : pc.waits = (s.pc t).waits)
    (hlimit : pc.limit = (s.pc t).limit) (hasks : pc.asks = (s.pc t).asks)
    (hserved : pc.served = (s.pc t).served) (hsleeps : pc.sleeps = false)
    (hstop : ∀ w, pc ≠ .stop w) (hend : pc ≠ .leave .timeout) : Inv s' := by
  simp only [SemState.lock, Option.ite_none_right_eq_some, Option.some.injEq] at hs
  obtain ⟨hfree, rfl⟩ := hs
  refine h.same (fun u => ?_) rfl rfl rfl
  obtain ⟨g1, g2, g3, g4, g5, g6, g7, g8, g9⟩ := h.thread u
  constructor <;> grind -linarith

theorem SemPc.queued_of_waits {pc : SemPc} (h : pc.waits) :
    pc.asks = false ∧ pc ≠ .leave .timeout := by
  cases pc <;> simp_all [SemPc.waits, SemPc.asks]

/-- The slot goes to the thread that has waited longest, or is free again. -/
theorem Inv.handOver (h : Inv s) (hpc : s.pc t = .handOver) (hs : s.handOver t = some s') :
    Inv s' := by
  have ht := (h.thread t).lock
  have hlist := fun u => (h.thread u).list
  have hnd := h.nodup
  have hcount := h.count
  have hfull := h.full
  unfold SemState.handOver at hs
  split at hs
  next hnil =>
    simp only [Option.ite_none_right_eq_some, Option.some.injEq] at hs
    obtain ⟨hpos, rfl⟩ := hs
    refine ⟨by grind, by grind, hnd, fun u => ?_⟩
    obtain ⟨g1, g2, g3, g4, g5, g6, g7, g8, g9⟩ := h.thread u
    constructor <;> grind -linarith
  next v rest hcons =>
    simp only [Option.ite_none_right_eq_some, Option.some.injEq] at hs
    obtain ⟨heq, rfl⟩ := hs
    have hv := SemPc.queued_of_waits ((hlist v).1 (by simp [hcons])).1
    refine ⟨hcount, fun _ => heq, by grind, fun u => ?_⟩
    obtain ⟨g1, g2, g3, g4, g5, g6, g7, g8, g9⟩ := h.thread u
    constructor <;> grind -linarith [Thread.startThread]

theorem Inv.next (h : Inv s) (hok : NoDeadline s (.next t now)) (hs : s.next t now = some s') :
    Inv s' := by
  have hlock := (h.thread t).lock
  have hlimit := (h.thread t).limit
  simp only [SemState.next] at hs
  cases hpc : s.pc t with
  | running => simp [hpc] at hs
  | enter w =>
      simp only [hpc, Option.ite_none_right_eq_some, Option.some.injEq] at hs
      obtain ⟨-, rfl⟩ := hs
      refine h.same (fun u => ?_) rfl rfl rfl
      obtain ⟨g1, g2, g3, g4, g5, g6, g7, g8, g9⟩ := h.thread u
      constructor <;> grind -linarith
  | wait w =>
      simp only [hpc] at hs
      exact h.lock hs (by rw [hpc]; rfl) rfl (by rw [hpc]; rfl) (by rw [hpc]; rfl) (by rw [hpc]; rfl)
        (by rw [hpc]; rfl) rfl (by simp) (by simp)
  | look w =>
      simp only [hpc] at hs
      exact h.look hpc hs hok
  | stop w =>
      simp only [hpc, Option.some.injEq] at hs
      subst hs
      refine h.same (fun u => ?_) rfl rfl rfl
      obtain ⟨g1, g2, g3, g4, g5, g6, g7, g8, g9⟩ := h.thread u
      constructor <;> grind -linarith [Thread.stopThread]
  | setDeadline w =>
      have hw : w = semaphoreMaxWait := by
        rw [hpc] at hlimit
        simpa [SemPc.limit, SemPc.waits] using hlimit w rfl
      simp only [hpc, hw, ne_eq, not_true, if_false, Option.some.injEq] at hs
      subst hs
      refine h.same (fun u => ?_) rfl rfl rfl
      obtain ⟨g1, g2, g3, g4, g5, g6, g7, g8, g9⟩ := h.thread u
      constructor <;> grind -linarith
  | unlock w =>
      simp only [hpc, Option.some.injEq] at hs
      subst hs
      refine h.same (fun u => ?_) rfl rfl rfl
      obtain ⟨g1, g2, g3, g4, g5, g6, g7, g8, g9⟩ := h.thread u
      constructor <;> grind -linarith
  | asleep =>
      simp only [hpc, Option.ite_none_right_eq_some, Option.some.injEq] at hs
      obtain ⟨hpermit, rfl⟩ := hs
      refine h.same (fun u => ?_) rfl rfl rfl
      obtain ⟨g1, g2, g3, g4, g5, g6, g7, g8, g9⟩ := h.thread u
      constructor <;> grind -linarith
  | awake =>
      simp only [hpc] at hs
      exact h.lock hs (by rw [hpc]; rfl) rfl (by rw [hpc]; rfl) (by rw [hpc]; rfl) (by rw [hpc]; rfl)
        (by rw [hpc]; rfl) rfl (by simp) (by simp)
  | resumed =>
      have hitem := (h.thread t).ownItem
      simp only [hpc, SemState.resume, hitem, Bool.not_false, if_true, Option.some.injEq] at hs
      subst hs
      refine h.same (fun u => ?_) rfl rfl rfl
      obtain ⟨g1, g2, g3, g4, g5, g6, g7, g8, g9⟩ := h.thread u
      constructor <;> grind -linarith
  | leave res =>
      simp only [hpc, Option.some.injEq] at hs
      subst hs
      refine h.same (fun u => ?_) rfl rfl rfl
      obtain ⟨g1, g2, g3, g4, g5, g6, g7, g8, g9⟩ := h.thread u
      constructor <;> grind -linarith
  | clear =>
      simp only [hpc] at hs
      exact h.lock hs (by rw [hpc]; rfl) rfl (by rw [hpc]; rfl) (by rw [hpc]; rfl) (by rw [hpc]; rfl)
        (by rw [hpc]; rfl) rfl (by simp) (by simp)
  | handOver =>
      simp only [hpc] at hs
      exact h.handOver hpc hs

theorem Inv.step {i : SemAct τ} (h : Inv s) (hok : NoDeadline s i) (hs : s.step i = some s') :
    Inv s' := by
  cases i with
  | callWait t w =>
      simp only [SemState.step, Option.ite_none_right_eq_some, Option.some.injEq] at hs
      obtain ⟨hpc, rfl⟩ := hs
      simp only [NoDeadline] at hok
      refine h.same (fun u => ?_) rfl rfl rfl
      obtain ⟨g1, g2, g3, g4, g5, g6, g7, g8, g9⟩ := h.thread u
      constructor <;> grind -linarith
  | callClear t =>
      simp only [SemState.step, Option.ite_none_right_eq_some, Option.some.injEq] at hs
      obtain ⟨hpc, rfl⟩ := hs
      refine h.same (fun u => ?_) rfl rfl rfl
      obtain ⟨g1, g2, g3, g4, g5, g6, g7, g8, g9⟩ := h.thread u
      constructor <;> grind -linarith
  | next t now => exact h.next hok hs
  | considerThread t now =>
      cases hs
      refine h.same (fun u => ?_) rfl rfl rfl
      obtain ⟨g1, g2, g3, g4, g5, g6, g7, g8, g9⟩ := h.thread u
      constructor <;> grind -linarith [Thread.timedWake, Thread.shouldWake]
  | otherWait t d =>
      simp only [SemState.step, Option.ite_none_right_eq_some, Option.some.injEq] at hs
      obtain ⟨hpc, rfl⟩ := hs
      refine h.same (fun u => ?_) rfl rfl rfl
      obtain ⟨g1, g2, g3, g4, g5, g6, g7, g8, g9⟩ := h.thread u
      constructor <;> grind -linarith

/-! ### What a semaphore is for -/

/-- What should hold of a semaphore at any moment. -/
structure SemaphoreSafe (s : SemState τ) : Prop where
  count : s.curUserCount ≤ s.maxUsers
  full : s.waitingThreadsList ≠ [] → s.curUserCount = s.maxUsers
  /-- The two ASSERTs of `klib_synch_semaphore_wait`. -/
  assertLimit : ∀ t w, s.pc t = .enter w → w = 0 ∨ w = semaphoreMaxWait
  assertFull : ∀ t w, s.pc t = .look w → s.maxUsers ≤ s.curUserCount → s.curUserCount = s.maxUsers
  /-- A wait returns a slot exactly if it has one. -/
  result : ∀ t res, s.pc t = .leave res → (res = .acquired ↔ s.slot t)
  /-- A thread that is in no wait is in no list. -/
  left : ∀ t, (s.pc t).waits = false → t ∉ s.waitingThreadsList

omit [DecidableEq τ] in
theorem Inv.safe (h : Inv s) : SemaphoreSafe s where
  count := h.count
  full := h.full
  assertLimit t w hpc := by
    have := (h.thread t).limit w (by rw [hpc]; rfl)
    tauto
  assertFull t w _ hused := le_antisymm h.count hused
  result t res hpc := by
    cases res with
    | acquired => simp [(h.thread t).served (by rw [hpc]; rfl)]
    | timeout => simp [(h.thread t).timedOut hpc]
  left t ht hmem := by
    have := (h.thread t).list.1 hmem
    rw [ht] at this
    cases this.1

/-- In every interleaving of unlimited waits that begin with no deadline left. -/
theorem semaphore_safe (hstart : startUsers ≤ maxUsers)
    (h : Reach SemState.step NoDeadline (.init maxUsers startUsers thread) s) : SemaphoreSafe s := by
  have hinv : Inv s := h.invariant (.init hstart) fun _ _ _ h hok hs => h.step hok hs
  exact hinv.safe

/-- A call of one thread, with so many steps of it. -/
def calls (i : SemAct Bool) (t : Bool) (steps : Nat) : List (SemAct Bool) :=
  i :: List.replicate steps (.next t 0)

/-- One slot, and two threads that are running. -/
abbrev oneSlot : SemState Bool := .init 1 0 fun _ => { permitRunning := true }

/-- The second thread has the slot, and the first waits for it. -/
def waitsForSlot : List (SemAct Bool) :=
  calls (.callWait true 0) true 4 ++ calls (.callWait false semaphoreMaxWait) false 6

theorem semaphore_safe_granted : ∃ s : SemState Bool,
    Reach SemState.step NoDeadline oneSlot s ∧ s.pc false = .leave .acquired ∧ s.slot false := by
  obtain ⟨s, hs, hpc⟩ := Reach.exists_of_run
    (by decide : ∃ s ∈ run SemState.step NoDeadline oneSlot
      (waitsForSlot ++ calls (.callClear true) true 2 ++ List.replicate 3 (.next false 0)),
      s.pc false = .leave .acquired)
  exact ⟨s, hs, hpc, ((semaphore_safe (by decide) hs).result _ _ hpc).1 rfl⟩

/-- The first thread has a deadline left from an earlier wait.  It passes, and the thread is told
that it has a slot. -/
theorem semaphore_safe_fails : ¬ ∀ s : SemState Bool,
    Reach SemState.step anyInput oneSlot s → SemaphoreSafe s := by
  intro h
  obtain ⟨s, hs, hpc, hslot⟩ := Reach.exists_of_run
    (by decide : ∃ s ∈ run SemState.step anyInput oneSlot
      (.otherWait false 1000 :: waitsForSlot ++
        .considerThread false 2000 :: List.replicate 3 (.next false 2000)),
      s.pc false = .leave .acquired ∧ s.slot false = false)
  have := ((h s hs).result _ _ hpc).1 rfl
  rw [hslot] at this
  cases this

end Azalea.Proc.Semaphores
