import Mathlib.Algebra.Order.Ring.Nat
import Mathlib.Tactic.GCongr
import Azalea.Proc.ThreadCycle
import Azalea.Support.Runs

/-!
# Proc — waits that end on their own

`WaitObject::wait_for_signal` and `klib_synch_mutex_acquire` write `wake_thread_after`,
`task_get_next_thread` compares it with the time, and every wait of a thread uses the same field.  The
machine here keeps of the two functions all that has to do with that field; whom a trigger or a
release picks is the business of `WaitObject` and `Mutex`, and here a signal may come at any time.

* `timed_waits_ok`: no wait ends before its time and none by the deadline of another, as long as a
  thread that stops itself has no deadline left, no deadline overflows, and the HPET counts no slower
  than nanoseconds when a `WaitObject` sets one.  `wait_for_signal` adds nanoseconds to HPET units, and
  `start_thread` does not clear `wake_thread_after` (`timed_waits_fail`).
-/

namespace Azalea.Proc.Timed
open Azalea.Runs

/-- `time_hpet_cur_value`, once the HPET has been set up; `period` is `HPET_PERIOD`, in
femtoseconds. -/
def timeHpetCurValue (period mainCounterVal : Nat) (outputInNs : Bool) : Nat :=
  if outputInNs then mainCounterVal * (period / 1000) % 2 ^ 64 / 1000 else mainCounterVal

/-- `WaitObject::MAX_WAIT` and `MUTEX_MAX_WAIT`. -/
def maxWait : Nat := 2 ^ 64 - 1

/-- What a thread waits for. -/
inductive WaitFor where
  | object
  | mutex
  deriving DecidableEq

/-- Where a thread stands; `w` is `max_wait`. -/
inductive TimedPc where
  | running
  /-- In the call, before `stop_thread`. -/
  | enter (k : WaitFor) (w : Nat)
  /-- `should_still_sleep`; a mutex has none. -/
  | check (w : Nat)
  | setDeadline (k : WaitFor) (w : Nat)
  /-- In `task_yield`. -/
  | asleep (k : WaitFor) (w : Nat)
  deriving DecidableEq

/-- The clock and the threads.  The last three fields say when a thread's last call was, which of its
waits that was, and for which of them its deadline was set; no function of the source reads them. -/
structure TimedState (τ : Type*) where
  period : Nat
  mainCounterVal : Nat
  thread : τ → Thread
  pc : τ → TimedPc
  calledAt : τ → Nat
  waitNo : τ → Nat
  deadlineOf : τ → Nat

/-- A step of one thread, of the scheduler, or of the clock. -/
inductive TimedAct (τ : Type*) where
  | call (t : τ) (k : WaitFor) (w : Nat)
  /-- The next step of a call.  `blocked`: the object should still sleep, or the mutex is locked. -/
  | next (t : τ) (blocked : Bool)
  /-- `start_thread`, by a trigger, a release or `cancel_waiting_thread`. -/
  | signal (t : τ)
  /-- A wait of another kind has left a deadline. -/
  | otherWait (t : τ) (wakeThreadAfter : Nat)
  /-- `task_get_next_thread`, whose `schedule_start_time` is that of an earlier count, considers a
  thread. -/
  | considerThread (t : τ) (scheduleStart : Nat)
  | tick (n : Nat)

variable {τ : Type*} [DecidableEq τ]

namespace TimedState

variable (s : TimedState τ)

/-- `time_get_system_timer_count`. -/
def timeGetSystemTimerCount (outputInNs : Bool) : Nat :=
  timeHpetCurValue s.period s.mainCounterVal outputInNs

/-- The time a wait adds its limit to. -/
def deadlineClock : WaitFor → Nat
  | .object => s.timeGetSystemTimerCount false
  | .mutex => s.timeGetSystemTimerCount true

def setPc (t : τ) (pc : TimedPc) : TimedState τ := { s with pc := Function.update s.pc t pc }

def setThread (t : τ) (f : Thread → Thread) : TimedState τ :=
  { s with thread := Function.update s.thread t (f (s.thread t)) }

@[simp, grind =] theorem pc_setPc (t u : τ) (pc) :
    (s.setPc t pc).pc u = if u = t then pc else s.pc u := Function.update_apply ..
@[simp, grind =] theorem thread_setPc (t u : τ) (pc) : (s.setPc t pc).thread u = s.thread u := rfl
@[simp, grind =] theorem period_setPc (t : τ) (pc) : (s.setPc t pc).period = s.period := rfl
@[simp, grind =] theorem mainCounterVal_setPc (t : τ) (pc) :
    (s.setPc t pc).mainCounterVal = s.mainCounterVal := rfl
@[simp, grind =] theorem calledAt_setPc (t u : τ) (pc) :
    (s.setPc t pc).calledAt u = s.calledAt u := rfl
@[simp, grind =] theorem waitNo_setPc (t u : τ) (pc) : (s.setPc t pc).waitNo u = s.waitNo u := rfl
@[simp, grind =] theorem deadlineOf_setPc (t u : τ) (pc) :
    (s.setPc t pc).deadlineOf u = s.deadlineOf u := rfl

@[simp, grind =] theorem thread_setThread (t u : τ) (f) :
    (s.setThread t f).thread u = if u = t then f (s.thread t) else s.thread u :=
  Function.update_apply ..
@[simp, grind =] theorem pc_setThread (t u : τ) (f) : (s.setThread t f).pc u = s.pc u := rfl
@[simp, grind =] theorem period_setThread (t : τ) (f) : (s.setThread t f).period = s.period := rfl
@[simp, grind =] theorem mainCounterVal_setThread (t : τ) (f) :
    (s.setThread t f).mainCounterVal = s.mainCounterVal := rfl
@[simp, grind =] theorem calledAt_setThread (t u : τ) (f) :
    (s.setThread t f).calledAt u = s.calledAt u := rfl
@[simp, grind =] theorem waitNo_setThread (t u : τ) (f) : (s.setThread t f).waitNo u = s.waitNo u := rfl
@[simp, grind =] theorem deadlineOf_setThread (t u : τ) (f) :
    (s.setThread t f).deadlineOf u = s.deadlineOf u := rfl

/-- A thread calls one of the two functions. -/
def call (t : τ) (k : WaitFor) (w : Nat) : TimedState τ :=
  { s with
    calledAt := Function.update s.calledAt t s.mainCounterVal
    waitNo := Function.update s.waitNo t (s.waitNo t + 1) }.setPc t (.enter k w)

/-- A thread sets its deadline. -/
def setDeadline (t : τ) (k : WaitFor) (w : Nat) : TimedState τ :=
  { s with deadlineOf := Function.update s.deadlineOf t (s.waitNo t) }.setThread t fun x =>
    { x with wakeThreadAfter := (s.deadlineClock k + w * 1000) % 2 ^ 64 }

/-- The next step of a thread's call. -/
def next (t : τ) (blocked : Bool) : Option (TimedState τ) :=
  match s.pc t with
  | .running => none
  | .enter .object w => some ((s.setThread t Thread.stopThread).setPc t (.check w))
  | .enter .mutex w =>
      if blocked ∧ w ≠ 0 then
        some ((s.setThread t Thread.stopThread).setPc t (.setDeadline .mutex w))
      else some (s.setPc t .running)
  | .check w =>
      if blocked then some (s.setPc t (.setDeadline .object w))
      else some ((s.setThread t Thread.startThread).setPc t .running)
  | .setDeadline k w =>
      if w ≠ maxWait then some ((s.setDeadline t k w).setPc t (.asleep k w))
      else some (s.setPc t (.asleep k w))
  | .asleep _ _ => if (s.thread t).permitRunning then some (s.setPc t .running) else none

/-- One step of the machine. -/
def step (s : TimedState τ) : TimedAct τ → Option (TimedState τ)
  | .call t k w => if s.pc t = .running then some (s.call t k w) else none
  | .next t blocked => s.next t blocked
  | .signal t => some (s.setThread t Thread.startThread)
  | .otherWait t d =>
      if s.pc t = .running then some (s.setThread t fun x => { x with wakeThreadAfter := d })
      else none
  | .considerThread t start =>
      if start ≤ s.mainCounterVal then
        some (s.setThread t fun x => x.timedWake (timeHpetCurValue s.period start true))
      else none
  | .tick n => some { s with mainCounterVal := s.mainCounterVal + n }

end TimedState

/-- The limit of the wait a thread is in. -/
def TimedPc.limit : TimedPc → Option Nat
  | .enter _ w | .check w | .setDeadline _ w | .asleep _ w => some w
  | .running => none

/-- What should hold at any moment: if the scheduler, with a start time it has read, would wake a thread
that waits, then the limit of the wait has passed since the call, and the deadline is that of this
wait. -/
structure TimedOk (s : TimedState τ) : Prop where
  notEarly : ∀ t w start, (s.pc t).limit = some w → start ≤ s.mainCounterVal →
    (s.thread t).shouldWake (timeHpetCurValue s.period start true) → w ≠ maxWait →
    timeHpetCurValue s.period (s.calledAt t) true + w * 1000 ≤ timeHpetCurValue s.period start true
  ownDeadline : ∀ t w start, (s.pc t).limit = some w → start ≤ s.mainCounterVal →
    (s.thread t).shouldWake (timeHpetCurValue s.period start true) →
    w ≠ maxWait ∧ s.deadlineOf t = s.waitNo t

/-- The count in nanoseconds fits in 64 bits. -/
def NoOverflow (s : TimedState τ) : TimedAct τ → Prop
  | .tick n => (s.mainCounterVal + n) * (s.period / 1000) < 2 ^ 64
  | _ => True

/-- What a thread needs for its next step. -/
def TimedPc.Ready (s : TimedState τ) (t : τ) (blocked : Bool) : TimedPc → Prop
  | .enter .object _ => (s.thread t).wakeThreadAfter = 0
  | .enter .mutex w => blocked → w ≠ 0 → (s.thread t).wakeThreadAfter = 0
  | .setDeadline k w => w ≠ maxWait → s.deadlineClock k + w * 1000 < 2 ^ 64 ∧
      s.timeGetSystemTimerCount true ≤ s.deadlineClock k
  | _ => True

/-- A thread that stops itself has no deadline left, and a deadline that is set does not overflow and
is not behind the clock that the scheduler reads. -/
def ClocksAgree (s : TimedState τ) : TimedAct τ → Prop
  | .next t blocked => (s.pc t).Ready s t blocked
  | i => NoOverflow s i

instance (s : TimedState τ) (i : TimedAct τ) : Decidable (NoOverflow s i) :=
  match i with
  | .tick _ => inferInstanceAs (Decidable (_ < _))
  | .call .. | .next .. | .signal _ | .otherWait .. | .considerThread .. => .isTrue trivial

instance (s : TimedState τ) (t : τ) (blocked : Bool) (pc : TimedPc) :
    Decidable (pc.Ready s t blocked) :=
  match pc with
  | .enter .object _ => inferInstanceAs (Decidable (_ = _))
  | .enter .mutex _ | .setDeadline .. => inferInstanceAs (Decidable (_ → _))
  | .running | .check _ | .asleep .. => .isTrue trivial

instance (s : TimedState τ) (i : TimedAct τ) : Decidable (ClocksAgree s i) :=
  match i with
  | .next t blocked => inferInstanceAs (Decidable ((s.pc t).Ready s t blocked))
  | .tick n => inferInstanceAs (Decidable (NoOverflow s (.tick n)))
  | .call .. | .signal _ | .otherWait .. | .considerThread .. => .isTrue trivial

/-! ### The invariant -/

/-- A thread has not stopped itself. -/
def TimedPc.goes : TimedPc → Bool
  | .running | .enter _ _ => true
  | _ => false

/-- What holds of a thread. -/
structure ThreadOk (s : TimedState τ) (t : τ) : Prop where
  alive : (s.thread t).threadDestroyed = false
  called : s.calledAt t ≤ s.mainCounterVal
  goes : (s.pc t).goes → (s.thread t).permitRunning
  check : ∀ w, s.pc t = .check w → (s.thread t).wakeThreadAfter = 0
  unset : ∀ k w, s.pc t = .setDeadline k w → (s.thread t).wakeThreadAfter = 0
  asleep : ∀ k w, s.pc t = .asleep k w → (s.thread t).wakeThreadAfter ≠ 0 →
    w ≠ maxWait ∧ s.deadlineOf t = s.waitNo t ∧
      timeHpetCurValue s.period (s.calledAt t) true + w * 1000 ≤ (s.thread t).wakeThreadAfter

/-- The invariant of the machine. -/
structure Inv (s : TimedState τ) : Prop where
  fits : s.mainCounterVal * (s.period / 1000) < 2 ^ 64
  thread : ∀ t, ThreadOk s t

variable {s s' : TimedState τ} {t : τ}

attribute [local grind =] TimedPc.goes TimedPc.limit

/-- The nanosecond clock goes forwards, as long as it does not overflow. -/
theorem timeHpetCurValue_mono {period a b : Nat} (hab : a ≤ b) (hb : b * (period / 1000) < 2 ^ 64) :
    timeHpetCurValue period a true ≤ timeHpetCurValue period b true := by
  have hmul : a * (period / 1000) ≤ b * (period / 1000) := Nat.mul_le_mul_right _ hab
  simp only [timeHpetCurValue, if_true]
  rw [Nat.mod_eq_of_lt hb, Nat.mod_eq_of_lt (hmul.trans_lt hb)]
  exact Nat.div_le_div_right hmul

omit [DecidableEq τ] in
/-- The scheduler wakes a thread that waits only at the deadline of this wait. -/
theorem Inv.of_shouldWake {w now : Nat} (h : Inv s) (hw : (s.pc t).limit = some w)
    (hwake : (s.thread t).shouldWake now) :
    w ≠ maxWait ∧ s.deadlineOf t = s.waitNo t ∧
      timeHpetCurValue s.period (s.calledAt t) true + w * 1000 ≤ now := by
  obtain ⟨-, -, g3, g4, g5, g6⟩ := h.thread t
  simp only [Thread.shouldWake, Bool.and_eq_true, Bool.not_eq_true', bne_iff_ne, ne_eq,
    decide_eq_true_eq] at hwake
  obtain ⟨⟨hpermit, hset⟩, hlt⟩ := hwake
  cases hpc : s.pc t with
  | running => simp [hpc, TimedPc.limit] at hw
  | enter k v => simp [hpc, TimedPc.goes, hpermit] at g3
  | check v => exact absurd (g4 v hpc) hset
  | setDeadline k v => exact absurd (g5 k v hpc) hset
  | asleep k v =>
      obtain rfl : v = w := by simpa [hpc, TimedPc.limit] using hw
      obtain ⟨hlimit, hown, hle⟩ := g6 k v hpc hset
      exact ⟨hlimit, hown, hle.trans hlt.le⟩

omit [DecidableEq τ] in
theorem Inv.timedOk (h : Inv s) : TimedOk s where
  notEarly _ _ _ hw _ hwake _ := (h.of_shouldWake hw hwake).2.2
  ownDeadline _ _ _ hw _ hwake := ⟨(h.of_shouldWake hw hwake).1, (h.of_shouldWake hw hwake).2.1⟩

theorem Inv.setDeadline {k : WaitFor} {w : Nat} (h : Inv s)
    (hw : w ≠ maxWait) (hfits : s.deadlineClock k + w * 1000 < 2 ^ 64)
    (hclock : s.timeGetSystemTimerCount true ≤ s.deadlineClock k) :
    Inv ((s.setDeadline t k w).setPc t (.asleep k w)) := by
  refine ⟨h.fits, fun u => ?_⟩
  have hmono := timeHpetCurValue_mono (h.thread u).called h.fits
  obtain ⟨g1, g2, g3, g4, g5, g6⟩ := h.thread u
  simp only [TimedState.timeGetSystemTimerCount] at hclock
  unfold TimedState.setDeadline
  rw [Nat.mod_eq_of_lt hfits]
  constructor <;> grind -linarith

theorem Inv.next {blocked : Bool} (h : Inv s) (hok : (s.pc t).Ready s t blocked)
    (hs : s.next t blocked = some s') : Inv s' := by
  simp only [TimedState.next] at hs
  cases hpc : s.pc t with
  | running => simp [hpc] at hs
  | enter k w =>
      rw [hpc] at hok
      cases k with
      | object =>
          simp only [hpc, Option.some.injEq] at hs
          subst hs
          refine ⟨h.fits, fun u => ?_⟩
          obtain ⟨g1, g2, g3, g4, g5, g6⟩ := h.thread u
          constructor <;> grind -linarith [Thread.stopThread, TimedPc.Ready]
      | mutex =>
          simp only [hpc] at hs
          split at hs <;>
          · cases hs
            refine ⟨h.fits, fun u => ?_⟩
            obtain ⟨g1, g2, g3, g4, g5, g6⟩ := h.thread u
            constructor <;> grind -linarith [Thread.stopThread, TimedPc.Ready]
  | check w =>
      simp only [hpc] at hs
      split at hs <;>
      · cases hs
        refine ⟨h.fits, fun u => ?_⟩
        obtain ⟨g1, g2, g3, g4, g5, g6⟩ := h.thread u
        constructor <;> grind -linarith [Thread.startThread]
  | setDeadline k w =>
      rw [hpc] at hok
      simp only [hpc] at hs
      split at hs
      next hw =>
        cases hs
        exact h.setDeadline hw (hok hw).1 (hok hw).2
      next hw =>
        cases hs
        refine ⟨h.fits, fun u => ?_⟩
        obtain ⟨g1, g2, g3, g4, g5, g6⟩ := h.thread u
        constructor <;> grind -linarith
  | asleep k w =>
      simp only [hpc, Option.ite_none_right_eq_some, Option.some.injEq] at hs
      obtain ⟨hpermit, rfl⟩ := hs
      refine ⟨h.fits, fun u => ?_⟩
      obtain ⟨g1, g2, g3, g4, g5, g6⟩ := h.thread u
      constructor <;> grind -linarith

theorem Inv.step {i : TimedAct τ} (h : Inv s) (hok : ClocksAgree s i) (hs : s.step i = some s') :
    Inv s' := by
  cases i with
  | call t k w =>
      simp only [TimedState.step, Option.ite_none_right_eq_some, Option.some.injEq] at hs
      obtain ⟨hpc, rfl⟩ := hs
      refine ⟨h.fits, fun u => ?_⟩
      obtain ⟨g1, g2, g3, g4, g5, g6⟩ := h.thread u
      constructor <;> grind -linarith [TimedState.call, Function.update_apply]
  | next t blocked => exact h.next hok hs
  | signal t =>
      cases hs
      refine ⟨h.fits, fun u => ?_⟩
      obtain ⟨g1, g2, g3, g4, g5, g6⟩ := h.thread u
      constructor <;> grind -linarith [Thread.startThread]
  | otherWait t d =>
      simp only [TimedState.step, Option.ite_none_right_eq_some, Option.some.injEq] at hs
      obtain ⟨hpc, rfl⟩ := hs
      refine ⟨h.fits, fun u => ?_⟩
      obtain ⟨g1, g2, g3, g4, g5, g6⟩ := h.thread u
      constructor <;> grind -linarith
  | considerThread t start =>
      simp only [TimedState.step, Option.ite_none_right_eq_some, Option.some.injEq] at hs
      obtain ⟨hstart, rfl⟩ := hs
      refine ⟨h.fits, fun u => ?_⟩
      obtain ⟨g1, g2, g3, g4, g5, g6⟩ := h.thread u
      constructor <;> grind -linarith [Thread.timedWake]
  | tick n =>
      cases hs
      refine ⟨hok, fun u => ?_⟩
      obtain ⟨g1, g2, g3, g4, g5, g6⟩ := h.thread u
      exact ⟨g1, g2.trans (Nat.le_add_right _ n), g3, g4, g5, g6⟩

/-- Threads that are running, some with a deadline of an earlier wait. -/
def TimedState.start (period mainCounterVal : Nat) (deadline : τ → Nat) : TimedState τ where
  period := period
  mainCounterVal := mainCounterVal
  thread t := { permitRunning := true, wakeThreadAfter := deadline t }
  pc _ := .running
  calledAt _ := 0
  waitNo _ := 0
  deadlineOf _ := 0

omit [DecidableEq τ] in
theorem Inv.start {period mainCounterVal : Nat} {deadline : τ → Nat}
    (hfits : mainCounterVal * (period / 1000) < 2 ^ 64) :
    Inv (.start period mainCounterVal deadline) :=
  ⟨hfits, fun t => by constructor <;> simp [TimedState.start, TimedPc.goes]⟩

/-- In every run whose deadlines are set by the clock the scheduler reads, and for one wait only. -/
theorem timed_waits_ok {period mainCounterVal : Nat} {deadline : τ → Nat}
    (hfits : mainCounterVal * (period / 1000) < 2 ^ 64)
    (h : Reach TimedState.step ClocksAgree (.start period mainCounterVal deadline) s) : TimedOk s :=
  Inv.timedOk (h.invariant (.start hfits) fun _ _ _ h hok hs => h.step hok hs)

/-- The period of an HPET of 14.318 MHz, in femtoseconds. -/
def usualPeriod : Nat := 69841279

/-- A second of such an HPET. -/
def oneSecond : Nat := 14318180

/-- A thread waits for a mutex for a millisecond, and two have passed. -/
theorem timed_waits_ok_mutex : ∃ s : TimedState Unit,
    Reach TimedState.step ClocksAgree (.start usualPeriod oneSecond fun _ => 0) s ∧
    (s.thread ()).shouldWake (timeHpetCurValue usualPeriod (oneSecond + 28636) true) ∧
    s.deadlineOf () = s.waitNo () := by
  obtain ⟨s, hs, hpc, hcount, hperiod, hwake⟩ := Reach.exists_of_run
    (by decide +kernel : ∃ s ∈ run TimedState.step ClocksAgree
      (.start usualPeriod oneSecond fun _ => 0)
      [.call () .mutex 1000, .next () true, .next () true, .tick 28636],
      (s.pc ()).limit = some 1000 ∧ s.mainCounterVal = oneSecond + 28636 ∧ s.period = usualPeriod ∧
        (s.thread ()).shouldWake (timeHpetCurValue usualPeriod (oneSecond + 28636) true))
  have hok := timed_waits_ok (by decide) hs
  exact ⟨s, hs, hwake, (hok.ownDeadline () 1000 _ hpc hcount.ge (hperiod ▸ hwake)).2⟩

/-- A wait of a second for an object is over at once, a minute after the start: its deadline is a
number of HPET units and some nanoseconds.  And the deadline of a wait for a mutex that was granted
ends an unlimited wait for an object. -/
theorem timed_waits_fail :
    (¬ ∀ s : TimedState Unit,
      Reach TimedState.step NoOverflow (.start usualPeriod (60 * oneSecond) fun _ => 0) s →
        TimedOk s) ∧
    ¬ ∀ s : TimedState Unit,
      Reach TimedState.step NoOverflow (.start 1000000 1000 fun _ => 0) s → TimedOk s := by
  constructor
  · intro h
    obtain ⟨s, hs, hpc, hcount, hwake, hearly⟩ := Reach.exists_of_run
      (by decide +kernel : ∃ s ∈ run TimedState.step NoOverflow
        (.start usualPeriod (60 * oneSecond) fun _ => 0)
        [.call () .object 1000000, .next () true, .next () true, .next () true],
        (s.pc ()).limit = some 1000000 ∧ 60 * oneSecond ≤ s.mainCounterVal ∧
        (s.thread ()).shouldWake (timeHpetCurValue s.period (60 * oneSecond) true) ∧
        timeHpetCurValue s.period (60 * oneSecond) true <
          timeHpetCurValue s.period (s.calledAt ()) true + 1000000 * 1000)
    exact absurd ((h s hs).notEarly () _ _ hpc hcount hwake (by decide)) hearly.not_ge
  · intro h
    obtain ⟨s, hs, hpc, hcount, hwake⟩ := Reach.exists_of_run
      (by decide +kernel : ∃ s ∈ run TimedState.step NoOverflow (.start 1000000 1000 fun _ => 0)
        [.call () .mutex 5, .next () true, .next () true, .signal (), .next () true,
          .call () .object maxWait, .next () true, .next () true, .next () true, .tick 9000],
        (s.pc ()).limit = some maxWait ∧ 10000 ≤ s.mainCounterVal ∧
        (s.thread ()).shouldWake (timeHpetCurValue s.period 10000 true))
    exact ((h s hs).ownDeadline () _ _ hpc hcount hwake).1 rfl

end Azalea.Proc.Timed
