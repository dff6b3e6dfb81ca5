import Azalea.Proc.WorkRuns

/-!
# Proc — completion of messages

What `message_receiver::process_next_message` (`processor/work_queue.cpp`) does with a message once it
has taken it from the queue, and `syscall_send_message` (`syscall/syscall_mpi.cpp`), which waits for the
message to be completed if it has an output buffer.  The queue is the machine of `WorkQueue`; here a
worker inside `handle` has more steps, of which those of `handle_message` are up to the receiver: it may
write to the output buffer, release the message, or clear `auto_signal_semaphore` to signal the
completion semaphore itself once the handler has returned.
-/

namespace Azalea.Proc.Completion
open Azalea.Runs Azalea.Proc.Work

/-- Where `process_next_message` is with a message; `saved`: `completion_sem` has been set. -/
inductive Phase where
  /-- Not looked at yet. -/
  | fresh
  | ready (saved : Bool)
  /-- In `handle_message`. -/
  | inside (saved : Bool)
  | after (saved : Bool)
  | ended
  deriving DecidableEq

/-- Where a message is. -/
inductive Stage (σ ω ρ : Type*) where
  | unsent
  | sending (a : σ)
  | queued (r : ρ)
  | inHand (w : ω)
  | done
  deriving DecidableEq

/-- A `klib_semaphore`; `waiting` is the length of its `waiting_threads_list`. -/
structure Semaphore where
  maxUsers : Nat
  curUserCount : Nat
  waiting : Nat

namespace Semaphore

/-- `klib_synch_semaphore_init`. -/
def init (maxUsers startUsers : Nat) : Semaphore where
  maxUsers := maxUsers
  curUserCount := startUsers
  waiting := 0

/-- `klib_synch_semaphore_wait`, up to where the thread sleeps; `none` if an ASSERT trips. -/
def wait (x : Semaphore) : Option Semaphore :=
  if x.curUserCount < x.maxUsers then some { x with curUserCount := x.curUserCount + 1 }
  else if x.curUserCount = x.maxUsers then some { x with waiting := x.waiting + 1 } else none

/-- `klib_synch_semaphore_clear`; `none` if an ASSERT trips. -/
def clear (x : Semaphore) : Option Semaphore :=
  match x.waiting with
  | 0 => if 0 < x.curUserCount then some { x with curUserCount := x.curUserCount - 1 } else none
  | n + 1 => if x.curUserCount = x.maxUsers then some { x with waiting := n } else none

/-- Threads wait only for a semaphore that is full. -/
def Full (x : Semaphore) : Prop := x.waiting ≠ 0 → x.curUserCount = x.maxUsers

/-- A thread has the semaphore, or waits for it. -/
def Taken (x : Semaphore) : Prop := x.waiting ≠ 0 ∨ 0 < x.curUserCount

instance (x : Semaphore) : Decidable x.Taken := inferInstanceAs (Decidable (_ ∨ _))

variable {x y : Semaphore}

theorem Full.wait (h : x.Full) (hx : x.wait = some y) : y.Full := by
  simp only [Semaphore.wait] at hx
  unfold Full at h ⊢
  split at hx
  · obtain rfl := Option.some.inj hx
    intro hwaiting
    have hfull := h hwaiting
    omega
  · simp only [Option.ite_none_right_eq_some, Option.some.injEq] at hx
    obtain ⟨hfull, rfl⟩ := hx
    exact fun _ => hfull

theorem full_of_clear (hx : x.clear = some y) : y.Full := by
  simp only [Semaphore.clear] at hx
  unfold Full
  split at hx <;> simp only [Option.ite_none_right_eq_some, Option.some.injEq] at hx
  next hnone =>
    obtain ⟨-, rfl⟩ := hx
    exact fun hwaiting => absurd hnone hwaiting
  next n hsome =>
    obtain ⟨hfull, rfl⟩ := hx
    exact fun _ => hfull

theorem Full.exists_clear (h : x.Full) (hx : x.Taken) : ∃ y, x.clear = some y := by
  unfold Full at h
  unfold Taken at hx
  unfold Semaphore.clear
  split
  next hnone => exact ⟨_, if_pos (by omega)⟩
  next n hsome => exact ⟨_, if_pos (h (by omega))⟩

end Semaphore

/-- The `completion_semaphore` of a message. -/
inductive CompletionSemaphore (κ : Type*) where
  /-- The `syscall_semaphore_obj(1, 1)` that `syscall_send_message` makes for an output buffer. -/
  | new
  /-- A semaphore of which the sender has a handle, and with which other threads do as they like. -/
  | handled (k : κ)
  deriving DecidableEq

/-- A `root_msg`; `users` and `waiter` are `cur_user_count` and the waiting thread of a semaphore made for
it. -/
structure Message (σ κ β : Type*) where
  autoSignalSemaphore : Bool
  completionSemaphore : Option (CompletionSemaphore κ)
  outputBuffer : β
  users : Nat
  waiter : Option σ
  /-- The pointer to the message has been released by the handler. -/
  released : Bool
  -- what has happened to the message
  entered : Bool
  returned : Bool
  /-- The receiver is going to signal the semaphore itself, and has done so. -/
  takenOver : Bool
  selfSignalled : Bool
  signals : Nat

/-- Where a thread is in `syscall_send_message`. -/
inductive CallerPc (μ β : Type*) where
  | idle
  /-- In `queue_message`. -/
  | queueing (m : μ) (hasBuffer : Bool)
  | wait (m : μ)
  | blocked (m : μ)
  | copy (m : μ)
  | finished (m : μ) (copied : β)
  deriving DecidableEq

/-- The work queue, the messages and the senders that wait for them. -/
structure CompletionState (σ ω ρ μ κ β : Type*) where
  work : WorkState σ ω ρ μ
  stage : μ → Stage σ ω ρ
  part : ω → Phase
  message : μ → Message σ κ β
  caller : σ → CallerPc μ β
  wakeThreadAfter : σ → Nat
  /-- The semaphores of which threads have handles. -/
  semaphore : κ → Semaphore
  /-- A signal has tripped an ASSERT. -/
  assertFailed : Bool

/-- What happens next. -/
inductive CompletionAct (σ ω ρ μ κ β : Type*) where
  /-- A message is sent, from `syscall_send_message` if it has a buffer. -/
  | send (a : σ) (r : ρ) (m : μ) (autoSignal : Bool) (semaphore : Option κ) (hasBuffer : Bool)
  | sender (a : σ)
  | worker (w : ω)
  | destroy (r : ρ)
  /-- The next step of `syscall_send_message`, once the message is queued. -/
  | caller (a : σ)
  /-- The scheduler considers a blocked sender. -/
  | considerThread (a : σ) (now : Nat)
  /-- An earlier wait has left a deadline. -/
  | otherWait (a : σ) (wakeThreadAfter : Nat)
  /-- A thread waits for a semaphore that it has a handle of, or signals it. -/
  | semaphoreWait (k : κ)
  | semaphoreClear (k : κ)
  /-- What a handler does. -/
  | fill (w : ω) (v : β)
  | release (w : ω)
  | takeOver (w : ω)
  | leaveHandler (w : ω)
  /-- What a receiver does later for a message it has taken over. -/
  | fillLater (m : μ) (v : β)
  | signalLater (m : μ)

variable {σ ω ρ μ κ β : Type*} [DecidableEq σ] [DecidableEq ω] [DecidableEq ρ] [DecidableEq μ] [DecidableEq κ]

/-- A message as it is queued. -/
def Message.new (empty : β) (autoSignal : Bool) (semaphore : Option (CompletionSemaphore κ)) :
    Message σ κ β where
  autoSignalSemaphore := autoSignal
  completionSemaphore := semaphore
  outputBuffer := empty
  users := 1
  waiter := none
  released := false
  entered := false
  returned := false
  takenOver := false
  selfSignalled := false
  signals := 0

namespace CompletionState

/-- Nothing has been sent; each semaphore has a maximum and a first number of users. -/
def start (empty : β) (users : κ → Nat × Nat) : CompletionState σ ω ρ μ κ β where
  work := .start
  stage _ := .unsent
  part _ := .fresh
  message _ := .new empty true none
  caller _ := .idle
  wakeThreadAfter _ := 0
  semaphore k := .init (users k).1 (users k).2
  assertFailed := false

variable (s : CompletionState σ ω ρ μ κ β)

def setMessage (m : μ) (f : Message σ κ β → Message σ κ β) : CompletionState σ ω ρ μ κ β :=
  { s with message := Function.update s.message m (f (s.message m)) }

def setCaller (a : σ) (pc : CallerPc μ β) : CompletionState σ ω ρ μ κ β :=
  { s with caller := Function.update s.caller a pc }

def setPart (w : ω) (p : Phase) : CompletionState σ ω ρ μ κ β :=
  { s with part := Function.update s.part w p }

def setStage (m : μ) (stage : Stage σ ω ρ) : CompletionState σ ω ρ μ κ β :=
  { s with stage := Function.update s.stage m stage }

def setSemaphore (k : κ) (x : Semaphore) : CompletionState σ ω ρ μ κ β :=
  { s with semaphore := Function.update s.semaphore k x }

def failAssert : CompletionState σ ω ρ μ κ β := { s with assertFailed := true }

/-- `completion_semaphore->signal()`: the thread that waits is woken, or the next one will not wait. -/
def signal (m : μ) : CompletionState σ ω ρ μ κ β :=
  let x := s.message m
  match x.completionSemaphore with
  | some .new =>
      match x.waiter with
      | some a =>
          if x.users = 1 then
            (s.setMessage m fun x => { x with signals := x.signals + 1, waiter := none }).setCaller a (.copy m)
          else s.failAssert
      | none =>
          if 0 < x.users then s.setMessage m fun x => { x with signals := x.signals + 1, users := x.users - 1 }
          else s.failAssert
  | some (.handled k) =>
      match (s.semaphore k).clear with
      | some y => (s.setSemaphore k y).setMessage m fun x => { x with signals := x.signals + 1 }
      | none => s.failAssert
  | none => s.failAssert

/-- The message that a worker is handling. -/
def inHand (w : ω) : Option μ :=
  match s.work.worker w with
  | .handle _ m _ => some m
  | _ => none

/-- A step of `process_next_message` between taking a message and being done with it. -/
def processStep (w : ω) (m : μ) : Option (CompletionState σ ω ρ μ κ β) :=
  let x := s.message m
  match s.part w with
  | .fresh => some (s.setPart w (.ready (x.autoSignalSemaphore && x.completionSemaphore.isSome)))
  | .ready saved => some ((s.setMessage m fun x => { x with entered := true }).setPart w (.inside saved))
  | .inside _ => none
  | .after saved => some ((if saved then s.signal m else s).setPart w .ended)
  | .ended => (s.work.step (.worker w)).map fun work => { s with work }.setStage m .done

/-- The next step of a worker. -/
def workerStep (w : ω) : Option (CompletionState σ ω ρ μ κ β) :=
  match s.work.worker w with
  | .handle _ m _ => s.processStep w m
  | .take r => (s.work.step (.worker w)).map fun work =>
      match (s.work.receiver r).messageQueue with
      | m :: _ => ({ s with work }.setStage m (.inHand w)).setPart w .fresh
      | [] => { s with work }
  | _ => (s.work.step (.worker w)).map fun work => { s with work }

/-- The next step of `queue_message`. -/
def senderStep (a : σ) : Option (CompletionState σ ω ρ μ κ β) :=
  match s.work.sender a with
  | .push r m => (s.work.step (.sender a)).map fun work => { s with work }.setStage m (.queued r)
  | _ => (s.work.step (.sender a)).map fun work => { s with work }

/-- The next step of `syscall_send_message`, after `queue_message`. -/
def callerStep (a : σ) : Option (CompletionState σ ω ρ μ κ β) :=
  match s.caller a with
  | .queueing m hasBuffer =>
      match s.work.sender a with
      | .idle => some (s.setCaller a (if hasBuffer then .wait m else .idle))
      | _ => none
  | .wait m =>
      if (s.message m).users < 1 then
        some ((s.setMessage m fun x => { x with users := x.users + 1 }).setCaller a (.copy m))
      else if (s.message m).users = 1 then
        some ((s.setMessage m fun x => { x with waiter := some a }).setCaller a (.blocked m))
      else some s.failAssert
  | .copy m => some (s.setCaller a (.finished m (s.message m).outputBuffer))
  | .idle | .blocked _ | .finished _ _ => none

/-- What happens next, while no ASSERT has tripped; `empty` is a buffer that has just been cleared. -/
def next (empty : β) : CompletionAct σ ω ρ μ κ β → Option (CompletionState σ ω ρ μ κ β)
  | .send a r m autoSignal semaphore hasBuffer =>
      match s.caller a, s.stage m with
      | .idle, .unsent | .finished _ _, .unsent =>
          -- `syscall_send_message` leaves `auto_signal_semaphore` alone, and takes no semaphore with a buffer
          if hasBuffer ∧ ¬ (autoSignal ∧ semaphore = none) then none
          else (s.work.step (.call a r m)).map fun work =>
            (({ s with work }.setStage m (.sending a)).setMessage m
              fun _ => .new empty autoSignal (if hasBuffer then some .new else semaphore.map .handled)).setCaller a
                (.queueing m hasBuffer)
      | _, _ => none
  | .sender a => s.senderStep a
  | .worker w => s.workerStep w
  | .destroy r => (s.work.step (.destroy r)).map fun work => { s with work }
  | .caller a => s.callerStep a
  | .considerThread a now =>
      match s.caller a with
      | .blocked m =>
          -- woken by its deadline, `klib_synch_semaphore_wait` takes it for a signal
          if s.wakeThreadAfter a ≠ 0 ∧ s.wakeThreadAfter a ≤ now then some (s.setCaller a (.copy m)) else none
      | _ => none
  | .otherWait a deadline =>
      match s.caller a with
      | .idle | .finished _ _ => some { s with wakeThreadAfter := Function.update s.wakeThreadAfter a deadline }
      | _ => none
  | .semaphoreWait k => (s.semaphore k).wait.map (s.setSemaphore k)
  | .semaphoreClear k => (s.semaphore k).clear.map (s.setSemaphore k)
  | .fill w v =>
      match s.inHand w, s.part w with
      | some m, .inside _ => some (s.setMessage m fun x => { x with outputBuffer := v })
      | _, _ => none
  | .release w =>
      match s.inHand w, s.part w with
      | some m, .inside _ => some (s.setMessage m fun x => { x with released := true })
      | _, _ => none
  | .takeOver w =>
      match s.inHand w, s.part w with
      | some m, .inside _ =>
          if (s.message m).completionSemaphore.isSome then
            some (s.setMessage m fun x => { x with autoSignalSemaphore := false, takenOver := true })
          else none
      | _, _ => none
  | .leaveHandler w =>
      match s.inHand w, s.part w with
      | some m, .inside saved =>
          some ((s.setMessage m fun x => { x with returned := true }).setPart w (.after saved))
      | _, _ => none
  | .fillLater m v =>
      let x := s.message m
      if x.takenOver ∧ ¬ x.selfSignalled then some (s.setMessage m fun x => { x with outputBuffer := v })
      else none
  | .signalLater m =>
      let x := s.message m
      if x.takenOver ∧ ¬ x.selfSignalled ∧ x.returned then
        some ((s.setMessage m fun x => { x with selfSignalled := true }).signal m)
      else none

/-- One step of the system; a kernel in which an ASSERT has tripped has stopped. -/
def step (empty : β) (i : CompletionAct σ ω ρ μ κ β) : Option (CompletionState σ ω ρ μ κ β) :=
  if s.assertFailed then none else s.next empty i

/-- A semaphore that the sender has brought can be signalled: a thread has it, or waits for it. -/
def Releasable (m : μ) : Prop :=
  match (s.message m).completionSemaphore with
  | some (.handled k) => (s.semaphore k).Taken
  | _ => True

/-- A handler signals the semaphore itself exactly if `auto_signal_semaphore` was clear when its message
was taken, a thread has or waits for a sender's own semaphore when it is signalled, a sender that has to
wait has no deadline left, and a receiver goes only when nobody has a pointer to it. -/
def SignalsIfClear : CompletionAct σ ω ρ μ κ β → Prop
  | .takeOver w => s.part w = .inside false
  | .leaveHandler w => s.part w = .inside false → ∀ m ∈ s.inHand w,
      (s.message m).completionSemaphore.isSome = true → (s.message m).takenOver = true
  | .worker w => s.part w = .after true → ∀ m ∈ s.inHand w, s.Releasable m
  | .signalLater m => s.Releasable m
  | .caller a => ∀ m, s.caller a = .wait m → 1 ≤ (s.message m).users → s.wakeThreadAfter a = 0
  | .destroy r => PointersKept s.work (.destroy r)
  | _ => True

end CompletionState

/-! ### Where the messages are -/

section work
variable {s s' : WorkState σ ω ρ μ} {a : σ} {w : ω} {r : ρ} {m : μ}

/-- The message a sender has not put into a queue yet. -/
def senderMessage : SenderPc ρ μ → Option μ
  | .enter _ m | .push _ m => some m
  | _ => none

/-- The receiver and the message that a worker is handling. -/
def workerMessage : WorkerPc ρ μ → Option (ρ × μ)
  | .handle r m _ => some (r, m)
  | _ => none

/-- A step that moves no message. -/
structure Unmoved (s s' : WorkState σ ω ρ μ) : Prop where
  queue : ∀ r, (s'.receiver r).messageQueue = (s.receiver r).messageQueue
  sent : ∀ r, (s'.receiver r).sent = (s.receiver r).sent
  sender : ∀ a, senderMessage (s'.sender a) = senderMessage (s.sender a)
  worker : ∀ w, workerMessage (s'.worker w) = workerMessage (s.worker w)

omit [DecidableEq μ] in
theorem unmoved_sender (hpc : ∀ r m, s.sender a ≠ .push r m) (hs : s.senderStep a = some s') :
    Unmoved s s' := by
  cases hp : s.sender a <;> simp only [WorkState.senderStep, hp, reduceCtorEq] at hs
  case enter r m =>
    simp only [WorkState.lockQueue, Option.map_eq_some_iff, Option.ite_none_right_eq_some,
      Option.some.injEq] at hs
    obtain ⟨s₁, ⟨-, rfl⟩, rfl⟩ := hs
    constructor <;> intros <;> grind [senderMessage]
  case push r m => exact absurd hp (hpc r m)
  case enlist r =>
    simp only [WorkState.lockReceiverQueue, Option.map_eq_some_iff, Option.ite_none_right_eq_some,
      Option.some.injEq] at hs
    obtain ⟨s₁, ⟨-, rfl⟩, rfl⟩ := hs
    constructor <;> intros <;> grind [senderMessage]
  case pushBack r =>
    obtain rfl := Option.some.inj hs
    constructor <;> intros <;> grind [senderMessage]
  case leave r =>
    obtain rfl := Option.some.inj hs
    constructor <;> intros <;> grind [senderMessage]

omit [DecidableEq μ] in
theorem unmoved_worker (hpc : ∀ r m more, s.worker w ≠ .handle r m more) (htake : ∀ r, s.worker w ≠ .take r)
    (hs : s.workerStep w = some s') : Unmoved s s' := by
  cases hp : s.worker w with
  | idle =>
      simp only [WorkState.workerStep, hp, WorkState.lockReceiverQueue, Option.map_eq_some_iff,
        Option.ite_none_right_eq_some, Option.some.injEq] at hs
      obtain ⟨s₁, ⟨-, rfl⟩, rfl⟩ := hs
      constructor <;> intros <;> grind [workerMessage]
  | popFront =>
      simp only [WorkState.workerStep, hp] at hs
      split at hs
      · obtain rfl := Option.some.inj hs
        constructor <;> intros <;> grind [workerMessage]
      · split at hs <;> obtain rfl := Option.some.inj hs
        · constructor <;> intros <;> grind [workerMessage]
        · constructor <;> intros <;> grind [workerMessage]
  | begin r =>
      simp only [WorkState.workerStep, hp, WorkState.lockQueue, Option.map_eq_some_iff,
        Option.ite_none_right_eq_some, Option.some.injEq] at hs
      obtain ⟨s₁, ⟨-, rfl⟩, rfl⟩ := hs
      constructor <;> intros <;> grind [workerMessage]
  | setFlags r =>
      simp only [WorkState.workerStep, hp, Option.some.injEq] at hs
      subst hs
      constructor <;> intros <;> grind [workerMessage]
  | unlock o =>
      cases o <;> simp only [WorkState.workerStep, hp, Option.some.injEq] at hs <;> subst hs <;>
        constructor <;> intros <;> grind [workerMessage]
  | next r =>
      simp only [WorkState.workerStep, hp, WorkState.lockQueue, Option.map_eq_some_iff,
        Option.ite_none_right_eq_some, Option.some.injEq] at hs
      obtain ⟨s₁, ⟨-, rfl⟩, rfl⟩ := hs
      constructor <;> intros <;> grind [workerMessage]
  | take r => exact absurd hp (htake r)
  | handle r m more => exact absurd hp (hpc r m more)

/-- The stage of each message agrees with the work queue, in which each message is once. -/
structure Located (s : WorkState σ ω ρ μ) (stage : μ → Stage σ ω ρ) : Prop where
  sending : ∀ a m, senderMessage (s.sender a) = some m → stage m = .sending a
  queued : ∀ r m, stage m = .queued r ↔ m ∈ (s.receiver r).messageQueue
  nodup : ∀ r, (s.receiver r).messageQueue.Nodup
  inHand : ∀ w m, stage m = .inHand w ↔ ∃ r, workerMessage (s.worker w) = some (r, m)
  sent : ∀ r m, m ∈ (s.receiver r).sent →
    stage m = .queued r ∨ (∃ w, workerMessage (s.worker w) = some (r, m)) ∨ stage m = .done

variable {stage : μ → Stage σ ω ρ}

omit [DecidableEq σ] [DecidableEq ω] [DecidableEq ρ] [DecidableEq μ] in
theorem Located.unmoved (h : Located s stage) (hs : Unmoved s s') : Located s' stage where
  sending a m := by rw [hs.sender]; exact h.sending a m
  queued r m := by rw [hs.queue]; exact h.queued r m
  nodup r := by rw [hs.queue]; exact h.nodup r
  inHand w m := by simp only [hs.worker]; exact h.inHand w m
  sent r m := by simp only [hs.sent, hs.worker]; exact h.sent r m

/-- A step that moves one message. -/
structure Moved (s s' : WorkState σ ω ρ μ) (m : μ) (st : Stage σ ω ρ) : Prop where
  sender : ∀ a m', m' ≠ m → senderMessage (s'.sender a) = some m' → senderMessage (s.sender a) = some m'
  sender_self : ∀ a, senderMessage (s'.sender a) = some m → st = .sending a
  queue : ∀ r m', m' ≠ m → (m' ∈ (s'.receiver r).messageQueue ↔ m' ∈ (s.receiver r).messageQueue)
  queue_self : ∀ r, st = .queued r ↔ m ∈ (s'.receiver r).messageQueue
  nodup : ∀ r, (s'.receiver r).messageQueue.Nodup
  worker : ∀ w r m', m' ≠ m →
    (workerMessage (s'.worker w) = some (r, m') ↔ workerMessage (s.worker w) = some (r, m'))
  worker_self : ∀ w, st = .inHand w ↔ ∃ r, workerMessage (s'.worker w) = some (r, m)
  sent : ∀ r m', m' ≠ m → m' ∈ (s'.receiver r).sent → m' ∈ (s.receiver r).sent
  sent_self : ∀ r, m ∈ (s'.receiver r).sent →
    st = .queued r ∨ (∃ w, workerMessage (s'.worker w) = some (r, m)) ∨ st = .done

omit [DecidableEq σ] [DecidableEq ω] [DecidableEq ρ] in
theorem Located.moved {st : Stage σ ω ρ} (h : Located s stage) (hs : Moved s s' m st) :
    Located s' (Function.update stage m st) where
  sending a m' ha := by
    by_cases heq : m' = m
    · subst heq
      rw [Function.update_self, hs.sender_self a ha]
    · rw [Function.update_of_ne heq]
      exact h.sending a m' (hs.sender a m' heq ha)
  queued r m' := by
    by_cases heq : m' = m
    · subst heq
      rw [Function.update_self]
      exact hs.queue_self r
    · rw [Function.update_of_ne heq, hs.queue r m' heq]
      exact h.queued r m'
  nodup := hs.nodup
  inHand w m' := by
    by_cases heq : m' = m
    · subst heq
      rw [Function.update_self]
      exact hs.worker_self w
    · rw [Function.update_of_ne heq]
      simp only [hs.worker w _ m' heq]
      exact h.inHand w m'
  sent r m' hm' := by
    by_cases heq : m' = m
    · subst heq
      rw [Function.update_self]
      exact hs.sent_self r hm'
    · rw [Function.update_of_ne heq]
      simp only [hs.worker _ r m' heq]
      exact h.sent r m' (hs.sent r m' heq hm')

omit [DecidableEq σ] [DecidableEq ω] [DecidableEq ρ] [DecidableEq μ] in
theorem Located.of_worker (h : Located s stage) :
    ∀ w r m, workerMessage (s.worker w) = some (r, m) → stage m = .inHand w :=
  fun w r m hw => (h.inHand w m).mpr ⟨r, hw⟩

/-- A new message is given to a sender. -/
theorem Located.call (h : Located s stage) (hnew : stage m = .unsent)
    (hs : s.step (.call a r m) = some s') : Moved s s' m (.sending a) := by
  have hcall : s.sender a = .idle ∧ s' = s.setSender a (.enter r m) := by
    simp only [WorkState.step] at hs
    split at hs
    next hidle =>
      simp only [Option.ite_none_right_eq_some, Option.some.injEq] at hs
      exact ⟨hidle, hs.2.symm⟩
    next => cases hs
  obtain ⟨hidle, rfl⟩ := hcall
  have hw := h.of_worker
  obtain ⟨h1, h2, h3, h4, h5⟩ := h
  constructor <;> grind [senderMessage]

/-- A message is put into its queue. -/
theorem Located.push (h : Located s stage) (hpc : s.sender a = .push r m)
    (hs : s.senderStep a = some s') : Moved s s' m (.queued r) := by
  have hstage := h.sending a m (by rw [hpc]; rfl)
  have hsender : ∀ b m', m' ≠ m → senderMessage (s'.sender b) = some m' →
      senderMessage (s.sender b) = some m' := by
    simp only [WorkState.senderStep, hpc] at hs
    split at hs <;> obtain rfl := Option.some.inj hs <;> grind [senderMessage]
  have hself : ∀ b, senderMessage (s'.sender b) ≠ some m := by
    intro b hb
    simp only [WorkState.senderStep, hpc] at hs
    have hother := h.sending b m
    split at hs <;> obtain rfl := Option.some.inj hs <;> grind [senderMessage]
  have hqueue : ∀ q, (s'.receiver q).messageQueue =
      if q = r then (s.receiver r).messageQueue ++ [m] else (s.receiver q).messageQueue := by
    simp only [WorkState.senderStep, hpc] at hs
    split at hs <;> obtain rfl := Option.some.inj hs <;> grind
  have hsent : ∀ q, (s'.receiver q).sent =
      if q = r then (s.receiver r).sent ++ [m] else (s.receiver q).sent := by
    simp only [WorkState.senderStep, hpc] at hs
    split at hs <;> obtain rfl := Option.some.inj hs <;> grind
  have hworker : ∀ w, s'.worker w = s.worker w := by
    simp only [WorkState.senderStep, hpc] at hs
    split at hs <;> obtain rfl := Option.some.inj hs <;> grind
  have hw := h.of_worker
  obtain ⟨h1, h2, h3, h4, h5⟩ := h
  clear hs
  constructor <;> grind

/-- A message is taken from its queue. -/
theorem Located.take {rest : List μ} (h : Located s stage) (hpc : s.worker w = .take r)
    (hqueue : (s.receiver r).messageQueue = m :: rest) (hs : s.workerStep w = some s') :
    Moved s s' m (.inHand w) := by
  have hstage := (h.queued r m).mpr (by rw [hqueue]; exact List.mem_cons_self)
  have hnodup := h.nodup r
  rw [hqueue, List.nodup_cons] at hnodup
  have hw := h.of_worker
  obtain ⟨h1, h2, h3, h4, h5⟩ := h
  simp only [WorkState.workerStep, hpc, hqueue, Option.some.injEq] at hs
  have hself : workerMessage (s'.worker w) = some (r, m) := by
    rw [← hs]
    simp [workerMessage]
  have hother : ∀ v ≠ w, s'.worker v = s.worker v := by
    rw [← hs]
    grind
  subst hs
  constructor
  case worker_self =>
    intro v
    by_cases hv : v = w
    · subst hv
      exact ⟨fun _ => ⟨r, hself⟩, fun _ => rfl⟩
    · rw [hother v hv]
      constructor
      · intro heq
        exact absurd (Stage.inHand.inj heq).symm hv
      · rintro ⟨q, hq⟩
        have hin := hw v q m hq
        rw [hstage] at hin
        cases hin
  case sent_self => grind
  all_goals grind [workerMessage]

/-- A worker is done with a message. -/
theorem Located.handled {more : Bool} (h : Located s stage) (hpc : s.worker w = .handle r m more)
    (hs : s.workerStep w = some s') : Moved s s' m .done := by
  have hstage := (h.inHand w m).mpr ⟨r, by rw [hpc]; rfl⟩
  have hw := h.of_worker
  obtain ⟨h1, h2, h3, h4, h5⟩ := h
  simp only [WorkState.workerStep, hpc] at hs
  split at hs <;> obtain rfl := Option.some.inj hs <;> constructor <;> grind [workerMessage]

omit [DecidableEq μ] in
theorem Located.destroy (h : Located s stage) :
    Located (s.setReceiver r fun c => { c with alive := false }) stage :=
  h.unmoved (by constructor <;> grind)

omit [DecidableEq σ] [DecidableEq ω] [DecidableEq ρ] [DecidableEq μ] in
theorem Located.start : Located (.start : WorkState σ ω ρ μ) fun _ => .unsent := by
  constructor <;> simp [WorkState.start, senderMessage, workerMessage]

end work

end Azalea.Proc.Completion
