import Mathlib.Data.Fintype.Sum
import Mathlib.Logic.Function.Basic
import Mathlib.Tactic.Cases
import Azalea.Support.Runs

/-!
# Proc — the work queue

`processor/work_queue.cpp`: senders put messages into the queue of a `message_receiver`
(`queue_message`), workers take receivers from `receiver_queue` and handle their messages
(`work_queue_one_loop`).  A thread is the place in the source it stands at.  What is done under a
spinlock is one step; taking the lock is a step of its own, which waits until the lock is free.  A
handler that sends messages is a sender of its own.
-/

namespace Azalea.Proc.Work
open Azalea.Runs

/-- Where a thread stands in `queue_message`. -/
inductive SenderPc (ρ μ : Type*) where
  | idle
  /-- Waits for `queue_lock`. -/
  | enter (r : ρ) (m : μ)
  /-- Holds `queue_lock`. -/
  | push (r : ρ) (m : μ)
  /-- Holds `queue_lock`, waits for `receiver_queue_lock`. -/
  | enlist (r : ρ)
  /-- Holds both. -/
  | pushBack (r : ρ)
  /-- Holds `queue_lock`, has nothing left to do. -/
  | leave (r : ρ)
  deriving DecidableEq

/-- Where a thread stands in `work_queue_one_loop`. -/
inductive WorkerPc (ρ μ : Type*) where
  /-- Waits for `receiver_queue_lock`. -/
  | idle
  /-- Holds `receiver_queue_lock`. -/
  | popFront
  /-- In `begin_processing_msgs`: holds `receiver_queue_lock`, waits for `queue_lock`. -/
  | begin (r : ρ)
  /-- In `begin_processing_msgs`, holds both. -/
  | setFlags (r : ρ)
  /-- Holds `receiver_queue_lock`, with the receiver to work on. -/
  | unlock (r : Option ρ)
  /-- In `process_next_message`: waits for `queue_lock`. -/
  | next (r : ρ)
  /-- In `process_next_message`, holds `queue_lock`. -/
  | take (r : ρ)
  /-- In `handle_message`; `more` is `more_msgs`. -/
  | handle (r : ρ) (m : μ) (more : Bool)
  deriving DecidableEq

/-- A `message_receiver`.  `alive`: its destructor has not run.  What was sent, taken and handled
so far is not read by any function of the source. -/
structure Receiver (σ ω μ : Type*) where
  messageQueue : List μ := []
  isInReceiverQueue : Bool := false
  inProcessMode : Bool := false
  queueLock : Option (σ ⊕ ω) := none
  alive : Bool := true
  sent : List μ := []
  taken : List μ := []
  handled : List μ := []

/-- The receivers, `receiver_queue` with its lock, and the threads. -/
structure WorkState (σ ω ρ μ : Type*) where
  receiver : ρ → Receiver σ ω μ
  receiverQueue : List ρ
  receiverQueueLock : Option (σ ⊕ ω)
  sender : σ → SenderPc ρ μ
  worker : ω → WorkerPc ρ μ

/-- A step of one thread, or the end of a receiver. -/
inductive WorkAct (σ ω ρ μ : Type*) where
  /-- `queue_message` is called. -/
  | call (a : σ) (r : ρ) (m : μ)
  | sender (a : σ)
  | worker (w : ω)
  /-- The last shared pointer to a receiver goes. -/
  | destroy (r : ρ)

section
variable {σ ω ρ μ : Type*} [DecidableEq σ] [DecidableEq ω] [DecidableEq ρ]

/-- No thread is in a call, all queues are empty. -/
def WorkState.start : WorkState σ ω ρ μ where
  receiver _ := {}
  receiverQueue := []
  receiverQueueLock := none
  sender _ := .idle
  worker _ := .idle

namespace WorkState
variable (s : WorkState σ ω ρ μ)

def setReceiver (r : ρ) (f : Receiver σ ω μ → Receiver σ ω μ) : WorkState σ ω ρ μ :=
  { s with receiver := Function.update s.receiver r (f (s.receiver r)) }

def setSender (a : σ) (pc : SenderPc ρ μ) : WorkState σ ω ρ μ :=
  { s with sender := Function.update s.sender a pc }

def setWorker (w : ω) (pc : WorkerPc ρ μ) : WorkState σ ω ρ μ :=
  { s with worker := Function.update s.worker w pc }

section
omit [DecidableEq σ] [DecidableEq ω]

@[simp, grind =] theorem receiver_setReceiver (r r' : ρ) (f) :
    (s.setReceiver r f).receiver r' = if r' = r then f (s.receiver r) else s.receiver r' :=
  Function.update_apply ..
@[simp, grind =] theorem receiverQueue_setReceiver (r : ρ) (f) :
    (s.setReceiver r f).receiverQueue = s.receiverQueue := rfl
@[simp, grind =] theorem receiverQueueLock_setReceiver (r : ρ) (f) :
    (s.setReceiver r f).receiverQueueLock = s.receiverQueueLock := rfl
@[simp, grind =] theorem sender_setReceiver (r : ρ) (f) (a : σ) :
    (s.setReceiver r f).sender a = s.sender a := rfl
@[simp, grind =] theorem worker_setReceiver (r : ρ) (f) (w : ω) :
    (s.setReceiver r f).worker w = s.worker w := rfl

end

section
omit [DecidableEq ω] [DecidableEq ρ]

@[simp, grind =] theorem sender_setSender (a b : σ) (pc) :
    (s.setSender a pc).sender b = if b = a then pc else s.sender b := Function.update_apply ..
@[simp, grind =] theorem receiver_setSender (a : σ) (pc) (r : ρ) :
    (s.setSender a pc).receiver r = s.receiver r := rfl
@[simp, grind =] theorem receiverQueue_setSender (a : σ) (pc) :
    (s.setSender a pc).receiverQueue = s.receiverQueue := rfl
@[simp, grind =] theorem receiverQueueLock_setSender (a : σ) (pc) :
    (s.setSender a pc).receiverQueueLock = s.receiverQueueLock := rfl
@[simp, grind =] theorem worker_setSender (a : σ) (pc) (w : ω) :
    (s.setSender a pc).worker w = s.worker w := rfl

end

section
omit [DecidableEq σ] [DecidableEq ρ]

@[simp, grind =] theorem worker_setWorker (w v : ω) (pc) :
    (s.setWorker w pc).worker v = if v = w then pc else s.worker v := Function.update_apply ..
@[simp, grind =] theorem receiver_setWorker (w : ω) (pc) (r : ρ) :
    (s.setWorker w pc).receiver r = s.receiver r := rfl
@[simp, grind =] theorem receiverQueue_setWorker (w : ω) (pc) :
    (s.setWorker w pc).receiverQueue = s.receiverQueue := rfl
@[simp, grind =] theorem receiverQueueLock_setWorker (w : ω) (pc) :
    (s.setWorker w pc).receiverQueueLock = s.receiverQueueLock := rfl
@[simp, grind =] theorem sender_setWorker (w : ω) (pc) (a : σ) :
    (s.setWorker w pc).sender a = s.sender a := rfl

end

/-- `klib_synch_spinlock_lock(queue_lock)`, once it is free. -/
def lockQueue (r : ρ) (i : σ ⊕ ω) : Option (WorkState σ ω ρ μ) :=
  if (s.receiver r).queueLock = none then
    some (s.setReceiver r fun c => { c with queueLock := some i })
  else none

/-- `klib_synch_spinlock_lock(receiver_queue_lock)`, once it is free. -/
def lockReceiverQueue (i : σ ⊕ ω) : Option (WorkState σ ω ρ μ) :=
  if s.receiverQueueLock = none then some { s with receiverQueueLock := some i } else none

/-- The next step of `queue_message`. -/
def senderStep (a : σ) : Option (WorkState σ ω ρ μ) :=
  match s.sender a with
  | .idle => none
  | .enter r m => (s.lockQueue r (.inl a)).map fun s => s.setSender a (.push r m)
  | .push r m =>
      let c := s.receiver r
      let s := s.setReceiver r fun c =>
        { c with messageQueue := c.messageQueue ++ [m], sent := c.sent ++ [m] }
      if !c.isInReceiverQueue && !c.inProcessMode then some (s.setSender a (.enlist r))
      else some (s.setSender a (.leave r))
  | .enlist r => (s.lockReceiverQueue (.inl a)).map fun s => s.setSender a (.pushBack r)
  | .pushBack r =>
      let s := { s with receiverQueue := s.receiverQueue ++ [r] }
      let s := s.setReceiver r fun c => { c with isInReceiverQueue := true }
      some ({ s with receiverQueueLock := none }.setSender a (.leave r))
  | .leave r =>
      some ((s.setReceiver r fun c => { c with queueLock := none }).setSender a .idle)

/-- The next step of `work_queue_one_loop`.  A `process_next_message` that finds no message returns
false with `queue_lock` still held. -/
def workerStep (w : ω) : Option (WorkState σ ω ρ μ) :=
  match s.worker w with
  | .idle => (s.lockReceiverQueue (.inr w)).map fun s => s.setWorker w .popFront
  | .popFront =>
      match s.receiverQueue with
      | [] => some (s.setWorker w (.unlock none))
      | r :: rest =>
          let s := { s with receiverQueue := rest }
          -- `receiver_wk.lock()` gives nothing for a receiver that is gone
          if (s.receiver r).alive then some (s.setWorker w (.begin r))
          else some (s.setWorker w (.unlock none))
  | .begin r => (s.lockQueue r (.inr w)).map fun s => s.setWorker w (.setFlags r)
  | .setFlags r =>
      some ((s.setReceiver r fun c =>
        { c with isInReceiverQueue := false, inProcessMode := true, queueLock := none }).setWorker w
          (.unlock (some r)))
  | .unlock none => some ({ s with receiverQueueLock := none }.setWorker w .idle)
  | .unlock (some r) => some ({ s with receiverQueueLock := none }.setWorker w (.next r))
  | .next r => (s.lockQueue r (.inr w)).map fun s => s.setWorker w (.take r)
  | .take r =>
      match (s.receiver r).messageQueue with
      | m :: rest =>
          let s := s.setReceiver r fun c =>
            { c with
              messageQueue := rest
              taken := c.taken ++ [m]
              inProcessMode := if rest.isEmpty then false else c.inProcessMode
              queueLock := none }
          some (s.setWorker w (.handle r m !rest.isEmpty))
      | [] => some (s.setWorker w .idle)
  | .handle r m more =>
      let s := s.setReceiver r fun c => { c with handled := c.handled ++ [m] }
      if more then some (s.setWorker w (.next r)) else some (s.setWorker w .idle)

/-- One step.  A caller of `queue_message` has a pointer to the receiver, so it is alive. -/
def step (s : WorkState σ ω ρ μ) : WorkAct σ ω ρ μ → Option (WorkState σ ω ρ μ)
  | .call a r m =>
      match s.sender a with
      | .idle => if (s.receiver r).alive then some (s.setSender a (.enter r m)) else none
      | _ => none
  | .sender a => s.senderStep a
  | .worker w => s.workerStep w
  | .destroy r => some (s.setReceiver r fun c => { c with alive := false })

end WorkState

/-! ### What a place in the source means -/

/-- The receiver a sender has a pointer to. -/
def SenderPc.pointer : SenderPc ρ μ → Option ρ
  | .idle => none
  | .enter r _ | .push r _ | .enlist r | .pushBack r | .leave r => some r

/-- The receiver whose `queue_lock` a sender holds. -/
def SenderPc.holds : SenderPc ρ μ → Option ρ
  | .push r _ | .enlist r | .pushBack r | .leave r => some r
  | _ => none

/-- The receiver a sender has found in no queue and puts into `receiver_queue`. -/
def SenderPc.enlists : SenderPc ρ μ → Option ρ
  | .enlist r | .pushBack r => some r
  | _ => none

/-- A sender holds `receiver_queue_lock`. -/
def SenderPc.inQueue : SenderPc ρ μ → Bool
  | .pushBack _ => true
  | _ => false

/-- The receiver a worker has a pointer to. -/
def WorkerPc.pointer : WorkerPc ρ μ → Option ρ
  | .begin r | .setFlags r | .unlock (some r) | .next r | .take r | .handle r _ _ => some r
  | _ => none

/-- The receiver whose `queue_lock` a worker holds. -/
def WorkerPc.holds : WorkerPc ρ μ → Option ρ
  | .setFlags r | .take r => some r
  | _ => none

/-- The receiver a worker has taken out of `receiver_queue`, its flags not yet set. -/
def WorkerPc.begins : WorkerPc ρ μ → Option ρ
  | .begin r | .setFlags r => some r
  | _ => none

/-- The receiver whose flags a worker has set, and whose messages it has not yet taken all. -/
def WorkerPc.serves : WorkerPc ρ μ → Option ρ
  | .unlock (some r) | .next r | .take r | .handle r _ true => some r
  | _ => none

/-- A worker holds `receiver_queue_lock`. -/
def WorkerPc.inQueue : WorkerPc ρ μ → Bool
  | .popFront | .begin _ | .setFlags _ | .unlock _ => true
  | _ => false

/-- A worker is still going to call `process_next_message` on a receiver. -/
def WorkerPc.WillProcess (pc : WorkerPc ρ μ) (r : ρ) : Prop := pc.begins = some r ∨ pc.serves = some r

/-- A worker is inside `handle_message` of a receiver. -/
def WorkerPc.Handling (pc : WorkerPc ρ μ) (r : ρ) : Prop := ∃ m more, pc = .handle r m more

/-- Shared pointers: a receiver goes only when no thread in a call has one. -/
def PointersKept (s : WorkState σ ω ρ μ) : WorkAct σ ω ρ μ → Prop
  | .destroy r => (∀ a, (s.sender a).pointer ≠ some r) ∧ ∀ w, (s.worker w).pointer ≠ some r
  | _ => True

end

end Azalea.Proc.Work
