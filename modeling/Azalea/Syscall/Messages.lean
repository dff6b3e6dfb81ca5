import Azalea.Syscall.Pointers

/-!
# Syscall — a process's messages

The queue of messages of a process: `task_process::handle_message` (`processor/task_process.cpp`) adds to
it, and `syscall_receive_message_details`, `syscall_receive_message_body` and `syscall_message_complete`
(`syscall/syscall_mpi.cpp`) read its head and remove it, each under the queue's lock.  The calls are made
by threads of the process; an answer is the result, what is written through the pointers of the call, and
the message removed.

A `Ledger` is what the queue is for: the messages delivered, in order, and how many of them have been
completed.  The oldest that has not is the one the calls are about.

* `details_accesses`, `body_accesses`: the calls are those of `Azalea.Syscall.Pointers`, with the data
  they write.
* `user_messages_iff`: exactly which sequences of deliveries and calls are answered as by a ledger.
-/

namespace Azalea.Syscall

/-! ### The source -/

/-- `msg::basic_msg`: `message_length` is the number of bytes of `details`. -/
structure BasicMsg where
  messageId : BitVec 64
  messageLength : BitVec 64
  details : List UInt8
  complete : details.length = messageLength.toNat
  deriving DecidableEq

/-- A message of the work queue, which may be of another kind. -/
inductive Incoming where
  | basic (m : BasicMsg)
  | other

/-- `messaging` of a `task_process`. -/
structure UserQueue where
  acceptsMsgs : Bool
  messageQueue : List BasicMsg

/-- How a call ends. -/
structure MsgAnswer where
  result : ErrCode
  writes : List (BitVec 64 × List UInt8) := []
  removed : Option BasicMsg := none
  deriving DecidableEq

/-- A pointer the calls refuse. -/
def badPointer (p : BitVec 64) : Bool := p == 0 || !isUmAddress p

namespace UserQueue

/-- `task_process::handle_message`. -/
def handleMessage (q : UserQueue) : Incoming → UserQueue
  | .basic m => if q.acceptsMsgs then { q with messageQueue := q.messageQueue ++ [m] } else q
  | .other => q

/-- `syscall_receive_message_details`: a bad pointer sets the result, and the call goes on. -/
def receiveMessageDetails (q : UserQueue) (messageId messageLen : BitVec 64) : MsgAnswer :=
  let res : ErrCode := if badPointer messageId || badPointer messageLen then .invalidParam else .noError
  if q.acceptsMsgs = false then { result := .syncMsgNotAccepted }
  else match q.messageQueue with
    | [] => { result := .syncMsgQueueEmpty }
    | m :: _ =>
        { result := res
          writes := [(messageId, bytesOf64 m.messageId), (messageLen, bytesOf64 m.messageLength)] }

/-- `syscall_receive_message_body`. -/
def receiveMessageBody (q : UserQueue) (messageBuffer bufferSize : BitVec 64) : MsgAnswer :=
  if badPointer messageBuffer then { result := .invalidParam }
  else if bufferSize = 0 then { result := .invalidParam }
  else if q.acceptsMsgs = false then { result := .syncMsgNotAccepted }
  else match q.messageQueue with
    | [] => { result := .syncMsgQueueEmpty }
    | m :: _ =>
        let restrictingSize := if m.messageLength < bufferSize then m.messageLength else bufferSize
        { result := .noError
          writes :=
            if restrictingSize ≠ 0 then [(messageBuffer, m.details.take restrictingSize.toNat)] else [] }

/-- `syscall_message_complete`. -/
def messageComplete (q : UserQueue) : MsgAnswer × UserQueue :=
  if q.acceptsMsgs = false then ({ result := .syncMsgNotAccepted }, q)
  else match q.messageQueue with
    | [] => ({ result := .syncMsgQueueEmpty }, q)
    | m :: rest => ({ result := .noError, removed := some m }, { q with messageQueue := rest })

end UserQueue

/-- A delivery, or a call of the process. -/
inductive MsgAct where
  | deliver (m : Incoming)
  | details (messageId messageLen : BitVec 64)
  | body (messageBuffer bufferSize : BitVec 64)
  | complete

/-- One of them: the answer, if it is a call, and the queue. -/
def UserQueue.step (q : UserQueue) : MsgAct → Option MsgAnswer × UserQueue
  | .deliver m => (none, q.handleMessage m)
  | .details id len => (some (q.receiveMessageDetails id len), q)
  | .body buffer size => (some (q.receiveMessageBody buffer size), q)
  | .complete => (some q.messageComplete.1, q.messageComplete.2)

/-- The answers of a run, and the queue it leaves. -/
def UserQueue.run : UserQueue → List MsgAct → List (Option MsgAnswer) × UserQueue
  | q, [] => ([], q)
  | q, act :: acts =>
      let r := q.step act
      let r' := run r.2 acts
      (r.1 :: r'.1, r'.2)

/-! ### The ledger -/

/-- The messages delivered, and how many of them have been completed. -/
structure Ledger where
  delivered : List BasicMsg
  completed : Nat

namespace Ledger

/-- The oldest message that has not been completed. -/
def oldest (l : Ledger) : Option BasicMsg := l.delivered[l.completed]?

def details (l : Ledger) (messageId messageLen : BitVec 64) : MsgAnswer :=
  if badPointer messageId || badPointer messageLen then { result := .invalidParam }
  else match l.oldest with
    | none => { result := .syncMsgQueueEmpty }
    | some m =>
        { result := .noError
          writes := [(messageId, bytesOf64 m.messageId), (messageLen, bytesOf64 m.messageLength)] }

/-- A buffer without a byte is refused; with nothing to copy, nothing is written. -/
def body (l : Ledger) (messageBuffer bufferSize : BitVec 64) : MsgAnswer :=
  if badPointer messageBuffer || bufferSize == 0 then { result := .invalidParam }
  else match l.oldest with
    | none => { result := .syncMsgQueueEmpty }
    | some m =>
        let count := min m.messageLength.toNat bufferSize.toNat
        { result := .noError
          writes := if count = 0 then [] else [(messageBuffer, m.details.take count)] }

def step (l : Ledger) : MsgAct → Option MsgAnswer × Ledger
  | .deliver (.basic m) => (none, { l with delivered := l.delivered ++ [m] })
  | .deliver .other => (none, l)
  | .details id len => (some (l.details id len), l)
  | .body buffer size => (some (l.body buffer size), l)
  | .complete =>
      match l.oldest with
      | none => (some { result := .syncMsgQueueEmpty }, l)
      | some m => (some { result := .noError, removed := some m }, { l with completed := l.completed + 1 })

def run : Ledger → List MsgAct → List (Option MsgAnswer) × Ledger
  | l, [] => ([], l)
  | l, act :: acts =>
      let r := l.step act
      let r' := run r.2 acts
      (r.1 :: r'.1, r'.2)

end Ledger

/-- The messages removed in a run, in order. -/
def removedIn (answers : List (Option MsgAnswer)) : List BasicMsg :=
  answers.filterMap fun a => a.bind (·.removed)

/-- The messages delivered in a run. -/
def deliveredIn (acts : List MsgAct) : List BasicMsg :=
  acts.filterMap fun
    | .deliver (.basic m) => some m
    | _ => none

/-- A call for details that gives a pointer the call refuses. -/
def MsgAct.BadDetails : MsgAct → Prop
  | .details id len => badPointer id = true ∨ badPointer len = true
  | _ => False

/-- From a process that accepts messages: every call is answered as by the ledger, and the messages removed
and those still in the queue are the ones delivered, in order. -/
structure AnsweredInOrder (acts : List MsgAct) : Prop where
  answers : (UserQueue.run ⟨true, []⟩ acts).1 = (Ledger.run ⟨[], 0⟩ acts).1
  kept : removedIn (UserQueue.run ⟨true, []⟩ acts).1 ++ (UserQueue.run ⟨true, []⟩ acts).2.messageQueue
    = deliveredIn acts

/-! ### The accesses -/

theorem badPointer_eq_true {p : BitVec 64} : badPointer p = true ↔ p = 0 ∨ isUmAddress p = false := by
  simp [badPointer]

/-- The ranges of the writes of an answer. -/
def MsgAnswer.ranges (a : MsgAnswer) : List Range := a.writes.map fun w => ⟨w.1, w.2.length⟩

/-- What the calls of `Pointers` find of a queue. -/
def UserQueue.messaging (q : UserQueue) : Messaging :=
  ⟨true, true, q.acceptsMsgs, q.messageQueue.map (·.messageLength)⟩

theorem details_accesses (q : UserQueue) (messageId messageLen : BitVec 64) :
    syscallReceiveMessageDetails q.messaging messageId messageLen
      = ((q.receiveMessageDetails messageId messageLen).result,
         (q.receiveMessageDetails messageId messageLen).ranges) := by
  obtain ⟨accepts, queue⟩ := q
  have hbad : (badPointer messageId || badPointer messageLen) = true ↔
      messageId = 0 ∨ messageLen = 0 ∨ isUmAddress messageId = false ∨ isUmAddress messageLen = false := by
    rw [Bool.or_eq_true, badPointer_eq_true, badPointer_eq_true]
    tauto
  cases accepts with
  | false => rfl
  | true =>
    cases queue with
    | nil => rfl
    | cons m rest =>
      simp [syscallReceiveMessageDetails, UserQueue.messaging, UserQueue.receiveMessageDetails,
        MsgAnswer.ranges, bytesOf64, hbad]

theorem body_accesses (q : UserQueue) (messageBuffer bufferSize : BitVec 64) :
    syscallReceiveMessageBody q.messaging messageBuffer bufferSize
      = ((q.receiveMessageBody messageBuffer bufferSize).result,
         (q.receiveMessageBody messageBuffer bufferSize).ranges) := by
  obtain ⟨accepts, queue⟩ := q
  unfold syscallReceiveMessageBody UserQueue.receiveMessageBody
  by_cases hbad : badPointer messageBuffer = true
  · rw [if_pos hbad, if_pos (badPointer_eq_true.1 hbad)]
    rfl
  rw [if_neg hbad, if_neg fun h => hbad (badPointer_eq_true.2 h)]
  by_cases hsize : bufferSize = 0
  · rw [if_pos hsize, if_pos hsize]
    rfl
  rw [if_neg hsize, if_neg hsize]
  cases accepts with
  | false => rfl
  | true =>
    cases queue with
    | nil => rfl
    | cons m rest =>
      have hcopied : ∀ size : BitVec 64, size ≤ m.messageLength →
          (m.details.take size.toNat).length = size.toNat := by
        intro size hle
        rw [List.length_take, m.complete]
        exact Nat.min_eq_left (BitVec.le_def.1 hle)
      have hranges : ∀ size : BitVec 64, size ≤ m.messageLength →
          (if size ≠ 0 then [(messageBuffer, m.details.take size.toNat)] else []).map
              (fun w : BitVec 64 × List UInt8 => (⟨w.1, w.2.length⟩ : Range))
            = if size ≠ 0 then [⟨messageBuffer, size.toNat⟩] else [] := by
        intro size hle
        split
        · rw [List.map_singleton, hcopied size hle]
        · rfl
      simp only [UserQueue.messaging, MsgAnswer.ranges, List.map_cons, Bool.true_eq_false, if_false]
      by_cases hlt : m.messageLength < bufferSize
      · rw [if_pos hlt, hranges m.messageLength (BitVec.le_refl _)]
      · rw [if_neg hlt, hranges bufferSize (BitVec.not_lt.1 hlt)]

/-! ### Runs -/

/-- The queue is what the ledger has not completed. -/
structure UserQueue.Follows (q : UserQueue) (l : Ledger) : Prop where
  accepts : q.acceptsMsgs = true
  queue : q.messageQueue = l.delivered.drop l.completed
  within : l.completed ≤ l.delivered.length

namespace UserQueue.Follows

variable {q : UserQueue} {l : Ledger}

theorem oldest (h : q.Follows l) : l.oldest = q.messageQueue.head? := by
  rw [h.queue, List.head?_drop, Ledger.oldest]

theorem step (h : q.Follows l) (act : MsgAct) : (q.step act).2.Follows (l.step act).2 := by
  cases act with
  | deliver m =>
    cases m with
    | other => exact h
    | basic m =>
      refine ⟨?_, ?_, ?_⟩
      · simp [UserQueue.step, handleMessage, h.accepts]
      · simp [UserQueue.step, Ledger.step, handleMessage, h.accepts, h.queue,
          List.drop_append_of_le_length h.within]
      · simpa [Ledger.step] using Nat.le_succ_of_le h.within
  | details id len => exact h
  | body buffer size => exact h
  | complete =>
    have hold := h.oldest
    cases hq : q.messageQueue with
    | nil =>
      rw [hq] at hold
      simp only [UserQueue.step, Ledger.step, messageComplete, h.accepts, hq, hold, List.head?_nil]
      exact h
    | cons m rest =>
      rw [hq] at hold
      simp only [UserQueue.step, Ledger.step, messageComplete, h.accepts, hq, hold, List.head?_cons,
        Bool.true_eq_false, if_false]
      have hlt : l.completed < l.delivered.length := (List.getElem?_eq_some_iff.1 hold).1
      refine ⟨rfl, ?_, hlt⟩
      have hdrop : m :: rest = l.delivered.drop l.completed := hq.symm.trans h.queue
      rw [← List.tail_drop, ← hdrop, List.tail_cons]

/-- A refused pointer shows in every answer of `syscall_receive_message_details`. -/
theorem details_eq_iff (h : q.Follows l) (id len : BitVec 64) :
    q.receiveMessageDetails id len = l.details id len ↔ ¬ (MsgAct.details id len).BadDetails := by
  have hacc : (q.acceptsMsgs = false) = False := by simp [h.accepts]
  have hrefused : (MsgAct.details id len).BadDetails ↔ (badPointer id || badPointer len) = true :=
    (Bool.or_eq_true _ _).symm.to_iff
  rw [hrefused, receiveMessageDetails, Ledger.details, h.oldest]
  by_cases hbad : (badPointer id || badPointer len) = true
  · cases hq : q.messageQueue <;> simp [hbad, hacc]
  · cases hq : q.messageQueue <;> simp [hbad, hacc]

theorem body_eq (h : q.Follows l) (buffer size : BitVec 64) :
    q.receiveMessageBody buffer size = l.body buffer size := by
  unfold receiveMessageBody Ledger.body
  rw [h.oldest]
  by_cases hbad : badPointer buffer = true
  · simp [hbad]
  by_cases hsize : size = 0
  · simp [hbad, hsize]
  have haccepted : ¬ (badPointer buffer || size == 0) = true := by
    rw [Bool.or_eq_true, beq_iff_eq]
    exact not_or.2 ⟨hbad, hsize⟩
  rw [if_neg hbad, if_neg hsize, if_neg (by rw [h.accepts]; decide), if_neg haccepted]
  cases q.messageQueue with
  | nil => rfl
  | cons m rest =>
    have hmin : (if m.messageLength < size then m.messageLength else size).toNat
        = min m.messageLength.toNat size.toNat := by
      split
      · next hlt => exact (Nat.min_eq_left (BitVec.lt_def.1 hlt).le).symm
      · next hlt => exact (Nat.min_eq_right (BitVec.le_def.1 (BitVec.not_lt.1 hlt))).symm
    have hzero : ∀ count : BitVec 64, count ≠ 0 ↔ ¬ count.toNat = 0 := fun count =>
      not_congr BitVec.toNat_eq
    simp only [List.head?_cons, hzero, hmin, ite_not]

theorem complete_eq (h : q.Follows l) :
    some q.messageComplete.1 = (l.step .complete).1 := by
  have hold := h.oldest
  cases hq : q.messageQueue with
  | nil => simp [messageComplete, Ledger.step, h.accepts, hq, hold]
  | cons m rest => simp [messageComplete, Ledger.step, h.accepts, hq, hold]

theorem step_eq_iff (h : q.Follows l) (act : MsgAct) :
    (q.step act).1 = (l.step act).1 ↔ ¬ act.BadDetails := by
  cases act with
  | deliver m => cases m <;> exact iff_of_true rfl not_false
  | details id len => exact (Option.some_inj).trans (h.details_eq_iff id len)
  | body buffer size => exact iff_of_true (congrArg some (h.body_eq buffer size)) not_false
  | complete => exact iff_of_true h.complete_eq not_false

theorem run_eq_iff (acts : List MsgAct) (h : q.Follows l) :
    (q.run acts).1 = (l.run acts).1 ↔ ∀ act ∈ acts, ¬ act.BadDetails := by
  induction acts generalizing q l with
  | nil => simp [UserQueue.run, Ledger.run]
  | cons act acts ih =>
    simp only [UserQueue.run, Ledger.run, List.cons.injEq, List.forall_mem_cons]
    rw [h.step_eq_iff act, ih (h.step act)]

end UserQueue.Follows

namespace UserQueue

/-- A step moves messages from the deliveries to the queue and from its head to the removed. -/
theorem step_kept {q : UserQueue} (haccepts : q.acceptsMsgs = true) (act : MsgAct) :
    (q.step act).2.acceptsMsgs = true ∧
      removedIn [(q.step act).1] ++ (q.step act).2.messageQueue = q.messageQueue ++ deliveredIn [act] := by
  cases act with
  | deliver m => cases m <;> simp [step, handleMessage, haccepts, removedIn, deliveredIn]
  | details id len =>
    have hnone : (q.receiveMessageDetails id len).removed = none := by
      unfold receiveMessageDetails
      cases q.messageQueue <;> simp [haccepts]
    simp [step, removedIn, deliveredIn, haccepts, hnone]
  | body buffer size =>
    have hnone : (q.receiveMessageBody buffer size).removed = none := by
      unfold receiveMessageBody
      cases q.messageQueue <;> split_ifs <;> rfl
    simp [step, removedIn, deliveredIn, haccepts, hnone]
  | complete =>
    cases hq : q.messageQueue <;> simp [step, messageComplete, haccepts, hq, removedIn, deliveredIn]

theorem run_kept (acts : List MsgAct) {q : UserQueue} (haccepts : q.acceptsMsgs = true) :
    removedIn (q.run acts).1 ++ (q.run acts).2.messageQueue = q.messageQueue ++ deliveredIn acts := by
  induction acts generalizing q with
  | nil => simp [run, removedIn, deliveredIn]
  | cons act acts ih =>
    obtain ⟨haccepts', hstep⟩ := step_kept haccepts act
    have hremoved : removedIn (q.run (act :: acts)).1
        = removedIn [(q.step act).1] ++ removedIn ((q.step act).2.run acts).1 := by
      simp only [run, removedIn, ← List.filterMap_append, List.singleton_append]
    have hdelivered : deliveredIn (act :: acts) = deliveredIn [act] ++ deliveredIn acts := by
      simp only [deliveredIn, ← List.filterMap_append, List.singleton_append]
    rw [hremoved, hdelivered, List.append_assoc]
    simp only [run]
    rw [ih haccepts', ← List.append_assoc, hstep, List.append_assoc]

end UserQueue

/-- `syscall_receive_message_details` tests its pointers without returning: from the first call that gives
it one it should refuse, the answers are not the ledger's. -/
theorem user_messages_iff (acts : List MsgAct) :
    AnsweredInOrder acts ↔ ∀ act ∈ acts, ¬ act.BadDetails := by
  have hstart : UserQueue.Follows ⟨true, []⟩ ⟨[], 0⟩ := ⟨rfl, rfl, le_rfl⟩
  constructor
  · intro h
    exact (hstart.run_eq_iff acts).1 h.answers
  · intro h
    exact ⟨(hstart.run_eq_iff acts).2 h, UserQueue.run_kept acts rfl⟩

/-- A message for the kernel's own address. -/
theorem details_into_kernel : ¬ AnsweredInOrder
    [.deliver (.basic ⟨5, 2, [1, 2], rfl⟩), .details 0xFFFF800000000000 0x1000] := by
  intro h
  have hanswers := h.answers
  revert hanswers
  decide

end Azalea.Syscall
