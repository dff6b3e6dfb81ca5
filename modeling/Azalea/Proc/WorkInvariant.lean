import Azalea.Proc.WorkQueue

/-!
# Proc — the invariant of the work queue

A receiver is in one `Phase` at a time: its messages are nobody's business because there are none, a
sender is about to enlist it, it waits in `receiver_queue`, a worker has taken it out, or a worker
serves it.  `InvAt` ties its flags, both queues and the places of all threads to that phase, and its
`queue_lock` to the threads; `Inv.step` keeps it over every step.
-/

namespace Azalea.Proc.Work
open Azalea.Runs

section
variable {σ ω ρ μ : Type*}

/-- Who sees to the messages of a receiver. -/
inductive Phase (σ ω : Type*) where
  /-- There are none. -/
  | empty
  | enlisting (a : σ)
  | queued
  | beginning (w : ω)
  | serving (w : ω)

/-- The flag `is_in_receiver_queue` in a phase. -/
def Phase.isIn : Phase σ ω → Bool
  | .queued | .beginning _ => true
  | _ => false

/-- The flag `in_process_mode` in a phase. -/
def Phase.inProcess : Phase σ ω → Bool
  | .serving _ => true
  | _ => false

/-- The flags of a receiver, both queues and the threads agree with its phase, and its lock with the
threads. -/
structure InvAt (s : WorkState σ ω ρ μ) (r : ρ) (p : Phase σ ω) : Prop where
  isIn : (s.receiver r).isInReceiverQueue = p.isIn
  inProcess : (s.receiver r).inProcessMode = p.inProcess
  waiting : (s.receiver r).messageQueue = [] ↔ p = .empty
  queued : (s.receiver r).alive → (r ∈ s.receiverQueue ↔ p = .queued)
  enlists : ∀ a, (s.sender a).enlists = some r ↔ p = .enlisting a
  begins : ∀ w, (s.worker w).begins = some r ↔ p = .beginning w
  serves : ∀ w, (s.worker w).serves = some r ↔ p = .serving w
  sender_alive : ∀ a, (s.sender a).pointer = some r → (s.receiver r).alive
  worker_alive : ∀ w, (s.worker w).pointer = some r → (s.receiver r).alive
  sender_holds : ∀ a, (s.receiver r).queueLock = some (.inl a) ↔ (s.sender a).holds = some r
  worker_holds : ∀ w, (s.receiver r).queueLock = some (.inr w) ↔ (s.worker w).holds = some r
  taken : (s.receiver r).sent = (s.receiver r).taken ++ (s.receiver r).messageQueue

/-- Every receiver is in some phase, and `receiver_queue_lock` agrees with the threads. -/
structure Inv (s : WorkState σ ω ρ μ) : Prop where
  nodup : s.receiverQueue.Nodup
  phase : ∀ r, ∃ p, InvAt s r p
  sender_inQueue : ∀ a, s.receiverQueueLock = some (.inl a) ↔ (s.sender a).inQueue
  worker_inQueue : ∀ w, s.receiverQueueLock = some (.inr w) ↔ (s.worker w).inQueue

variable {r : ρ}

theorem SenderPc.holds_of_enlists {pc : SenderPc ρ μ} (h : pc.enlists = some r) :
    pc.holds = some r := by
  cases pc <;> simp_all [SenderPc.enlists, SenderPc.holds]

theorem SenderPc.pointer_of_holds {pc : SenderPc ρ μ} (h : pc.holds = some r) :
    pc.pointer = some r := by
  cases pc <;> simp_all [SenderPc.holds, SenderPc.pointer]

theorem WorkerPc.pointer_of_holds {pc : WorkerPc ρ μ} (h : pc.holds = some r) :
    pc.pointer = some r := by
  cases pc <;> simp_all [WorkerPc.holds, WorkerPc.pointer]

theorem WorkerPc.pointer_of_begins {pc : WorkerPc ρ μ} (h : pc.begins = some r) :
    pc.pointer = some r := by
  cases pc <;> simp_all [WorkerPc.begins, WorkerPc.pointer]

theorem WorkerPc.inQueue_of_begins {pc : WorkerPc ρ μ} (h : pc.begins = some r) : pc.inQueue := by
  cases pc <;> simp_all [WorkerPc.begins, WorkerPc.inQueue]

theorem WorkerPc.pointer_of_serves {pc : WorkerPc ρ μ} (h : pc.serves = some r) :
    pc.pointer = some r := by
  unfold WorkerPc.serves at h
  split at h <;> simp_all [WorkerPc.pointer]

variable {s s' : WorkState σ ω ρ μ} {p : Phase σ ω}

theorem InvAt.frame (h : InvAt s r p) (hc : s'.receiver r = s.receiver r)
    (hq : r ∈ s'.receiverQueue ↔ r ∈ s.receiverQueue)
    (hs : ∀ a, s'.sender a = s.sender a ∨
      (s.sender a).pointer ≠ some r ∧ (s'.sender a).pointer ≠ some r)
    (hw : ∀ w, s'.worker w = s.worker w ∨
      (s.worker w).pointer ≠ some r ∧ (s'.worker w).pointer ≠ some r) : InvAt s' r p where
  isIn := by rw [hc, h.isIn]
  inProcess := by rw [hc, h.inProcess]
  waiting := by rw [hc, h.waiting]
  queued := by rw [hc, hq]; exact h.queued
  enlists a := by
    have := h.enlists a
    grind -linarith [SenderPc.holds_of_enlists, SenderPc.pointer_of_holds]
  begins w := by
    have := h.begins w
    grind -linarith [WorkerPc.pointer_of_begins]
  serves w := by
    have := h.serves w
    grind -linarith [WorkerPc.pointer_of_serves]
  sender_alive a := by
    have := h.sender_alive a
    grind -linarith
  worker_alive w := by
    have := h.worker_alive w
    grind -linarith
  sender_holds a := by
    have := h.sender_holds a
    grind -linarith [SenderPc.pointer_of_holds]
  worker_holds w := by
    have := h.worker_holds w
    grind -linarith [WorkerPc.pointer_of_holds]
  taken := by rw [hc, h.taken]

theorem Inv.start : Inv (WorkState.start : WorkState σ ω ρ μ) where
  nodup := List.nodup_nil
  phase r := ⟨.empty, by constructor <;> simp [WorkState.start, Phase.isIn, Phase.inProcess, SenderPc.enlists, WorkerPc.begins,
      WorkerPc.serves, SenderPc.pointer, WorkerPc.pointer, SenderPc.holds, WorkerPc.holds]⟩
  sender_inQueue a := by simp [WorkState.start, SenderPc.inQueue]
  worker_inQueue w := by simp [WorkState.start, WorkerPc.inQueue]

end

section
variable {σ ω ρ μ : Type*} [DecidableEq σ] [DecidableEq ω] [DecidableEq ρ]
  {s s' : WorkState σ ω ρ μ} {p : Phase σ ω} {r : ρ} {a : σ} {m : μ} {w : ω}

attribute [local grind =] SenderPc.pointer WorkerPc.pointer SenderPc.enlists WorkerPc.begins
  WorkerPc.serves SenderPc.holds WorkerPc.holds SenderPc.inQueue WorkerPc.inQueue Phase.isIn
  Phase.inProcess

omit [DecidableEq σ] [DecidableEq ω] in
/-- A step that concerns one receiver leaves the others as they are. -/
theorem Inv.only (h : Inv s) (hr : InvAt s' r p)
    (hc : ∀ r', r' ≠ r → s'.receiver r' = s.receiver r')
    (hq : ∀ r', r' ≠ r → (r' ∈ s'.receiverQueue ↔ r' ∈ s.receiverQueue))
    (hs : ∀ a r', r' ≠ r → s'.sender a = s.sender a ∨
      (s.sender a).pointer ≠ some r' ∧ (s'.sender a).pointer ≠ some r')
    (hw : ∀ w r', r' ≠ r → s'.worker w = s.worker w ∨
      (s.worker w).pointer ≠ some r' ∧ (s'.worker w).pointer ≠ some r') (r' : ρ) :
    ∃ p, InvAt s' r' p := by
  by_cases e : r' = r
  · subst e
    exact ⟨p, hr⟩
  · obtain ⟨q, hq'⟩ := h.phase r'
    exact ⟨q, hq'.frame (hc r' e) (hq r' e) (hs · r' e) (hw · r' e)⟩


theorem Inv.call (h : Inv s) (hpc : s.sender a = .idle) (hlive : (s.receiver r).alive) :
    Inv (s.setSender a (.enter r m)) := by
  obtain ⟨p, hp⟩ := h.phase r
  have hr : InvAt (s.setSender a (.enter r m)) r p := by
    obtain ⟨g1, g2, g3, g4, g5, g6, g7, g8, g9, g10, g11, g12⟩ := hp
    constructor <;> grind -linarith
  have hlock := h.sender_inQueue
  exact ⟨h.nodup, h.only hr (by grind -linarith) (by grind -linarith) (by grind) (by grind), by grind, h.worker_inQueue⟩


omit [DecidableEq σ] [DecidableEq ω] in
theorem WorkState.lockQueue_eq_some {i : σ ⊕ ω} : s.lockQueue r i = some s' ↔
    (s.receiver r).queueLock = none ∧ s' = s.setReceiver r fun c => { c with queueLock := some i } := by
  simp [WorkState.lockQueue, eq_comm]

omit [DecidableEq σ] [DecidableEq ω] [DecidableEq ρ] in
theorem WorkState.lockReceiverQueue_eq_some {i : σ ⊕ ω} : s.lockReceiverQueue i = some s' ↔
    s.receiverQueueLock = none ∧ s' = { s with receiverQueueLock := some i } := by
  simp [WorkState.lockReceiverQueue, eq_comm]

theorem Inv.enter (h : Inv s) (hpc : s.sender a = .enter r m) (hs : s.senderStep a = some s') :
    Inv s' := by
  simp only [WorkState.senderStep, hpc, Option.map_eq_some_iff, WorkState.lockQueue_eq_some] at hs
  obtain ⟨_, ⟨hfree, rfl⟩, rfl⟩ := hs
  obtain ⟨p, hp⟩ := h.phase r
  have hlock := h.sender_inQueue
  refine ⟨h.nodup, h.only (r := r) (p := p) ?_ (by grind -linarith) (by grind -linarith) (by grind) (by grind),
    by grind, h.worker_inQueue⟩
  obtain ⟨g1, g2, g3, g4, g5, g6, g7, g8, g9, g10, g11, g12⟩ := hp
  constructor <;> grind -linarith

/-- A message for a receiver that nobody sees to: the sender does now.  The sender holds
`queue_lock`, so that no other one can be about to enlist the receiver. -/
theorem Inv.push (h : Inv s) (hpc : s.sender a = .push r m) (hs : s.senderStep a = some s') :
    Inv s' := by
  obtain ⟨p, hp⟩ := h.phase r
  have hlock := h.sender_inQueue
  simp only [WorkState.senderStep, hpc] at hs
  split at hs
  next hno =>
    cases hs
    refine ⟨h.nodup, h.only (r := r) (p := .enlisting a) ?_ (by grind -linarith) (by grind -linarith) (by grind)
      (by grind -linarith), by grind, h.worker_inQueue⟩
    obtain ⟨g1, g2, g3, g4, g5, g6, g7, g8, g9, g10, g11, g12⟩ := hp
    have hp : p = .empty := by
      cases p with
      | enlisting b =>
          have := (g10 b).2 (SenderPc.holds_of_enlists ((g5 b).2 rfl))
          grind -linarith
      | _ => grind
    subst hp
    constructor <;> grind -linarith
  next hno =>
    cases hs
    refine ⟨h.nodup, h.only (r := r) (p := p) ?_ (by grind -linarith) (by grind -linarith) (by grind) (by grind),
      by grind, h.worker_inQueue⟩
    obtain ⟨g1, g2, g3, g4, g5, g6, g7, g8, g9, g10, g11, g12⟩ := hp
    have hp : p ≠ .empty := by grind -linarith
    constructor
    case waiting => simp [hp]
    all_goals grind

theorem Inv.enlist (h : Inv s) (hpc : s.sender a = .enlist r) (hs : s.senderStep a = some s') :
    Inv s' := by
  simp only [WorkState.senderStep, hpc, Option.map_eq_some_iff,
    WorkState.lockReceiverQueue_eq_some] at hs
  obtain ⟨_, ⟨hfree, rfl⟩, rfl⟩ := hs
  obtain ⟨p, hp⟩ := h.phase r
  have hlock := h.sender_inQueue
  have hlock' := h.worker_inQueue
  refine ⟨h.nodup, h.only (r := r) (p := p) ?_ (by grind -linarith) (by grind -linarith) (by grind) (by grind),
    by grind, by grind⟩
  obtain ⟨g1, g2, g3, g4, g5, g6, g7, g8, g9, g10, g11, g12⟩ := hp
  constructor <;> grind -linarith

theorem Inv.pushBack (h : Inv s) (hpc : s.sender a = .pushBack r)
    (hs : s.senderStep a = some s') : Inv s' := by
  simp only [WorkState.senderStep, hpc, Option.some.injEq] at hs
  subst hs
  obtain ⟨p, hp⟩ := h.phase r
  have hlock := h.sender_inQueue
  have hlock' := h.worker_inQueue
  have hpa : p = .enlisting a := (hp.enlists a).1 (by rw [hpc]; rfl)
  subst hpa
  have hnot : r ∉ s.receiverQueue := by
    rw [hp.queued (hp.sender_alive a (by rw [hpc]; rfl))]
    simp
  refine ⟨?_, h.only (r := r) (p := .queued) ?_ (by grind -linarith) (by grind -linarith) (by grind) (by grind),
    by grind, by grind⟩
  · have := h.nodup
    grind -linarith
  · obtain ⟨g1, g2, g3, g4, g5, g6, g7, g8, g9, g10, g11, g12⟩ := hp
    constructor <;> grind -linarith

theorem Inv.leave (h : Inv s) (hpc : s.sender a = .leave r) (hs : s.senderStep a = some s') :
    Inv s' := by
  simp only [WorkState.senderStep, hpc, Option.some.injEq] at hs
  subst hs
  obtain ⟨p, hp⟩ := h.phase r
  have hlock := h.sender_inQueue
  refine ⟨h.nodup, h.only (r := r) (p := p) ?_ (by grind -linarith) (by grind -linarith) (by grind) (by grind),
    by grind, h.worker_inQueue⟩
  obtain ⟨g1, g2, g3, g4, g5, g6, g7, g8, g9, g10, g11, g12⟩ := hp
  constructor <;> grind -linarith

theorem Inv.senderStep (h : Inv s) (hs : s.senderStep a = some s') : Inv s' := by
  cases hpc : s.sender a with
  | idle => simp [WorkState.senderStep, hpc] at hs
  | enter r m => exact h.enter hpc hs
  | push r m => exact h.push hpc hs
  | enlist r => exact h.enlist hpc hs
  | pushBack r => exact h.pushBack hpc hs
  | leave r => exact h.leave hpc hs

/-! ### Workers -/

omit [DecidableEq σ] [DecidableEq ω] [DecidableEq ρ] in
/-- A step of a worker that has no pointer to a receiver, before or after it. -/
theorem Inv.phase_idle (h : Inv s) (hc : s'.receiver = s.receiver)
    (hq : ∀ r, (s.receiver r).alive → (r ∈ s'.receiverQueue ↔ r ∈ s.receiverQueue))
    (hs : s'.sender = s.sender)
    (hw : ∀ v, s'.worker v = s.worker v ∨
      (s.worker v).pointer = none ∧ (s'.worker v).pointer = none) (r : ρ) :
    ∃ p, InvAt s' r p := by
  obtain ⟨p, hp⟩ := h.phase r
  by_cases hlive : (s.receiver r).alive
  · exact ⟨p, hp.frame (by rw [hc]) (hq r hlive) (by simp [hs]) (by grind -linarith)⟩
  · refine ⟨p, ?_⟩
    have hsame : InvAt { s' with receiverQueue := s.receiverQueue } r p :=
      hp.frame (by rw [← hc]) (by rfl) (by simp [hs]) (by grind -linarith)
    obtain ⟨g1, g2, g3, g4, g5, g6, g7, g8, g9, g10, g11, g12⟩ := hsame
    exact ⟨g1, g2, g3, by simp_all, g5, g6, g7, g8, g9, g10, g11, g12⟩

theorem Inv.workerIdle (h : Inv s) (hpc : s.worker w = .idle) (hs : s.workerStep w = some s') :
    Inv s' := by
  simp only [WorkState.workerStep, hpc, Option.map_eq_some_iff,
    WorkState.lockReceiverQueue_eq_some] at hs
  obtain ⟨_, ⟨hfree, rfl⟩, rfl⟩ := hs
  have hlock := h.sender_inQueue
  have hlock' := h.worker_inQueue
  exact ⟨h.nodup, h.phase_idle rfl (fun _ _ => Iff.rfl) rfl (by grind -linarith), by grind, by grind⟩

theorem Inv.popFront (h : Inv s) (hpc : s.worker w = .popFront) (hs : s.workerStep w = some s') :
    Inv s' := by
  have hlock := h.sender_inQueue
  have hlock' := h.worker_inQueue
  simp only [WorkState.workerStep, hpc] at hs
  split at hs
  next hnil =>
    cases hs
    exact ⟨h.nodup, h.phase_idle rfl (fun _ _ => Iff.rfl) rfl (by grind -linarith), by grind, by grind⟩
  next r rest hcons =>
    have hnodup := h.nodup
    rw [hcons, List.nodup_cons] at hnodup
    split at hs
    next hlive =>
      cases hs
      obtain ⟨p, hp⟩ := h.phase r
      have hpq : p = .queued := (hp.queued hlive).1 (by simp [hcons])
      subst hpq
      refine ⟨hnodup.2, h.only (r := r) (p := .beginning w) ?_ (by grind -linarith) (by grind -linarith) (by grind)
        (by grind -linarith), by grind, by grind⟩
      obtain ⟨g1, g2, g3, g4, g5, g6, g7, g8, g9, g10, g11, g12⟩ := hp
      constructor <;> grind -linarith
    next hlive =>
      cases hs
      exact ⟨hnodup.2, h.phase_idle rfl (by grind -linarith) rfl (by grind -linarith), by grind, by grind⟩

theorem Inv.begin (h : Inv s) (hpc : s.worker w = .begin r) (hs : s.workerStep w = some s') :
    Inv s' := by
  simp only [WorkState.workerStep, hpc, Option.map_eq_some_iff, WorkState.lockQueue_eq_some] at hs
  obtain ⟨_, ⟨hfree, rfl⟩, rfl⟩ := hs
  obtain ⟨p, hp⟩ := h.phase r
  have hlock := h.worker_inQueue
  refine ⟨h.nodup, h.only (r := r) (p := p) ?_ (by grind -linarith) (by grind -linarith) (by grind) (by grind),
    h.sender_inQueue, by grind⟩
  obtain ⟨g1, g2, g3, g4, g5, g6, g7, g8, g9, g10, g11, g12⟩ := hp
  constructor <;> grind -linarith

theorem Inv.setFlags (h : Inv s) (hpc : s.worker w = .setFlags r)
    (hs : s.workerStep w = some s') : Inv s' := by
  simp only [WorkState.workerStep, hpc, Option.some.injEq] at hs
  subst hs
  obtain ⟨p, hp⟩ := h.phase r
  have hlock := h.worker_inQueue
  have hpw : p = .beginning w := (hp.begins w).1 (by rw [hpc]; rfl)
  subst hpw
  refine ⟨h.nodup, h.only (r := r) (p := .serving w) ?_ (by grind -linarith) (by grind -linarith) (by grind)
    (by grind -linarith), h.sender_inQueue, by grind⟩
  obtain ⟨g1, g2, g3, g4, g5, g6, g7, g8, g9, g10, g11, g12⟩ := hp
  constructor <;> grind -linarith

theorem Inv.unlock {o : Option ρ} (h : Inv s) (hpc : s.worker w = .unlock o)
    (hs : s.workerStep w = some s') : Inv s' := by
  have hlock := h.sender_inQueue
  have hlock' := h.worker_inQueue
  cases o with
  | none =>
      simp only [WorkState.workerStep, hpc, Option.some.injEq] at hs
      subst hs
      exact ⟨h.nodup, h.phase_idle rfl (fun _ _ => Iff.rfl) rfl (by grind -linarith), by grind, by grind⟩
  | some r =>
      simp only [WorkState.workerStep, hpc, Option.some.injEq] at hs
      subst hs
      obtain ⟨p, hp⟩ := h.phase r
      refine ⟨h.nodup, h.only (r := r) (p := p) ?_ (by grind -linarith) (by grind -linarith) (by grind) (by grind),
        by grind, by grind⟩
      obtain ⟨g1, g2, g3, g4, g5, g6, g7, g8, g9, g10, g11, g12⟩ := hp
      constructor <;> grind -linarith

theorem Inv.next (h : Inv s) (hpc : s.worker w = .next r) (hs : s.workerStep w = some s') :
    Inv s' := by
  simp only [WorkState.workerStep, hpc, Option.map_eq_some_iff, WorkState.lockQueue_eq_some] at hs
  obtain ⟨_, ⟨hfree, rfl⟩, rfl⟩ := hs
  obtain ⟨p, hp⟩ := h.phase r
  have hlock := h.worker_inQueue
  refine ⟨h.nodup, h.only (r := r) (p := p) ?_ (by grind -linarith) (by grind -linarith) (by grind) (by grind),
    h.sender_inQueue, by grind⟩
  obtain ⟨g1, g2, g3, g4, g5, g6, g7, g8, g9, g10, g11, g12⟩ := hp
  constructor <;> grind -linarith

omit [DecidableEq σ] [DecidableEq ω] [DecidableEq ρ] in
/-- A worker that calls `process_next_message` finds a message. -/
theorem Inv.take_ne_nil (h : Inv s) (hpc : s.worker w = .take r) :
    (s.receiver r).messageQueue ≠ [] := by
  obtain ⟨p, hp⟩ := h.phase r
  have hpw : p = .serving w := (hp.serves w).1 (by rw [hpc]; rfl)
  subst hpw
  simp [hp.waiting]

theorem Inv.take (h : Inv s) (hpc : s.worker w = .take r) (hs : s.workerStep w = some s') :
    Inv s' := by
  have hne := h.take_ne_nil hpc
  obtain ⟨p, hp⟩ := h.phase r
  have hlock := h.worker_inQueue
  have hpw : p = .serving w := (hp.serves w).1 (by rw [hpc]; rfl)
  subst hpw
  simp only [WorkState.workerStep, hpc] at hs
  split at hs
  next m rest hcons =>
    cases hs
    refine ⟨h.nodup, h.only (r := r) (p := if rest.isEmpty then .empty else .serving w) ?_
      (by grind -linarith) (by grind -linarith) (by grind) (by grind), h.sender_inQueue, by grind⟩
    obtain ⟨g1, g2, g3, g4, g5, g6, g7, g8, g9, g10, g11, g12⟩ := hp
    cases rest <;> constructor <;> grind -linarith
  next hnil => exact absurd hnil hne

theorem Inv.handle {more : Bool} (h : Inv s) (hpc : s.worker w = .handle r m more)
    (hs : s.workerStep w = some s') : Inv s' := by
  obtain ⟨p, hp⟩ := h.phase r
  have hlock := h.worker_inQueue
  simp only [WorkState.workerStep, hpc] at hs
  cases more with
  | true =>
      cases hs
      refine ⟨h.nodup, h.only (r := r) (p := p) ?_ (by grind -linarith) (by grind -linarith) (by grind) (by grind),
        h.sender_inQueue, by grind⟩
      obtain ⟨g1, g2, g3, g4, g5, g6, g7, g8, g9, g10, g11, g12⟩ := hp
      constructor <;> grind -linarith
  | false =>
      cases hs
      refine ⟨h.nodup, h.only (r := r) (p := p) ?_ (by grind -linarith) (by grind -linarith) (by grind) (by grind),
        h.sender_inQueue, by grind⟩
      obtain ⟨g1, g2, g3, g4, g5, g6, g7, g8, g9, g10, g11, g12⟩ := hp
      constructor <;> grind -linarith

theorem Inv.workerStep (h : Inv s) (hs : s.workerStep w = some s') : Inv s' := by
  cases hpc : s.worker w with
  | idle => exact h.workerIdle hpc hs
  | popFront => exact h.popFront hpc hs
  | begin r => exact h.begin hpc hs
  | setFlags r => exact h.setFlags hpc hs
  | unlock o => exact h.unlock hpc hs
  | next r => exact h.next hpc hs
  | take r => exact h.take hpc hs
  | handle r m more => exact h.handle hpc hs

theorem Inv.destroy (h : Inv s) (hs : ∀ a, (s.sender a).pointer ≠ some r)
    (hw : ∀ w, (s.worker w).pointer ≠ some r) :
    Inv (s.setReceiver r fun c => { c with alive := false }) := by
  obtain ⟨p, hp⟩ := h.phase r
  refine ⟨h.nodup, h.only (r := r) (p := p) ?_ (by grind -linarith) (by grind -linarith) (by grind) (by grind),
    h.sender_inQueue, h.worker_inQueue⟩
  obtain ⟨g1, g2, g3, g4, g5, g6, g7, g8, g9, g10, g11, g12⟩ := hp
  constructor <;> grind -linarith

theorem Inv.step {i : WorkAct σ ω ρ μ} (h : Inv s) (hok : PointersKept s i)
    (hs : s.step i = some s') : Inv s' := by
  cases i with
  | call a r m =>
      simp only [WorkState.step] at hs
      split at hs
      next hpc =>
        simp only [Option.ite_none_right_eq_some, Option.some.injEq] at hs
        obtain ⟨hlive, rfl⟩ := hs
        exact h.call hpc hlive
      next => cases hs
  | sender a => exact h.senderStep hs
  | worker w => exact h.workerStep hs
  | destroy r =>
      cases hs
      exact h.destroy hok.1 hok.2

theorem Inv.reach (h : Reach WorkState.step PointersKept WorkState.start s) : Inv s :=
  h.invariant Inv.start fun _ _ _ h hok hs => h.step hok hs
end
end Azalea.Proc.Work
