import Mathlib.Data.Fintype.Basic
import Azalea.Proc.WorkInvariant

/-!
# Proc — every interleaving of senders and workers

What holds in every state that any number of senders and workers reach, in any order of their
steps:

* `work_delivered`: no message is lost or doubled, and a receiver with messages is in
  `receiver_queue` unless a thread is about to see to it.
* `work_no_deadlock`: the two locks, taken in either order, do not wait for each other, and a worker
  never calls `process_next_message` on an empty queue.
* `work_serial`: a receiver's messages are handled one at a time and in order, as long as no worker
  takes the receiver out of `receiver_queue` while another still handles a message of it.  Nothing
  in the source sees to that: `process_next_message` clears `in_process_mode` before it handles the
  last message, so that the next message enlists the receiver again (`work_serial_fails`).
-/

namespace Azalea.Proc.Work
open Azalea.Runs

/-! ### A small machine -/

section
variable {σ ω ρ μ : Type*} [Fintype σ] [Fintype ω] [DecidableEq ρ]

instance (s : WorkState σ ω ρ μ) (i : WorkAct σ ω ρ μ) : Decidable (PointersKept s i) :=
  match i with
  | .destroy _ => inferInstanceAs (Decidable (_ ∧ _))
  | .call .. | .sender _ | .worker _ => .isTrue trivial

end

/-- One sender, two workers and one receiver. -/
abbrev SmallWork := WorkState Unit Bool Unit Nat

/-- `queue_message` of one message, from its call to its end. -/
def sends (m : Nat) : List (WorkAct Unit Bool Unit Nat) :=
  .call () () m :: List.replicate 5 (.sender ())

/-- The steps of a worker up to `handle_message` of the first message it finds. -/
def works (w : Bool) : List (WorkAct Unit Bool Unit Nat) := List.replicate 7 (.worker w)

section
variable {σ ω ρ μ : Type*} [DecidableEq σ] [DecidableEq ω] [DecidableEq ρ]
  {s s' : WorkState σ ω ρ μ} {r : ρ} {w v : ω} {m : μ}

/-! ### Delivery -/

/-- What the work queue owes a receiver. -/
structure Delivers (s : WorkState σ ω ρ μ) (r : ρ) : Prop where
  /-- A message waits: the receiver is in `receiver_queue`, or a sender that holds its `queue_lock`
  is just putting it there. -/
  enlisted : (s.receiver r).messageQueue ≠ [] → (∀ w, ¬ (s.worker w).WillProcess r) →
    r ∈ s.receiverQueue ∨
      ∃ a, (s.receiver r).queueLock = some (.inl a) ∧ (s.sender a).enlists = some r
  once : s.receiverQueue.count r ≤ 1
  /-- The flag is set while the receiver is in `receiver_queue`, and until the worker that takes it
  out gives back `receiver_queue_lock`. -/
  flag : (s.receiver r).isInReceiverQueue ↔ r ∈ s.receiverQueue ∨
    ∃ w, s.receiverQueueLock = some (.inr w) ∧ (s.worker w).begins = some r
  /-- Messages are taken once each, in the order they were queued. -/
  inOrder : (s.receiver r).sent = (s.receiver r).taken ++ (s.receiver r).messageQueue

omit [DecidableEq σ] [DecidableEq ω] in
theorem Inv.delivers (h : Inv s) (hlive : (s.receiver r).alive) : Delivers s r := by
  obtain ⟨p, hp⟩ := h.phase r
  constructor
  case enlisted =>
    intro hne hno
    rw [Ne, hp.waiting] at hne
    cases p with
    | empty => exact absurd rfl hne
    | enlisting a =>
        have ha := (hp.enlists a).2 rfl
        exact .inr ⟨a, (hp.sender_holds a).2 (SenderPc.holds_of_enlists ha), ha⟩
    | queued => exact .inl ((hp.queued hlive).2 rfl)
    | beginning w => exact absurd (.inl ((hp.begins w).2 rfl)) (hno w)
    | serving w => exact absurd (.inr ((hp.serves w).2 rfl)) (hno w)
  case once => exact List.nodup_iff_count_le_one.mp h.nodup r
  case flag =>
    rw [hp.isIn, hp.queued hlive]
    constructor
    · intro hin
      cases p with
      | queued => exact .inl rfl
      | beginning w =>
          have hw := (hp.begins w).2 rfl
          exact .inr ⟨w, (h.worker_inQueue w).2 (WorkerPc.inQueue_of_begins hw), hw⟩
      | _ => cases hin
    · rintro (rfl | ⟨w, -, hw⟩)
      · rfl
      · rw [(hp.begins w).1 hw]
        rfl
  case inOrder => exact hp.taken

/-- No thread is in a call, and no receiver waits. -/
def AtRest (s : WorkState σ ω ρ μ) : Prop :=
  s.receiverQueue = [] ∧ (∀ a, s.sender a = .idle) ∧ ∀ w, s.worker w = .idle

omit [DecidableEq σ] [DecidableEq ω] in
theorem Delivers.taken_eq_sent (h : Delivers s r) (hrest : AtRest s) :
    (s.receiver r).taken = (s.receiver r).sent := by
  obtain ⟨hq, hs, hw⟩ := hrest
  have hnil : (s.receiver r).messageQueue = [] := by
    by_contra hne
    obtain hmem | ⟨a, -, ha⟩ := h.enlisted hne fun w hw' => by
      simp [hw, WorkerPc.WillProcess, WorkerPc.begins, WorkerPc.serves] at hw'
    · simp [hq] at hmem
    · simp [hs, SenderPc.enlists] at ha
  rw [h.inOrder, hnil, List.append_nil]

/-- In every interleaving, every live receiver gets what it is owed; and whenever the threads have
come to rest, every message sent to it has been taken. -/
theorem work_delivered (h : Reach WorkState.step PointersKept WorkState.start s)
    (hlive : (s.receiver r).alive) :
    Delivers s r ∧ (AtRest s → (s.receiver r).taken = (s.receiver r).sent) :=
  have hd := (Inv.reach h).delivers hlive
  ⟨hd, hd.taken_eq_sent⟩

end

theorem work_delivered_sent : ∃ s : SmallWork,
    Reach WorkState.step PointersKept WorkState.start s ∧ (s.receiver ()).messageQueue = [1] ∧
      Delivers s () ∧ (AtRest s → (s.receiver ()).taken = (s.receiver ()).sent) := by
  obtain ⟨s, hs, hq, hlive⟩ := Reach.exists_of_run
    (by decide : ∃ s ∈ run WorkState.step PointersKept (WorkState.start : SmallWork) (sends 1),
      (s.receiver ()).messageQueue = [1] ∧ (s.receiver ()).alive)
  exact ⟨s, hs, hq, work_delivered hs hlive⟩

section
variable {σ ω ρ μ : Type*} [DecidableEq σ] [DecidableEq ω] [DecidableEq ρ]
  {s s' : WorkState σ ω ρ μ} {r : ρ} {w v : ω} {m : μ}

/-! ### The two locks -/

/-- No sender that holds a `queue_lock` and waits for `receiver_queue_lock` meets the worker that
holds the latter and waits for the former; and no worker finds an empty queue. -/
theorem work_no_deadlock (h : Reach WorkState.step PointersKept WorkState.start s) :
    (¬ ∃ a w r, (s.receiver r).queueLock = some (.inl a) ∧ s.sender a = .enlist r ∧
      s.receiverQueueLock = some (.inr w) ∧ s.worker w = .begin r) ∧
    ∀ w r, s.worker w = .take r → (s.receiver r).messageQueue ≠ [] := by
  have hinv := Inv.reach h
  constructor
  · rintro ⟨a, w, r, -, ha, -, hw⟩
    obtain ⟨p, hp⟩ := hinv.phase r
    have hpa : p = .enlisting a := (hp.enlists a).1 (by rw [ha]; rfl)
    have hpw : p = .beginning w := (hp.begins w).1 (by rw [hw]; rfl)
    rw [hpa] at hpw
    cases hpw
  · intro w r hw
    exact hinv.take_ne_nil hw

end

theorem work_no_deadlock_taking : ∃ s : SmallWork,
    Reach WorkState.step PointersKept WorkState.start s ∧ s.worker true = .take () ∧
      (s.receiver ()).messageQueue ≠ [] := by
  obtain ⟨s, hs, hw⟩ := Reach.exists_of_run
    (by decide : ∃ s ∈ run WorkState.step PointersKept (WorkState.start : SmallWork)
      (sends 1 ++ List.replicate 6 (.worker true)), s.worker true = .take ())
  exact ⟨s, hs, hw, (work_no_deadlock hs).2 true () hw⟩

section
variable {σ ω ρ μ : Type*} [DecidableEq σ] [DecidableEq ω] [DecidableEq ρ]
  {s s' : WorkState σ ω ρ μ} {r : ρ} {w v : ω} {m : μ}

/-! ### One message at a time -/

/-- No two workers are inside `handle_message` of one receiver, and its messages are handled in the
order they were queued. -/
structure HandlesSerially (s : WorkState σ ω ρ μ) (r : ρ) : Prop where
  exclusive : ∀ w v, (s.worker w).Handling r → (s.worker v).Handling r → w = v
  inOrder : (s.receiver r).handled <+: (s.receiver r).sent

/-- A worker takes out of `receiver_queue` a receiver none of whose messages is being handled. -/
def TakesIdle (s : WorkState σ ω ρ μ) : WorkAct σ ω ρ μ → Prop
  | .worker w => s.worker w = .popFront → ∀ r ∈ s.receiverQueue.head?, ∀ v,
      ¬ (s.worker v).Handling r
  | _ => True

end

section
variable {σ ω ρ μ : Type*} [Fintype ω] [DecidableEq ρ] [DecidableEq μ]

instance (pc : WorkerPc ρ μ) (r : ρ) : Decidable (pc.Handling r) :=
  match pc with
  | .handle r' m more => decidable_of_iff (r' = r)
      ⟨fun h => ⟨m, more, h ▸ rfl⟩, fun ⟨_, _, h⟩ => by cases h; rfl⟩
  | .idle | .popFront | .begin _ | .setFlags _ | .unlock _ | .next _ | .take _ =>
      .isFalse fun ⟨_, _, h⟩ => by cases h

instance (s : WorkState σ ω ρ μ) (i : WorkAct σ ω ρ μ) : Decidable (TakesIdle s i) :=
  match i with
  | .worker _ => inferInstanceAs (Decidable (_ → _))
  | .call .. | .sender _ | .destroy _ => .isTrue trivial

end

section
variable {σ ω ρ μ : Type*} [DecidableEq σ] [DecidableEq ω] [DecidableEq ρ]
  {s s' : WorkState σ ω ρ μ} {r : ρ} {w v : ω} {m : μ}

/-- While a worker is inside `handle_message` of a receiver, no other one has a pointer to it. -/
structure SerialAt (s : WorkState σ ω ρ μ) (r : ρ) : Prop where
  alone : ∀ w v, (s.worker w).Handling r → (s.worker v).pointer = some r → v = w
  busy : ∀ w m more, s.worker w = .handle r m more →
    (s.receiver r).taken = (s.receiver r).handled ++ [m]
  free : (∀ w, ¬ (s.worker w).Handling r) → (s.receiver r).taken = (s.receiver r).handled

omit [DecidableEq ρ] in
theorem WorkerPc.Handling.pointer {pc : WorkerPc ρ μ} (h : pc.Handling r) : pc.pointer = some r := by
  obtain ⟨m, more, rfl⟩ := h
  rfl

omit [DecidableEq σ] [DecidableEq ω] [DecidableEq ρ] in
/-- A step that neither enters nor leaves `handle_message` of a receiver, and gives no worker a
pointer to it. -/
theorem SerialAt.frame (h : SerialAt s r) (ht : (s'.receiver r).taken = (s.receiver r).taken)
    (hh : (s'.receiver r).handled = (s.receiver r).handled)
    (hp : ∀ w, (s'.worker w).pointer = some r → (s.worker w).pointer = some r)
    (hw : ∀ w m more, s'.worker w = .handle r m more ↔ s.worker w = .handle r m more) :
    SerialAt s' r := by
  have hiff : ∀ w, (s'.worker w).Handling r ↔ (s.worker w).Handling r := fun w =>
    exists_congr fun m => exists_congr fun more => hw w m more
  constructor
  · intro w v hwr hvr
    exact h.alone w v ((hiff w).1 hwr) (hp v hvr)
  · intro w m more hwr
    rw [ht, hh]
    exact h.busy w m more ((hw w m more).1 hwr)
  · intro hno
    rw [ht, hh]
    exact h.free fun w hwr => hno w ((hiff w).2 hwr)

omit [DecidableEq σ] [DecidableEq ω] [DecidableEq ρ] in
/-- A worker that serves a receiver is the only one with a pointer to it. -/
theorem SerialAt.only (h : SerialAt s r) (hinv : Inv s) (hw : (s.worker w).serves = some r)
    (hv : (s.worker v).pointer = some r) : v = w := by
  obtain ⟨p, hp⟩ := hinv.phase r
  obtain rfl := (hp.serves w).1 hw
  have hb := hp.begins v
  have hs := hp.serves v
  have ha := h.alone v w
  have hpw := WorkerPc.pointer_of_serves hw
  cases hpc : s.worker v with
  | handle r' m more =>
      rw [hpc] at hv
      cases hv
      exact (ha ⟨m, more, hpc⟩ hpw).symm
  | unlock o => cases o <;> simp_all [WorkerPc.pointer, WorkerPc.serves, WorkerPc.begins]
  | _ => simp_all [WorkerPc.pointer, WorkerPc.serves, WorkerPc.begins]

omit [DecidableEq σ] [DecidableEq ρ] in
/-- A step of one worker outside of `handle_message`. -/
theorem SerialAt.setWorker {pc : WorkerPc ρ μ} (h : SerialAt s r)
    (hc : (s'.receiver r).taken = (s.receiver r).taken ∧
      (s'.receiver r).handled = (s.receiver r).handled)
    (hw : ∀ v, s'.worker v = if v = w then pc else s.worker v)
    (hold : ¬ (s.worker w).Handling r) (hnew : ¬ pc.Handling r)
    (hptr : pc.pointer = some r → (s.worker w).pointer = some r) : SerialAt s' r := by
  refine h.frame hc.1 hc.2 (fun v hv => ?_) fun v m more => ?_
  · rw [hw v] at hv
    split at hv
    next e => exact e ▸ hptr hv
    next => exact hv
  · rw [hw v]
    split
    next e =>
      subst e
      exact ⟨fun h' => absurd ⟨m, more, h'⟩ hnew, fun h' => absurd ⟨m, more, h'⟩ hold⟩
    next => rfl

theorem SerialAt.popFront (h : SerialAt s r) (hpc : s.worker w = .popFront)
    (hidle : ∀ r ∈ s.receiverQueue.head?, ∀ v, ¬ (s.worker v).Handling r)
    (hs : s.workerStep w = some s') : SerialAt s' r := by
  have hold : ¬ (s.worker w).Handling r := by simp [hpc, WorkerPc.Handling]
  simp only [WorkState.workerStep, hpc] at hs
  split at hs
  next =>
    cases hs
    exact h.setWorker ⟨rfl, rfl⟩ (fun v => s.worker_setWorker w v _) hold
      (by simp [WorkerPc.Handling]) (by simp [WorkerPc.pointer])
  next r' rest hcons =>
    split at hs
    next =>
      cases hs
      by_cases e : r = r'
      · -- nobody handles a message of the receiver that is taken out
        subst e
        have hno : ∀ v, ¬ (s.worker v).Handling r := hidle r (by simp [hcons])
        have hno' : ∀ v, ¬ (({ s with receiverQueue := rest } : WorkState σ ω ρ μ).setWorker w
            (.begin r) |>.worker v).Handling r := by
          intro v
          rw [WorkState.worker_setWorker]
          split
          · simp [WorkerPc.Handling]
          · exact hno v
        exact ⟨fun v _ hv => absurd hv (hno' v), fun v m more hv => absurd ⟨m, more, hv⟩ (hno' v),
          fun _ => h.free hno⟩
      · exact h.setWorker ⟨rfl, rfl⟩ (fun v => s.worker_setWorker w v _) hold
          (by simp [WorkerPc.Handling]) (by simp [WorkerPc.pointer, Ne.symm e])
    next =>
      cases hs
      exact h.setWorker ⟨rfl, rfl⟩ (fun v => s.worker_setWorker w v _) hold
        (by simp [WorkerPc.Handling]) (by simp [WorkerPc.pointer])

theorem SerialAt.take {r' : ρ} (h : SerialAt s r) (hinv : Inv s) (hpc : s.worker w = .take r')
    (hs : s.workerStep w = some s') : SerialAt s' r := by
  have hne := hinv.take_ne_nil hpc
  have hold : ¬ (s.worker w).Handling r := by simp [hpc, WorkerPc.Handling]
  simp only [WorkState.workerStep, hpc] at hs
  split at hs
  next m rest hcons =>
    cases hs
    by_cases e : r = r'
    · subst e
      have hserves : (s.worker w).serves = some r := by rw [hpc]; rfl
      have hno : ∀ v, ¬ (s.worker v).Handling r := by
        intro v hv
        have hvw := h.only hinv hserves hv.pointer
        exact hold (hvw ▸ hv)
      have hfree := h.free hno
      have hother : ∀ v, v ≠ w → (s.worker v).pointer ≠ some r := fun v hvw hv =>
        hvw (h.only hinv hserves hv)
      constructor
      · intro u v hu hv
        have key : ∀ x, (if x = w then .handle r m !rest.isEmpty else s.worker x).pointer = some r →
            x = w := by
          intro x hx
          by_contra hxw
          rw [if_neg hxw] at hx
          exact hother x hxw hx
        rw [WorkState.worker_setWorker] at hu hv
        rw [key v hv, key u hu.pointer]
      · intro v m' more hv
        rw [WorkState.worker_setWorker] at hv
        split at hv
        next =>
          cases hv
          simp [hfree]
        next => exact absurd ⟨m', more, hv⟩ (hno v)
      · intro hnone
        refine absurd ⟨m, !rest.isEmpty, ?_⟩ (hnone w)
        simp
    · refine h.setWorker (by simp [e]) (fun v => WorkState.worker_setWorker _ w v _) hold ?_ ?_
      · rintro ⟨m', more, h'⟩
        cases h'
        exact e rfl
      · simp [WorkerPc.pointer, Ne.symm e]
  next hnil => exact absurd hnil hne

theorem SerialAt.handle {r' : ρ} {more : Bool} (h : SerialAt s r)
    (hpc : s.worker w = .handle r' m more) (hs : s.workerStep w = some s') : SerialAt s' r := by
  have hs' : s' = (s.setReceiver r' fun c => { c with handled := c.handled ++ [m] }).setWorker w
      (if more then .next r' else .idle) := by
    simp only [WorkState.workerStep, hpc] at hs
    cases more <;> (cases hs; rfl)
  have hnew : ∀ pc : WorkerPc ρ μ, pc = (if more then .next r' else .idle) → ¬ pc.Handling r := by
    rintro _ rfl ⟨m', more', h'⟩
    split at h' <;> cases h'
  subst hs'
  by_cases e : r = r'
  · subst e
    have hno : ∀ v, ¬ (((s.setReceiver r fun c => { c with handled := c.handled ++ [m] }).setWorker w
        (if more then .next r else .idle)).worker v).Handling r := by
      intro v hv
      rw [WorkState.worker_setWorker] at hv
      split at hv
      next => exact hnew _ rfl hv
      next hvw =>
        exact hvw (h.alone w v ⟨m, more, hpc⟩ hv.pointer)
    refine ⟨fun v _ hv => absurd hv (hno v), fun v m' more' hv => absurd ⟨m', more', hv⟩ (hno v),
      fun _ => ?_⟩
    simpa using h.busy w m more hpc
  · refine h.setWorker (by simp [e]) (fun v => WorkState.worker_setWorker _ w v _) ?_
      (hnew _ rfl) ?_
    · rintro ⟨m', more', h'⟩
      rw [hpc] at h'
      cases h'
      exact e rfl
    · cases more <;> simp [WorkerPc.pointer, Ne.symm e]

theorem SerialAt.workerStep (h : SerialAt s r) (hinv : Inv s)
    (hidle : TakesIdle s (.worker w)) (hs : s.workerStep w = some s') : SerialAt s' r := by
  cases hpc : s.worker w with
  | popFront => exact h.popFront hpc (hidle hpc) hs
  | take r' => exact h.take hinv hpc hs
  | handle r' m more => exact h.handle hpc hs
  | idle =>
      simp only [WorkState.workerStep, hpc, Option.map_eq_some_iff,
        WorkState.lockReceiverQueue_eq_some] at hs
      obtain ⟨_, ⟨-, rfl⟩, rfl⟩ := hs
      exact h.setWorker ⟨rfl, rfl⟩ (fun v => s.worker_setWorker w v _)
        (by simp [hpc, WorkerPc.Handling]) (by simp [WorkerPc.Handling]) (by simp [WorkerPc.pointer])
  | begin r' =>
      simp only [WorkState.workerStep, hpc, Option.map_eq_some_iff,
        WorkState.lockQueue_eq_some] at hs
      obtain ⟨_, ⟨-, rfl⟩, rfl⟩ := hs
      exact h.setWorker (by by_cases e : r = r' <;> simp [e])
        (fun v => WorkState.worker_setWorker _ w v _)
        (by simp [hpc, WorkerPc.Handling]) (by simp [WorkerPc.Handling])
        (by simp [hpc, WorkerPc.pointer])
  | setFlags r' =>
      simp only [WorkState.workerStep, hpc, Option.some.injEq] at hs
      subst hs
      exact h.setWorker (by by_cases e : r = r' <;> simp [e])
        (fun v => WorkState.worker_setWorker _ w v _)
        (by simp [hpc, WorkerPc.Handling]) (by simp [WorkerPc.Handling])
        (by simp [hpc, WorkerPc.pointer])
  | unlock o =>
      cases o <;> (
        simp only [WorkState.workerStep, hpc, Option.some.injEq] at hs
        subst hs
        exact h.setWorker ⟨rfl, rfl⟩ (fun v => s.worker_setWorker w v _)
          (by simp [hpc, WorkerPc.Handling]) (by simp [WorkerPc.Handling])
          (by simp [hpc, WorkerPc.pointer]))
  | next r' =>
      simp only [WorkState.workerStep, hpc, Option.map_eq_some_iff,
        WorkState.lockQueue_eq_some] at hs
      obtain ⟨_, ⟨-, rfl⟩, rfl⟩ := hs
      exact h.setWorker (by by_cases e : r = r' <;> simp [e])
        (fun v => WorkState.worker_setWorker _ w v _)
        (by simp [hpc, WorkerPc.Handling]) (by simp [WorkerPc.Handling])
        (by simp [hpc, WorkerPc.pointer])

/-- Senders, and the end of a receiver, do not concern what is handled. -/
theorem WorkState.step_worker {i : WorkAct σ ω ρ μ} (hi : ∀ w, i ≠ .worker w)
    (hs : s.step i = some s') : (∀ v, s'.worker v = s.worker v) ∧
      ∀ r, (s'.receiver r).taken = (s.receiver r).taken ∧
        (s'.receiver r).handled = (s.receiver r).handled := by
  cases i with
  | call a r m =>
      simp only [WorkState.step] at hs
      split at hs
      next =>
        simp only [Option.ite_none_right_eq_some, Option.some.injEq] at hs
        obtain ⟨-, rfl⟩ := hs
        simp
      next => cases hs
  | sender a =>
      simp only [WorkState.step, WorkState.senderStep, WorkState.lockQueue,
        WorkState.lockReceiverQueue] at hs
      grind
  | worker w => exact absurd rfl (hi w)
  | destroy r =>
      cases hs
      simp
      grind

theorem SerialAt.step {i : WorkAct σ ω ρ μ} (h : SerialAt s r) (hinv : Inv s)
    (hidle : TakesIdle s i) (hs : s.step i = some s') : SerialAt s' r := by
  by_cases hi : ∃ w, i = .worker w
  · obtain ⟨w, rfl⟩ := hi
    exact h.workerStep hinv hidle hs
  · obtain ⟨hw, hc⟩ := WorkState.step_worker (fun w e => hi ⟨w, e⟩) hs
    exact h.frame (hc r).1 (hc r).2 (fun v => by rw [hw v]; exact id)
      fun v m more => by rw [hw v]

/-- Every worker that takes a receiver out of `receiver_queue` does so while no message of it is
being handled: then messages are handled one at a time and in order. -/
theorem work_serial
    (h : Reach WorkState.step (fun s i => PointersKept s i ∧ TakesIdle s i) WorkState.start s) :
    ∀ r, HandlesSerially s r := by
  have hinv : Inv s ∧ ∀ r, SerialAt s r := by
    refine h.invariant (I := fun s => Inv s ∧ ∀ r, SerialAt s r)
      ⟨Inv.start, fun r => ⟨?_, ?_, ?_⟩⟩ fun s i s' hI hok hs =>
      ⟨hI.1.step hok.1 hs, fun r => (hI.2 r).step hI.1 hok.2 hs⟩
    all_goals simp [WorkState.start, WorkerPc.Handling]
  intro r
  obtain ⟨p, hp⟩ := hinv.1.phase r
  refine ⟨fun w v hw hv => ((hinv.2 r).alone w v hw hv.pointer).symm, ?_⟩
  rw [hp.taken]
  by_cases hno : ∃ w, (s.worker w).Handling r
  · obtain ⟨w, m, more, hw⟩ := hno
    rw [(hinv.2 r).busy w m more hw, List.append_assoc]
    exact List.prefix_append ..
  · rw [(hinv.2 r).free fun w hw => hno ⟨w, hw⟩]
    exact List.prefix_append ..

end

theorem work_serial_two_messages : ∃ s : SmallWork,
    Reach WorkState.step (fun s i => PointersKept s i ∧ TakesIdle s i) WorkState.start s ∧
      (s.receiver ()).handled = [1] ∧ s.worker true = .handle () 2 false ∧
      HandlesSerially s () := by
  obtain ⟨s, hs, hh, hw⟩ := Reach.exists_of_run
    (by decide : ∃ s ∈ run WorkState.step (fun s i => PointersKept s i ∧ TakesIdle s i)
      (WorkState.start : SmallWork) (sends 1 ++ works false ++ sends 2 ++ [.worker false] ++ works true),
      (s.receiver ()).handled = [1] ∧ s.worker true = .handle () 2 false)
  exact ⟨s, hs, hh, hw, work_serial hs ()⟩

/-- The second message comes while the first is handled; the other worker handles it, and finishes
first. -/
theorem work_serial_fails : ¬ ∀ s : SmallWork,
    Reach WorkState.step PointersKept WorkState.start s → HandlesSerially s () := by
  intro h
  obtain ⟨s, hs, hw, hv⟩ := Reach.exists_of_run
    (by decide : ∃ s ∈ run WorkState.step PointersKept (WorkState.start : SmallWork)
      (sends 1 ++ works false ++ sends 2 ++ works true),
      (s.worker false).Handling () ∧ (s.worker true).Handling ())
  cases (h s hs).exclusive _ _ hw hv

end Azalea.Proc.Work
