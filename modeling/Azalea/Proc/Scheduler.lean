import Mathlib.Data.Fintype.Sum
import Azalea.Proc.ThreadCycle
import Azalea.Support.Runs

/-!
# Proc — the scheduler

`task_get_next_thread` of `processor/task_manager.cpp`, on any number of processors.  The interrupt
that calls it holds `task_switch_lock` meanwhile (`x64/task_manager-low-x64.asm`), so one processor
at a time is inside; other threads start and stop threads between any two of its steps.  The write
of `current_threads` is one step with the unlock before it, as nothing else reads either.

* `scheduler_exclusive`: no thread but an idle one is current on two processors, a thread's
  `cycle_lock` is held while it is current on one, or being looked at, and a processor turns to its
  idle thread only if its own thread may not run.
-/

namespace Azalea.Proc.Sched
open Azalea.Runs

/-- The threads that take turns, and the idle thread of each processor.
`task_create_system_process` takes the idle threads out of the cycle. -/
structure Cycle (π τ : Type*) where
  threads : List τ
  startOfThreadCycle : τ
  nextThread : τ → τ
  idleThreads : π → τ
  start_mem : startOfThreadCycle ∈ threads
  next_mem : ∀ t ∈ threads, nextThread t ∈ threads
  idle_notMem : ∀ p, idleThreads p ∉ threads

/-- Where a processor stands in `task_get_next_thread`.  `now` is `schedule_start_time`, `t` is
`next_thread` and `start` is `start_thread`. -/
inductive SchedPc (τ : Type*) where
  | enter (now : Nat)
  /-- At the top of the loop, before the timed wake-up. -/
  | wake (now : Nat) (t start : τ)
  /-- Before the look at `permit_running` and `cycle_lock`. -/
  | check (now : Nat) (t start : τ)
  | tryLock (now : Nat) (t start : τ)
  /-- Holds the `cycle_lock` of `t`. -/
  | recheck (now : Nat) (t start : τ)
  | advance (now : Nat) (t start : τ)
  /-- Holds the `cycle_lock` of `t`. -/
  | found (t : τ)
  | notFound
  | toIdle
  deriving DecidableEq

/-- The threads, and what each processor runs.  `inside` is the processor that holds
`task_switch_lock`, if any. -/
structure SchedState (π τ : Type*) where
  thread : τ → Thread
  cycleLock : τ → Bool
  currentThreads : π → Option τ
  continueThisThread : π → Bool
  inside : Option (π × SchedPc τ)

/-- A step of the scheduler, or a call of another thread. -/
inductive SchedAct (π τ : Type*) where
  /-- The interrupt on a processor, at a time. -/
  | interrupt (p : π) (now : Nat)
  /-- The next step of the processor that is inside. -/
  | schedule
  | startThread (t : τ)
  | stopThread (t : τ)
  | continueThisThread (p : π)
  | resumeScheduling (p : π)

variable {π τ : Type*} [DecidableEq π] [DecidableEq τ]

namespace SchedState

/-- No processor has run a thread yet. -/
def start (thread : τ → Thread) : SchedState π τ where
  thread := thread
  cycleLock _ := false
  currentThreads _ := none
  continueThisThread _ := false
  inside := none

/-- The processor inside goes on to `pc`. -/
def goto (s : SchedState π τ) (p : π) (pc : SchedPc τ) : SchedState π τ :=
  { s with inside := some (p, pc) }

/-- `klib_synch_spinlock_unlock(current_threads[proc_id]->cycle_lock)`, where there is one. -/
def unlockCurrent (s : SchedState π τ) (p : π) : SchedState π τ :=
  match s.currentThreads p with
  | some t => { s with cycleLock := Function.update s.cycleLock t false }
  | none => s

/-- `current_threads[proc_id] = next_thread`, and back from the interrupt. -/
def leave (s : SchedState π τ) (p : π) (t : τ) : SchedState π τ :=
  { s with currentThreads := Function.update s.currentThreads p (some t), inside := none }

/-- One step of `task_get_next_thread` on a processor. -/
def schedule (c : Cycle π τ) (s : SchedState π τ) (p : π) : SchedPc τ → Option (SchedState π τ)
  | .enter now =>
      if s.continueThisThread p then (s.currentThreads p).map (s.leave p)
      else
        let t := match s.currentThreads p with
          | some t => if t = c.idleThreads p then c.startOfThreadCycle else c.nextThread t
          | none => c.startOfThreadCycle
        some (s.goto p (.wake now t t))
  | .wake now t start =>
      let s := { s with thread := Function.update s.thread t ((s.thread t).timedWake now) }
      some (s.goto p (.check now t start))
  | .check now t start =>
      if (s.thread t).permitRunning && !s.cycleLock t then some (s.goto p (.tryLock now t start))
      else some (s.goto p (.advance now t start))
  | .tryLock now t start =>
      if s.cycleLock t then some (s.goto p (.advance now t start))
      else
        let s := { s with cycleLock := Function.update s.cycleLock t true }
        some (s.goto p (.recheck now t start))
  | .recheck now t start =>
      if (s.thread t).permitRunning then some (s.goto p (.found t))
      else
        let s := { s with cycleLock := Function.update s.cycleLock t false }
        some (s.goto p (.advance now t start))
  | .advance now t start =>
      let t := c.nextThread t
      if t = start then some (s.goto p .notFound) else some (s.goto p (.wake now t start))
  | .found t =>
      if s.currentThreads p ≠ some t then some ((s.unlockCurrent p).leave p t)
      else some (s.leave p t)
  | .notFound =>
      match s.currentThreads p with
      | some t =>
          if (s.thread t).permitRunning then some (s.leave p t) else some (s.goto p .toIdle)
      | none => some (s.goto p .toIdle)
  | .toIdle => some ((s.unlockCurrent p).leave p (c.idleThreads p))

/-- One step of the machine. -/
def step (c : Cycle π τ) (s : SchedState π τ) : SchedAct π τ → Option (SchedState π τ)
  | .interrupt p now =>
      match s.inside with
      | none => some (s.goto p (.enter now))
      | some _ => none
  | .schedule => s.inside.bind fun (p, pc) => s.schedule c p pc
  | .startThread t =>
      some { s with thread := Function.update s.thread t (s.thread t).startThread }
  | .stopThread t =>
      some { s with thread := Function.update s.thread t (s.thread t).stopThread }
  | .continueThisThread p =>
      some { s with continueThisThread := Function.update s.continueThisThread p true }
  | .resumeScheduling p =>
      some { s with continueThisThread := Function.update s.continueThisThread p false }

end SchedState

/-- The thread whose `cycle_lock` the scheduler step holds. -/
def SchedPc.claims : SchedPc τ → Option τ
  | .recheck _ t _ | .found t => some t
  | _ => none

/-- The thread a scheduler step is looking at. -/
def SchedPc.looksAt : SchedPc τ → Option τ
  | .wake _ t _ | .check _ t _ | .tryLock _ t _ | .recheck _ t _ | .advance _ t _ | .found t => some t
  | _ => none

/-- The thread that a scheduler step has locked to see whether it may run. -/
def SchedState.examined (s : SchedState π τ) : Option τ := s.inside.bind fun i => i.2.claims

/-- A thread that is the idle thread of no processor. -/
def Cycle.NonIdle (c : Cycle π τ) (t : τ) : Prop := ∀ p, t ≠ c.idleThreads p

/-! ### Who holds a lock -/

/-- The locks `lock`, when processors run the threads `cur` and one of them holds `claim`. -/
structure Owned (c : Cycle π τ) (lock : τ → Bool) (cur : π → Option τ) (claim : Option τ) : Prop where
  mem : ∀ p t, cur p = some t → t ∈ c.threads ∨ t = c.idleThreads p
  exclusive : ∀ p q t, c.NonIdle t → cur p = some t → cur q = some t → p = q
  locked : ∀ t, c.NonIdle t → (lock t ↔ (∃ p, cur p = some t) ∨ claim = some t)
  claim_mem : ∀ t ∈ claim, t ∈ c.threads
  claim_free : ∀ t ∈ claim, ∀ p, cur p ≠ some t

variable {c : Cycle π τ} {lock : τ → Bool} {cur : π → Option τ} {p : π} {t : τ}

omit [DecidableEq π] [DecidableEq τ] in
theorem Cycle.nonIdle_of_mem (c : Cycle π τ) (h : t ∈ c.threads) : c.NonIdle t :=
  fun p e => c.idle_notMem p (e ▸ h)

omit [DecidableEq π] [DecidableEq τ] in
theorem Owned.start : Owned c (fun _ => false) (fun _ => none) none := by
  constructor <;> simp

omit [DecidableEq π] in
/-- `klib_synch_spinlock_try_lock` gets a lock that is free. -/
theorem Owned.claim (h : Owned c lock cur none) (ht : t ∈ c.threads) (hfree : lock t = false) :
    Owned c (Function.update lock t true) cur (some t) where
  mem := h.mem
  exclusive := h.exclusive
  locked u hu := by
    by_cases e : u = t
    · simp [e]
    · simpa [e, Ne.symm e] using h.locked u hu
  claim_mem u hu := by
    cases hu
    exact ht
  claim_free u hu p hp := by
    cases hu
    have := (h.locked t (c.nonIdle_of_mem ht)).2 (.inl ⟨p, hp⟩)
    simp [hfree] at this

omit [DecidableEq π] in
/-- The thread may not run after all. -/
theorem Owned.release (h : Owned c lock cur (some t)) :
    Owned c (Function.update lock t false) cur none where
  mem := h.mem
  exclusive := h.exclusive
  locked u hu := by
    by_cases e : u = t
    · simpa [e] using h.claim_free t rfl
    · simpa [e, Ne.symm e] using h.locked u hu
  claim_mem u hu := by cases hu
  claim_free u hu := by cases hu

/-- The locks after the old thread of a processor is given up. -/
def unlocked (lock : τ → Bool) (old : Option τ) (t : τ) : Bool := lock t && old != some t

/-- A processor gives up its thread for another one, locked or idle. -/
theorem Owned.switch {claim : Option τ} (h : Owned c lock cur claim)
    (ht : claim = some t ∨ claim = none ∧ t = c.idleThreads p) :
    Owned c (unlocked lock (cur p)) (Function.update cur p (some t)) none := by
  have hfree : c.NonIdle t → ∀ q, cur q ≠ some t := by
    intro hidle
    rcases ht with rfl | ⟨-, rfl⟩
    · exact h.claim_free t rfl
    · exact absurd rfl (hidle p)
  constructor
  case mem =>
    intro q u hu
    by_cases e : q = p
    · subst e
      rw [Function.update_self] at hu
      cases hu
      rcases ht with rfl | ⟨-, rfl⟩
      · exact .inl (h.claim_mem t rfl)
      · exact .inr rfl
    · rw [Function.update_of_ne e] at hu
      exact h.mem q u hu
  case exclusive =>
    intro q r u hu hq hr
    have := h.exclusive q r u hu
    have := hfree
    grind
  case locked =>
    intro u hu
    have hl := h.locked u hu
    have hx := fun q => h.exclusive q p u hu
    have hd := hfree
    simp only [unlocked, Function.update_apply, reduceCtorEq, or_false, Bool.and_eq_true, hl]
    constructor
    · rintro ⟨⟨q, hq⟩ | hc, hne⟩
      · refine ⟨q, ?_⟩
        have hqp : q ≠ p := by
          rintro rfl
          simp [hq] at hne
        rw [if_neg hqp, hq]
      · refine ⟨p, ?_⟩
        rcases ht with ht | ⟨ht, -⟩ <;> simp_all
    · rintro ⟨q, hq⟩
      split at hq
      next e =>
        cases hq
        refine ⟨?_, by simpa using hfree hu p⟩
        rcases ht with rfl | ⟨-, rfl⟩
        · exact .inr rfl
        · exact absurd rfl (hu p)
      next e => exact ⟨.inl ⟨q, hq⟩, by simpa using fun hp => e (hx q hq hp)⟩
  case claim_mem => simp
  case claim_free => simp

/-! ### Every interleaving -/

/-- The locks agree with the processors, and the scheduler looks only at threads of the cycle. -/
structure Inv (c : Cycle π τ) (s : SchedState π τ) : Prop where
  owned : Owned c s.cycleLock s.currentThreads s.examined
  looks : ∀ p pc, s.inside = some (p, pc) → ∀ t ∈ pc.looksAt, t ∈ c.threads

variable {s s' : SchedState π τ} {pc pc' : SchedPc τ}

omit [DecidableEq π] in
theorem SchedState.cycleLock_unlockCurrent :
    (s.unlockCurrent p).cycleLock = unlocked s.cycleLock (s.currentThreads p) := by
  funext t
  unfold SchedState.unlockCurrent unlocked
  cases s.currentThreads p with
  | none => simp
  | some u =>
      by_cases e : t = u
      · simp [e]
      · simp [e, Ne.symm e]

omit [DecidableEq π] in
theorem SchedState.currentThreads_unlockCurrent :
    (s.unlockCurrent p).currentThreads = s.currentThreads := by
  unfold SchedState.unlockCurrent
  cases s.currentThreads p <;> rfl

section
omit [DecidableEq π] [DecidableEq τ]

theorem SchedState.examined_eq (h : s.inside = some (p, pc)) : s.examined = pc.claims := by
  simp [SchedState.examined, h]

theorem Inv.start (thread : τ → Thread) : Inv c (.start thread) :=
  ⟨.start, fun _ _ h => by cases h⟩

/-- A step that neither takes nor gives a lock. -/
theorem Inv.goto (h : Inv c s) (hin : s.inside = some (p, pc)) (hclaim : pc'.claims = pc.claims)
    (hlooks : ∀ t ∈ pc'.looksAt, t ∈ c.threads) : Inv c (s.goto p pc') := by
  refine ⟨?_, fun q pc'' h' => ?_⟩
  · have := h.owned
    rw [SchedState.examined_eq hin, ← hclaim] at this
    exact this
  · cases h'
    exact hlooks

end

omit [DecidableEq τ] in
theorem Inv.leave {lock : τ → Bool}
    (h : Owned c lock (Function.update s.currentThreads p (some t)) none)
    (hlock : s.cycleLock = lock) : Inv c (s.leave p t) :=
  ⟨hlock ▸ h, fun _ _ h => by cases h⟩

omit [DecidableEq τ] in
/-- A processor that stays with the thread it has. -/
theorem Inv.stay (h : Inv c s) (hin : s.inside = some (p, pc)) (hclaim : pc.claims = none)
    (hcur : s.currentThreads p = some t) : Inv c (s.leave p t) := by
  have howned := h.owned
  rw [SchedState.examined_eq hin, hclaim] at howned
  refine Inv.leave ?_ rfl
  rwa [← hcur, Function.update_eq_self]

/-- A processor that turns to another thread. -/
theorem Inv.switch (h : Inv c s) (hin : s.inside = some (p, pc))
    (ht : pc.claims = some t ∨ pc.claims = none ∧ t = c.idleThreads p) :
    Inv c ((s.unlockCurrent p).leave p t) := by
  have howned := h.owned
  rw [SchedState.examined_eq hin] at howned
  refine Inv.leave ?_ SchedState.cycleLock_unlockCurrent
  rw [SchedState.currentThreads_unlockCurrent]
  exact howned.switch ht

theorem Inv.schedule (h : Inv c s) (hin : s.inside = some (p, pc))
    (hs : s.schedule c p pc = some s') : Inv c s' := by
  have hlooks := h.looks p pc hin
  have howned := h.owned
  rw [SchedState.examined_eq hin] at howned
  cases pc with
  | enter now =>
      simp only [SchedState.schedule] at hs
      split at hs
      next =>
        obtain ⟨t, hcur, rfl⟩ := Option.map_eq_some_iff.mp hs
        exact h.stay hin rfl hcur
      next =>
        cases hs
        refine h.goto hin rfl fun t ht => ?_
        cases ht
        split
        next t hcur =>
          split
          next => exact c.start_mem
          next hne => exact c.next_mem t ((h.owned.mem p t hcur).resolve_right hne)
        next => exact c.start_mem
  | wake now t start =>
      cases hs
      exact (Inv.goto (s := { s with thread := _ }) ⟨h.owned, h.looks⟩ hin rfl hlooks)
  | check now t start =>
      simp only [SchedState.schedule] at hs
      split at hs <;> (cases hs; exact h.goto hin rfl hlooks)
  | tryLock now t start =>
      simp only [SchedState.schedule] at hs
      split at hs
      next => cases hs; exact h.goto hin rfl hlooks
      next hfree =>
        cases hs
        refine ⟨howned.claim (hlooks t rfl) (by simpa using hfree), fun q pc h' => ?_⟩
        cases h'
        exact hlooks
  | recheck now t start =>
      simp only [SchedState.schedule] at hs
      split at hs
      next => cases hs; exact h.goto hin rfl hlooks
      next =>
        cases hs
        refine ⟨howned.release, fun q pc h' => ?_⟩
        cases h'
        exact hlooks
  | advance now t start =>
      simp only [SchedState.schedule] at hs
      split at hs
      next => cases hs; exact h.goto hin rfl (by simp [SchedPc.looksAt])
      next =>
        cases hs
        refine h.goto hin rfl fun u hu => ?_
        cases hu
        exact c.next_mem t (hlooks t rfl)
  | found t =>
      simp only [SchedState.schedule] at hs
      split at hs
      next =>
        cases hs
        exact h.switch hin (.inl rfl)
      next hcur => exact absurd (not_not.mp hcur) (howned.claim_free t rfl p)
  | notFound =>
      simp only [SchedState.schedule] at hs
      split at hs
      next t hcur =>
        split at hs
        next =>
          cases hs
          exact h.stay hin rfl hcur
        next => cases hs; exact h.goto hin rfl (by simp [SchedPc.looksAt])
      next => cases hs; exact h.goto hin rfl (by simp [SchedPc.looksAt])
  | toIdle =>
      cases hs
      exact h.switch hin (.inr ⟨rfl, rfl⟩)

theorem Inv.step {i : SchedAct π τ} (h : Inv c s) (hs : s.step c i = some s') : Inv c s' := by
  cases i with
  | interrupt p now =>
      simp only [SchedState.step] at hs
      split at hs
      next hin =>
        cases hs
        have howned := h.owned
        simp only [SchedState.examined, hin] at howned
        refine ⟨howned, fun q pc h' => ?_⟩
        cases h'
        simp [SchedPc.looksAt]
      next => cases hs
  | schedule =>
      obtain ⟨⟨p, pc⟩, hin, hs⟩ := Option.bind_eq_some_iff.mp hs
      exact h.schedule hin hs
  | startThread t => cases hs; exact ⟨h.owned, h.looks⟩
  | stopThread t => cases hs; exact ⟨h.owned, h.looks⟩
  | continueThisThread p => cases hs; exact ⟨h.owned, h.looks⟩
  | resumeScheduling p => cases hs; exact ⟨h.owned, h.looks⟩

/-- What one step can do towards an idle thread. -/
structure TurnsIdle (c : Cycle π τ) (s s' : SchedState π τ) (p : π) : Prop where
  /-- The scheduler decides for it only if the thread of the processor may not run. -/
  decides : s'.inside = some (p, .toIdle) → s.inside ≠ some (p, .toIdle) →
    ∀ t, s.currentThreads p = some t → (s.thread t).permitRunning = false
  /-- Without that decision no processor turns to it. -/
  switches : s'.currentThreads p = some (c.idleThreads p) →
    s.currentThreads p ≠ some (c.idleThreads p) → s.inside = some (p, .toIdle)

omit [DecidableEq π] [DecidableEq τ] in
theorem TurnsIdle.goto {q : π} (hcur : s'.currentThreads = s.currentThreads)
    (hin : s'.inside = some (q, pc')) (hne : pc' ≠ .toIdle) : TurnsIdle c s s' p where
  decides h' := by
    rw [hin] at h'
    cases h'
    exact absurd rfl hne
  switches h' hne' := absurd (hcur ▸ h') hne'

omit [DecidableEq τ] in
theorem TurnsIdle.leave {q : π} (hcur : s'.currentThreads = Function.update s.currentThreads q (some t))
    (hin : s'.inside = none)
    (ht : t = c.idleThreads q → s.currentThreads q = some t ∨ s.inside = some (q, .toIdle)) :
    TurnsIdle c s s' p where
  decides h' := by
    rw [hin] at h'
    cases h'
  switches h' hne := by
    rw [hcur] at h'
    by_cases e : p = q
    · subst e
      rw [Function.update_self] at h'
      cases h'
      exact (ht rfl).resolve_left hne
    · rw [Function.update_of_ne e] at h'
      exact absurd h' hne

theorem Inv.turnsIdle_schedule {q : π} (h : Inv c s) (hin : s.inside = some (q, pc))
    (hs : s.schedule c q pc = some s') : TurnsIdle c s s' p := by
  have hlooks := h.looks q pc hin
  cases pc with
  | enter now =>
      simp only [SchedState.schedule] at hs
      split at hs
      next =>
        obtain ⟨t, hcur, rfl⟩ := Option.map_eq_some_iff.mp hs
        exact .leave rfl rfl fun _ => .inl hcur
      next =>
        cases hs
        exact .goto rfl rfl (by simp)
  | wake now t start =>
      cases hs
      exact .goto rfl rfl (by simp)
  | check now t start | tryLock now t start | recheck now t start | advance now t start =>
      simp only [SchedState.schedule] at hs
      split at hs <;> (cases hs; exact .goto rfl rfl (by simp))
  | found t =>
      have hne : t ≠ c.idleThreads q := fun e => c.idle_notMem q (e ▸ hlooks t rfl)
      simp only [SchedState.schedule] at hs
      split at hs
      next =>
        cases hs
        exact .leave (by rw [SchedState.leave, SchedState.currentThreads_unlockCurrent]) rfl
          fun e => absurd e hne
      next =>
        cases hs
        exact .leave rfl rfl fun e => absurd e hne
  | notFound =>
      simp only [SchedState.schedule] at hs
      split at hs
      next t hcur =>
        split at hs
        next =>
          cases hs
          exact .leave rfl rfl fun _ => .inl hcur
        next hno =>
          cases hs
          refine ⟨fun h' _ u hu => ?_, fun h' hne => absurd h' hne⟩
          cases h'
          rw [hcur] at hu
          cases hu
          simpa using hno
      next hcur =>
        cases hs
        refine ⟨fun h' _ u hu => ?_, fun h' hne => absurd h' hne⟩
        cases h'
        rw [hcur] at hu
        cases hu
  | toIdle =>
      cases hs
      exact .leave (by rw [SchedState.leave, SchedState.currentThreads_unlockCurrent]) rfl
        fun _ => .inr hin

theorem Inv.turnsIdle {i : SchedAct π τ} (h : Inv c s) (hs : s.step c i = some s') :
    TurnsIdle c s s' p := by
  cases i with
  | interrupt q now =>
      simp only [SchedState.step] at hs
      split at hs
      next hin =>
        cases hs
        exact .goto rfl rfl (by simp)
      next => cases hs
  | schedule =>
      obtain ⟨⟨q, pc⟩, hin, hs⟩ := Option.bind_eq_some_iff.mp hs
      exact h.turnsIdle_schedule hin hs
  | startThread | stopThread | continueThisThread | resumeScheduling =>
      cases hs
      exact ⟨fun h' hne => absurd h' hne, fun h' hne => absurd h' hne⟩

/-- In every interleaving of the scheduler with threads that are started and stopped. -/
theorem scheduler_exclusive {thread : τ → Thread}
    (h : Reach (SchedState.step c) anyInput (.start thread) s) :
    (∀ t, c.NonIdle t → ∀ p q, s.currentThreads p = some t → s.currentThreads q = some t → p = q) ∧
    (∀ t, c.NonIdle t →
      (s.cycleLock t ↔ (∃ p, s.currentThreads p = some t) ∨ s.examined = some t)) ∧
    ∀ i s', s.step c i = some s' → ∀ p, TurnsIdle c s s' p := by
  have hinv : Inv c s := h.invariant (.start thread) fun _ _ _ h _ hs => h.step hs
  exact ⟨fun t ht p q => hinv.owned.exclusive p q t ht, hinv.owned.locked,
    fun i s' hs p => hinv.turnsIdle hs⟩

/-- Two processors, two threads that take turns, and an idle thread each. -/
def twoThreads : Cycle Bool (Bool ⊕ Bool) where
  threads := [.inl false, .inl true]
  startOfThreadCycle := .inl false
  nextThread
    | .inl b => .inl !b
    | .inr b => .inr b
  idleThreads := .inr
  start_mem := by simp
  next_mem := by simp
  idle_notMem := by simp

/-- Each processor has found a thread to run. -/
theorem scheduler_exclusive_two : ∃ s : SchedState Bool (Bool ⊕ Bool),
    Reach (SchedState.step twoThreads) anyInput (.start fun _ => { permitRunning := true }) s ∧
      s.currentThreads false = some (.inl false) ∧ s.currentThreads true = some (.inl true) ∧
      (s.cycleLock (.inl true) ↔ (∃ p, s.currentThreads p = some (.inl true)) ∨
        s.examined = some (.inl true)) := by
  obtain ⟨s, hs, hf, ht⟩ := Reach.exists_of_run
    (by decide : ∃ s ∈ run (SchedState.step twoThreads) anyInput
        (.start fun _ => { permitRunning := true })
        (.interrupt false 0 :: List.replicate 6 .schedule ++
          .interrupt true 0 :: List.replicate 9 .schedule),
      s.currentThreads false = some (.inl false) ∧ s.currentThreads true = some (.inl true))
  exact ⟨s, hs, hf, ht, (scheduler_exclusive hs).2.1 _ (by simp [Cycle.NonIdle, twoThreads])⟩

end Azalea.Proc.Sched
