import Azalea.Proc.WaitObject

/-!
# Proc — every interleaving of threads on a wait object

* `no_lost_wake_up`: after a `trigger_all_threads` on a `WaitForFirstTriggerObject` nobody sleeps for
  it, and every wait returns that it was signalled.  On a plain `WaitObject` each
  `trigger_next_thread` wakes the thread that has waited longest, and no other.  Threads must not have a
  deadline left from an earlier wait (`no_lost_wake_up_fails`).
-/

namespace Azalea.Proc.Waits
open Azalea.Runs

variable {τ : Type*} [DecidableEq τ] {s s' : WaitState τ} {t : τ} {count : Nat} {noDeadline : Prop}

attribute [local grind =] WaitPc.holds WaitPc.queued WaitPc.stops WaitPc.slept WaitPc.aborts
  WaitPc.called WaitPc.limit

/-! ### Every wait comes to its end -/

/-- How many steps a wait still has to take. -/
def WaitPc.left : WaitPc → Option Nat
  | .enter _ => some 9
  | .stop _ => some 8
  | .addTail _ => some 7
  | .unlock _ => some 6
  | .check _ => some 5
  | .setDeadline _ => some 4
  | .asleep | .start => some 3
  | .cancel _ => some 2
  | .search _ => some 1
  | .leave _ => some 0
  | _ => none

/-- How many steps a thread takes at most until it lets go of `_list_lock`, with `n` threads in the
list. -/
def WaitPc.heldFor (n : Nat) : WaitPc → Nat
  | .stop _ => 3
  | .addTail _ | .search _ => 2
  | .unlock _ | .leave _ | .triggered _ => 1
  | .beforeAll => 3 * n + 3
  | .loop => 3 * n + 2
  | .beforeNext true => 3 * max n 1 + 1
  | .wake true => 3 * max n 1
  | .beforeNext false => 3
  | .wake false => 2
  | _ => 0

/-- How many steps at most until `_list_lock` is free. -/
def WaitState.heldFor (s : WaitState τ) : Nat :=
  match s.listLock with
  | none => 0
  | some u => (s.pc u).heldFor s.waitingThreads.length

omit [DecidableEq τ] in
theorem WaitState.heldFor_some (h : s.listLock = some t) :
    s.heldFor = (s.pc t).heldFor s.waitingThreads.length := by
  simp [WaitState.heldFor, h]

theorem WaitState.heldFor_setPc {pc : WaitPc} (h : s.listLock = some t) :
    (s.setPc t pc).heldFor = pc.heldFor s.waitingThreads.length := by
  simp [WaitState.heldFor, h]

theorem WaitState.heldFor_setPc_none {pc : WaitPc} (h : s.listLock = none) :
    (s.setPc t pc).heldFor = 0 := by
  simp [WaitState.heldFor, h]

/-- A wait is over, and all that a completed `trigger_all_threads` has left. -/
structure Over (t : τ) (s : WaitState τ) : Prop where
  inv : Inv False s
  kind : s.kind = .waitForFirstTrigger
  all : s.allTriggered
  wait : ∃ n, (s.pc t).left = some n

omit [DecidableEq τ] in
theorem WaitState.beforeWakeCb_eq (s : WaitState τ) :
    s.beforeWakeCb.listLock = s.listLock ∧ s.beforeWakeCb.waitingThreads = s.waitingThreads ∧
      s.beforeWakeCb.kind = s.kind ∧ s.beforeWakeCb.allTriggered = s.allTriggered ∧
      s.beforeWakeCb.pc = s.pc := by
  unfold WaitState.beforeWakeCb
  split <;> simp

theorem WaitState.triggerNextThread_eq (s : WaitState τ) :
    s.triggerNextThread.listLock = s.listLock ∧
      s.triggerNextThread.waitingThreads = s.waitingThreads.tail ∧
      s.triggerNextThread.kind = s.kind ∧ s.triggerNextThread.allTriggered = s.allTriggered ∧
      s.triggerNextThread.pc = s.pc := by
  unfold WaitState.triggerNextThread
  split <;> simp [*, WaitState.setThread]

theorem WaitState.cancelWaitingThread_eq (s : WaitState τ) (t : τ) :
    (s.cancelWaitingThread t).1.listLock = s.listLock ∧ (s.cancelWaitingThread t).1.kind = s.kind ∧
      (s.cancelWaitingThread t).1.allTriggered = s.allTriggered ∧
      (s.cancelWaitingThread t).1.pc = s.pc := by
  unfold WaitState.cancelWaitingThread
  split <;> simp [WaitState.setThread]

/-- The thread that holds `_list_lock` goes on until it lets go of it. -/
theorem Inv.holder_next {u : τ} (h : Inv noDeadline s) (hlock : s.listLock = some u) :
    ∃ s', s.next u 0 = some s' ∧ s'.heldFor < s.heldFor ∧ s'.kind = s.kind ∧
      (s.allTriggered → s'.allTriggered) ∧ ∀ t, t ≠ u → s'.pc t = s.pc t := by
  have hholds := (h.thread u).lock.1 hlock
  have hheld := WaitState.heldFor_some hlock
  have hcb := s.beforeWakeCb_eq
  have hwake := s.triggerNextThread_eq
  have hcancel := s.cancelWaitingThread_eq u
  unfold WaitState.next
  cases hpc : s.pc u
  case running | enter | check | setDeadline | asleep | start | cancel | trigger =>
    rw [hpc] at hholds
    cases hholds
  case search slept =>
    refine ⟨(s.cancelWaitingThread u).1.setPc u (.leave !(slept && (s.cancelWaitingThread u).2)), rfl,
      ?_, ?_, ?_, ?_⟩ <;> grind -linarith [WaitState.heldFor_setPc, WaitPc.heldFor]
  case beforeNext all | wake all =>
    cases all <;> refine ⟨_, rfl, ?_, ?_, ?_, ?_⟩ <;>
      grind -linarith [WaitState.heldFor_setPc, WaitPc.heldFor]
  all_goals
    refine ⟨_, rfl, ?_, ?_, ?_, ?_⟩ <;>
      grind -linarith [WaitState.heldFor_setPc, WaitState.heldFor_setPc_none, WaitPc.heldFor]

theorem WaitState.heldFor_setThread {f : Thread → Thread} : (s.setThread t f).heldFor = s.heldFor := rfl

theorem WaitState.heldFor_setPc_ne {pc : WaitPc} (h : s.listLock ≠ some t) :
    (s.setPc t pc).heldFor = s.heldFor := by
  unfold WaitState.heldFor
  cases hlock : s.listLock with
  | none => simp [hlock]
  | some u =>
      have hut : u ≠ t := fun e => h (by rw [hlock, e])
      simp [hlock, hut]

/-- A thread in a wait goes on, unless it waits for `_list_lock`. -/
theorem Over.wait_next (h : Over t s) (hleave : (s.pc t).left ≠ some 0)
    (hfree : (∃ w, s.pc t = .enter w) ∨ (∃ slept, s.pc t = .cancel slept) → s.listLock = none) :
    ∃ s', s.next t 0 = some s' ∧ s'.kind = s.kind ∧ s'.allTriggered = s.allTriggered ∧
      (∃ n, (s'.pc t).left = some n) ∧
      10 * (s'.pc t).left.getD 0 + s'.heldFor < 10 * (s.pc t).left.getD 0 + s.heldFor := by
  obtain ⟨n, hn⟩ := h.wait
  have hlock := (h.inv.thread t).lock
  have hheld : s.listLock = some t → _ := WaitState.heldFor_some
  unfold WaitState.next
  cases hpc : s.pc t
  case running | trigger | beforeAll | loop | beforeNext | wake | triggered =>
    rw [hpc] at hn
    cases hn
  case leave => simp [hpc, WaitPc.left] at hleave
  case enter w =>
    have := hfree (by simp [hpc])
    simp only [WaitState.lock, this, if_true]
    refine ⟨_, rfl, ?_, ?_, ?_, ?_⟩ <;> grind -linarith [WaitState.heldFor_setPc, WaitPc.heldFor, WaitPc.left]
  case cancel slept =>
    have := hfree (by simp [hpc])
    simp only [WaitState.lock, this, if_true]
    refine ⟨_, rfl, ?_, ?_, ?_, ?_⟩ <;> grind -linarith [WaitState.heldFor_setPc, WaitPc.heldFor, WaitPc.left]
  case asleep =>
    have hpermit : (s.thread t).permitRunning := by
      have := (h.inv.thread t).stops
      have := (h.inv.thread t).done h.kind h.all
      grind -linarith
    simp only [hpermit, if_true]
    refine ⟨_, rfl, ?_, ?_, ?_, ?_⟩ <;>
      grind -linarith [WaitState.heldFor_setPc_ne, WaitPc.left]
  case search slept =>
    have hcancel := s.cancelWaitingThread_eq t
    refine ⟨(s.cancelWaitingThread t).1.setPc t (.leave !(slept && (s.cancelWaitingThread t).2)), rfl,
      ?_, ?_, ?_, ?_⟩ <;> grind -linarith [WaitState.heldFor_setPc, WaitPc.heldFor, WaitPc.left]
  case setDeadline w =>
    dsimp only
    split <;> refine ⟨_, rfl, ?_, ?_, ?_, ?_⟩ <;>
      grind -linarith [WaitState.heldFor_setPc_ne, WaitState.heldFor_setThread, WaitPc.left]
  case check w =>
    refine ⟨_, rfl, ?_, ?_, ?_, ?_⟩ <;>
      grind -linarith [WaitState.heldFor_setPc_ne, WaitPc.left]
  case start =>
    refine ⟨_, rfl, ?_, ?_, ?_, ?_⟩ <;>
      grind -linarith [WaitState.heldFor_setPc_ne, WaitState.heldFor_setThread, WaitPc.left]
  all_goals
    refine ⟨_, rfl, ?_, ?_, ?_, ?_⟩ <;>
      grind -linarith [WaitState.heldFor_setPc, WaitState.heldFor_setPc_none, WaitPc.heldFor, WaitPc.left]

/-- Only threads that are in a call take a step. -/
def InCalls (_ : WaitState τ) : WaitAct τ → Prop
  | .next _ _ => True
  | _ => False

/-- As long as a wait has not come to its end, it or the thread that holds `_list_lock` goes on. -/
theorem Over.next (h : Over t s) (hleave : (s.pc t).left ≠ some 0) :
    ∃ i s', InCalls s i ∧ s.step i = some s' ∧ Over t s' ∧
      10 * (s'.pc t).left.getD 0 + s'.heldFor < 10 * (s.pc t).left.getD 0 + s.heldFor := by
  by_cases hfree : (∃ w, s.pc t = .enter w) ∨ (∃ slept, s.pc t = .cancel slept) → s.listLock = none
  · obtain ⟨s', hs, hkind, hall, hwait, hlt⟩ := h.wait_next hleave hfree
    exact ⟨.next t 0, s', trivial, hs,
      ⟨h.inv.next False.elim hs, hkind.trans h.kind, by rw [hall, h.all], hwait⟩, hlt⟩
  · obtain ⟨hpc, hheld⟩ := Classical.not_imp.mp hfree
    obtain ⟨u, hu⟩ := Option.ne_none_iff_exists'.mp hheld
    obtain ⟨s', hs, hlt, hkind, hall, hothers⟩ := h.inv.holder_next hu
    have hlock := (h.inv.thread t).lock
    have hpct : s'.pc t = s.pc t := hothers t fun e => by
      rw [e, hu] at hlock
      grind -linarith
    refine ⟨.next u 0, s', trivial, hs, ⟨h.inv.next False.elim hs, hkind.trans h.kind, hall h.all, ?_⟩, ?_⟩
    · rw [hpct]
      exact h.wait
    · rw [hpct]
      exact Nat.add_lt_add_left hlt _

/-- A wait that is still going on after a completed `trigger_all_threads` can always come to its end,
and returns that it was signalled. -/
theorem Over.returns (h : Over t s) :
    ∃ s', Reach WaitState.step InCalls s s' ∧ s'.pc t = .leave true := by
  obtain ⟨s', hreach, hover, hleft⟩ := Reach.of_measure
    (fun s => 10 * (s.pc t).left.getD 0 + s.heldFor)
    (fun s (h : Over t s) (hleave : ¬ (s.pc t).left = some 0) => h.next hleave) h
  have hres := ((hover.inv.thread t).done hover.kind hover.all).2.2
  refine ⟨s', hreach, ?_⟩
  cases hpc : s'.pc t <;> simp_all [WaitPc.left]

/-! ### What a wait object is for -/

/-- A thread has queued, and is stopped. -/
def Waiting (s : WaitState τ) (t : τ) : Prop := (s.pc t).stops ∧ (s.thread t).permitRunning = false

/-- What should hold of a `WaitForFirstTriggerObject` at any moment. -/
structure NoLostWakeUp (s : WaitState τ) : Prop where
  /-- After a `trigger_all_threads` nobody sleeps for it, -/
  awake : s.allTriggered → ∀ t, s.pc t = .asleep → (s.thread t).permitRunning
  /-- and every wait comes to its end. -/
  returns : s.allTriggered → ∀ t n, (s.pc t).left = some n →
    ∃ s', Reach WaitState.step InCalls s s' ∧ s'.pc t = .leave true
  /-- No wait returns that it has timed out. -/
  result : ∀ t res, s.pc t = .leave res → res = true

/-- From `s` to `s'` the thread that has waited longest has been woken, and nothing else has
happened to any thread. -/
def WakesLongest (s s' : WaitState τ) : Prop :=
  (∀ u, ¬ Waiting s u) ∧ (∀ u, s'.thread u = s.thread u) ∨
    ∃ u, Waiting s u ∧ (∀ v, Waiting s v → v ≠ u → s.ticket u < s.ticket v) ∧
      (s'.thread u).permitRunning ∧ ∀ v, v ≠ u → s'.thread v = s.thread v

/-- What a step of a thread in `trigger_next_thread` does. -/
structure TriggersNext (s : WaitState τ) (t : τ) (s' : WaitState τ) : Prop where
  lock : s.pc t = .trigger false → s'.pc t = .beforeNext false ∧ s'.thread = s.thread
  before : s.pc t = .beforeNext false → s'.pc t = .wake false ∧ s'.thread = s.thread
  wake : s.pc t = .wake false → s'.pc t = .triggered false ∧ WakesLongest s s'
  unlock : s.pc t = .triggered false → s'.pc t = .running ∧ s'.thread = s.thread

omit [DecidableEq τ] in
/-- Whatever deadlines there are. -/
theorem Inv.forget (h : Inv noDeadline s) : Inv False s := by
  refine ⟨h.nodup, h.sorted, h.numbered, fun t => ?_⟩
  obtain ⟨g1, g2, g3, g4, g5, g6, g7, g8, -, -, -, -⟩ := h.thread t
  exact ⟨g1, g2, g3, g4, g5, g6, g7, g8, False.elim, False.elim, False.elim, False.elim⟩

theorem Inv.noLostWakeUp (h : Inv True s) (hkind : s.kind = .waitForFirstTrigger) :
    NoLostWakeUp s where
  awake hall t hpc := by
    have hstops := (h.thread t).stops
    have hdone := (h.thread t).done hkind hall
    grind -linarith
  returns hall t n hn := Over.returns ⟨h.forget, hkind, hall, n, hn⟩
  result t res hpc := by
    have := (h.thread t).signalled trivial
    cases res <;> simp_all

omit [DecidableEq τ] in
theorem Inv.waiting_iff (h : Inv True s) (hkind : s.kind = .waitObject) :
    Waiting s t ↔ t ∈ s.waitingThreads := by
  have hstops := (h.thread t).stops
  have hwaits := (h.thread t).waits trivial
  have hplain := (h.thread t).plain hkind
  unfold Waiting
  grind -linarith

theorem Inv.wakesLongest (h : Inv True s) (hkind : s.kind = .waitObject) :
    WakesLongest s s.triggerNextThread := by
  simp only [WakesLongest, h.waiting_iff hkind, WaitState.triggerNextThread]
  have hsorted := h.sorted
  split
  next hnil => simp [hnil]
  next u rest hcons =>
    rw [hcons, List.pairwise_cons] at hsorted
    refine .inr ⟨u, by simp [hcons], fun v hv hne => ?_, ?_, fun v hv => ?_⟩
    · exact hsorted.1 v (by simpa [hcons, hne] using hv)
    · simp [Thread.startThread, (h.thread u).alive]
    · simp [hv]

theorem Inv.triggersNext (h : Inv True s) (hkind : s.kind = .waitObject)
    (hs : s.next t count = some s') : TriggersNext s t s' := by
  unfold WaitState.next at hs
  constructor <;> intro hpc <;> simp only [hpc] at hs
  · simp only [WaitState.lock, Bool.false_eq_true, if_false, Option.ite_none_right_eq_some,
      Option.some.injEq] at hs
    obtain ⟨-, rfl⟩ := hs
    simp [WaitState.setPc]
  · cases hs
    simp [WaitState.beforeWakeCb, hkind, WaitState.setPc]
  · cases hs
    exact ⟨by simp, h.wakesLongest hkind⟩
  · cases hs
    simp [WaitState.setPc]

theorem WaitState.kind_step {i : WaitAct τ} (hs : s.step i = some s') : s'.kind = s.kind := by
  cases i with
  | callWait t w | callTrigger t all =>
      simp only [WaitState.step, Option.ite_none_right_eq_some, Option.some.injEq] at hs
      obtain ⟨-, rfl⟩ := hs
      rfl
  | otherWait t d =>
      simp only [WaitState.step, Option.ite_none_right_eq_some, Option.some.injEq] at hs
      obtain ⟨-, rfl⟩ := hs
      rfl
  | considerThread t now => cases hs; rfl
  | next t count =>
      have hcb := s.beforeWakeCb_eq
      have hwake := s.triggerNextThread_eq
      have hcancel := s.cancelWaitingThread_eq t
      simp only [WaitState.step, WaitState.next] at hs
      grind -linarith [WaitState.lock]

/-- Deadlines, of finite waits or left by earlier ones, do not matter once a `trigger_all_threads` has
returned. -/
theorem woken_despite_deadlines {thread : τ → Thread}
    (halive : ∀ t, (thread t).threadDestroyed = false)
    (h : Reach WaitState.step anyInput (.init .waitForFirstTrigger thread) s) (hall : s.allTriggered) :
    (s.pc t = .asleep → (s.thread t).permitRunning) ∧ s.pc t ≠ .leave false := by
  obtain ⟨hinv, hkind⟩ := h.invariant
    (I := fun s => Inv False s ∧ s.kind = .waitForFirstTrigger) ⟨.init halive, rfl⟩
    fun _ _ _ h _ hs => ⟨h.1.step (by simp) hs, (WaitState.kind_step hs).trans h.2⟩
  obtain ⟨-, hslept, hleave⟩ := (hinv.thread t).done hkind hall
  have hstops := (hinv.thread t).stops
  exact ⟨fun hpc => by grind, hleave⟩

/-- In every interleaving of unlimited waits, by threads that have no deadline left when they stop themselves. -/
theorem no_lost_wake_up {kind : WaitKind} {deadline : τ → Nat}
    (h : Reach WaitState.step NoDeadlineLeft
      (.init kind fun t => { permitRunning := true, wakeThreadAfter := deadline t }) s) :
    (kind = .waitForFirstTrigger → NoLostWakeUp s) ∧
      (kind = .waitObject → ∀ t count s', s.next t count = some s' → TriggersNext s t s') := by
  obtain ⟨hinv, hkind⟩ := h.invariant
    (I := fun s => Inv True s ∧ s.kind = kind) ⟨.init fun _ => rfl, rfl⟩
    fun _ _ _ h hok hs => ⟨h.1.step (fun _ => hok) hs, (WaitState.kind_step hs).trans h.2⟩
  constructor
  · rintro rfl
    exact hinv.noLostWakeUp hkind
  · rintro rfl t count s' hs
    exact hinv.triggersNext hkind hs

/-- A thread sleeps, and another triggers all. -/
theorem no_lost_wake_up_asleep : ∃ s : WaitState Bool,
    Reach WaitState.step NoDeadlineLeft
      (.init .waitForFirstTrigger fun _ => { permitRunning := true, wakeThreadAfter := 7 }) s ∧
    s.allTriggered ∧ s.pc false = .asleep ∧ (s.thread false).permitRunning := by
  obtain ⟨s, hs, hall, hpc⟩ := Reach.exists_of_run
    (by decide : ∃ s ∈ run WaitState.step NoDeadlineLeft
      (.init .waitForFirstTrigger fun _ => { permitRunning := true, wakeThreadAfter := 7 })
      (.otherWait false 0 :: .callWait false maxWait :: List.replicate 6 (.next false 0) ++
        .callTrigger true true :: List.replicate 7 (.next true 0)),
      s.allTriggered ∧ s.pc false = .asleep)
  exact ⟨s, hs, hall, hpc, ((no_lost_wake_up hs).1 rfl).awake hall _ hpc⟩

/-- A deadline that a wait for something else has left ends an unlimited wait, which then returns `false`. -/
theorem no_lost_wake_up_fails :
    ¬ ∀ s : WaitState Unit, Reach WaitState.step Unlimited
      (.init .waitForFirstTrigger fun _ => { permitRunning := true }) s → NoLostWakeUp s := by
  intro h
  obtain ⟨s, hs, hpc⟩ := Reach.exists_of_run
    (by decide : ∃ s ∈ run WaitState.step Unlimited
      (.init .waitForFirstTrigger fun _ => { permitRunning := true })
      (.otherWait () 5 :: .callWait () maxWait :: List.replicate 6 (.next () 0) ++
        .considerThread () 6 :: List.replicate 3 (.next () 0)),
      s.pc () = .leave false)
  exact absurd ((h s hs).result () false hpc) Bool.false_ne_true

end Azalea.Proc.Waits
