import Azalea.Proc.Scheduler
import Azalea.Support.Rings

/-!
# Proc — no thread is passed over

The threads take turns in a ring.  A processor that is interrupted looks for a thread to run from the one behind
its own on, so each time it has come nearer to a thread that waits, or another processor has taken that one.

* `scheduler_no_starvation`: a thread that may run all along is run by some processor before any one processor
  has been interrupted more often than there are threads.
-/

namespace Azalea.Proc.Sched
open Azalea.Runs Azalea.Rings Function

/-- The interrupt on a processor. -/
def SchedAct.interrupts {π τ : Type*} [DecidableEq π] (p : π) : SchedAct π τ → Bool
  | .interrupt q _ => p = q
  | _ => false

variable {π τ : Type*} [DecidableEq π] [DecidableEq τ] {c : Cycle π τ} {s s' : SchedState π τ} {p q : π}
  {u t : τ} {k : Nat} {pc : SchedPc τ} {act : SchedAct π τ}

/-- Where a processor begins to look for a thread to run. -/
def SchedState.lookFrom (c : Cycle π τ) (s : SchedState π τ) (p : π) : τ :=
  match s.currentThreads p with
  | some t => if t = c.idleThreads p then c.startOfThreadCycle else c.nextThread t
  | none => c.startOfThreadCycle

/-- Where a processor stands that has not passed `u`. -/
def NotPassed (c : Cycle π τ) (u : τ) (k : Nat) (lookFrom : τ) : SchedPc τ → Prop
  | .enter _ => ∃ j ≤ k, Ahead c.nextThread u lookFrom j
  | .wake _ t start | .check _ t start | .tryLock _ t start | .recheck _ t start =>
      Scan c.nextThread u k start t
  | .advance _ t start => Scan c.nextThread u k start t ∧ t ≠ u
  | .found t => ∃ start, Scan c.nextThread u k start t
  | .notFound | .toIdle => False

/-- `u` waits, and a processor has less than `k` interrupts left before it comes to it. -/
structure Waits (c : Cycle π τ) (u : τ) (p : π) (k : Nat) (s : SchedState π τ) : Prop where
  alone : ∀ q, s.currentThreads q ≠ some u
  permit : (s.thread u).permitRunning = true
  going : s.continueThisThread p = false
  outside : (∀ pc, s.inside ≠ some (p, pc)) → ∃ j < k, Ahead c.nextThread u (s.lookFrom c p) j
  inside : ∀ pc, s.inside = some (p, pc) → NotPassed c u k (s.lookFrom c p) pc

theorem Thread.timedWake_permit {thread : Thread} {now : Nat} (h : thread.permitRunning = true) :
    (thread.timedWake now).permitRunning = true := by
  rw [Thread.timedWake, Thread.shouldWake, h]
  exact h

theorem Thread.startThread_permit {thread : Thread} (h : thread.permitRunning = true) :
    thread.startThread.permitRunning = true := by
  unfold Thread.startThread
  split
  next => rfl
  next => exact h

/-- What a step of the scheduler leaves as it is. -/
structure Keeps (s s' : SchedState π τ) (q : π) : Prop where
  others : ∀ r ≠ q, s'.currentThreads r = s.currentThreads r
  going : s'.continueThisThread = s.continueThisThread
  permit : ∀ t, (s.thread t).permitRunning = true → (s'.thread t).permitRunning = true
  inside : ∀ r pc', s'.inside = some (r, pc') → r = q

theorem Keeps.goto (s : SchedState π τ) (q : π) (pc : SchedPc τ) : Keeps s (s.goto q pc) q where
  others _ _ := rfl
  going := rfl
  permit _ h := h
  inside r pc' h := by
    cases h
    rfl

theorem Keeps.leave (s : SchedState π τ) (q : π) (t : τ) : Keeps s (s.leave q t) q where
  others r hr := update_of_ne hr _ _
  going := rfl
  permit _ h := h
  inside r pc' h := by cases h

theorem Keeps.switch (s : SchedState π τ) (q : π) (t : τ) : Keeps s ((s.unlockCurrent q).leave q t) q := by
  unfold SchedState.unlockCurrent
  split
  next u hu => exact ⟨fun r hr => update_of_ne hr _ _, rfl, fun _ h => h, fun r pc' h => by cases h⟩
  next => exact .leave s q t

theorem schedule_keeps (hs : s.schedule c q pc = some s') : Keeps s s' q := by
  cases pc with
  | enter now =>
      simp only [SchedState.schedule] at hs
      split at hs
      next =>
        obtain ⟨t, -, rfl⟩ := Option.map_eq_some_iff.mp hs
        exact .leave s q t
      next =>
        cases hs
        exact .goto s q _
  | wake now t start =>
      cases hs
      refine ⟨fun _ _ => rfl, rfl, fun v hv => ?_, fun r pc' h => by cases h; rfl⟩
      show (update s.thread t ((s.thread t).timedWake now) v).permitRunning = true
      by_cases hvt : v = t
      · subst hvt
        rw [update_self]
        exact Thread.timedWake_permit hv
      · rw [update_of_ne hvt]
        exact hv
  | check now t start | advance now t start =>
      simp only [SchedState.schedule] at hs
      split at hs <;> (cases hs; exact .goto s q _)
  | tryLock now t start | recheck now t start =>
      simp only [SchedState.schedule] at hs
      split at hs <;>
        (cases hs; exact ⟨fun _ _ => rfl, rfl, fun _ h => h, fun r pc' h => by cases h; rfl⟩)
  | found t =>
      simp only [SchedState.schedule] at hs
      split at hs
      next =>
        cases hs
        exact .switch s q t
      next =>
        cases hs
        exact .leave s q t
  | notFound =>
      simp only [SchedState.schedule] at hs
      split at hs
      next =>
        split at hs
        next =>
          cases hs
          exact .leave s q _
        next =>
          cases hs
          exact .goto s q _
      next =>
        cases hs
        exact .goto s q _
  | toIdle =>
      cases hs
      exact .switch s q _

/-- Nobody has locked a thread that waits. -/
theorem Waits.unlocked (h : Waits c u p k s) (hinv : Inv c s) (hu : u ∈ c.threads)
    (hin : s.inside = some (p, pc)) (hclaims : pc.claims ≠ some u) : s.cycleLock u = false := by
  rw [Bool.eq_false_iff, ne_eq, hinv.owned.locked u (c.nonIdle_of_mem hu), SchedState.examined_eq hin]
  rintro (⟨q, hq⟩ | hclaim)
  · exact h.alone q hq
  · exact hclaims hclaim

theorem SchedState.lookFrom_congr (h : s'.currentThreads p = s.currentThreads p) :
    s'.lookFrom c p = s.lookFrom c p := by
  unfold SchedState.lookFrom
  rw [h]

theorem Inv.lookFrom_mem (h : Inv c s) (p : π) : s.lookFrom c p ∈ c.threads := by
  unfold SchedState.lookFrom
  split
  next t hcur =>
    split
    next => exact c.start_mem
    next hne => exact c.next_mem t ((h.owned.mem p t hcur).resolve_right hne)
  next => exact c.start_mem

/-- The processor goes on in its search. -/
theorem Waits.goto (h : Waits c u p k s) (hkeeps : Keeps s s' p)
    (hcur : s'.currentThreads = s.currentThreads) {pc' : SchedPc τ} (hin : s'.inside = some (p, pc'))
    (hpos : NotPassed c u k (s'.lookFrom c p) pc') : Waits c u p k s' where
  alone := hcur ▸ h.alone
  permit := hkeeps.permit u h.permit
  going := hkeeps.going ▸ h.going
  outside hout := absurd hin (hout pc')
  inside pc hpc := by
    rw [hin] at hpc
    cases hpc
    exact hpos

/-- **A step of the processor itself.** -/
theorem Waits.schedule (h : Waits c u p k s) (hinv : Inv c s) (hu : u ∈ c.threads)
    (hin : s.inside = some (p, pc)) (hs : s.schedule c p pc = some s')
    (halone : ∀ q, s'.currentThreads q ≠ some u) : Waits c u p k s' := by
  have hkeeps := schedule_keeps hs
  have hpos := h.inside pc hin
  cases pc with
  | enter now =>
      simp only [SchedState.schedule, h.going, Bool.false_eq_true, if_false] at hs
      obtain ⟨j, hj, hahead⟩ := hpos
      cases hs
      exact h.goto hkeeps rfl rfl (Scan.refl hj hahead)
  | wake now t start =>
      cases hs
      exact h.goto hkeeps rfl rfl hpos
  | check now t start =>
      have hfree := h.unlocked hinv hu hin (by simp [SchedPc.claims])
      simp only [SchedState.schedule] at hs
      split at hs
      next =>
        cases hs
        exact h.goto hkeeps rfl rfl hpos
      next hno =>
        cases hs
        refine h.goto hkeeps rfl rfl ⟨hpos, ?_⟩
        rintro rfl
        exact hno (by rw [h.permit, hfree]; rfl)
  | tryLock now t start =>
      have hfree := h.unlocked hinv hu hin (by simp [SchedPc.claims])
      simp only [SchedState.schedule] at hs
      split at hs
      next hlocked =>
        cases hs
        refine h.goto hkeeps rfl rfl ⟨hpos, ?_⟩
        rintro rfl
        rw [hfree] at hlocked
        cases hlocked
      next =>
        cases hs
        exact h.goto hkeeps rfl rfl hpos
  | recheck now t start =>
      simp only [SchedState.schedule] at hs
      split at hs
      next =>
        cases hs
        exact h.goto hkeeps rfl rfl ⟨start, hpos⟩
      next hno =>
        cases hs
        refine h.goto hkeeps rfl rfl ⟨hpos, ?_⟩
        rintro rfl
        exact hno h.permit
  | advance now t start =>
      obtain ⟨hne, hscan⟩ := hpos.1.advance hpos.2
      simp only [SchedState.schedule, if_neg hne] at hs
      cases hs
      exact h.goto hkeeps rfl rfl hscan
  | found t =>
      obtain ⟨start, hscan⟩ := hpos
      have hidle : t ≠ c.idleThreads p := fun heq => c.idle_notMem p (heq ▸ hinv.looks p _ hin t rfl)
      have hcur : s'.currentThreads p = some t ∧ s'.inside = none := by
        simp only [SchedState.schedule] at hs
        split at hs <;> (cases hs; exact ⟨update_self .., rfl⟩)
      have hne : t ≠ u := fun heq => halone p (heq ▸ hcur.1)
      refine ⟨halone, hkeeps.permit u h.permit, hkeeps.going ▸ h.going, fun _ => ?_, fun pc hpc => ?_⟩
      · rw [SchedState.lookFrom, hcur.1]
        simp only [if_neg hidle]
        exact hscan.nearer hne
      · rw [hcur.2] at hpc
        cases hpc
  | notFound | toIdle => exact hpos.elim

/-- What has nothing to do with the processor. -/
theorem Waits.congr (h : Waits c u p k s) (hcur : s'.currentThreads p = s.currentThreads p)
    (halone : ∀ q, s'.currentThreads q ≠ some u) (hpermit : (s'.thread u).permitRunning = true)
    (hgoing : s'.continueThisThread p = false)
    (hin : ∀ pc, s'.inside = some (p, pc) ↔ s.inside = some (p, pc)) : Waits c u p k s' where
  alone := halone
  permit := hpermit
  going := hgoing
  outside hout := SchedState.lookFrom_congr hcur ▸ h.outside fun pc hpc => hout pc ((hin pc).mpr hpc)
  inside pc hpc := SchedState.lookFrom_congr hcur ▸ h.inside pc ((hin pc).mp hpc)

theorem permit_step (h : (s.thread u).permitRunning = true) (hs : s.step c act = some s')
    (hstop : act ≠ .stopThread u) : (s'.thread u).permitRunning = true := by
  cases act with
  | interrupt q now =>
      simp only [SchedState.step] at hs
      split at hs
      next =>
        cases hs
        exact h
      next => cases hs
  | schedule =>
      obtain ⟨⟨q, pc⟩, -, hs⟩ := Option.bind_eq_some_iff.mp hs
      exact (schedule_keeps hs).permit u h
  | startThread t =>
      cases hs
      show (update s.thread t (s.thread t).startThread u).permitRunning = true
      by_cases hut : u = t
      · subst hut
        rw [update_self]
        exact Thread.startThread_permit h
      · rw [update_of_ne hut]
        exact h
  | stopThread t =>
      cases hs
      show (update s.thread t (s.thread t).stopThread u).permitRunning = true
      rw [update_of_ne]
      · exact h
      · rintro rfl
        exact hstop rfl
  | continueThisThread q | resumeScheduling q =>
      cases hs
      exact h

theorem going_step (h : s.continueThisThread p = false) (hs : s.step c act = some s')
    (hcontinue : act ≠ .continueThisThread p) : s'.continueThisThread p = false := by
  cases act with
  | interrupt q now =>
      simp only [SchedState.step] at hs
      split at hs
      next =>
        cases hs
        exact h
      next => cases hs
  | schedule =>
      obtain ⟨⟨q, pc⟩, -, hs⟩ := Option.bind_eq_some_iff.mp hs
      rw [(schedule_keeps hs).going, h]
  | startThread t | stopThread t =>
      cases hs
      exact h
  | continueThisThread q =>
      cases hs
      show update s.continueThisThread q true p = false
      rw [update_of_ne, h]
      rintro rfl
      exact hcontinue rfl
  | resumeScheduling q =>
      cases hs
      show update s.continueThisThread q false p = false
      by_cases hpq : p = q
      · subst hpq
        exact update_self ..
      · rw [update_of_ne hpq, h]

/-- **One step** uses up an interrupt if it is one of the processor. -/
theorem Waits.step (h : Waits c u p k s) (hinv : Inv c s) (hu : u ∈ c.threads) (hs : s.step c act = some s')
    (hstop : act ≠ .stopThread u) (hcontinue : act ≠ .continueThisThread p)
    (halone : ∀ q, s'.currentThreads q ≠ some u) :
    ∃ k', k' + (if act.interrupts p then 1 else 0) = k ∧ Waits c u p k' s' := by
  cases act with
  | interrupt q now =>
      simp only [SchedState.step] at hs
      split at hs
      next hnone =>
        cases hs
        obtain ⟨j, hj, hahead⟩ := h.outside fun pc hpc => by rw [hnone] at hpc; cases hpc
        by_cases hpq : p = q
        · subst hpq
          refine ⟨k - 1, by simp [SchedAct.interrupts]; omega, h.alone, h.permit, h.going,
            fun hout => absurd rfl (hout _), fun pc hpc => ?_⟩
          cases hpc
          exact ⟨j, by omega, hahead⟩
        · refine ⟨k, by simp [SchedAct.interrupts, hpq], h.congr rfl halone h.permit h.going fun pc => ?_⟩
          rw [hnone]
          simp only [SchedState.goto, Option.some.injEq, Prod.mk.injEq, reduceCtorEq, iff_false, not_and]
          exact fun heq => absurd heq.symm hpq
      next => cases hs
  | schedule =>
      obtain ⟨⟨q, pc⟩, hin, hs⟩ := Option.bind_eq_some_iff.mp hs
      refine ⟨k, rfl, ?_⟩
      by_cases hpq : q = p
      · subst hpq
        exact h.schedule hinv hu hin hs halone
      · have hkeeps := schedule_keeps hs
        refine h.congr (hkeeps.others p (Ne.symm hpq)) halone (hkeeps.permit u h.permit)
          (hkeeps.going ▸ h.going) fun pc' => ?_
        rw [hin]
        refine iff_of_false (fun hpc => hpq (hkeeps.inside p pc' hpc).symm) fun heq => ?_
        cases heq
        exact hpq rfl
  | startThread t | stopThread t | continueThisThread q | resumeScheduling q =>
      have hpermit := permit_step h.permit hs hstop
      have hgoing := going_step h.going hs hcontinue
      cases hs
      exact ⟨k, rfl, h.congr rfl halone hpermit hgoing fun _ => Iff.rfl⟩

/-- In the course of the steps some processor runs `u`. -/
def EverRuns (c : Cycle π τ) (u : τ) (s : SchedState π τ) (acts : List (SchedAct π τ)) : Prop :=
  ∃ before after s₁ q, acts = before ++ after ∧ run (SchedState.step c) anyInput s before = some s₁ ∧
    s₁.currentThreads q = some u

variable {acts : List (SchedAct π τ)}

theorem EverRuns.here (hq : s.currentThreads q = some u) : EverRuns c u s acts :=
  ⟨[], acts, s, q, rfl, rfl, hq⟩

theorem EverRuns.cons (hs : s.step c act = some s') (h : EverRuns c u s' acts) :
    EverRuns c u s (act :: acts) := by
  obtain ⟨before, after, s₁, q, rfl, hrun, hq⟩ := h
  refine ⟨act :: before, after, s₁, q, rfl, ?_, hq⟩
  rw [run, if_pos (show anyInput s act from trivial), hs, Option.bind_some, hrun]

/-- **A run** of a processor that has less than `k` interrupts left. -/
theorem Waits.run (hu : u ∈ c.threads) (h : Waits c u p k s) (hinv : Inv c s)
    (hrun : run (SchedState.step c) anyInput s acts = some s')
    (hacts : ∀ act ∈ acts, act ≠ .stopThread u ∧ act ≠ .continueThisThread p)
    (hcount : k < acts.countP (SchedAct.interrupts p)) : EverRuns c u s acts := by
  induction acts generalizing s k with
  | nil => exact absurd hcount (Nat.not_lt_zero k)
  | cons act acts ih =>
      rw [Runs.run, if_pos (show anyInput s act from trivial)] at hrun
      obtain ⟨s₁, hs, hrun⟩ := Option.bind_eq_some_iff.mp hrun
      obtain ⟨⟨hstop, hcontinue⟩, hrest⟩ := List.forall_mem_cons.mp hacts
      by_cases halone : ∀ q, s₁.currentThreads q ≠ some u
      · obtain ⟨k', hk', h'⟩ := h.step hinv hu hs hstop hcontinue halone
        rw [List.countP_cons] at hcount
        exact .cons hs (ih h' (hinv.step hs) hrun hrest (by omega))
      · obtain ⟨q, hq⟩ := not_forall.mp halone
        exact .cons hs (.here (not_not.mp hq))

/-- **No thread is passed over.**  A thread that may run all along, on any number of processors and whatever the
other threads do, is run by some processor before any one of them has been interrupted more often than there are
threads; but a processor that is told to continue its thread. -/
theorem scheduler_no_starvation {thread : τ → Thread} (hring : Ring c.nextThread c.threads)
    (hu : u ∈ c.threads) (hreach : Reach (SchedState.step c) anyInput (.start thread) s)
    (hpermit : (s.thread u).permitRunning = true) (hgoing : s.continueThisThread p = false)
    (hrun : run (SchedState.step c) anyInput s acts = some s')
    (hacts : ∀ act ∈ acts, act ≠ .stopThread u ∧ act ≠ .continueThisThread p)
    (hcount : c.threads.length < acts.countP (SchedAct.interrupts p)) : EverRuns c u s acts := by
  have hinv : Inv c s := hreach.invariant (.start thread) fun _ _ _ h _ hs => h.step hs
  clear hreach
  induction acts generalizing s with
  | nil => exact absurd hcount (Nat.not_lt_zero _)
  | cons act acts ih =>
      by_cases halone : ∀ q, s.currentThreads q ≠ some u
      swap
      · obtain ⟨q, hq⟩ := not_forall.mp halone
        exact .here (not_not.mp hq)
      have hrun' := hrun
      rw [Runs.run, if_pos (show anyInput s act from trivial)] at hrun'
      obtain ⟨s₁, hs, hrun'⟩ := Option.bind_eq_some_iff.mp hrun'
      obtain ⟨⟨hstop, hcontinue⟩, hrest⟩ := List.forall_mem_cons.mp hacts
      by_cases hinterrupt : act.interrupts p = true
      · -- the first interrupt of the processor, which is outside until then
        have houtside : s.inside = none := by
          cases act with
          | interrupt q now =>
              simp only [SchedState.step] at hs
              split at hs
              next hnone => exact hnone
              next => cases hs
          | _ => cases hinterrupt
        refine Waits.run hu ⟨halone, hpermit, hgoing, fun _ => hring.ahead (hinv.lookFrom_mem p) hu,
          fun pc hpc => ?_⟩ hinv hrun hacts hcount
        rw [houtside] at hpc
        cases hpc
      · rw [List.countP_cons_of_neg hinterrupt] at hcount
        exact .cons hs (ih (permit_step hpermit hs hstop) (going_step hgoing hs hcontinue) hrun' hrest hcount
          (hinv.step hs))

/-- A processor that is interrupted three times while the other thread waits. -/
theorem scheduler_no_starvation_two :
    EverRuns twoThreads (.inl true) (.start fun _ => { permitRunning := true })
      (List.replicate 3 (.interrupt false 0 :: List.replicate 6 .schedule)).flatten := by
  obtain ⟨s, hs⟩ := Option.isSome_iff_exists.mp
    (by decide : (run (SchedState.step twoThreads) anyInput (.start fun _ => { permitRunning := true })
      (List.replicate 3 (.interrupt false 0 :: List.replicate 6 .schedule)).flatten).isSome = true)
  exact scheduler_no_starvation (p := false) (ring_cons.mpr ⟨by decide, rfl, rfl⟩) (by simp [twoThreads])
    .refl rfl rfl hs (by simp) (by decide)

end Azalea.Proc.Sched
