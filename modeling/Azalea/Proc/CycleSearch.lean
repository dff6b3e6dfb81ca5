import Mathlib.Data.Fintype.Basic
import Mathlib.Data.List.Perm.Subperm
import Azalea.Proc.ThreadCycle

/-!
# Proc — looking for a thread to run while threads are destroyed

The loop of `task_get_next_thread` over the cycle of threads, and `task_thread::destroy_thread`, on any number
of processors.  A thread that destroys itself leaves the cycle while it is still the current one, and the
next search of its processor starts from its `next_thread`.

* `thread_cycle_searched`: the cycle is what was added and not removed, and every search comes to an end, in
  every run in which no thread is removed that such a search starts from.  Nothing keeps another processor
  from removing it, and then the search never meets its starting thread again
  (`search_from_removed_thread`).
-/

namespace Azalea.Proc
open Azalea.Rings Azalea.Runs Function

/-- Where a thread is in `destroy_thread`, called for a thread. -/
inductive DestroyPc (τ : Type*) where
  | outside
  /-- Before the look at `thread_destroyed`. -/
  | enter (thread : τ)
  | mark (thread : τ)
  -- of another thread
  | stop (thread : τ)
  | lock (thread : τ)
  | remove (thread : τ)
  -- of the thread itself
  | continueThisThread
  | removeSelf
  | stopSelf
  | resumeScheduling
  /-- In `task_yield`, for good. -/
  | yield
  deriving DecidableEq

/-- The thread that is destroyed, if it is another one. -/
def DestroyPc.target : DestroyPc τ → Option τ
  | .enter t | .mark t | .stop t | .lock t | .remove t => some t
  | _ => none

/-- The variables of the loop of `task_get_next_thread`. -/
structure Search (τ : Type*) where
  scheduleStartTime : Nat
  nextThread : τ
  startThread : τ
  deriving DecidableEq

/-- The cycle, the threads that have been created, and what each processor and each thread does.  `inside` is
the processor that holds `task_switch_lock`, if any. -/
structure SearchState (π τ : Type*) where
  cycle : ThreadCycle τ
  created : List τ
  thread : τ → Thread
  cycleLock : τ → Bool
  currentThreads : π → Option τ
  continueThisThread : π → Bool
  destroying : τ → DestroyPc τ
  inside : Option (π × Search τ)

/-- A step of a processor, in the scheduler or in its thread. -/
inductive SearchAct (π τ : Type*) where
  /-- A thread is constructed; it does not join the cycle if its process is being destroyed. -/
  | create (t : τ) (joins : Bool)
  /-- `start_thread`, `stop_thread`, and what else lets a thread run or sleep. -/
  | permit (t : τ) (permitRunning : Bool) (wakeThreadAfter : Nat)
  | continueThisThread (p : π)
  | resumeScheduling (p : π)
  /-- The thread of the processor calls `destroy_thread`. -/
  | destroy (p : π) (t : τ)
  /-- Its next step there. -/
  | next (p : π)
  /-- The interrupt that calls `task_get_next_thread`. -/
  | interrupt (p : π) (now : Nat)
  /-- A round of its loop. -/
  | consider

variable {π τ : Type*} [DecidableEq π] [DecidableEq τ]

namespace SearchState

/-- No thread has been created. -/
def init (next : τ → τ) (thread : τ → Thread) : SearchState π τ where
  cycle := ⟨none, next⟩
  created := []
  thread := thread
  cycleLock _ := false
  currentThreads _ := none
  continueThisThread _ := false
  destroying _ := .outside
  inside := none

variable (idleThreads : π → τ) (s : SearchState π τ)

def goto (d : τ) (pc : DestroyPc τ) : SearchState π τ :=
  { s with destroying := update s.destroying d pc }

def setThread (t : τ) (thread : Thread) : SearchState π τ :=
  { s with thread := update s.thread t thread }

def setLock (t : τ) (b : Bool) : SearchState π τ :=
  { s with cycleLock := update s.cycleLock t b }

def setContinue (p : π) (b : Bool) : SearchState π τ :=
  { s with continueThisThread := update s.continueThisThread p b }

/-- `task_thread_cycle_remove`: its loop makes no more rounds than there are threads. -/
def removeThread (t : τ) : Option (SearchState π τ) :=
  (s.cycle.remove s.created.length t).map fun cycle => { s with cycle := cycle }

/-- A step of the thread `d` in `destroy_thread`. -/
def destroyStep (p : π) (d : τ) : Option (SearchState π τ) :=
  match s.destroying d with
  | .outside | .yield => none
  | .enter t =>
      if (s.thread t).threadDestroyed then some (s.goto d .outside) else some (s.goto d (.mark t))
  | .mark t =>
      let s := s.setThread t { s.thread t with threadDestroyed := true }
      some (s.goto d (if t = d then .continueThisThread else .stop t))
  | .stop t => some ((s.setThread t (s.thread t).stopThread).goto d (.lock t))
  | .lock t => if s.cycleLock t then none else some ((s.setLock t true).goto d (.remove t))
  | .remove t => (s.removeThread t).map (·.goto d .outside)
  | .continueThisThread => some ((s.setContinue p true).goto d .removeSelf)
  | .removeSelf => (s.removeThread d).map (·.goto d .stopSelf)
  | .stopSelf => some ((s.setThread d (s.thread d).stopThread).goto d .resumeScheduling)
  | .resumeScheduling => some ((s.setContinue p false).goto d .yield)

/-- The thread that a search starts from; there is none if there is no cycle to be gone through. -/
def searchStart (p : π) : Option τ :=
  match s.currentThreads p with
  | some t => if t = idleThreads p then s.cycle.startOfThreadCycle else some (s.cycle.nextThread t)
  | none => s.cycle.startOfThreadCycle

/-- The processor turns to the thread and gives up the lock of its old one. -/
def switchTo (p : π) (t : τ) : SearchState π τ :=
  let s := match s.currentThreads p with
    | some u => s.setLock u false
    | none => s
  { s with currentThreads := update s.currentThreads p (some t), inside := none }

/-- The search has come back to where it started. -/
def notFound (p : π) : SearchState π τ :=
  match s.currentThreads p with
  | some u =>
      if (s.thread u).permitRunning then { s with inside := none } else s.switchTo p (idleThreads p)
  | none => s.switchTo p (idleThreads p)

/-- A round of the loop of `task_get_next_thread`. -/
def considerThread (p : π) (search : Search τ) : SearchState π τ :=
  let t := search.nextThread
  let s := s.setThread t ((s.thread t).timedWake search.scheduleStartTime)
  if (s.thread t).permitRunning && !s.cycleLock t then
    (s.switchTo p t).setLock t true
  else if s.cycle.nextThread t = search.startThread then s.notFound idleThreads p
  else { s with inside := some (p, { search with nextThread := s.cycle.nextThread t }) }

/-- The thread that runs on a processor. -/
def running (p : π) : Option τ :=
  if s.inside.any (·.1 = p) then none else s.currentThreads p

/-- One step. -/
def step : SearchAct π τ → Option (SearchState π τ)
  | .create t joins =>
      let s := { s with created := t :: s.created }
      some (if joins then { s.setLock t false with cycle := s.cycle.add t } else s)
  | .permit t permitRunning wakeThreadAfter =>
      some (s.setThread t { s.thread t with permitRunning, wakeThreadAfter })
  | .continueThisThread p => some (s.setContinue p true)
  | .resumeScheduling p => some (s.setContinue p false)
  | .destroy p t => (s.running p).bind fun d =>
      if s.destroying d = .outside ∧ t ∈ s.created then some (s.goto d (.enter t)) else none
  | .next p => (s.running p).bind fun d => s.destroyStep p d
  | .interrupt p now =>
      match s.inside with
      | some _ => none
      | none =>
          if s.continueThisThread p then (s.currentThreads p).map fun _ => s
          else (s.searchStart idleThreads p).map fun t => { s with inside := some (p, ⟨now, t, t⟩) }
  | .consider => s.inside.map fun i => s.considerThread idleThreads i.1 i.2

/-- The processor inside goes on by itself, until it has left the loop. -/
def searchAlone : Nat → SearchState π τ → Option (SearchState π τ)
  | 0, _ => none
  | fuel + 1, s =>
      match s.inside with
      | none => some s
      | some (p, search) => searchAlone fuel (s.considerThread idleThreads p search)

/-- The loop comes to an end. -/
def EndsAlone : Prop := ∃ fuel, (searchAlone idleThreads fuel s).isSome

/-- The search that goes on comes to an end, and so does every search that may begin. -/
structure Searched : Prop where
  inside : s.EndsAlone idleThreads
  begins : ∀ p now s', s.step idleThreads (.interrupt p now) = some s' → s'.EndsAlone idleThreads

/-- The thread is in the cycle. -/
def InCycle (t : τ) : Prop := ∃ start ∈ s.cycle.startOfThreadCycle, ∃ n, s.cycle.nextThread^[n] start = t

/-- The thread that is taken out of the cycle by a step. -/
def removes : SearchAct π τ → Option τ
  | .next p => (s.running p).bind fun d =>
      match s.destroying d with
      | .remove t => some t
      | .removeSelf => some d
      | _ => none
  | _ => none

/-- A thread that is constructed is a new one, and none of the idle threads. -/
def Fresh : SearchAct π τ → Prop
  | .create t _ => t ∉ s.created ∧ ∀ p, t ≠ idleThreads p
  | _ => True

/-- What is removed is in the cycle, and no search starts from it: neither one that goes on, nor the next one
of a processor whose thread has left the cycle. -/
def Spares (act : SearchAct π τ) : Prop :=
  ∀ t ∈ s.removes act, s.InCycle t ∧ (∀ i ∈ s.inside, i.2.startThread ≠ t) ∧
    ∀ q c, s.currentThreads q = some c → c ≠ idleThreads q → ¬ s.InCycle c → s.cycle.nextThread c ≠ t

/-! ### What holds between the steps -/

/-- A thread that a processor runs has left the cycle only with its link into it, or as the last one. -/
structure CurrentOk (next : τ → τ) (lock : τ → Bool) (current : π → Option τ) (created l : List τ) (p : π)
    (t : τ) : Prop where
  created : t ∈ created
  locked : lock t = true
  link : t ∈ l ∨ next t ∈ l ∨ next t = t
  only : ∀ q, current q = some t → q = p

/-- A search starts in the cycle and is on its way there: threads that have left the cycle meanwhile are
locked.  Or it goes round in the last thread that has left it. -/
def SearchingOk (next : τ → τ) (lock : τ → Bool) (l : List τ) (search : Search τ) : Prop :=
  search.startThread ∈ l ∧ Leads next (lock · = true) l search.nextThread ∨
    search.nextThread = search.startThread ∧ next search.startThread = search.startThread ∧
      lock search.startThread = true

/-- The invariant; `l` are the threads in the cycle. -/
structure Inv (l : List τ) : Prop where
  forms : s.cycle.Forms l
  created : ∀ t ∈ l, t ∈ s.created
  idle : ∀ p, idleThreads p ∉ s.created
  current : ∀ p t, s.currentThreads p = some t →
    t = idleThreads p ∨ CurrentOk s.cycle.nextThread s.cycleLock s.currentThreads s.created l p t
  target : ∀ d, ∀ t ∈ (s.destroying d).target, t ∈ s.created
  /-- The lock of a thread that another one is about to remove is held by that one. -/
  removing : ∀ d t, s.destroying d = .remove t → s.cycleLock t = true ∧ ∀ p, s.currentThreads p ≠ some t
  searching : ∀ i ∈ s.inside, SearchingOk s.cycle.nextThread s.cycleLock l i.2

section
variable {idleThreads} {s} {s' : SearchState π τ} {l : List τ} {p : π} {t d u : τ} {search : Search τ}

omit [DecidableEq π] in
theorem Inv.init (next : τ → τ) (thread : τ → Thread) :
    (init next thread : SearchState π τ).Inv idleThreads [] where
  forms := .empty next
  created _ h := absurd h List.not_mem_nil
  idle _ := List.not_mem_nil
  current _ _ h := by cases h
  target _ _ h := by cases h
  removing _ _ h := by cases h
  searching _ h := by cases h

omit [DecidableEq π] in
theorem Inv.setThread (h : s.Inv idleThreads l) (thread : Thread) :
    (s.setThread t thread).Inv idleThreads l :=
  ⟨h.forms, h.created, h.idle, h.current, h.target, h.removing, h.searching⟩

omit [DecidableEq τ] in
theorem Inv.setContinue (h : s.Inv idleThreads l) (b : Bool) :
    (s.setContinue p b).Inv idleThreads l :=
  ⟨h.forms, h.created, h.idle, h.current, h.target, h.removing, h.searching⟩

omit [DecidableEq π] [DecidableEq τ] in
theorem Inv.nodup (h : s.Inv idleThreads l) : l.Nodup := h.forms.1.nodup

omit [DecidableEq π] in
/-- A thread goes on in `destroy_thread`. -/
theorem Inv.goto {pc : DestroyPc τ} (h : s.Inv idleThreads l) (htarget : ∀ t ∈ pc.target, t ∈ s.created)
    (hremoving : ∀ t, pc = .remove t → s.cycleLock t = true ∧ ∀ p, s.currentThreads p ≠ some t) :
    (s.goto d pc).Inv idleThreads l := by
  refine ⟨h.forms, h.created, h.idle, h.current, fun e t ht => ?_, fun e t ht => ?_, h.searching⟩
  · change t ∈ (update s.destroying d pc e).target at ht
    rw [update_apply] at ht
    split at ht
    next => exact htarget t ht
    next => exact h.target e t ht
  · change update s.destroying d pc e = .remove t at ht
    rw [update_apply] at ht
    split at ht
    next => exact hremoving t ht
    next => exact h.removing e t ht

section
omit [DecidableEq π] [DecidableEq τ]

/-- What a running thread is to the cycle, when links and locks have changed elsewhere. -/
theorem CurrentOk.congr {next next' : τ → τ} {lock lock' : τ → Bool} {current : π → Option τ}
    {created created' l l' : List τ} (h : CurrentOk next lock current created l p t)
    (hcreated : t ∈ created → t ∈ created') (hlock : lock' t = lock t)
    (hlink : t ∈ l' ∨ next' t ∈ l' ∨ next' t = t) : CurrentOk next' lock' current created' l' p t :=
  ⟨hcreated h.created, hlock.trans h.locked, hlink, h.only⟩

theorem Inv.not_idle (h : s.Inv idleThreads l) (ht : t ∈ s.created) (p : π) : t ≠ idleThreads p :=
  fun heq => h.idle p (heq ▸ ht)

/-- A thread that is current and not idle. -/
theorem Inv.current_of_created (h : s.Inv idleThreads l) (ht : t ∈ s.created)
    (hcur : s.currentThreads p = some t) :
    CurrentOk s.cycle.nextThread s.cycleLock s.currentThreads s.created l p t :=
  (h.current p t hcur).resolve_left (h.not_idle ht p)

end

omit [DecidableEq π] in
/-- A new thread comes into the cycle. -/
theorem Inv.add (h : s.Inv idleThreads l) (hnew : t ∉ s.created) (hidle : ∀ p, t ≠ idleThreads p) :
    ∃ l', Inv idleThreads { s.setLock t false with
      created := t :: s.created, cycle := s.cycle.add t } l' := by
  obtain ⟨l', hforms, hperm, hframe⟩ := h.forms.add fun hmem => hnew (h.created t hmem)
  have hmem : ∀ u, u ∈ l' ↔ u = t ∨ u ∈ l := fun u => by rw [hperm.mem_iff, List.mem_cons]
  have hlock : ∀ u, u ≠ t → update s.cycleLock t false u = s.cycleLock u := fun u hu => update_of_ne hu ..
  have hnext : ∀ u, u ≠ t → u ∉ l → (s.cycle.add t).nextThread u = s.cycle.nextThread u := fun u hu hul =>
    hframe u fun hm => ((hmem u).mp hm).elim hu hul
  refine ⟨l', hforms, fun u hu => ?_, fun p hp => ?_, fun p u hcur => ?_, fun e u hu => ?_,
    fun e u hu => ?_, fun i hi => ?_⟩
  · exact List.mem_cons.mpr (((hmem u).mp hu).imp_right (h.created u))
  · exact (List.mem_cons.mp hp).elim (fun heq => hidle p heq.symm) (h.idle p)
  · refine (h.current p u hcur).imp_right fun hu => ?_
    have hut : u ≠ t := fun heq => hnew (heq ▸ hu.created)
    refine hu.congr (List.mem_cons_of_mem _) (hlock u hut) ?_
    by_cases hul : u ∈ l
    · exact .inl ((hmem u).mpr (.inr hul))
    · dsimp only
      rw [hnext u hut hul]
      exact .inr ((hu.link.resolve_left hul).imp_left fun hlink => (hmem _).mpr (.inr hlink))
  · exact List.mem_cons_of_mem _ (h.target e u hu)
  · have hut : u ≠ t := by
      rintro rfl
      exact hnew (h.target e u (by rw [show s.destroying e = .remove u from hu]; rfl))
    exact ⟨(hlock u hut).trans (h.removing e u hu).1, (h.removing e u hu).2⟩
  · rcases h.searching i hi with ⟨hstart, hleads⟩ | ⟨hsame, hself, hlocked⟩
    · refine .inl ⟨(hmem _).mpr (.inr hstart), hleads.congr (fun u hu => .here ((hmem u).mpr (.inr hu))) ?_⟩
      intro u hu hul
      by_cases hut : u = t
      · exact .inl (.here ((hmem u).mpr (.inl hut)))
      · exact .inr ⟨hnext u hut hul, (hlock u hut).trans hu⟩
    · by_cases hin : i.2.startThread ∈ l'
      · exact .inl ⟨hin, hsame ▸ .here hin⟩
      · have hut : i.2.startThread ≠ t := fun heq => hin ((hmem _).mpr (.inl heq))
        exact .inr ⟨hsame, (hframe _ hin).trans hself, (hlock _ hut).trans hlocked⟩

omit [DecidableEq π] [DecidableEq τ] in
theorem Forms.inCycle_iff (h : s.cycle.Forms l) : s.InCycle t ↔ t ∈ l := by
  constructor
  · rintro ⟨start, hstart, n, rfl⟩
    rw [h.2] at hstart
    exact h.1.iterate_mem (List.mem_of_head? hstart) n
  · intro ht
    cases l with
    | nil => cases ht
    | cons x xs => exact ⟨x, h.2, h.1.reaches ht⟩

omit [DecidableEq π] in
/-- **A thread is taken out of the cycle.**  Its lock is held, and no search starts from it. -/
theorem Inv.removeThread (h : s.Inv idleThreads l) (ht : t ∈ l) (hlock : s.cycleLock t = true)
    (hstart : ∀ i ∈ s.inside, i.2.startThread ≠ t)
    (hlinked : ∀ q c, s.currentThreads q = some c → c ≠ idleThreads q → c ∉ l → s.cycle.nextThread c ≠ t)
    (hs : s.removeThread t = some s') : ∃ l', s'.Inv idleThreads l' := by
  have hfuel : l.length ≤ s.created.length :=
    (List.subperm_of_subset h.nodup h.created).length_le
  obtain ⟨cycle, l', hremove, hforms, hperm, hframe, hnext⟩ := h.forms.remove ht hfuel
  rw [SearchState.removeThread, hremove] at hs
  obtain rfl := Option.some.inj hs
  have hmem : ∀ u, u ∈ l' ↔ u ≠ t ∧ u ∈ l := fun u => by rw [hperm.mem_iff, h.nodup.mem_erase_iff]
  have htout : t ∉ l' := fun hm => ((hmem t).mp hm).1 rfl
  refine ⟨l', hforms, fun u hu => h.created u ((hmem u).mp hu).2, h.idle, fun p u hcur => ?_, h.target,
    h.removing, fun i hi => ?_⟩
  · by_cases hidle : u = idleThreads p
    · exact .inl hidle
    · have hu := (h.current p u hcur).resolve_left hidle
      refine .inr (hu.congr id rfl ?_)
      dsimp only
      by_cases hut : u = t
      · subst hut
        rw [hframe u htout]
        exact .inr (hnext.imp_right And.left)
      · by_cases hul : u ∈ l
        · exact .inl ((hmem u).mpr ⟨hut, hul⟩)
        · rw [hframe u fun hm => hul ((hmem u).mp hm).2]
          refine .inr ((hu.link.resolve_left hul).imp_left fun hlink => ?_)
          exact (hmem _).mpr ⟨hlinked p u hcur hidle hul, hlink⟩
  · rcases h.searching i hi with ⟨hin, hleads⟩ | ⟨hsame, hself, hlocked⟩
    · have hin' : i.2.startThread ∈ l' := (hmem _).mpr ⟨hstart i hi, hin⟩
      -- the cycle is not empty, so that the thread is still linked into it
      have hnext' : cycle.nextThread t ∈ l' := by
        rw [hframe t htout]
        refine hnext.resolve_right ?_
        rintro ⟨-, rfl⟩
        cases hin'
      refine .inl ⟨hin', hleads.congr (fun u hu => ?_) fun u hu hul => ?_⟩
      · by_cases hut : u = t
        · subst hut
          exact .skip hlock (.here hnext')
        · exact .here ((hmem u).mpr ⟨hut, hu⟩)
      · exact .inr ⟨hframe u fun hm => hul ((hmem u).mp hm).2, hu⟩
    · by_cases hin : i.2.startThread ∈ l'
      · exact .inl ⟨hin, hsame ▸ .here hin⟩
      · exact .inr ⟨hsame, (hframe _ hin).trans hself, hlocked⟩

omit [DecidableEq π] in
/-- A lock is taken. -/
theorem Inv.takeLock (h : s.Inv idleThreads l) (t : τ) : (s.setLock t true).Inv idleThreads l := by
  have hlock : ∀ u, s.cycleLock u = true → update s.cycleLock t true u = true := by
    intro u hu
    rw [update_apply]
    split
    · rfl
    · exact hu
  refine ⟨h.forms, h.created, h.idle, fun p u hcur => ?_, h.target, fun e u hu => ?_, fun i hi => ?_⟩
  · exact (h.current p u hcur).imp_right fun hu => ⟨hu.created, hlock u hu.locked, hu.link, hu.only⟩
  · exact ⟨hlock u (h.removing e u hu).1, (h.removing e u hu).2⟩
  · refine (h.searching i hi).imp ?_ ?_
    · exact fun hi' => ⟨hi'.1, hi'.2.congr (fun _ => .here) fun u hu _ => .inr ⟨rfl, hlock u hu⟩⟩
    · exact fun hi' => ⟨hi'.1, hi'.2.1, hlock _ hi'.2.2⟩

omit [DecidableEq τ] in
theorem running_eq_some (h : s.running p = some d) : s.currentThreads p = some d := by
  unfold running at h
  split at h
  next => cases h
  next => exact h

/-- A step that removes a thread, for a thread whose lock is held. -/
theorem Inv.removes (h : s.Inv idleThreads l) {act : SearchAct π τ} (hspares : s.Spares idleThreads act)
    (ht : s.removes act = some t) (hlock : t ∈ s.created → s.cycleLock t = true)
    (hs : s.removeThread t = some s') : ∃ l', s'.Inv idleThreads l' := by
  obtain ⟨hin, hstart, hlinked⟩ := hspares t ht
  have hmem := (Forms.inCycle_iff h.forms).mp hin
  exact h.removeThread hmem (hlock (h.created t hmem)) hstart
    (fun q c hcur hidle hc => hlinked q c hcur hidle fun hin => hc ((Forms.inCycle_iff h.forms).mp hin)) hs

/-- **A step in `destroy_thread`.** -/
theorem Inv.destroyStep (h : s.Inv idleThreads l) (hrun : s.running p = some d)
    (hspares : s.Spares idleThreads (.next p)) (hs : s.destroyStep p d = some s') :
    ∃ l', s'.Inv idleThreads l' := by
  have htarget : ∀ t, (s.destroying d).target = some t → t ∈ s.created := h.target d
  unfold SearchState.destroyStep at hs
  cases hpc : s.destroying d with
  | outside | yield =>
      rw [hpc] at hs
      cases hs
  | enter t =>
      simp only [hpc] at hs
      rw [hpc] at htarget
      split at hs
      · obtain rfl := Option.some.inj hs
        exact ⟨l, h.goto nofun nofun⟩
      · obtain rfl := Option.some.inj hs
        exact ⟨l, h.goto htarget nofun⟩
  | mark t =>
      simp only [hpc] at hs
      rw [hpc] at htarget
      obtain rfl := Option.some.inj hs
      refine ⟨l, (h.setThread _).goto ?_ ?_⟩
      · split
        · exact nofun
        · exact htarget
      · split <;> exact nofun
  | stop t =>
      simp only [hpc] at hs
      rw [hpc] at htarget
      obtain rfl := Option.some.inj hs
      exact ⟨l, (h.setThread _).goto htarget nofun⟩
  | lock t =>
      simp only [hpc] at hs
      rw [hpc] at htarget
      split at hs
      next => cases hs
      next hfree =>
        obtain rfl := Option.some.inj hs
        refine ⟨l, (h.takeLock t).goto htarget ?_⟩
        rintro u ⟨rfl⟩
        refine ⟨update_self .., fun q hcur => hfree ?_⟩
        exact (h.current_of_created (htarget t rfl) hcur).locked
  | remove t =>
      simp only [hpc] at hs
      obtain ⟨s₁, hs₁, rfl⟩ := Option.map_eq_some_iff.mp hs
      have hremoves : s.removes (.next p) = some t := by
        rw [SearchState.removes, hrun, Option.bind_some, hpc]
      obtain ⟨l', h'⟩ := h.removes hspares hremoves (fun _ => (h.removing d t hpc).1) hs₁
      exact ⟨l', h'.goto nofun nofun⟩
  | continueThisThread =>
      simp only [hpc] at hs
      obtain rfl := Option.some.inj hs
      exact ⟨l, (h.setContinue true).goto nofun nofun⟩
  | removeSelf =>
      simp only [hpc] at hs
      obtain ⟨s₁, hs₁, rfl⟩ := Option.map_eq_some_iff.mp hs
      have hremoves : s.removes (.next p) = some d := by
        rw [SearchState.removes, hrun, Option.bind_some, hpc]
      obtain ⟨l', h'⟩ := h.removes hspares hremoves
        (fun hd => (h.current_of_created hd (running_eq_some hrun)).locked) hs₁
      exact ⟨l', h'.goto nofun nofun⟩
  | stopSelf =>
      simp only [hpc] at hs
      obtain rfl := Option.some.inj hs
      exact ⟨l, (h.setThread _).goto nofun nofun⟩
  | resumeScheduling =>
      simp only [hpc] at hs
      obtain rfl := Option.some.inj hs
      exact ⟨l, (h.setContinue false).goto nofun nofun⟩

omit [DecidableEq τ] in
/-- A processor turns to its idle thread, or to a thread of the cycle that it has locked, and has given up the
lock of its old thread. -/
theorem Inv.turn (h : s.Inv idleThreads l) {lock : τ → Bool}
    (hlock : ∀ u, s.cycleLock u = true → s.currentThreads p ≠ some u → lock u = true)
    (ht : t = idleThreads p ∨ t ∈ l ∧ s.cycleLock t = false ∧ lock t = true) :
    Inv idleThreads { s with
      cycleLock := lock, currentThreads := update s.currentThreads p (some t), inside := none } l := by
  -- the new thread was not locked before
  have hother : ∀ u ∈ s.created, s.cycleLock u = true → t ≠ u := by
    rintro u hu hlocked rfl
    rcases ht with rfl | ⟨-, hfree, -⟩
    · exact h.idle p hu
    · rw [hfree] at hlocked
      cases hlocked
  refine ⟨h.forms, h.created, h.idle, fun q u hcur => ?_, h.target, fun e u hu => ?_, nofun⟩
  · dsimp only at hcur
    rw [update_apply] at hcur
    split at hcur
    next hq =>
      obtain rfl := Option.some.inj hcur
      subst hq
      refine ht.imp_right fun ⟨hmem, hfree, hlocked⟩ => ⟨h.created t hmem, hlocked, .inl hmem, fun q' hq' => ?_⟩
      dsimp only at hq'
      rw [update_apply] at hq'
      split at hq'
      next heq => exact heq
      next =>
        have := (h.current_of_created (h.created t hmem) hq').locked
        rw [hfree] at this
        cases this
    next hq =>
      refine (h.current q u hcur).imp_right fun hu => ?_
      refine ⟨hu.created, hlock u hu.locked fun hp => hq (hu.only p hp).symm, hu.link, fun q' hq' => ?_⟩
      dsimp only at hq'
      rw [update_apply] at hq'
      split at hq'
      next => exact absurd (Option.some.inj hq') (hother u hu.created hu.locked)
      next => exact hu.only q' hq'
  · obtain ⟨hlocked, hfree⟩ := h.removing e u hu
    have hcreated := h.target e u (by rw [show s.destroying e = .remove u from hu]; rfl)
    refine ⟨hlock u hlocked (hfree p), fun q hq => ?_⟩
    dsimp only at hq
    rw [update_apply] at hq
    split at hq
    next => exact hother u hcreated hlocked (Option.some.inj hq)
    next => exact hfree q hq

/-- The lock of the old thread. -/
theorem switchTo_eq (p : π) (t : τ) : s.switchTo p t = { s with
    cycleLock := fun u => s.cycleLock u && s.currentThreads p != some u
    currentThreads := update s.currentThreads p (some t)
    inside := none } := by
  unfold switchTo
  cases s.currentThreads p with
  | none => rw [show (fun u => s.cycleLock u && none != some u) = s.cycleLock from funext fun u => by simp]
  | some v =>
      simp only [SearchState.setLock, SearchState.mk.injEq, true_and, and_true]
      funext u
      rw [update_apply]
      by_cases hu : u = v
      · simp [hu]
      · simp [hu, Ne.symm hu]

theorem Inv.toIdle (h : s.Inv idleThreads l) (p : π) : (s.switchTo p (idleThreads p)).Inv idleThreads l := by
  rw [switchTo_eq]
  refine h.turn (fun u hu hne => ?_) (.inl rfl)
  simp [hu, hne]

omit [DecidableEq π] [DecidableEq τ] in
theorem Inv.leave (h : s.Inv idleThreads l) : Inv idleThreads { s with inside := none } l :=
  ⟨h.forms, h.created, h.idle, h.current, h.target, h.removing, nofun⟩

theorem Inv.notFound (h : s.Inv idleThreads l) (p : π) : (s.notFound idleThreads p).Inv idleThreads l := by
  unfold SearchState.notFound
  split
  next =>
    split
    · exact h.leave
    · exact h.toIdle p
  next => exact h.toIdle p

/-- **A round of the loop.** -/
theorem Inv.considerThread (h : s.Inv idleThreads l) (hsearch : (p, search) ∈ s.inside) :
    (s.considerThread idleThreads p search).Inv idleThreads l := by
  have hok := h.searching _ hsearch
  have h := h.setThread (t := search.nextThread)
    ((s.thread search.nextThread).timedWake search.scheduleStartTime)
  unfold SearchState.considerThread
  dsimp only
  split
  next hfound =>
    -- a thread that is not locked has not left the cycle
    rw [Bool.and_eq_true, Bool.not_eq_true'] at hfound
    have hfree : s.cycleLock search.nextThread = false := hfound.2
    have hmem : search.nextThread ∈ l := by
      rcases hok with ⟨-, hleads⟩ | ⟨hsame, -, hlocked⟩
      · cases hleads with
        | here hmem => exact hmem
        | skip hlocked =>
            rw [hfree] at hlocked
            cases hlocked
      · rw [← hsame, hfree] at hlocked
        cases hlocked
    rw [switchTo_eq]
    refine h.turn (fun u hu hne => ?_) (.inr ⟨hmem, hfree, update_self ..⟩)
    rw [update_apply]
    split
    · rfl
    · have hu : s.cycleLock u = true := hu
      have hne : s.currentThreads p ≠ some u := hne
      simp [SearchState.setThread, hu, hne]
  next =>
    split
    next => exact h.notFound p
    next hgo =>
      refine ⟨h.forms, h.created, h.idle, h.current, h.target, h.removing, ?_⟩
      rintro i ⟨rfl⟩
      rcases hok with ⟨hstart, hleads⟩ | ⟨hsame, hself, -⟩
      · refine .inl ⟨hstart, ?_⟩
        cases hleads with
        | here hmem => exact .here (h.forms.1.next_mem hmem)
        | skip _ hleads => exact hleads
      · rw [hsame] at hgo
        exact absurd hself hgo

omit [DecidableEq π] in
/-- A search begins. -/
theorem Inv.begin {now : Nat} (h : s.Inv idleThreads l) (ht : s.searchStart idleThreads p = some t) :
    Inv idleThreads { s with inside := some (p, ⟨now, t, t⟩) } l := by
  refine ⟨h.forms, h.created, h.idle, h.current, h.target, h.removing, ?_⟩
  rintro i ⟨rfl⟩
  have hstart : s.cycle.startOfThreadCycle = some t → t ∈ l := fun hs => by
    rw [h.forms.2] at hs
    exact List.mem_of_head? hs
  have hfrom : t ∈ l → SearchingOk s.cycle.nextThread s.cycleLock l ⟨now, t, t⟩ :=
    fun hmem => .inl ⟨hmem, .here hmem⟩
  unfold SearchState.searchStart at ht
  split at ht
  next u hcur =>
    split at ht
    next => exact hfrom (hstart ht)
    next hidle =>
      obtain rfl := Option.some.inj ht
      have hu := (h.current p u hcur).resolve_left hidle
      rcases hu.link with hmem | hmem | hself
      · exact hfrom (h.forms.1.next_mem hmem)
      · exact hfrom hmem
      · exact .inr ⟨rfl, by dsimp only; rw [hself, hself], by dsimp only; rw [hself]; exact hu.locked⟩
  next => exact hfrom (hstart ht)

/-- **Every step keeps the invariant.** -/
theorem Inv.step {act : SearchAct π τ} (h : s.Inv idleThreads l) (hfresh : s.Fresh idleThreads act)
    (hspares : s.Spares idleThreads act) (hs : s.step idleThreads act = some s') :
    ∃ l', s'.Inv idleThreads l' := by
  cases act with
  | create t joins =>
      obtain rfl := Option.some.inj hs
      cases joins with
      | true => exact h.add hfresh.1 hfresh.2
      | false =>
          have hkeep : ∀ u ∈ s.created, u ∈ t :: s.created := fun u hu => List.mem_cons_of_mem _ hu
          refine ⟨l, h.forms, fun u hu => hkeep u (h.created u hu), fun p hp => ?_, fun p u hcur => ?_,
            fun e u hu => hkeep u (h.target e u hu), h.removing, h.searching⟩
          · exact (List.mem_cons.mp hp).elim (fun heq => hfresh.2 p heq.symm) (h.idle p)
          · exact (h.current p u hcur).imp_right fun hu => hu.congr (hkeep u) rfl hu.link
  | permit t permitRunning wakeThreadAfter =>
      obtain rfl := Option.some.inj hs
      exact ⟨l, h.setThread _⟩
  | continueThisThread p =>
      obtain rfl := Option.some.inj hs
      exact ⟨l, h.setContinue true⟩
  | resumeScheduling p =>
      obtain rfl := Option.some.inj hs
      exact ⟨l, h.setContinue false⟩
  | destroy p t =>
      obtain ⟨d, -, hs⟩ := Option.bind_eq_some_iff.mp hs
      split at hs
      next hd =>
        obtain rfl := Option.some.inj hs
        refine ⟨l, h.goto ?_ nofun⟩
        rintro u ⟨rfl⟩
        exact hd.2
      next => cases hs
  | next p =>
      obtain ⟨d, hrun, hs⟩ := Option.bind_eq_some_iff.mp hs
      exact h.destroyStep hrun hspares hs
  | interrupt p now =>
      simp only [SearchState.step] at hs
      split at hs
      next => cases hs
      next =>
        split at hs
        next =>
          obtain ⟨-, -, rfl⟩ := Option.map_eq_some_iff.mp hs
          exact ⟨l, h⟩
        next =>
          obtain ⟨t, ht, rfl⟩ := Option.map_eq_some_iff.mp hs
          exact ⟨l, h.begin ht⟩
  | consider =>
      obtain ⟨⟨p, search⟩, hsearch, rfl⟩ := Option.map_eq_some_iff.mp hs
      exact ⟨l, h.considerThread hsearch⟩

/-! ### The end of a search -/

theorem searchAlone_of_left (hin : s.inside = none) : s.EndsAlone idleThreads :=
  ⟨1, by rw [searchAlone, hin]; rfl⟩

theorem inside_switchTo : (s.switchTo p t).inside = none := by rw [switchTo_eq]

theorem inside_notFound : (s.notFound idleThreads p).inside = none := by
  unfold SearchState.notFound
  split
  next =>
    split
    · rfl
    · exact inside_switchTo
  next => exact inside_switchTo

/-- What a round leaves: the search has ended, or it is at the next thread, which is not the one it started
from, and the links are the same. -/
theorem considerThread_cases (s : SearchState π τ) (p : π) (search : Search τ) :
    (s.considerThread idleThreads p search).inside = none ∨
      s.cycle.nextThread search.nextThread ≠ search.startThread ∧
        (s.considerThread idleThreads p search).inside =
          some (p, { search with nextThread := s.cycle.nextThread search.nextThread }) ∧
        (s.considerThread idleThreads p search).cycle = s.cycle := by
  unfold SearchState.considerThread
  dsimp only
  split
  next =>
    rw [switchTo_eq]
    exact .inl rfl
  next =>
    split
    next => exact .inl inside_notFound
    next hne => exact .inr ⟨hne, rfl, rfl⟩

/-- A search that comes to its starting thread again ends, if it does not find one before. -/
theorem endsAlone_of_returns {n : Nat} (hin : s.inside = some (p, search))
    (hreturns : s.cycle.nextThread^[n + 1] search.nextThread = search.startThread) :
    s.EndsAlone idleThreads := by
  induction n generalizing s search with
  | zero =>
      rcases @considerThread_cases _ _ _ _ idleThreads s p search with hleft | ⟨hne, -⟩
      · exact ⟨2, by rw [searchAlone, hin]; dsimp only; rw [searchAlone, hleft]; rfl⟩
      · exact absurd hreturns hne
  | succ n ih =>
      have hrest : (s.considerThread idleThreads p search).EndsAlone idleThreads := by
        rcases @considerThread_cases _ _ _ _ idleThreads s p search with hleft | ⟨-, hin', hcycle⟩
        · exact searchAlone_of_left hleft
        · exact ih hin' (by rw [hcycle]; exact hreturns)
      obtain ⟨fuel, hfuel⟩ := hrest
      exact ⟨fuel + 1, by rw [searchAlone, hin]; exact hfuel⟩

/-- **A search comes to an end.** -/
theorem Inv.endsAlone (h : s.Inv idleThreads l) : s.EndsAlone idleThreads := by
  cases hin : s.inside with
  | none => exact searchAlone_of_left hin
  | some i =>
      obtain ⟨p, search⟩ := i
      rcases h.searching _ hin with ⟨hstart, hleads⟩ | ⟨hsame, hself, -⟩
      · obtain ⟨n, hn⟩ := hleads.enters
        obtain ⟨m, hm⟩ := h.forms.1.returns hn hstart
        refine endsAlone_of_returns (n := m + n) hin ?_
        rw [Nat.add_right_comm, iterate_add_apply]
        exact hm
      · refine endsAlone_of_returns (n := 0) hin ?_
        change s.cycle.nextThread search.nextThread = search.startThread
        dsimp only at hsame hself
        rw [hsame, hself]

theorem Inv.searched (h : s.Inv idleThreads l) : s.Searched idleThreads where
  inside := h.endsAlone
  begins p now s' hs := by
    have hspares : s.Spares idleThreads (.interrupt p now) := fun t ht => by cases ht
    obtain ⟨l', h'⟩ := h.step (show s.Fresh idleThreads (.interrupt p now) from trivial) hspares hs
    exact h'.endsAlone

/-- A search among threads that are locked, none of which leads to its starting thread, goes on for ever. -/
theorem not_endsAlone {threads : List τ} (hin : s.inside = some (p, search))
    (ht : search.nextThread ∈ threads) (hlocked : ∀ u ∈ threads, s.cycleLock u = true)
    (hnext : ∀ u ∈ threads, s.cycle.nextThread u ∈ threads ∧ s.cycle.nextThread u ≠ search.startThread) :
    ¬ s.EndsAlone idleThreads := by
  rintro ⟨fuel, hfuel⟩
  induction fuel generalizing s search with
  | zero => cases hfuel
  | succ fuel ih =>
      rw [searchAlone, hin] at hfuel
      obtain ⟨hround, hcycle, hlock⟩ : (s.considerThread idleThreads p search).inside =
            some (p, { search with nextThread := s.cycle.nextThread search.nextThread }) ∧
          (s.considerThread idleThreads p search).cycle = s.cycle ∧
          (s.considerThread idleThreads p search).cycleLock = s.cycleLock := by
        unfold SearchState.considerThread
        dsimp only
        rw [if_neg, if_neg]
        · exact ⟨rfl, rfl, rfl⟩
        · exact (hnext _ ht).2
        · rw [show (s.setThread search.nextThread ((s.thread search.nextThread).timedWake
            search.scheduleStartTime)).cycleLock search.nextThread = true from hlocked _ ht]
          simp
      refine ih hround (hnext _ ht).1 ?_ ?_ hfuel
      · rw [hlock]
        exact hlocked
      · rw [hcycle]
        exact hnext

end

end SearchState

/-- **The cycle of threads.**  After any sequence of calls for live threads the links join the threads that
have been added and not removed in one cycle; and in every run in which nothing is removed that a search starts
from, every search comes to an end. -/
theorem thread_cycle_searched (idleThreads : π → τ) (next : τ → τ) :
    (∀ s, Reach CycleState.call CycleState.Live (CycleState.init next) s →
      s.cycle.Joins s.live ∧ ∀ i, s.Live i → (s.call i).isSome) ∧
    ∀ (thread : τ → Thread) (s : SearchState π τ),
      Reach (SearchState.step idleThreads)
        (fun s act => s.Fresh idleThreads act ∧ s.Spares idleThreads act) (.init next thread) s →
      s.Searched idleThreads := by
  refine ⟨fun s => CycleState.joined, fun thread s h => ?_⟩
  obtain ⟨l, hinv⟩ : ∃ l, s.Inv idleThreads l := by
    refine Reach.invariant (I := fun s : SearchState π τ => ∃ l, s.Inv idleThreads l)
      ⟨[], .init next thread⟩ ?_ h
    rintro s act s' ⟨l, hi⟩ ⟨hfresh, hspares⟩ hs
    exact hi.step hfresh hspares hs
  exact hinv.searched

/-- Thread 0 destroys itself on one processor; before that processor has gone on to another thread, thread 2
destroys thread 1, which is the next one of thread 0. -/
def removedStart : List (SearchAct (Fin 2) Nat) :=
  [.create 0 true, .create 2 true, .create 1 true, .permit 0 true 0, .permit 2 true 0,
    .interrupt 0 1, .consider, .interrupt 1 1, .consider, .consider, .consider,
    .destroy 0 0, .next 0, .next 0, .next 0, .next 0, .next 0, .next 0,
    .destroy 1 1, .next 1, .next 1, .next 1, .next 1, .next 1, .interrupt 0 2]

instance [Fintype π] (idleThreads : π → τ) (s : SearchState π τ) (act : SearchAct π τ) :
    Decidable (s.Fresh idleThreads act) :=
  match act with
  | .create t _ => inferInstanceAs (Decidable (t ∉ s.created ∧ ∀ p, t ≠ idleThreads p))
  | .permit _ _ _ | .continueThisThread _ | .resumeScheduling _ | .destroy _ _ | .next _ | .interrupt _ _
  | .consider => .isTrue trivial

/-- Two processors run threads, and one of these begins to destroy itself. -/
theorem thread_cycle_searched_two : ∃ s : SearchState (Fin 2) Nat, s.currentThreads 0 = some 0 ∧
    s.currentThreads 1 = some 2 ∧ s.Searched (10 + ·.val) := by
  have hrun : (run (SearchState.step (10 + ·.val))
      (fun s act => s.Fresh (10 + ·.val) act ∧ s.removes act = none) (.init id fun _ => {})
      (removedStart.take 15)).map (fun s : SearchState (Fin 2) Nat => (s.currentThreads 0, s.currentThreads 1)) =
        some (some 0, some 2) := by decide +kernel
  obtain ⟨s, hs, heq⟩ := Option.map_eq_some_iff.mp hrun
  obtain ⟨h₀, h₁⟩ := Prod.mk.inj heq
  refine ⟨s, h₀, h₁, (thread_cycle_searched (10 + ·.val) id).2 (fun _ => {}) s
    ((Reach.refl.run hs).mono fun s act hok => ⟨hok.1, fun t ht => ?_⟩)⟩
  rw [hok.2] at ht
  cases ht

/-- The search of the first processor starts from a thread that is not in the cycle any more. -/
theorem search_from_removed_thread : ¬ ∀ (idleThreads : Fin 2 → Nat) (next : Nat → Nat)
    (thread : Nat → Thread) (s : SearchState (Fin 2) Nat),
      Reach (SearchState.step idleThreads) (SearchState.Fresh idleThreads) (.init next thread) s →
        s.Searched idleThreads := by
  intro hall
  have hrun : (run (SearchState.step (10 + ·.val)) (SearchState.Fresh (10 + ·.val)) (.init id fun _ => {})
      removedStart).map (fun s => (s.inside, s.cycleLock 1, s.cycleLock 2, s.cycle.nextThread 1,
        s.cycle.nextThread 2)) = some (some (0, ⟨2, 1, 1⟩), true, true, 2, 2) := by decide +kernel
  obtain ⟨s, hs, heq⟩ := Option.map_eq_some_iff.mp hrun
  simp only [Prod.mk.injEq] at heq
  obtain ⟨hin, hlock₁, hlock₂, hnext₁, hnext₂⟩ := heq
  refine @SearchState.not_endsAlone _ _ _ _ _ _ _ _ [1, 2] hin (by decide) ?_ ?_
    (hall _ _ _ s (Reach.refl.run hs)).inside
  · simp [hlock₁, hlock₂]
  · simp [hnext₁, hnext₂]

end Azalea.Proc
