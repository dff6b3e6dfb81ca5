import Azalea.Support.Rings
import Azalea.Support.Runs

/-!
# Proc — threads and their cycle

A `Thread` has the fields of a `task_thread` (`processor/task_thread.cpp`) that decide whether it may run,
with the two calls that change them and the look `task_get_next_thread` takes at them.

`task_thread_cycle_add` and `task_thread_cycle_remove` of `processor/task_manager.cpp`.  All threads that
take turns are joined in a cycle by `next_thread`; a thread that is removed keeps its own `next_thread`.

* `CycleState.joined`: over any sequence of calls for live threads the links form one cycle of exactly the
  threads added and not removed, and `start_of_thread_cycle` is one of them; and each such call returns.
-/

namespace Azalea.Proc
open Azalea.Rings Azalea.Runs Azalea.Walks Function

/-- A `task_thread`.  `wakeThreadAfter` is 0, or the time of `time_get_system_timer_count(true)`
after which the thread is to run again. -/
structure Thread where
  permitRunning : Bool := false
  wakeThreadAfter : Nat := 0
  threadDestroyed : Bool := false
  deriving DecidableEq

namespace Thread

/-- `start_thread`. -/
def startThread (t : Thread) : Thread :=
  if !t.threadDestroyed then { t with permitRunning := true } else t

/-- `stop_thread`. -/
def stopThread (t : Thread) : Thread :=
  if t.permitRunning then { t with permitRunning := false } else t

/-- What `task_get_next_thread` asks of a thread that sleeps. -/
def shouldWake (t : Thread) (scheduleStartTime : Nat) : Bool :=
  !t.permitRunning && t.wakeThreadAfter != 0 && decide (t.wakeThreadAfter < scheduleStartTime)

/-- The timed wake-up of `task_get_next_thread`. -/
def timedWake (t : Thread) (scheduleStartTime : Nat) : Thread :=
  if t.shouldWake scheduleStartTime then { t with wakeThreadAfter := 0, permitRunning := true } else t

end Thread

/-- `start_of_thread_cycle`, and the `next_thread` of each thread. -/
structure ThreadCycle (τ : Type*) where
  startOfThreadCycle : Option τ
  nextThread : τ → τ

namespace ThreadCycle
variable {τ : Type*} [DecidableEq τ]

/-- `task_thread_cycle_add`. -/
def add (newThread : τ) (c : ThreadCycle τ) : ThreadCycle τ :=
  match c.startOfThreadCycle with
  | none => ⟨some newThread, update c.nextThread newThread newThread⟩
  | some start =>
      ⟨some start, update (update c.nextThread newThread (c.nextThread start)) start newThread⟩

/-- The loop of `task_thread_cycle_remove`, which looks for the thread before `thread`.  When it has come
back to the start and this is not the thread before, an assertion fails. -/
def searchBefore (c : ThreadCycle τ) (start thread : τ) : Nat → τ → Option τ
  | 0, _ => none
  | fuel + 1, search =>
      if c.nextThread search = thread then some search
      else if c.nextThread search = start ∧ c.nextThread (c.nextThread search) ≠ thread then none
      else c.searchBefore start thread fuel (c.nextThread search)

/-- `task_thread_cycle_remove`, with a number of rounds for its loop. -/
def remove (fuel : Nat) (thread : τ) (c : ThreadCycle τ) : Option (ThreadCycle τ) :=
  if c.nextThread thread = thread then some { c with startOfThreadCycle := none }
  else
    -- a null pointer is followed if there is no cycle
    (if c.startOfThreadCycle = some thread then some (c.nextThread thread) else c.startOfThreadCycle).bind
      fun start => (c.searchBefore start thread fuel start).map fun search =>
        ⟨some start, update c.nextThread search (c.nextThread (c.nextThread search))⟩

/-- The links join the threads `live` in one cycle. -/
structure Joins (c : ThreadCycle τ) (live : List τ) : Prop where
  start_mem : ∀ t ∈ c.startOfThreadCycle, t ∈ live
  start_none : c.startOfThreadCycle = none ↔ live = []
  next_mem : ∀ t ∈ live, c.nextThread t ∈ live
  /-- From every one of them every one is met after a step or more. -/
  round : ∀ t ∈ live, ∀ u ∈ live, ∃ n, c.nextThread^[n + 1] t = u

/-- The links form the ring `l`. -/
def Forms (c : ThreadCycle τ) (l : List τ) : Prop :=
  Ring c.nextThread l ∧ c.startOfThreadCycle = l.head?

variable {c : ThreadCycle τ} {l : List τ} {start t x z : τ} {fuel : Nat}

omit [DecidableEq τ] in
theorem Forms.joins {live : List τ} (h : c.Forms l) (hperm : l.Perm live) : c.Joins live where
  start_mem t ht := by
    rw [h.2] at ht
    exact hperm.subset (List.mem_of_head? ht)
  start_none := by
    rw [h.2, List.head?_eq_none_iff]
    constructor
    · rintro rfl
      exact hperm.symm.eq_nil
    · rintro rfl
      exact hperm.eq_nil
  next_mem t ht := hperm.subset (h.1.next_mem (hperm.symm.subset ht))
  round t ht u hu := h.1.returns (hperm.symm.subset ht) (hperm.symm.subset hu)

omit [DecidableEq τ] in
theorem Forms.empty (next : τ → τ) : Forms ⟨none, next⟩ [] := ⟨.nil, rfl⟩

/-- **`task_thread_cycle_add`**: the new thread comes behind the first one. -/
theorem Forms.add (h : c.Forms l) (ht : t ∉ l) : ∃ l', (c.add t).Forms l' ∧ l'.Perm (t :: l) ∧
    ∀ u, u ∉ l' → (c.add t).nextThread u = c.nextThread u := by
  obtain ⟨hring, hstart⟩ := h
  cases l with
  | nil =>
      refine ⟨[t], ?_, List.Perm.refl _, fun u hu => ?_⟩
      all_goals rw [ThreadCycle.add, hstart]
      · exact ⟨.single (update_self ..), rfl⟩
      · exact update_of_ne (List.ne_of_not_mem_cons hu) ..
  | cons x xs =>
      refine ⟨x :: t :: xs, ?_, List.Perm.swap t x xs, fun u hu => ?_⟩
      all_goals rw [ThreadCycle.add, hstart]
      · exact ⟨hring.insert ht, rfl⟩
      · have hux := List.ne_of_not_mem_cons hu
        have hut := List.ne_of_not_mem_cons (List.not_mem_of_not_mem_cons hu)
        exact (update_of_ne hux ..).trans (update_of_ne hut ..)

/-- The search follows the ring up to the thread before `t`. -/
theorem searchBefore_eq {before : List τ} (hwalk : Walk c.nextThread x (before ++ [z]) t)
    (ht : t ∉ before ++ [z]) (hstart : start ∉ (before ++ [z]).tail) (hfuel : before.length < fuel) :
    c.searchBefore start t fuel x = some z := by
  induction before generalizing x fuel with
  | nil =>
      obtain ⟨rfl, hnext⟩ := hwalk
      obtain ⟨fuel, rfl⟩ := Nat.exists_eq_succ_of_ne_zero (Nat.ne_of_gt hfuel)
      exact if_pos hnext
  | cons y before ih =>
      obtain ⟨rfl, hwalk⟩ := hwalk
      obtain ⟨fuel, rfl⟩ := Nat.exists_eq_succ_of_ne_zero (Nat.ne_of_gt (Nat.zero_lt_of_lt hfuel))
      rw [List.cons_append, List.tail_cons] at hstart
      rw [List.cons_append, List.mem_cons, not_or] at ht
      have hmem : c.nextThread y ∈ before ++ [z] := by
        cases before with
        | nil => exact List.mem_singleton.mpr hwalk.1.symm
        | cons w before => rw [← hwalk.1]; exact List.mem_cons_self ..
      rw [searchBefore, if_neg (by rintro rfl; exact ht.2 hmem),
        if_neg (by rintro ⟨rfl, -⟩; exact hstart hmem)]
      refine ih hwalk ht.2 (fun hm => hstart (List.mem_of_mem_tail hm)) ?_
      rw [List.length_cons] at hfuel
      omega

omit [DecidableEq τ] in
/-- A thread that is its own next one is alone. -/
theorem Forms.alone (h : c.Forms l) (ht : t ∈ l) (hself : c.nextThread t = t) : l = [t] := by
  have hall : ∀ u ∈ l, u = t := by
    intro u hu
    obtain ⟨n, rfl⟩ := h.1.returns ht hu
    exact iterate_fixed hself (n + 1)
  cases l with
  | nil => cases ht
  | cons x xs =>
      obtain rfl := hall x (List.mem_cons_self ..)
      have hnil : xs = [] := List.eq_nil_iff_forall_not_mem.mpr fun u hu =>
        (List.nodup_cons.mp h.1.nodup).1 (hall u (List.mem_cons_of_mem _ hu) ▸ hu)
      rw [hnil]

/-- The ring as it is read when a thread that is not alone has been moved off its start. -/
theorem Forms.moveStart (h : c.Forms l) (ht : t ∈ l) (hself : c.nextThread t ≠ t) :
    ∃ start before z behind, Ring c.nextThread (before ++ z :: t :: behind) ∧
      l.Perm (before ++ z :: t :: behind) ∧ (before ++ [z]).head? = some start ∧
      (if c.startOfThreadCycle = some t then some (c.nextThread t) else c.startOfThreadCycle) =
        some start := by
  obtain ⟨hring, hstart⟩ := h
  have hcut : ∀ y ys behind, Ring c.nextThread (y :: ys ++ t :: behind) →
      l.Perm (y :: ys ++ t :: behind) →
      ∃ before z behind, Ring c.nextThread (before ++ z :: t :: behind) ∧
        l.Perm (before ++ z :: t :: behind) ∧ (before ++ [z]).head? = some y := by
    intro y ys behind hring hperm
    obtain ⟨before, z, hfront⟩ : ∃ before z, y :: ys = before ++ [z] :=
      ⟨_, _, (List.dropLast_append_getLast (List.cons_ne_nil y ys)).symm⟩
    rw [hfront, ← List.append_cons] at hring hperm
    exact ⟨before, z, behind, hring, hperm, by rw [← hfront]; rfl⟩
  cases l with
  | nil => cases ht
  | cons x xs =>
      rw [List.head?_cons] at hstart
      by_cases hx : x = t
      · subst hx
        cases xs with
        | nil => exact absurd (ring_cons.mp hring).2 hself
        | cons y ys =>
            obtain ⟨before, z, behind, h₁, h₂, h₃⟩ := hcut y ys [] hring.rotate_one
              (List.perm_append_singleton x (y :: ys)).symm
            refine ⟨y, before, z, behind, h₁, h₂, h₃, ?_⟩
            rw [if_pos hstart, (ring_cons.mp hring).2.1]
      · obtain ⟨ys, behind, rfl⟩ :=
          List.append_of_mem ((List.mem_cons.mp ht).resolve_left fun heq => hx heq.symm)
        obtain ⟨before, z, behind, h₁, h₂, h₃⟩ := hcut x ys behind hring (List.Perm.refl _)
        refine ⟨x, before, z, behind, h₁, h₂, h₃, ?_⟩
        rw [if_neg (by rw [hstart]; exact fun heq => hx (Option.some.inj heq)), hstart]

/-- **`task_thread_cycle_remove`** takes the thread out, and leaves the other threads joined.  Only the thread
before it gets another link. -/
theorem Forms.remove (h : c.Forms l) (ht : t ∈ l) (hfuel : l.length ≤ fuel) :
    ∃ c' l', c.remove fuel t = some c' ∧ c'.Forms l' ∧ l'.Perm (l.erase t) ∧
      (∀ u, u ∉ l' → c'.nextThread u = c.nextThread u) ∧
      (c.nextThread t ∈ l' ∨ c.nextThread t = t ∧ l' = []) := by
  by_cases hself : c.nextThread t = t
  · obtain rfl := h.alone ht hself
    refine ⟨{ c with startOfThreadCycle := none }, [], if_pos hself, ⟨.nil, rfl⟩, ?_, fun _ _ => rfl,
      .inr ⟨hself, rfl⟩⟩
    rw [List.erase_cons_head]
  · obtain ⟨start, before, z, behind, hring, hperm, hhead, hstart⟩ := h.moveStart ht hself
    obtain ⟨hz, herase⟩ := hring.erase
    have hnodup := hring.nodup
    have hlength := hperm.length_eq
    -- the walk from the start to the thread before `t`
    obtain ⟨w, hw⟩ : ∃ w, (before ++ z :: t :: behind).head? = some w := by cases before <;> exact ⟨_, rfl⟩
    have hw' : w = start := by
      cases before <;> exact Option.some.inj (hw.symm.trans hhead)
    have hwalk := hring.walk w hw
    rw [List.append_cons, walk_append] at hwalk
    obtain ⟨m, hwalk, rfl, -⟩ := hwalk
    subst hw'
    have htnot : t ∉ before ++ [z] := fun hm => by
      rw [List.append_cons, List.nodup_append] at hnodup
      exact hnodup.2.2 t hm t (List.mem_cons_self ..) rfl
    have hwnot : w ∉ (before ++ [z]).tail := by
      rw [List.append_cons] at hnodup
      have hfront := (List.nodup_append.mp hnodup).1
      cases hf : before ++ [z] with
      | nil => exact List.not_mem_nil
      | cons y ys =>
          rw [hf, List.head?_cons, Option.some.injEq] at hhead
          rw [hf, List.nodup_cons, hhead] at hfront
          exact hfront.1
    have hfound : c.searchBefore w t fuel w = some z := by
      refine searchBefore_eq hwalk htnot hwnot ?_
      simp only [List.length_append, List.length_cons] at hlength
      omega
    refine ⟨⟨some w, update c.nextThread z (c.nextThread t)⟩, before ++ z :: behind, ?_, ⟨herase, ?_⟩, ?_,
      fun u hu => ?_, .inl ?_⟩
    · rw [ThreadCycle.remove, if_neg hself, hstart, Option.bind_some, hfound, Option.map_some, hz]
    · rw [← hhead]
      cases before <;> rfl
    · refine List.Perm.trans ?_ (hperm.erase t).symm
      rw [List.append_cons, List.append_cons before z (t :: behind), List.erase_append_right _ htnot,
        List.erase_cons_head]
    · refine update_of_ne ?_ ..
      rintro rfl
      exact hu (by simp)
    · have hmem := hring.next_mem (x := t) (by simp)
      simp only [List.mem_append, List.mem_cons] at hmem ⊢
      tauto

end ThreadCycle

/-! ### Sequences of calls -/

variable {τ : Type*} [DecidableEq τ]

/-- The calls. -/
inductive CycleCall (τ : Type*) where
  | add (newThread : τ)
  | remove (thread : τ)

/-- The cycle, and the threads that have been added and not removed. -/
structure CycleState (τ : Type*) where
  cycle : ThreadCycle τ
  live : List τ

namespace CycleState

/-- One call.  The loop of a removal is given as many rounds as there are threads
(`CycleState.joined`). -/
def call (s : CycleState τ) : CycleCall τ → Option (CycleState τ)
  | .add newThread => some ⟨s.cycle.add newThread, newThread :: s.live⟩
  | .remove thread => (s.cycle.remove s.live.length thread).map fun cycle => ⟨cycle, s.live.erase thread⟩

/-- A thread that is added is not in the cycle, and one that is removed is. -/
def Live (s : CycleState τ) : CycleCall τ → Prop
  | .add newThread => newThread ∉ s.live
  | .remove thread => thread ∈ s.live

/-- No thread has been added yet. -/
def init (next : τ → τ) : CycleState τ := ⟨⟨none, next⟩, []⟩

variable {s s' : CycleState τ} {i : CycleCall τ}

/-- The invariant: the links form a ring of the threads. -/
def Inv (s : CycleState τ) : Prop := ∃ l, s.cycle.Forms l ∧ l.Perm s.live

/-- A call for a live thread returns. -/
theorem Inv.call (h : s.Inv) (hlive : s.Live i) : ∃ s', s.call i = some s' ∧ s'.Inv := by
  obtain ⟨l, hforms, hperm⟩ := h
  cases i with
  | add t =>
      obtain ⟨l', hforms', hperm', -⟩ := hforms.add (t := t) fun ht => hlive (hperm.subset ht)
      exact ⟨_, rfl, l', hforms', hperm'.trans (hperm.cons t)⟩
  | remove t =>
      obtain ⟨cycle, l', hremove, hforms', hperm', -⟩ :=
        hforms.remove (hperm.symm.subset hlive) (Nat.le_of_eq hperm.length_eq)
      exact ⟨_, Option.map_eq_some_iff.mpr ⟨cycle, hremove, rfl⟩, l', hforms', hperm'.trans (hperm.erase t)⟩

/-- **The cycle**, after any sequence of calls for live threads: it joins the threads that have been added and
not removed, and the next call returns. -/
theorem joined {next : τ → τ} (h : Reach CycleState.call Live (init next) s) :
    s.cycle.Joins s.live ∧ ∀ i, s.Live i → (s.call i).isSome := by
  have hinv : s.Inv := by
    refine Reach.invariant (I := Inv) ⟨[], .empty next, List.Perm.refl _⟩ ?_ h
    intro s i s' hi hlive hs
    obtain ⟨s₁, hs₁, hi₁⟩ := hi.call hlive
    obtain rfl := Option.some.inj (hs.symm.trans hs₁)
    exact hi₁
  obtain ⟨l, hforms, hperm⟩ := hinv
  refine ⟨hforms.joins hperm, fun i hlive => ?_⟩
  obtain ⟨s₁, hs₁, -⟩ := Inv.call ⟨l, hforms, hperm⟩ hlive
  exact Option.isSome_iff_exists.mpr ⟨s₁, hs₁⟩

end CycleState

end Azalea.Proc
