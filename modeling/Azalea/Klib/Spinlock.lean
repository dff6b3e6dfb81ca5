import Azalea.Support.Runs
import Mathlib.Logic.Function.Basic
import Mathlib.Logic.Nontrivial.Basic

/-!
# Klib — kernel spinlocks

`klib_synch_spinlock_lock`, `_try_lock` and `_unlock` of `klib/synch/kernel_locks.cpp`, for any number of
threads that use one lock.  A step is one atomic operation of one thread, or its test of what the operation left
in `expected`.  The weak exchange of `try_lock` may fail without a reason; it then leaves `expected` at 0, which
`try_lock` takes for success.

* `OwnerStep`, `Agrees.step`: as long as no weak exchange fails while the lock is free, the code does what a lock
  with an owner does.
* `exclusive_of_strong`: then at most one thread at a time holds the lock.
* `exclusive_iff`: a weak exchange that can fail while the lock is free lets two threads have it.
-/

namespace Azalea.Klib
open Azalea.Runs Function

/-! ### The source -/

/-- `std::atomic_compare_exchange_strong`: the lock, and what is then in `expected`. -/
def compareExchangeStrong (lock expected desired : UInt64) : UInt64 × UInt64 :=
  if lock = expected then (desired, expected) else (lock, lock)

/-- `std::atomic_compare_exchange_weak`: it may fail although the lock is as expected. -/
def compareExchangeWeak (fails : Bool) (lock expected desired : UInt64) : UInt64 × UInt64 :=
  if fails then (lock, lock) else compareExchangeStrong lock expected desired

/-- Where a thread is in the functions. -/
inductive SpinPosition
  | outside
  /-- In `klib_synch_spinlock_lock`, before the exchange. -/
  | lockExchange
  /-- Before `while (expected == 1)`. -/
  | lockTest (expected : UInt64)
  /-- In `klib_synch_spinlock_try_lock`, before the exchange. -/
  | tryExchange
  /-- Before `res = (expected == 0)`. -/
  | tryTest (expected : UInt64)
  /-- In `klib_synch_spinlock_unlock`, before the store. -/
  | unlockStore

/-- A lock and the threads that use it. -/
structure SpinState (Thread : Type*) where
  lock : UInt64
  position : Thread → SpinPosition
  /-- The threads that have returned from `lock`, or got `true` from `try_lock`, and have not unlocked since. -/
  holds : Thread → Bool

/-- What a thread does: call a function, or take the next step in the one it is in. -/
inductive SpinAction
  | callLock
  | callTryLock
  | callUnlock
  | proceed
  /-- The weak exchange fails spuriously. -/
  | weakFails
  deriving DecidableEq

section
variable {Thread : Type*} [DecidableEq Thread]

/-- `klib_synch_spinlock_init`. -/
def SpinState.start : SpinState Thread := ⟨0, fun _ => .outside, fun _ => false⟩

/-- A thread comes to a position, the lock gets a value, and the thread holds it or not. -/
def SpinState.move (s : SpinState Thread) (t : Thread) (position : SpinPosition) (lock : UInt64)
    (holds : Bool) : SpinState Thread :=
  ⟨lock, update s.position t position, update s.holds t holds⟩

/-- The exchange of `try_lock`. -/
def SpinState.tryExchange (s : SpinState Thread) (t : Thread) (fails : Bool) : SpinState Thread :=
  s.move t (.tryTest (compareExchangeWeak fails s.lock 0 1).2) (compareExchangeWeak fails s.lock 0 1).1
    (s.holds t)

/-- One atomic step of one thread.  Only a thread that holds the lock unlocks it. -/
def SpinState.step (s : SpinState Thread) : Thread × SpinAction → Option (SpinState Thread)
  | (t, action) =>
      match s.position t, action with
      | .outside, .callLock => some (s.move t .lockExchange s.lock (s.holds t))
      | .outside, .callTryLock => some (s.move t .tryExchange s.lock (s.holds t))
      | .outside, .callUnlock =>
          if s.holds t then some (s.move t .unlockStore s.lock (s.holds t)) else none
      | .lockExchange, .proceed =>
          let exchanged := compareExchangeStrong s.lock 0 1
          some (s.move t (.lockTest exchanged.2) exchanged.1 (s.holds t))
      | .lockTest expected, .proceed =>
          if expected = 1 then some (s.move t .lockExchange s.lock (s.holds t))
          else some (s.move t .outside s.lock true)
      | .tryExchange, .proceed => some (s.tryExchange t false)
      | .tryExchange, .weakFails => some (s.tryExchange t true)
      | .tryTest expected, .proceed =>
          if expected = 0 then some (s.move t .outside s.lock true)
          else some (s.move t .outside s.lock (s.holds t))
      | .unlockStore, .proceed => some (s.move t .outside 0 false)
      | _, _ => none

/-- At most one thread holds the lock. -/
def SpinState.Exclusive (s : SpinState Thread) : Prop :=
  ∀ t u, s.holds t = true → s.holds u = true → t = u

/-! ### A lock with an owner -/

/-- What a lock is for: it is taken when it is free, and given back by the thread that has it. -/
inductive OwnerStep : Option Thread → Option Thread → Prop
  | stay (owner : Option Thread) : OwnerStep owner owner
  | take (t : Thread) : OwnerStep none (some t)
  | release (t : Thread) : OwnerStep (some t) none

/-- A thread has the lock if it holds it, or has exchanged the value and is about to return. -/
def SpinPosition.Owns (position : SpinPosition) (holds : Bool) : Prop :=
  holds = true ∨ position = .lockTest 0 ∨ position = .tryTest 0

/-- What a thread can rely on at its position. -/
def SpinPosition.Sound (position : SpinPosition) (holds : Bool) : Prop :=
  match position with
  | .lockTest expected => expected = 0 ∨ expected = 1
  | .unlockStore => holds = true
  | _ => True

/-- The state is that of a lock with this owner. -/
structure SpinState.Agrees (s : SpinState Thread) (owner : Option Thread) : Prop where
  lock : s.lock = if owner = none then 0 else 1
  owns : ∀ t, (s.position t).Owns (s.holds t) ↔ owner = some t
  sound : ∀ t, (s.position t).Sound (s.holds t)

variable {s s' : SpinState Thread} {owner : Option Thread} {t u : Thread} {p : SpinPosition} {b : Bool}
  {l : UInt64}

@[simp] theorem move_position_self : (s.move t p l b).position t = p := update_self ..

@[simp] theorem move_holds_self : (s.move t p l b).holds t = b := update_self ..

theorem move_position_of_ne (h : u ≠ t) : (s.move t p l b).position u = s.position u := update_of_ne h ..

theorem move_holds_of_ne (h : u ≠ t) : (s.move t p l b).holds u = s.holds u := update_of_ne h ..

omit [DecidableEq Thread] in
theorem agrees_start : (SpinState.start : SpinState Thread).Agrees none where
  lock := rfl
  owns t := by simp [SpinState.start, SpinPosition.Owns]
  sound _ := trivial

/-- A move keeps the agreement if it is right for the lock and for the thread that moves, and nobody else
gains or loses the lock. -/
theorem SpinState.Agrees.move {owner' : Option Thread} (h : s.Agrees owner)
    (hlock : l = if owner' = none then 0 else 1) (hself : p.Owns b ↔ owner' = some t)
    (hother : ∀ u, u ≠ t → (owner' = some u ↔ owner = some u)) (hsound : p.Sound b) :
    (s.move t p l b).Agrees owner' where
  lock := hlock
  owns u := by
    by_cases hu : u = t
    · subst hu
      rw [move_position_self, move_holds_self]
      exact hself
    · rw [move_position_of_ne hu, move_holds_of_ne hu, hother u hu]
      exact h.owns u
  sound u := by
    by_cases hu : u = t
    · subst hu
      rw [move_position_self, move_holds_self]
      exact hsound
    · rw [move_position_of_ne hu, move_holds_of_ne hu]
      exact h.sound u

/-- A move of a thread that neither gains nor loses the lock. -/
theorem SpinState.Agrees.stay (h : s.Agrees owner) (hself : p.Owns b ↔ (s.position t).Owns (s.holds t))
    (hsound : p.Sound b) :
    ∃ owner', OwnerStep owner owner' ∧ (s.move t p s.lock b).Agrees owner' :=
  ⟨owner, .stay owner, h.move h.lock (hself.trans (h.owns t)) (fun _ _ => Iff.rfl) hsound⟩

/-- An exchange that does not fail spuriously takes the lock if it is free. -/
theorem SpinState.Agrees.exchange (h : s.Agrees owner) (hpos : ¬ (s.position t).Owns false)
    (hp : p.Owns (s.holds t) ↔ s.holds t = true ∨ (compareExchangeStrong s.lock 0 1).2 = 0)
    (hsound : p.Sound (s.holds t)) :
    ∃ owner', OwnerStep owner owner' ∧
      (s.move t p (compareExchangeStrong s.lock 0 1).1 (s.holds t)).Agrees owner' := by
  have hself : (s.position t).Owns (s.holds t) ↔ s.holds t = true :=
    ⟨fun ho => ho.elim id fun ho => absurd (Or.inr ho) hpos, Or.inl⟩
  cases owner with
  | none =>
      have hlock : s.lock = 0 := h.lock
      rw [compareExchangeStrong, if_pos hlock] at hp ⊢
      refine ⟨some t, .take t, h.move rfl ?_ (fun u hu => ?_) hsound⟩
      · exact iff_of_true (hp.mpr (.inr rfl)) rfl
      · exact iff_of_false (fun e => hu (Option.some.inj e).symm) (fun e => Option.some_ne_none u e.symm)
  | some o =>
      have hlock : s.lock = 1 := h.lock
      have hne : s.lock ≠ 0 := fun e => absurd (hlock.symm.trans e) (by decide)
      rw [compareExchangeStrong, if_neg hne] at hp ⊢
      refine h.stay (hp.trans ?_) hsound
      rw [hself, or_iff_left hne]

/-- No weak exchange fails while the lock is free. -/
def Strong (s : SpinState Thread) (i : Thread × SpinAction) : Prop := i.2 = .weakFails → s.lock ≠ 0

instance (s : SpinState Thread) (i : Thread × SpinAction) : Decidable (Strong s i) :=
  inferInstanceAs (Decidable (_ → _))

theorem strong_of_step {i : Thread × SpinAction} (hs : s.step i = some s')
    (hnever : s.position i.1 = .tryExchange → s.lock = 0 → i.2 ≠ .weakFails) : Strong s i := by
  obtain ⟨t, action⟩ := i
  rintro rfl hlock
  refine hnever ?_ hlock rfl
  cases hp : s.position t with
  | tryExchange => rfl
  | _ => simp [SpinState.step, hp] at hs

/-- **One step.**  It is a step of the lock with an owner. -/
theorem SpinState.Agrees.step {i : Thread × SpinAction} (h : s.Agrees owner) (hstrong : Strong s i)
    (hs : s.step i = some s') : ∃ owner', OwnerStep owner owner' ∧ s'.Agrees owner' := by
  obtain ⟨t, action⟩ := i
  have hsound := h.sound t
  have howns := h.owns t
  unfold SpinState.step at hs
  dsimp only at hs
  split at hs
  next hp =>
    obtain rfl := Option.some.inj hs
    exact h.stay (by simp [SpinPosition.Owns, hp]) trivial
  next hp =>
    obtain rfl := Option.some.inj hs
    exact h.stay (by simp [SpinPosition.Owns, hp]) trivial
  next hp =>
    split at hs
    next hholds =>
      obtain rfl := Option.some.inj hs
      exact h.stay (by simp [SpinPosition.Owns, hp]) hholds
    next => cases hs
  next hp =>
    obtain rfl := Option.some.inj hs
    refine h.exchange (by simp [SpinPosition.Owns, hp]) (by simp [SpinPosition.Owns]) ?_
    have hlock := h.lock
    simp only [SpinPosition.Sound, compareExchangeStrong]
    split
    next => exact .inl rfl
    next hne =>
      split at hlock
      next => exact absurd hlock hne
      next => exact .inr hlock
  next expected hp =>
    rw [hp] at hsound howns
    split at hs
    next h1 =>
      obtain rfl := Option.some.inj hs
      exact h.stay (by simp [SpinPosition.Owns, hp, h1]) trivial
    next h1 =>
      obtain rfl := Option.some.inj hs
      have h0 : expected = 0 := hsound.resolve_right h1
      exact h.stay (by simp [SpinPosition.Owns, hp, h0]) trivial
  next hp =>
    obtain rfl := Option.some.inj hs
    exact h.exchange (by simp [SpinPosition.Owns, hp]) (by simp [SpinPosition.Owns, compareExchangeWeak])
      trivial
  next hp =>
    obtain rfl := Option.some.inj hs
    have hne : s.lock ≠ 0 := hstrong rfl
    exact h.stay (by simp [SpinPosition.Owns, hp, compareExchangeWeak, hne]) trivial
  next expected hp =>
    split at hs
    next h0 =>
      obtain rfl := Option.some.inj hs
      exact h.stay (by simp [SpinPosition.Owns, hp, h0]) trivial
    next h0 =>
      obtain rfl := Option.some.inj hs
      exact h.stay (by simp [SpinPosition.Owns, hp, h0]) trivial
  next hp =>
    obtain rfl := Option.some.inj hs
    rw [hp] at hsound
    have howner : owner = some t := howns.mp (.inl hsound)
    subst howner
    refine ⟨none, .release t, h.move rfl (by simp [SpinPosition.Owns]) (fun u hu => ?_) trivial⟩
    exact iff_of_false (fun e => Option.some_ne_none u e.symm) (fun e => hu (Option.some.inj e).symm)
  next => cases hs

omit [DecidableEq Thread] in
theorem SpinState.Agrees.exclusive (h : s.Agrees owner) : s.Exclusive := by
  intro t u ht hu
  have howner := (h.owns t).mp (.inl ht)
  exact Option.some.inj (howner.symm.trans ((h.owns u).mp (.inl hu)))

/-- **Exclusion.**  However many threads use the lock and however their steps are interleaved, at most one of
them holds it, if no weak exchange fails while it is free. -/
theorem exclusive_of_strong (h : Reach SpinState.step Strong (SpinState.start : SpinState Thread) s) :
    s.Exclusive := by
  obtain ⟨owner, h⟩ : ∃ owner, s.Agrees owner := by
    refine h.invariant (I := fun s : SpinState Thread => ∃ owner, s.Agrees owner) ⟨none, agrees_start⟩ ?_
    rintro s i s' ⟨owner, h⟩ hstrong hs
    obtain ⟨owner', -, h'⟩ := h.step hstrong hs
    exact ⟨owner', h'⟩
  exact h.exclusive

/-- One thread gets the lock, another one tries to, and does not. -/
theorem one_holds : ∃ s : SpinState Bool, s.holds false = true ∧ s.Exclusive := by
  have hrun : ∃ s ∈ run SpinState.step Strong (SpinState.start : SpinState Bool)
      [(false, .callLock), (false, .proceed), (false, .proceed),
        (true, .callTryLock), (true, .proceed), (true, .proceed)],
      s.holds false = true := ⟨_, rfl, rfl⟩
  obtain ⟨s, hreach, hholds⟩ := Reach.exists_of_run hrun
  exact ⟨s, hholds, exclusive_of_strong hreach⟩

/-! ### A weak exchange that fails -/

/-- The weak exchange of a thread fails spuriously only where it may. -/
def FailsOnly (mayFail : SpinState Thread → Thread → Prop) (s : SpinState Thread)
    (i : Thread × SpinAction) : Prop := i.2 = .weakFails → mayFail s i.1

variable {ok : SpinState Thread → Thread × SpinAction → Prop}

/-- A thread can come to hold the lock while the others do nothing. -/
def SpinState.Takes (ok : SpinState Thread → Thread × SpinAction → Prop) (s : SpinState Thread)
    (u : Thread) : Prop :=
  ∃ s', Reach SpinState.step ok s s' ∧ s'.holds u = true ∧ ∀ v, v ≠ u → s'.holds v = s.holds v

theorem SpinState.Takes.head (hok : ∀ s t a, a ≠ .weakFails → ok s (t, a))
    (hs : s.step (u, .proceed) = some (s.move u p l b) ∨ s.step (u, .callLock) = some (s.move u p l b))
    (h : (s.move u p l b).Takes ok u) : s.Takes ok u := by
  obtain ⟨s', hreach, hu, hv⟩ := h
  refine ⟨s', ?_, hu, fun v hne => (hv v hne).trans (move_holds_of_ne hne)⟩
  rcases hs with hs | hs
  · exact hreach.head (hok s u _ (by decide)) hs
  · exact hreach.head (hok s u _ (by decide)) hs

theorem takes_of_holds (h : s.holds u = true) : s.Takes ok u := ⟨s, .refl, h, fun _ _ => rfl⟩

/-- Once it has exchanged the value, a thread returns. -/
theorem takes_of_exchanged (hok : ∀ s t a, a ≠ .weakFails → ok s (t, a))
    (hp : s.position u = .lockTest 0 ∨ s.position u = .tryTest 0) : s.Takes ok u := by
  have hs : s.step (u, .proceed) = some (s.move u .outside s.lock true) := by
    rcases hp with hp | hp <;> simp [SpinState.step, hp]
  exact .head hok (.inl hs) (takes_of_holds move_holds_self)

theorem takes_of_lockExchange (hok : ∀ s t a, a ≠ .weakFails → ok s (t, a)) (hlock : s.lock = 0)
    (hp : s.position u = .lockExchange) : s.Takes ok u := by
  have hs : s.step (u, .proceed) = some (s.move u (.lockTest 0) 1 (s.holds u)) := by
    simp [SpinState.step, hp, compareExchangeStrong, hlock]
  exact .head hok (.inl hs) (takes_of_exchanged hok (.inl move_position_self))

theorem takes_of_outside (hok : ∀ s t a, a ≠ .weakFails → ok s (t, a)) (hlock : s.lock = 0)
    (hp : s.position u = .outside) : s.Takes ok u := by
  have hs : s.step (u, .callLock) = some (s.move u .lockExchange s.lock (s.holds u)) := by
    simp [SpinState.step, hp]
  exact .head hok (.inr hs) (takes_of_lockExchange hok hlock move_position_self)

/-- Whatever it does at the moment, a thread that has not got the lock can take it if it is free. -/
theorem takes_free (hok : ∀ s t a, a ≠ .weakFails → ok s (t, a)) (hlock : s.lock = 0)
    (hnot : ¬ (s.position u).Owns (s.holds u)) (hsound : (s.position u).Sound (s.holds u)) :
    s.Takes ok u := by
  cases hp : s.position u with
  | outside => exact takes_of_outside hok hlock hp
  | lockExchange => exact takes_of_lockExchange hok hlock hp
  | lockTest expected =>
      rw [hp] at hnot hsound
      have h1 : expected = 1 := hsound.resolve_left fun h0 => hnot (.inr (.inl (congrArg _ h0)))
      have hs : s.step (u, .proceed) = some (s.move u .lockExchange s.lock (s.holds u)) := by
        simp [SpinState.step, hp, h1]
      exact .head hok (.inl hs) (takes_of_lockExchange hok hlock move_position_self)
  | tryExchange =>
      have hs : s.step (u, .proceed) = some (s.move u (.tryTest 0) 1 (s.holds u)) := by
        simp [SpinState.step, hp, SpinState.tryExchange, compareExchangeWeak, compareExchangeStrong, hlock]
      exact .head hok (.inl hs) (takes_of_exchanged hok (.inr move_position_self))
  | tryTest expected =>
      rw [hp] at hnot
      have h0 : expected ≠ 0 := fun h0 => hnot (.inr (.inr (congrArg _ h0)))
      have hs : s.step (u, .proceed) = some (s.move u .outside s.lock (s.holds u)) := by
        simp [SpinState.step, hp, h0]
      exact .head hok (.inl hs) (takes_of_outside hok hlock move_position_self)
  | unlockStore =>
      rw [hp] at hsound
      exact absurd (.inl hsound) hnot

/-- A weak exchange that fails while the lock is free lets two threads have it. -/
theorem not_exclusive_of_fails (hok : ∀ s t a, a ≠ .weakFails → ok s (t, a)) (h : s.Agrees owner)
    (hp : s.position t = .tryExchange) (hlock : s.lock = 0) (hfails : ok s (t, .weakFails)) (hne : u ≠ t) :
    ∃ s', Reach SpinState.step ok s s' ∧ ¬ s'.Exclusive := by
  have hs₁ : s.step (t, .weakFails) = some (s.move t (.tryTest 0) 0 (s.holds t)) := by
    simp [SpinState.step, hp, SpinState.tryExchange, compareExchangeWeak, hlock]
  have hs₂ : (s.move t (.tryTest 0) 0 (s.holds t)).step (t, .proceed) =
      some ((s.move t (.tryTest 0) 0 (s.holds t)).move t .outside 0 true) := by
    simp [SpinState.step]
    rfl
  have howner : owner = none := by
    by_contra howner
    exact absurd (hlock.symm.trans (h.lock.trans (if_neg howner))) (by decide)
  have hnot : ¬ (s.position u).Owns (s.holds u) := by
    rw [h.owns u, howner]
    exact fun e => Option.some_ne_none u e.symm
  obtain ⟨s', hreach, hu, hother⟩ := takes_free (u := u) hok
    (s := (s.move t (.tryTest 0) 0 (s.holds t)).move t .outside 0 true) rfl
    (by rwa [move_position_of_ne hne, move_position_of_ne hne, move_holds_of_ne hne, move_holds_of_ne hne])
    (by
      rw [move_position_of_ne hne, move_position_of_ne hne, move_holds_of_ne hne, move_holds_of_ne hne]
      exact h.sound u)
  refine ⟨s', (hreach.head (hok _ t _ (by decide)) hs₂).head hfails hs₁, fun hexclusive => hne ?_⟩
  exact hexclusive u t hu ((hother t hne.symm).trans move_holds_self)

/-- **The condition is exact.**  With two threads or more, exclusion depends on nothing but the weak exchange:
it holds in every interleaving if and only if none of them comes to an exchange that may fail while the lock is
free. -/
theorem exclusive_iff [Nontrivial Thread] (mayFail : SpinState Thread → Thread → Prop) :
    (∀ s, Reach SpinState.step (FailsOnly mayFail) SpinState.start s → s.Exclusive) ↔
      ∀ s t, Reach SpinState.step (FailsOnly mayFail) SpinState.start s → s.position t = .tryExchange →
        s.lock = 0 → ¬ mayFail s t := by
  have hok : ∀ s t a, a ≠ SpinAction.weakFails → FailsOnly mayFail s (t, a) :=
    fun _ _ _ ha h => absurd h ha
  constructor
  · intro hexclusive
    -- before the first failure the state is that of a lock with an owner
    have hagrees : ∀ s, Reach SpinState.step (FailsOnly mayFail) SpinState.start s →
        (∃ owner, s.Agrees owner) ∧
          ∀ t, s.position t = .tryExchange → s.lock = 0 → ¬ mayFail s t := by
      have hnever : ∀ s, Reach SpinState.step (FailsOnly mayFail) SpinState.start s →
          (∃ owner, s.Agrees owner) → ∀ t, s.position t = .tryExchange → s.lock = 0 → ¬ mayFail s t := by
        rintro s hreach ⟨owner, h⟩ t hp hlock hmay
        obtain ⟨u, hne⟩ := exists_ne t
        obtain ⟨s', hreach', hnot⟩ := not_exclusive_of_fails hok h hp hlock (fun _ => hmay) hne
        exact hnot (hexclusive s' (hreach.trans hreach'))
      intro s hreach
      suffices ∃ owner, s.Agrees owner from ⟨this, hnever s hreach this⟩
      induction hreach with
      | refl => exact ⟨none, agrees_start⟩
      | @step s s' i hreach hi hs ih =>
          obtain ⟨owner, h⟩ := ih
          obtain ⟨owner', -, h'⟩ := h.step (strong_of_step hs fun hp hlock hweak =>
            hnever s hreach ⟨owner, h⟩ i.1 hp hlock (hi hweak)) hs
          exact ⟨owner', h'⟩
    exact fun s t hreach => (hagrees s hreach).2 t
  · intro hnever s hreach
    refine exclusive_of_strong ?_
    induction hreach with
    | refl => exact .refl
    | @step s s' i hreach hi hs ih =>
        exact .step i ih (strong_of_step hs fun hp hlock hweak =>
          hnever s i.1 hreach hp hlock (hi hweak)) hs

end

/-- Two threads try to lock, the first exchange fails spuriously, and both are told that they have the lock. -/
theorem both_hold : ¬ ∀ s : SpinState Bool, Reach SpinState.step anyInput SpinState.start s → s.Exclusive := by
  intro h
  have hrun : ∃ s ∈ run SpinState.step anyInput (SpinState.start : SpinState Bool)
      [(false, .callTryLock), (false, .weakFails), (false, .proceed),
        (true, .callTryLock), (true, .proceed), (true, .proceed)],
      s.holds false = true ∧ s.holds true = true := ⟨_, rfl, rfl, rfl⟩
  obtain ⟨s, hreach, hfalse, htrue⟩ := Reach.exists_of_run hrun
  exact Bool.false_ne_true (h s hreach false true hfalse htrue)

end Azalea.Klib
