import Mathlib.Logic.Basic

/-!
# Support — computations that may halt, and runs of a partial step function

A computation (`Halts.Res`) gives a value, or it panics, or it has not come to an end with the fuel it
was given; `Halts.bind_ok` takes a sequence of computations that gave a value apart.

A machine takes a step on an input or fails (`step : σ → ι → Option σ`).  `Reach` is what it can
get to when each input meets a condition on the state it is given in; `Reach.invariant` is the
induction every safety result over runs uses.

`Along` is a condition on every input of a run of a machine that does not fail, `AlongSome` on every
step of one that may; `along_congr` and `alongSome_congr` exchange two conditions that agree as long
as an invariant holds.

`outputs` is what a machine that answers each input says in a run; `outputs_eq_of_lockstep` is the
induction with which one such machine is shown to say what another does.
-/

namespace Azalea.Halts

/-- Why there is no value. -/
inductive Halt where
  | panic
  | outOfFuel
  deriving Repr, DecidableEq

/-- A value, or why there is none. -/
abbrev Res (α : Type) := Except Halt α

variable {α β : Type}

/-- What does not give a value panics. -/
def orPanic : Option α → Res α
  | some a => .ok a
  | none => .error .panic

@[simp] theorem orPanic_some (a : α) : orPanic (some a) = .ok a := rfl
@[simp] theorem orPanic_none : orPanic (none : Option α) = .error .panic := rfl

@[simp] theorem orPanic_ok {x : Option α} {a : α} : orPanic x = .ok a ↔ x = some a := by
  cases x with
  | none => exact ⟨fun h => (by cases h), fun h => (by cases h)⟩
  | some b =>
      rw [orPanic, Except.ok.injEq, Option.some.injEq]

section
variable {ε : Type*}

@[simp] theorem ok_bind (a : α) (f : α → Except ε β) : (Except.ok a >>= f) = f a := rfl
@[simp] theorem error_bind (e : ε) (f : α → Except ε β) : (Except.error e >>= f) = .error e := rfl

theorem bind_ok {x : Except ε α} {f : α → Except ε β} {b : β} :
    (x >>= f) = .ok b ↔ ∃ a, x = .ok a ∧ f a = .ok b := by
  cases x with
  | error e => exact ⟨fun h => (by cases h), fun ⟨_, h, _⟩ => (by cases h)⟩
  | ok a =>
      refine ⟨fun h => ⟨a, rfl, h⟩, fun ⟨a', h, h'⟩ => ?_⟩
      cases h
      exact h'

end

end Azalea.Halts

namespace Azalea.Runs

variable {σ ι : Type*}

/-- The states reached from `s₀` by inputs that meet `ok` where they are given. -/
inductive Reach (step : σ → ι → Option σ) (ok : σ → ι → Prop) (s₀ : σ) : σ → Prop where
  | refl : Reach step ok s₀ s₀
  | step {s s' : σ} (i : ι) : Reach step ok s₀ s → ok s i → step s i = some s' →
      Reach step ok s₀ s'

/-- Any input may be given. -/
def anyInput : σ → ι → Prop := fun _ _ => True

instance (s : σ) (i : ι) : Decidable (anyInput s i) := .isTrue trivial

/-- Give the inputs one after the other, as long as they meet `ok`. -/
def run (step : σ → ι → Option σ) (ok : σ → ι → Prop) [∀ s i, Decidable (ok s i)] :
    σ → List ι → Option σ
  | s, [] => some s
  | s, i :: is => if ok s i then (step s i).bind fun s' => run step ok s' is else none

variable {step : σ → ι → Option σ} {ok : σ → ι → Prop} {s₀ s s' : σ}

/-- What holds at the start and is kept by every step holds in every state reached. -/
theorem Reach.invariant {I : σ → Prop} (h0 : I s₀)
    (hstep : ∀ s i s', I s → ok s i → step s i = some s' → I s') (h : Reach step ok s₀ s) :
    I s := by
  induction h with
  | refl => exact h0
  | step i _ hok hs ih => exact hstep _ i _ ih hok hs

theorem Reach.mono {ok' : σ → ι → Prop} (hok : ∀ s i, ok s i → ok' s i)
    (h : Reach step ok s₀ s) : Reach step ok' s₀ s := by
  induction h with
  | refl => exact .refl
  | step i _ h hs ih => exact .step i ih (hok _ i h) hs

theorem Reach.run [∀ s i, Decidable (ok s i)] {is : List ι} : ∀ {s s' : σ},
    Reach step ok s₀ s → run step ok s is = some s' → Reach step ok s₀ s' := by
  induction is with
  | nil => rintro s s' h ⟨⟩; exact h
  | cons i is ih =>
      intro s s' h hr
      rw [Runs.run] at hr
      split at hr
      next hok =>
        obtain ⟨s₁, h₁, hr⟩ := Option.bind_eq_some_iff.mp hr
        exact ih (.step i h hok h₁) hr
      next => cases hr

/-- What a run shows of its last state holds of some state reached. -/
theorem Reach.exists_of_run [∀ s i, Decidable (ok s i)] {P : σ → Prop} {is : List ι}
    (h : ∃ s ∈ Runs.run step ok s₀ is, P s) : ∃ s, Reach step ok s₀ s ∧ P s := by
  obtain ⟨s, hs, hP⟩ := h
  exact ⟨s, Reach.refl.run hs, hP⟩

theorem Reach.head {i : ι} (hok : ok s₀ i) (hs : step s₀ i = some s) (h : Reach step ok s s') :
    Reach step ok s₀ s' := by
  induction h with
  | refl => exact .step i .refl hok hs
  | step j _ hok hs ih => exact .step j ih hok hs

theorem Reach.trans {s₁ : σ} (h : Reach step ok s₀ s) (h' : Reach step ok s s₁) :
    Reach step ok s₀ s₁ := by
  induction h' with
  | refl => exact h
  | step i _ hok hs ih => exact .step i ih hok hs

/-- A state in which `P` holds can be reached if as long as it does not hold some step makes a
measure smaller. -/
theorem Reach.of_measure {I P : σ → Prop} (μ : σ → Nat)
    (hstep : ∀ s, I s → ¬ P s → ∃ i s', ok s i ∧ step s i = some s' ∧ I s' ∧ μ s' < μ s)
    (h : I s) : ∃ s', Reach step ok s s' ∧ I s' ∧ P s' := by
  induction hn : μ s using Nat.strongRecOn generalizing s with
  | _ n ih =>
      by_cases hP : P s
      · exact ⟨s, .refl, h, hP⟩
      · obtain ⟨i, s₁, hok, hs, h₁, hlt⟩ := hstep s h hP
        obtain ⟨s', hreach, hs'⟩ := ih _ (hn ▸ hlt) h₁ rfl
        exact ⟨s', hreach.head hok hs, hs'⟩

/-- `P` holds of each input, in the state it is given in. -/
def Along (step : σ → ι → σ) (P : σ → ι → Prop) : σ → List ι → Prop
  | _, [] => True
  | s, i :: is => P s i ∧ Along step P (step s i) is

/-- Two conditions that agree where `I` holds, and of which the second keeps it, agree along every
run that starts in it. -/
theorem along_congr {step : σ → ι → σ} {P Q : σ → ι → Prop} {I : σ → Prop}
    (hPQ : ∀ s i, I s → (P s i ↔ Q s i)) (hstep : ∀ s i, I s → Q s i → I (step s i)) :
    ∀ {s : σ} {is : List ι}, I s → (Along step P s is ↔ Along step Q s is)
  | _, [], _ => Iff.rfl
  | s, i :: is, hI => by
      rw [Along, Along, hPQ s i hI]
      exact and_congr_right fun hQ => along_congr hPQ hstep (hstep s i hI hQ)

/-- `P` holds of each step of a run, up to the first one that fails. -/
def AlongSome (step : σ → ι → Option σ) (P : σ → ι → σ → Prop) : σ → List ι → Prop
  | _, [] => True
  | s, i :: is => ∀ s', step s i = some s' → P s i s' ∧ AlongSome step P s' is

/-- `along_congr`, for a machine that may fail. -/
theorem alongSome_congr {P Q : σ → ι → σ → Prop} {I : σ → Prop}
    (hPQ : ∀ s i s', I s → step s i = some s' → (P s i s' ↔ Q s i s'))
    (hstep : ∀ s i s', I s → step s i = some s' → Q s i s' → I s') :
    ∀ {s : σ} {is : List ι}, I s → (AlongSome step P s is ↔ AlongSome step Q s is)
  | _, [], _ => Iff.rfl
  | s, i :: is, hI => by
      refine forall_congr' fun s' => forall_congr' fun hs => ?_
      rw [hPQ s i s' hI hs]
      exact and_congr_right fun hQ => alongSome_congr hPQ hstep (hstep s i s' hI hs hQ)

section

variable {τ ο : Type*}

/-- What the machine says to the inputs, one after the other; nothing if it fails at one of them. -/
def outputs (step : σ → ι → Option (σ × ο)) : σ → List ι → Option (List ο)
  | _, [] => some []
  | s, i :: is => (step s i).bind fun r => (outputs step r.1 is).map (r.2 :: ·)

/-- Two machines that go in lockstep on the inputs of a run say the same, and do not fail. -/
theorem outputs_eq_of_lockstep {step : σ → ι → Option (σ × ο)} {step' : τ → ι → Option (τ × ο)}
    {R : σ → τ → Prop} {P : ι → Prop}
    (hstep : ∀ s t i, R s t → P i →
      ∃ s' t' o, step s i = some (s', o) ∧ step' t i = some (t', o) ∧ R s' t') :
    ∀ {is : List ι} {s : σ} {t : τ}, R s t → (∀ i ∈ is, P i) →
      ∃ os, outputs step s is = some os ∧ outputs step' t is = some os
  | [], _, _, _, _ => ⟨[], rfl, rfl⟩
  | i :: is, s, t, hR, hP => by
      obtain ⟨s', t', o, hs, ht, hR'⟩ := hstep s t i hR (hP i List.mem_cons_self)
      obtain ⟨os, hos, hos'⟩ := outputs_eq_of_lockstep hstep hR'
        fun j hj => hP j (List.mem_cons_of_mem i hj)
      exact ⟨o :: os, by simp [outputs, hs, hos], by simp [outputs, ht, hos']⟩

end

end Azalea.Runs
