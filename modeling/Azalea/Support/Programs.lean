import Mathlib.Data.Option.Basic

/-!
# Support — programs over an interface

A program that gets at a memory by calls of an interface only, so that it can be run on one memory or on
another.

* `Simulates.run`: on two memories whose operations agree, every program ends alike, as long as the calls
  it makes are those on which they agree (`Prog.Along`).
* `Simulates.does`: and what is noted of its calls is the same on both.
* `Prog.run_lift`, `Prog.run_beside`: a program runs among more operations, and beside more memory, as it does
  by itself.
-/

namespace Azalea.Programs

/-- A program over the operations `O`. -/
inductive Prog (O : Type → Type) (α : Type) : Type 1 where
  | done (a : α)
  | fail
  | call {β : Type} (o : O β) (next : β → Prog O α)

/-- What the operations do on a memory: they fail, or answer and change it. -/
structure Handler (O : Type → Type) (σ : Type) where
  exec : ∀ {β : Type}, O β → σ → Option (β × σ)

section
variable {O : Type → Type} {α β σ τ : Type}

/-- First `p`, and then what `f` makes of its result. -/
def Prog.bind : Prog O α → (α → Prog O β) → Prog O β
  | done a, f => f a
  | fail, _ => fail
  | call o next, f => call o fun b => (next b).bind f

instance : Monad (Prog O) where
  pure := .done
  bind := .bind

/-- A call by itself. -/
def Prog.op (o : O α) : Prog O α := .call o .done

/-- What is there, or a failure. -/
def Prog.ofOption : Option α → Prog O α
  | some a => .done a
  | none => .fail

/-- The result of a program on a memory. -/
def Prog.run (h : Handler O σ) : Prog O α → σ → Option (α × σ)
  | done a, s => some (a, s)
  | fail, _ => none
  | call o next, s => (h.exec o s).bind fun r => (next r.1).run h r.2

/-- The calls that a program makes meet a condition, each on the memory as it is then. -/
def Prog.Along (h : Handler O σ) (ok : ∀ {β : Type}, O β → σ → Prop) : Prog O α → σ → Prop
  | done _, _ => True
  | fail, _ => True
  | call o next, s => ok o s ∧ ∀ b s', h.exec o s = some (b, s') → (next b).Along h ok s'

variable {h : Handler O σ} {s s' : σ} {p : Prog O α} {f : α → Prog O β} {o : O α} {a : α}

@[simp] theorem Prog.run_pure (a : α) : (pure a : Prog O α).run h s = some (a, s) := rfl

@[simp] theorem Prog.run_fail : (Prog.fail : Prog O α).run h s = none := rfl

@[simp] theorem Prog.run_op : (Prog.op o).run h s = h.exec o s := by
  rw [Prog.op, Prog.run]
  exact Option.bind_fun_some _

@[simp] theorem Prog.run_ofOption (x : Option α) :
    (Prog.ofOption x : Prog O α).run h s = x.map fun a => (a, s) := by
  cases x <;> rfl

@[simp] theorem Prog.run_bind (p : Prog O α) (f : α → Prog O β) (s : σ) :
    (p >>= f).run h s = (p.run h s).bind fun r => (f r.1).run h r.2 := by
  change (p.bind f).run h s = _
  induction p generalizing s with
  | done a => rfl
  | fail => rfl
  | call o next ih =>
      rw [Prog.bind, Prog.run, Prog.run, Option.bind_assoc]
      exact congrArg _ (funext fun r => ih r.1 r.2)

@[simp] theorem Prog.run_ite (c : Prop) [Decidable c] (p q : Prog O α) :
    (if c then p else q).run h s = if c then p.run h s else q.run h s := by
  split <;> rfl

/-! ### The calls of a program -/

variable {ok ok' : ∀ {β : Type}, O β → σ → Prop}

@[simp] theorem Prog.along_pure (a : α) : (pure a : Prog O α).Along h ok s := trivial

@[simp] theorem Prog.along_fail : (Prog.fail : Prog O α).Along h ok s := trivial

@[simp] theorem Prog.along_op : (Prog.op o).Along h ok s ↔ ok o s :=
  and_iff_left fun _ _ _ => trivial

@[simp] theorem Prog.along_ofOption (x : Option α) : (Prog.ofOption x : Prog O α).Along h ok s := by
  cases x <;> trivial

@[simp] theorem Prog.along_bind (p : Prog O α) (f : α → Prog O β) (s : σ) :
    (p >>= f).Along h ok s ↔
      p.Along h ok s ∧ ∀ a s', p.run h s = some (a, s') → (f a).Along h ok s' := by
  change (p.bind f).Along h ok s ↔ _
  induction p generalizing s with
  | done a =>
      refine ⟨fun hf => ⟨trivial, ?_⟩, fun hf => hf.2 a s rfl⟩
      rintro b s' hrun
      obtain ⟨rfl, rfl⟩ := Prod.mk.inj (Option.some.inj hrun)
      exact hf
  | fail => exact ⟨fun _ => ⟨trivial, fun _ _ hrun => by cases hrun⟩, fun _ => trivial⟩
  | call o next ih =>
      rw [Prog.bind, Prog.Along, Prog.Along, and_assoc]
      refine and_congr_right fun _ => ?_
      constructor
      · intro hf
        refine ⟨fun b s₁ hb => ((ih b s₁).mp (hf b s₁ hb)).1, fun a s' hrun => ?_⟩
        obtain ⟨⟨b, s₁⟩, hb, hrun⟩ := Option.bind_eq_some_iff.mp hrun
        exact ((ih b s₁).mp (hf b s₁ hb)).2 a s' hrun
      · rintro ⟨hp, hf⟩ b s₁ hb
        exact (ih b s₁).mpr ⟨hp b s₁ hb, fun a s' hrun => hf a s' (Option.bind_eq_some_iff.mpr ⟨_, hb, hrun⟩)⟩

/-- Whether they do can be computed. -/
instance Prog.decidableAlong [∀ (β : Type) (o : O β) (s : σ), Decidable (ok o s)] :
    ∀ (p : Prog O α) (s : σ), Decidable (p.Along h ok s)
  | done _, _ => isTrue trivial
  | fail, _ => isTrue trivial
  | call o next, s =>
      match hx : h.exec o s with
      | none => decidable_of_iff (ok o s)
          ⟨fun hok => ⟨hok, fun b s' hb => absurd (hx.symm.trans hb) (Option.some_ne_none _).symm⟩, And.left⟩
      | some r =>
          have := Prog.decidableAlong (next r.1) r.2
          decidable_of_iff (ok o s ∧ (next r.1).Along h ok r.2)
            ⟨fun hok => ⟨hok.1, fun b s' hb => by
              obtain rfl := Option.some.inj (hx.symm.trans hb)
              exact hok.2⟩, fun hok => ⟨hok.1, hok.2 r.1 r.2 hx⟩⟩

end

/-! ### More operations, and more memory -/

section
variable {O O' : Type → Type} {α σ τ : Type} {f : ∀ {β : Type}, O β → O' β} {h : Handler O σ} {h' : Handler O' σ}
  {ok : ∀ {β : Type}, O β → σ → Prop} {ok' : ∀ {β : Type}, O' β → σ → Prop}

/-- A program over some operations, among more of them. -/
def Prog.lift (f : ∀ {β : Type}, O β → O' β) : Prog O α → Prog O' α
  | done a => done a
  | fail => fail
  | call o next => call (f o) fun b => (next b).lift f

theorem Prog.run_lift (hf : ∀ {β : Type} (o : O β) s, h'.exec (f o) s = h.exec o s) (p : Prog O α) (s : σ) :
    (p.lift f).run h' s = p.run h s := by
  induction p generalizing s with
  | done a => rfl
  | fail => rfl
  | call o next ih =>
      rw [lift, run, run, hf]
      exact congrArg _ (funext fun r => ih r.1 r.2)

theorem Prog.along_lift (hf : ∀ {β : Type} (o : O β) s, h'.exec (f o) s = h.exec o s)
    (hok : ∀ {β : Type} (o : O β) s, ok' (f o) s ↔ ok o s) (p : Prog O α) (s : σ) :
    (p.lift f).Along h' ok' s ↔ p.Along h ok s := by
  induction p generalizing s with
  | done a => exact Iff.rfl
  | fail => exact Iff.rfl
  | call o next ih =>
      rw [lift, Along, Along, hok, hf]
      exact and_congr_right fun _ => forall_congr' fun b => forall_congr' fun s' =>
        imp_congr_right fun _ => ih b s'

/-- The operations, where there is more memory that they do not touch. -/
def Handler.beside (h : Handler O σ) (τ : Type) : Handler O (σ × τ) :=
  ⟨fun o s => (h.exec o s.1).map fun r => (r.1, (r.2, s.2))⟩

theorem Handler.beside_exec {β : Type} (h : Handler O σ) (o : O β) (s : σ) (t : τ) :
    (h.beside τ).exec o (s, t) = (h.exec o s).map fun r => (r.1, (r.2, t)) := rfl

theorem Prog.run_beside (p : Prog O α) (s : σ) (t : τ) :
    p.run (h.beside τ) (s, t) = (p.run h s).map fun r => (r.1, (r.2, t)) := by
  induction p generalizing s with
  | done a => rfl
  | fail => rfl
  | call o next ih =>
      rw [run, run, Handler.beside_exec]
      cases h.exec o s with
      | none => rfl
      | some r => exact ih r.1 r.2

theorem Prog.along_beside (p : Prog O α) (s : σ) (t : τ) :
    p.Along (h.beside τ) (fun o s => ok o s.1) (s, t) ↔ p.Along h ok s := by
  induction p generalizing s with
  | done a => exact Iff.rfl
  | fail => exact Iff.rfl
  | call o next ih =>
      simp only [Along, Handler.beside_exec]
      refine and_congr_right fun _ => ⟨fun hp b s' hb => (ih b s').mp (hp b (s', t) (by rw [hb]; rfl)), ?_⟩
      rintro hp b ⟨s', t'⟩ hb
      obtain ⟨r, hr, heq⟩ := Option.map_eq_some_iff.mp hb
      obtain ⟨rfl, heq'⟩ := Prod.mk.inj heq
      obtain ⟨rfl, rfl⟩ := Prod.mk.inj heq'
      exact (ih _ _).mpr (hp _ _ hr)

end

/-! ### What a program has done -/

section
variable {O : Type → Type} {α β γ σ : Type} {h : Handler O σ} {note : ∀ {β : Type}, O β → σ → Option γ}

/-- What is noted of the operations that a program carries out, in their order. -/
def Prog.log (h : Handler O σ) (note : ∀ {β : Type}, O β → σ → Option γ) : Prog O α → σ → List γ
  | done _, _ => []
  | fail, _ => []
  | call o next, s => (note o s).toList ++ (h.exec o s).elim [] fun r => (next r.1).log h note r.2

@[simp] theorem Prog.log_pure (a : α) (s : σ) : (pure a : Prog O α).log h note s = [] := rfl

@[simp] theorem Prog.log_fail (s : σ) : (Prog.fail : Prog O α).log h note s = [] := rfl

@[simp] theorem Prog.log_op (o : O α) (s : σ) : (Prog.op o).log h note s = (note o s).toList := by
  rw [Prog.op, Prog.log]
  cases h.exec o s <;> exact List.append_nil _

@[simp] theorem Prog.log_bind (p : Prog O α) (f : α → Prog O β) (s : σ) :
    (p >>= f).log h note s =
      p.log h note s ++ (p.run h s).elim [] fun r => (f r.1).log h note r.2 := by
  change (p.bind f).log h note s = _
  induction p generalizing s with
  | done a => rfl
  | fail => rfl
  | call o next ih =>
      rw [Prog.bind, Prog.log, Prog.log, Prog.run, List.append_assoc]
      cases h.exec o s with
      | none => rfl
      | some r => exact congrArg _ (ih r.1 r.2)

/-- A program that ends: its calls meet a condition, and this is what it answers, what it leaves, and what is
noted of it. -/
structure Prog.Does (h : Handler O σ) (ok : ∀ {β : Type}, O β → σ → Prop)
    (note : ∀ {β : Type}, O β → σ → Option γ) (p : Prog O α) (s : σ) (a : α) (s' : σ) (notes : List γ) :
    Prop where
  along : p.Along h ok s
  run : p.run h s = some (a, s')
  log : p.log h note s = notes

/-- One after the other. -/
theorem Prog.Does.bind {ok : ∀ {β : Type}, O β → σ → Prop} {p : Prog O α} {f : α → Prog O β} {s s₁ s' : σ} {a : α}
    {b : β} {notes notes' : List γ} (hp : p.Does h ok note s a s₁ notes) (hf : (f a).Does h ok note s₁ b s' notes') :
    (p >>= f).Does h ok note s b s' (notes ++ notes') := by
  refine ⟨(along_bind ..).mpr ⟨hp.along, fun a' s₂ hrun => ?_⟩, ?_, ?_⟩
  · obtain ⟨rfl, rfl⟩ := Prod.mk.inj (Option.some.inj (hp.run.symm.trans hrun))
    exact hf.along
  · rw [run_bind, hp.run]
    exact hf.run
  · rw [log_bind, hp.log, hp.run]
    exact congrArg _ hf.log

end

/-! ### Two memories -/

/-- Both fail, or both answer the same and leave memories that are related. -/
abbrev Agree {α σ τ : Type} (R : σ → τ → Prop) : Option (α × σ) → Option (α × τ) → Prop :=
  Option.Rel fun x y => x.1 = y.1 ∧ R x.2 y.2

section
variable {O : Type → Type} {α σ τ : Type} {h : Handler O σ} {h' : Handler O τ} {R : σ → τ → Prop}
  {ok : ∀ {β : Type}, O β → σ → Prop} {ok' : ∀ {β : Type}, O β → τ → Prop} {x : Option (α × σ)}
  {y : Option (α × τ)} {s s' : σ} {t t' : τ} {a : α} {p : Prog O α}

theorem Agree.eq_some (hxy : Agree R x y) (hx : x = some (a, s')) : ∃ t', y = some (a, t') ∧ R s' t' := by
  subst hx
  obtain ⟨⟨b, t'⟩, rfl, rfl, hR⟩ : ∃ z, y = some z ∧ a = z.1 ∧ R s' z.2 := by
    cases hxy with
    | some hz => exact ⟨_, rfl, hz⟩
  exact ⟨t', rfl, hR⟩

theorem Agree.eq_some' (hxy : Agree R x y) (hy : y = some (a, t')) : ∃ s', x = some (a, s') ∧ R s' t' := by
  subst hy
  obtain ⟨⟨b, s'⟩, rfl, rfl, hR⟩ : ∃ z, x = some z ∧ z.1 = a ∧ R z.2 t' := by
    cases hxy with
    | some hz => exact ⟨_, rfl, hz⟩
  exact ⟨s', rfl, hR⟩

/-- What is said of the results on the one memory, and of those on the other. -/
theorem Agree.forall_iff {P : α → σ → Prop} {Q : α → τ → Prop} (hxy : Agree R x y)
    (hPQ : ∀ a s t, R s t → (P a s ↔ Q a t)) :
    (∀ a s', x = some (a, s') → P a s') ↔ ∀ a t', y = some (a, t') → Q a t' := by
  constructor
  · intro hP a t' hy
    obtain ⟨s', hx, hR⟩ := hxy.eq_some' hy
    exact (hPQ a s' t' hR).mp (hP a s' hx)
  · intro hQ a s' hx
    obtain ⟨t', hy, hR⟩ := hxy.eq_some hx
    exact (hPQ a s' t' hR).mpr (hQ a t' hy)

/-- The operations agree, on calls that meet a condition on each memory. -/
def Simulates (h : Handler O σ) (h' : Handler O τ) (R : σ → τ → Prop)
    (ok : ∀ {β : Type}, O β → σ → Prop) (ok' : ∀ {β : Type}, O β → τ → Prop) : Prop :=
  ∀ {β : Type} (o : O β) s t, R s t → ok o s → ok' o t → Agree R (h.exec o s) (h'.exec o t)

/-- **Programs agree if the operations do.** -/
theorem Simulates.run (hsim : Simulates h h' R ok ok') (p : Prog O α) (hR : R s t) (hs : p.Along h ok s)
    (ht : p.Along h' ok' t) : Agree R (p.run h s) (p.run h' t) := by
  induction p generalizing s t with
  | done a => exact .some ⟨rfl, hR⟩
  | fail => exact .none
  | call o next ih =>
      rw [Prog.run, Prog.run]
      have hstep := hsim o s t hR hs.1 ht.1
      cases hx : h.exec o s with
      | none =>
          rw [hx] at hstep
          cases hy : h'.exec o t with
          | none => exact .none
          | some r => rw [hy] at hstep; cases hstep
      | some r =>
          obtain ⟨t', hy, hR'⟩ := hstep.eq_some hx
          rw [hy]
          exact ih r.1 hR' (hs.2 r.1 r.2 hx) (ht.2 r.1 t' hy)

/-- And they do the same. -/
theorem Simulates.log {γ : Type} {note : ∀ {β : Type}, O β → σ → Option γ}
    {note' : ∀ {β : Type}, O β → τ → Option γ} (hsim : Simulates h h' R ok ok')
    (hnote : ∀ {β : Type} (o : O β) s t, R s t → note o s = note' o t) (p : Prog O α) (hR : R s t)
    (hs : p.Along h ok s) (ht : p.Along h' ok' t) : p.log h note s = p.log h' note' t := by
  induction p generalizing s t with
  | done a => rfl
  | fail => rfl
  | call o next ih =>
      rw [Prog.log, Prog.log, hnote o s t hR]
      refine congrArg _ ?_
      have hstep := hsim o s t hR hs.1 ht.1
      cases hx : h.exec o s with
      | none =>
          rw [hx] at hstep
          cases hy : h'.exec o t with
          | none => rfl
          | some r => rw [hy] at hstep; cases hstep
      | some r =>
          obtain ⟨t', hy, hR'⟩ := hstep.eq_some hx
          rw [hy]
          exact ih r.1 hR' (hs.2 r.1 r.2 hx) (ht.2 r.1 t' hy)

/-- A program that ends on the one memory ends on the other. -/
theorem Simulates.does {γ : Type} {note : ∀ {β : Type}, O β → σ → Option γ}
    {note' : ∀ {β : Type}, O β → τ → Option γ} {notes : List γ} (hsim : Simulates h h' R ok ok')
    (hnote : ∀ {β : Type} (o : O β) s t, R s t → note o s = note' o t) (hR : R s t) (hs : p.Along h ok s)
    (ht : p.Does h' ok' note' t a t' notes) : ∃ s', R s' t' ∧ p.Does h ok note s a s' notes := by
  obtain ⟨s', hs', hR'⟩ := (hsim.run p hR hs ht.along).eq_some' ht.run
  exact ⟨s', hR', hs, hs', (hsim.log hnote p hR hs ht.along).trans ht.log⟩

end

end Azalea.Programs
