import Mathlib.Logic.Basic

/-!
# Support — computations that write without reading

A store is a function `α → β`.  A patch says what has been written where (`overlay`).  A computation on a
store is `Blind` when it fails on every store, or has one result and makes one patch on all of them; blind
computations compose (`Blind.bind`).

* `Blind.two_runs`: on two stores, a blind computation ends alike, and each place holds the same in both
  afterwards or what it held before.
-/

namespace Azalea.Patches

variable {α β σ τ : Type*}

/-- The store with a patch over it. -/
def overlay (p : α → Option β) (r : α → β) : α → β := fun x => (p x).getD (r x)

/-- The patch `q` over the patch `p`. -/
def after (q p : α → Option β) : α → Option β := fun x => (q x).or (p x)

theorem overlay_overlay (q p : α → Option β) (r : α → β) :
    overlay q (overlay p r) = overlay (after q p) r := by
  funext x
  simp only [overlay, after]
  cases q x <;> rfl

theorem after_isSome_left {q p : α → Option β} {x : α} (h : (q x).isSome) : (after q p x).isSome := by
  simp [after, h]

theorem after_isSome_right {q p : α → Option β} {x : α} (h : (p x).isSome) : (after q p x).isSome := by
  simp [after, h]

/-- The computation fails on every store, or has one result and makes one patch, of which `P` holds. -/
def Blind (f : (α → β) → Option (σ × (α → β))) (P : σ → (α → Option β) → Prop) : Prop :=
  (∀ r, f r = none) ∨ ∃ s p, P s p ∧ ∀ r, f r = some (s, overlay p r)

section
variable {f : (α → β) → Option (σ × (α → β))} {g : σ → (α → β) → Option (τ × (α → β))}
  {P : σ → (α → Option β) → Prop} {Q : τ → (α → Option β) → Prop}

/-- A result that writes nothing. -/
theorem Blind.pure {s : σ} (h : P s fun _ => none) : Blind (fun r : α → β => some (s, r)) P :=
  .inr ⟨s, fun _ => none, h, fun _ => rfl⟩

theorem Blind.fail : Blind (fun _ : α → β => none) P := .inl fun _ => rfl

theorem Blind.write {s : σ} {p : α → Option β} (h : P s p) :
    Blind (fun r : α → β => some (s, overlay p r)) P := .inr ⟨s, p, h, fun _ => rfl⟩

/-- One after the other: the second patch lies over the first. -/
theorem Blind.bind (hf : Blind f P)
    (hg : ∀ s p, P s p → Blind (g s) fun t q => Q t (after q p)) :
    Blind (fun r => (f r).bind fun res => g res.1 res.2) Q := by
  rcases hf with hf | ⟨s, p, hP, hf⟩
  · refine .inl fun r => ?_
    dsimp only
    rw [hf r, Option.bind_none]
  · rcases hg s p hP with hg | ⟨t, q, hQ, hg⟩
    · refine .inl fun r => ?_
      dsimp only
      rw [hf r, Option.bind_some, hg]
    · refine .inr ⟨t, after q p, hQ, fun r => ?_⟩
      dsimp only
      rw [hf r, Option.bind_some, hg, overlay_overlay]

theorem Blind.map {k : σ → τ} (hf : Blind f P) (h : ∀ s p, P s p → Q (k s) p) :
    Blind (fun r => (f r).map fun res => (k res.1, res.2)) Q := by
  rcases hf with hf | ⟨s, p, hP, hf⟩
  · refine .inl fun r => ?_
    dsimp only
    rw [hf r, Option.map_none]
  · refine .inr ⟨k s, p, h s p hP, fun r => ?_⟩
    dsimp only
    rw [hf r, Option.map_some]

theorem Blind.congr {f' : (α → β) → Option (σ × (α → β))} (hf : Blind f P) (h : ∀ r, f' r = f r) :
    Blind f' P := by
  have : f' = f := funext h
  rwa [this]

theorem Blind.mono {P' : σ → (α → Option β) → Prop} (hf : Blind f P) (h : ∀ s p, P s p → P' s p) :
    Blind f P' :=
  hf.imp_right fun ⟨s, p, hP, hf⟩ => ⟨s, p, h s p hP, hf⟩

/-- **Two runs.** -/
theorem Blind.two_runs (hf : Blind f P) (r₁ r₂ : α → β) :
    (f r₁).map (·.1) = (f r₂).map (·.1) ∧
      ∀ s r₁' r₂', f r₁ = some (s, r₁') → f r₂ = some (s, r₂') → ∃ p, P s p ∧
        ∀ x, ((p x).isSome → r₁' x = r₂' x) ∧ (p x = none → r₁' x = r₁ x ∧ r₂' x = r₂ x) := by
  rcases hf with hf | ⟨s, p, hP, hf⟩
  · rw [hf r₁, hf r₂]
    exact ⟨rfl, nofun⟩
  · rw [hf r₁, hf r₂]
    refine ⟨rfl, fun s' r₁' r₂' h₁ h₂ => ?_⟩
    obtain ⟨rfl, rfl⟩ := Prod.mk.inj (Option.some.inj h₁)
    obtain ⟨-, rfl⟩ := Prod.mk.inj (Option.some.inj h₂)
    refine ⟨p, hP, fun x => ⟨fun hx => ?_, fun hx => ?_⟩⟩
    · obtain ⟨b, hb⟩ := Option.isSome_iff_exists.mp hx
      simp [overlay, hb]
    · simp [overlay, hx]

end

end Azalea.Patches
