import Mathlib.Data.List.Perm.Basic
import Mathlib.Logic.Function.Basic
import Azalea.Support.Links
import Azalea.Support.Runs

/-!
# Proc — the stack of dead processes

A thread of a user process that faults puts the process on a stack linked through the processes
themselves (`task_process::add_to_dead_list`, called by `default_handler`), from which
`proc_tidyup_thread` takes one after the other to destroy it.  There is no lock: both sides read the head
and swap it for another if it has not changed, and begin again if it has.  A thread that has put its
process on the stack yields and is not run again, so that its own reference to the process, in
`default_handler`, is never given up.

* `deadProcesses_ok`: the stack is a finite chain, and each process put on it is destroyed once, and
  exists then, as long as no process is put on it twice.  Nothing keeps two threads of a process from
  doing so (`deadProcesses_two_threads`): `in_dead_list` is set but not tested.
-/

namespace Azalea.Proc.Dead
open Azalea.Links Azalea.Runs

/-- Where a thread of a user process is. -/
inductive FaultPc (π : Type*) where
  | running
  /-- In `add_to_dead_list`, before `in_dead_list` is set. -/
  | setFlag
  | loadHead
  /-- About to write `next_defunct_process`. -/
  | link (oldHead : Option π)
  | swap (oldHead : Option π)
  /-- In `task_yield`, for good. -/
  | yielded
  deriving DecidableEq

/-- Where `proc_tidyup_thread` is. -/
inductive TidyPc (π : Type*) where
  | loadHead
  | readNext (nextProcess : π)
  | swap (nextProcess : π) (nextDefunctProcess : Option π)
  | destroy (nextProcess : π)
  deriving DecidableEq

/-- The processes, their threads and the tidy-up thread. -/
structure DeadState (π τ : Type*) where
  deadProcesses : Option π
  nextDefunctProcess : π → Option π
  inDeadList : π → Bool
  pc : τ → FaultPc π
  tidy : TidyPc π
  -- the processes put on the stack, and passed to `destroy_process`
  added : List π
  destroyed : List π

/-- What happens next.  A weak compare and exchange may fail for no reason. -/
inductive DeadAct (τ : Type*) where
  | fault (t : τ)
  | next (t : τ)
  | spurious (t : τ)
  | tidy
  | tidySpurious

variable {π τ : Type*} [DecidableEq π] [DecidableEq τ] (parent : τ → π)

namespace DeadState

def init : DeadState π τ where
  deadProcesses := none
  nextDefunctProcess _ := none
  inDeadList _ := false
  pc _ := .running
  tidy := .loadHead
  added := []
  destroyed := []

variable (s : DeadState π τ)

def setPc (t : τ) (pc : FaultPc π) : DeadState π τ := { s with pc := Function.update s.pc t pc }

/-- One step of `add_to_dead_list`. -/
def next (t : τ) : Option (DeadState π τ) :=
  let p := parent t
  match s.pc t with
  | .running | .yielded => none
  | .setFlag => some { s with
      inDeadList := Function.update s.inDeadList p true
      pc := Function.update s.pc t .loadHead }
  | .loadHead => some (s.setPc t (.link s.deadProcesses))
  | .link old => some { s with
      nextDefunctProcess := Function.update s.nextDefunctProcess p old
      pc := Function.update s.pc t (.swap old) }
  | .swap old =>
      if s.deadProcesses = old then
        some { s with
          deadProcesses := some p
          added := p :: s.added
          pc := Function.update s.pc t .yielded }
      else some (s.setPc t (.link s.deadProcesses))

/-- One step of the part of `proc_tidyup_thread` that handles dead processes. -/
def tidyStep : Option (DeadState π τ) :=
  match s.tidy with
  | .loadHead => s.deadProcesses.map fun p => { s with tidy := .readNext p }
  | .readNext p => some { s with tidy := .swap p (s.nextDefunctProcess p) }
  | .swap p n =>
      if s.deadProcesses = some p then some { s with deadProcesses := n, tidy := .destroy p }
      else some { s with tidy := .loadHead }
  | .destroy p => some { s with destroyed := p :: s.destroyed, tidy := .loadHead }

def step : DeadAct τ → Option (DeadState π τ)
  | .fault t => if s.pc t = .running then some (s.setPc t .setFlag) else none
  | .next t => s.next parent t
  | .spurious t =>
      match s.pc t with
      | .swap _ => some (s.setPc t (.link s.deadProcesses))
      | _ => none
  | .tidy => s.tidyStep
  | .tidySpurious =>
      match s.tidy with
      | .swap _ _ => some { s with tidy := .loadHead }
      | _ => none

end DeadState

/-- The process taken from the stack and not yet passed to `destroy_process`. -/
def TidyPc.inHand : TidyPc π → List π
  | .destroy p => [p]
  | _ => []

/-- The process that the tidy-up thread has a pointer to. -/
def TidyPc.pointer : TidyPc π → Option π
  | .loadHead => none
  | .readNext p | .swap p _ | .destroy p => some p

/-- What is asked of the stack. -/
structure DeadState.Ok (s : DeadState π τ) : Prop where
  /-- The chain ends and has no process twice, and a process put on the stack is either still in it, in
  hand to be destroyed, or destroyed, and that once. -/
  chain : ∃ stack, Chain s.nextDefunctProcess s.deadProcesses stack ∧ s.added.Nodup ∧
    s.added.Perm (stack ++ s.tidy.inHand ++ s.destroyed)
  /-- A process the tidy-up thread uses is referred to by one of its threads. -/
  object : ∀ p ∈ s.tidy.pointer, ∃ t, parent t = p ∧ s.pc t = .yielded

/-- `add_to_dead_list` is called only for a process that is not in the list. -/
def DeadState.NotInList (s : DeadState π τ) : DeadAct τ → Prop
  | .next t => s.pc t = .setFlag → s.inDeadList (parent t) = false
  | _ => True

/-- A thread is putting its process on the stack. -/
def FaultPc.pushing : FaultPc π → Bool
  | .loadHead | .link _ | .swap _ => true
  | .running | .setFlag | .yielded => false

namespace DeadState

omit [DecidableEq π] in
@[simp] theorem pc_setPc (s : DeadState π τ) (t u : τ) (pc : FaultPc π) :
    (s.setPc t pc).pc u = if u = t then pc else s.pc u := Function.update_apply ..

/-- What holds of a thread. -/
structure ThreadOk (s : DeadState π τ) (t : τ) : Prop where
  pushing : (s.pc t).pushing → s.inDeadList (parent t) ∧ parent t ∉ s.added
  only : (s.pc t).pushing → ∀ u, (s.pc u).pushing → parent u = parent t → u = t
  linked : ∀ old, s.pc t = .swap old → s.nextDefunctProcess (parent t) = old

/-- The process that the tidy-up thread looks at is on the stack, as nobody else takes it off, and so its
link does not change. -/
def TidyOk (s : DeadState π τ) (stack : List π) : Prop :=
  match s.tidy with
  | .loadHead | .destroy _ => True
  | .readNext p => p ∈ stack
  | .swap p n => p ∈ stack ∧ s.nextDefunctProcess p = n

/-- What holds between the steps; `stack` are the processes on the stack. -/
structure Inv (s : DeadState π τ) (stack : List π) : Prop where
  chain : Chain s.nextDefunctProcess s.deadProcesses stack
  nodup : s.added.Nodup
  perm : s.added.Perm (stack ++ s.tidy.inHand ++ s.destroyed)
  added : ∀ p ∈ s.added, s.inDeadList p ∧ ∃ t, parent t = p ∧ s.pc t = .yielded
  thread : ∀ t, s.ThreadOk parent t
  tidy : s.TidyOk stack

variable {parent} {s s' : DeadState π τ} {stack : List π} {t : τ} {p : π}

section
omit [DecidableEq π] [DecidableEq τ]

theorem Inv.init : Inv parent (init : DeadState π τ) [] where
  chain := rfl
  nodup := List.nodup_nil
  perm := List.Perm.refl _
  added _ hp := absurd hp List.not_mem_nil
  thread _ := ⟨nofun, nofun, nofun⟩
  tidy := trivial

/-- The processes on the stack have been put there, and each is on it once. -/
theorem Inv.added_of_mem (h : Inv parent s stack) (hp : p ∈ stack) : p ∈ s.added :=
  h.perm.mem_iff.mpr (by simp [hp])

end

omit [DecidableEq π] in
/-- A thread moves on without touching the stack. -/
theorem Inv.move {pc : FaultPc π} (h : Inv parent s stack) (hold : s.pc t ≠ .yielded)
    (hpushing : pc.pushing → (s.pc t).pushing) (hlinked : ∀ old, pc ≠ .swap old) :
    Inv parent (s.setPc t pc) stack where
  chain := h.chain
  nodup := h.nodup
  perm := h.perm
  added p hp := by
    obtain ⟨hflag, u, hu, hyield⟩ := h.added p hp
    refine ⟨hflag, u, hu, ?_⟩
    have hne : u ≠ t := by
      rintro rfl
      exact hold hyield
    simp [hne, hyield]
  thread u := by
    have hpush : ∀ v, ((s.setPc t pc).pc v).pushing → (s.pc v).pushing := by
      intro v hv
      rw [pc_setPc] at hv
      split at hv
      next heq => exact heq ▸ hpushing hv
      next => exact hv
    refine ⟨fun hu => (h.thread u).pushing (hpush u hu),
      fun hu v hv => (h.thread u).only (hpush u hu) v (hpush v hv), fun old hswap => ?_⟩
    rw [pc_setPc] at hswap
    split at hswap
    next => exact absurd hswap (hlinked old)
    next => exact (h.thread u).linked old hswap
  tidy := h.tidy

/-- A thread begins to put a process on the stack that is not marked. -/
theorem Inv.setFlag (h : Inv parent s stack) (hpc : s.pc t = .setFlag)
    (hfree : s.inDeadList (parent t) = false) :
    Inv parent { s with
      inDeadList := Function.update s.inDeadList (parent t) true
      pc := Function.update s.pc t .loadHead } stack := by
  have hother : ∀ v, (s.pc v).pushing → parent v ≠ parent t := by
    intro v hv heq
    have hflag := ((h.thread v).pushing hv).1
    rw [heq, hfree] at hflag
    cases hflag
  have hnew : parent t ∉ s.added := by
    intro hmem
    have hflag := (h.added _ hmem).1
    rw [hfree] at hflag
    cases hflag
  refine ⟨h.chain, h.nodup, h.perm, fun p hp => ?_, fun u => ?_, h.tidy⟩
  · obtain ⟨hflag, u, hu, hyield⟩ := h.added p hp
    refine ⟨?_, u, hu, ?_⟩
    · simp only [Function.update_apply]
      split
      · rfl
      · exact hflag
    · have hne : u ≠ t := by
        rintro rfl
        simp [hpc] at hyield
      simp only [Function.update_of_ne hne, hyield]
  · by_cases hu : u = t
    · subst hu
      refine ⟨fun _ => ⟨Function.update_self .., hnew⟩, fun _ v hv heq => ?_, fun old hswap => ?_⟩
      · by_contra hne
        simp only [Function.update_of_ne hne] at hv
        exact hother v hv heq
      · simp only [Function.update_self] at hswap
        cases hswap
    · obtain ⟨hpush, honly, hlinked⟩ := h.thread u
      refine ⟨fun hu' => ?_, fun hu' v hv heq => ?_, fun old => ?_⟩
      all_goals simp only [Function.update_of_ne hu] at *
      · rw [Function.update_of_ne (hother u hu')]
        exact hpush hu'
      · by_cases hvt : v = t
        · subst hvt
          exact absurd heq.symm (hother u hu')
        · rw [Function.update_of_ne hvt] at hv
          exact honly hu' v hv heq
      · exact hlinked old

/-- The link of a process that is not yet on the stack is written. -/
theorem Inv.link {old : Option π} (h : Inv parent s stack) (hpc : s.pc t = .link old) :
    Inv parent { s with
      nextDefunctProcess := Function.update s.nextDefunctProcess (parent t) old
      pc := Function.update s.pc t (.swap old) } stack := by
  have hpushing : (s.pc t).pushing := by rw [hpc]; rfl
  have hnew := ((h.thread t).pushing hpushing).2
  have hne : ∀ q ∈ stack, q ≠ parent t := by
    rintro q hq rfl
    exact hnew (h.added_of_mem hq)
  have hpush : ∀ v, (Function.update s.pc t (.swap old) v).pushing → (s.pc v).pushing := by
    intro v hv
    rw [Function.update_apply] at hv
    split at hv
    next heq => exact heq ▸ hpushing
    next => exact hv
  refine ⟨?_, h.nodup, h.perm, fun p hp => ?_, fun u => ?_, ?_⟩
  · exact h.chain.congr fun q hq => Function.update_of_ne (hne q hq) ..
  · obtain ⟨hflag, u, hu, hyield⟩ := h.added p hp
    have hut : u ≠ t := by
      rintro rfl
      simp [hpc] at hyield
    exact ⟨hflag, u, hu, by simp only [Function.update_of_ne hut, hyield]⟩
  · refine ⟨fun hu => (h.thread u).pushing (hpush u hu),
      fun hu v hv => (h.thread u).only (hpush u hu) v (hpush v hv), fun o hswap => ?_⟩
    by_cases hut : u = t
    · subst hut
      simp only [Function.update_self, FaultPc.swap.injEq] at hswap ⊢
      exact hswap
    · simp only [Function.update_of_ne hut] at hswap ⊢
      have hparent : parent u ≠ parent t := fun heq =>
        hut ((h.thread t).only hpushing u (by rw [hswap]; rfl) heq)
      rw [Function.update_of_ne hparent]
      exact (h.thread u).linked o hswap
  · have htidy := h.tidy
    unfold TidyOk at htidy ⊢
    cases htid : s.tidy <;> simp only [htid] at htidy ⊢
    case readNext p => exact htidy
    case swap p n =>
      refine ⟨htidy.1, ?_⟩
      rw [Function.update_of_ne (hne p htidy.1)]
      exact htidy.2

omit [DecidableEq π] in
/-- The head has not changed and the process is put before it. -/
theorem Inv.push (h : Inv parent s stack) (hpc : s.pc t = .swap s.deadProcesses) :
    Inv parent { s with
      deadProcesses := some (parent t)
      added := parent t :: s.added
      pc := Function.update s.pc t .yielded } (parent t :: stack) := by
  have hpushing : (s.pc t).pushing := by rw [hpc]; rfl
  obtain ⟨hflag, hnew⟩ := (h.thread t).pushing hpushing
  have hpush : ∀ v, (Function.update s.pc t .yielded v).pushing → v ≠ t ∧ (s.pc v).pushing := by
    intro v hv
    rw [Function.update_apply] at hv
    split at hv
    next => cases hv
    next hne => exact ⟨hne, hv⟩
  refine ⟨⟨rfl, ?_⟩, List.nodup_cons.mpr ⟨hnew, h.nodup⟩, h.perm.cons _, fun p hp => ?_, fun u => ?_, ?_⟩
  · rw [(h.thread t).linked _ hpc]
    exact h.chain
  · rcases List.mem_cons.mp hp with rfl | hp
    · exact ⟨hflag, t, rfl, Function.update_self ..⟩
    · obtain ⟨hflag, u, hu, hyield⟩ := h.added p hp
      have hut : u ≠ t := by
        rintro rfl
        simp [hpc] at hyield
      exact ⟨hflag, u, hu, by simp only [Function.update_of_ne hut, hyield]⟩
  · refine ⟨fun hu => ?_, fun hu v hv => (h.thread u).only (hpush u hu).2 v (hpush v hv).2,
      fun o hswap => ?_⟩
    · obtain ⟨hut, hu⟩ := hpush u hu
      refine ⟨((h.thread u).pushing hu).1, fun hmem => ?_⟩
      rcases List.mem_cons.mp hmem with heq | hmem
      · exact hut ((h.thread t).only hpushing u hu heq)
      · exact ((h.thread u).pushing hu).2 hmem
    · by_cases hut : u = t
      · subst hut
        simp only [Function.update_self] at hswap
        cases hswap
      · simp only [Function.update_of_ne hut] at hswap
        exact (h.thread u).linked o hswap
  · have htidy := h.tidy
    unfold TidyOk at htidy ⊢
    cases htid : s.tidy <;> simp only [htid] at htidy ⊢
    case readNext p => exact List.mem_cons_of_mem _ htidy
    case swap p n => exact ⟨List.mem_cons_of_mem _ htidy.1, htidy.2⟩

theorem Inv.next (h : Inv parent s stack) (hok : s.NotInList parent (.next t))
    (hs : s.next parent t = some s') : ∃ stack', Inv parent s' stack' := by
  cases hpc : s.pc t <;> simp only [DeadState.next, hpc, reduceCtorEq, Option.some.injEq] at hs
  case setFlag =>
    subst hs
    exact ⟨stack, h.setFlag hpc (hok hpc)⟩
  case loadHead =>
    subst hs
    exact ⟨stack, h.move (by simp [hpc]) (fun _ => by rw [hpc]; rfl) nofun⟩
  case link old =>
    subst hs
    exact ⟨stack, h.link hpc⟩
  case swap old =>
    split at hs
    next heq =>
      obtain rfl := Option.some.inj hs
      exact ⟨_, h.push (by rw [hpc, heq])⟩
    next =>
      obtain rfl := Option.some.inj hs
      exact ⟨stack, h.move (by simp [hpc]) (fun _ => by rw [hpc]; rfl) nofun⟩

omit [DecidableEq π] [DecidableEq τ] in
/-- The tidy-up thread moves on without taking anything. -/
theorem Inv.tidyMove {pc : TidyPc π} (h : Inv parent s stack) (hold : s.tidy.inHand = [])
    (hnew : pc.inHand = []) (hok : TidyOk { s with tidy := pc } stack) :
    Inv parent { s with tidy := pc } stack := by
  refine ⟨h.chain, h.nodup, ?_, h.added, fun u => ?_, hok⟩
  · simp only [hnew]
    rw [← hold]
    exact h.perm
  · exact ⟨(h.thread u).pushing, (h.thread u).only, (h.thread u).linked⟩

omit [DecidableEq π] [DecidableEq τ] in
/-- The head has not changed and is taken off. -/
theorem Inv.pop {n : Option π} (h : Inv parent s stack) (hpc : s.tidy = .swap p n)
    (hhead : s.deadProcesses = some p) :
    ∃ rest, Inv parent { s with deadProcesses := n, tidy := .destroy p } rest := by
  have htidy := h.tidy
  simp only [TidyOk, hpc] at htidy
  have hchain := h.chain
  rw [hhead] at hchain
  cases stack with
  | nil => cases hchain
  | cons q rest =>
      obtain ⟨heq, hrest⟩ := hchain
      obtain rfl := Option.some.inj heq
      rw [htidy.2] at hrest
      refine ⟨rest, hrest, h.nodup, h.perm.trans ?_, h.added, fun u => ?_, trivial⟩
      · simp [hpc, TidyPc.inHand, List.perm_middle.symm]
      · exact ⟨(h.thread u).pushing, (h.thread u).only, (h.thread u).linked⟩

omit [DecidableEq τ] in
theorem Inv.tidyStep (h : Inv parent s stack) (hs : s.tidyStep = some s') :
    ∃ stack', Inv parent s' stack' := by
  have htidy := h.tidy
  cases hpc : s.tidy <;> simp only [TidyOk, hpc] at htidy <;>
    simp only [DeadState.tidyStep, hpc, Option.some.injEq] at hs
  case loadHead =>
    obtain ⟨p, hhead, rfl⟩ := Option.map_eq_some_iff.mp hs
    have hmem : p ∈ stack := by
      have heq := h.chain.head_eq
      rw [hhead] at heq
      exact List.mem_of_mem_head? heq.symm
    exact ⟨stack, h.tidyMove (by simp [hpc, TidyPc.inHand]) rfl hmem⟩
  case readNext p =>
    subst hs
    exact ⟨stack, h.tidyMove (by simp [hpc, TidyPc.inHand]) rfl ⟨htidy, rfl⟩⟩
  case swap p n =>
    split at hs <;> obtain rfl := Option.some.inj hs
    next hhead => exact h.pop hpc hhead
    next => exact ⟨stack, h.tidyMove (by simp [hpc, TidyPc.inHand]) rfl trivial⟩
  case destroy p =>
    subst hs
    refine ⟨stack, h.chain, h.nodup, ?_, h.added, fun u => ?_, trivial⟩
    · have hperm := h.perm
      simpa [hpc, TidyPc.inHand] using hperm
    · exact ⟨(h.thread u).pushing, (h.thread u).only, (h.thread u).linked⟩

/-- Every step keeps it. -/
theorem Inv.step {i : DeadAct τ} (h : Inv parent s stack) (hok : s.NotInList parent i)
    (hs : s.step parent i = some s') : ∃ stack', Inv parent s' stack' := by
  cases i with
  | fault t =>
      simp only [DeadState.step, Option.ite_none_right_eq_some, Option.some.injEq] at hs
      obtain ⟨hpc, rfl⟩ := hs
      exact ⟨stack, h.move (by simp [hpc]) nofun nofun⟩
  | next t => exact h.next hok hs
  | spurious t =>
      simp only [DeadState.step] at hs
      split at hs
      next old hpc =>
        obtain rfl := Option.some.inj hs
        exact ⟨stack, h.move (by simp [hpc]) (fun _ => by rw [hpc]; rfl) nofun⟩
      next => cases hs
  | tidy => exact h.tidyStep hs
  | tidySpurious =>
      simp only [DeadState.step] at hs
      split at hs
      next p n hpc =>
        obtain rfl := Option.some.inj hs
        exact ⟨stack, h.tidyMove (by simp [hpc, TidyPc.inHand]) rfl trivial⟩
      next => cases hs

omit [DecidableEq π] [DecidableEq τ] in
theorem Inv.ok (h : Inv parent s stack) : s.Ok parent where
  chain := ⟨stack, h.chain, h.nodup, h.perm⟩
  object p hp := by
    refine (h.added p ?_).2
    have htidy := h.tidy
    unfold TidyOk at htidy
    cases hpc : s.tidy <;> simp only [hpc] at htidy <;> simp only [hpc, TidyPc.pointer, Option.mem_def,
      reduceCtorEq, Option.some.injEq] at hp
    case readNext q => exact h.added_of_mem (hp ▸ htidy)
    case swap q n => exact h.added_of_mem (hp ▸ htidy.1)
    case destroy q =>
      rw [h.perm.mem_iff, hpc, ← hp]
      simp [TidyPc.inHand]

/-- How far the tidy-up thread is from having destroyed all processes. -/
def toGo (s : DeadState π τ) : Nat :=
  6 * (s.added.length - s.destroyed.length) +
    match s.tidy with
    | .readNext p => if s.deadProcesses = some p then 2 else 5
    | .swap p _ => if s.deadProcesses = some p then 1 else 4
    | .loadHead => 3
    | .destroy _ => 0

omit [DecidableEq τ] in
/-- The tidy-up thread gets on, whatever the others do. -/
theorem Inv.progress (h : Inv parent s stack) (hne : s.destroyed.length ≠ s.added.length) :
    ∃ s', s.tidyStep = some s' ∧ s'.added = s.added ∧ s'.toGo < s.toGo := by
  have hlen := h.perm.length_eq
  simp only [List.length_append] at hlen
  cases hpc : s.tidy <;> simp only [hpc, TidyPc.inHand, List.length_nil, List.length_singleton] at hlen
  case loadHead =>
    cases stack with
    | nil =>
        simp only [List.length_nil] at hlen
        omega
    | cons p rest =>
        refine ⟨{ s with tidy := .readNext p }, ?_, rfl, ?_⟩
        · simp [DeadState.tidyStep, hpc, h.chain.1]
        · simp [toGo, hpc, h.chain.1]
  case readNext p =>
    refine ⟨{ s with tidy := .swap p (s.nextDefunctProcess p) }, ?_, rfl, ?_⟩
    · simp [DeadState.tidyStep, hpc]
    · simp only [toGo, hpc]
      split <;> omega
  case swap p n =>
    by_cases hhead : s.deadProcesses = some p
    · refine ⟨{ s with deadProcesses := n, tidy := .destroy p }, ?_, rfl, ?_⟩
      · simp [DeadState.tidyStep, hpc, hhead]
      · simp [toGo, hpc, hhead]
    · refine ⟨{ s with tidy := .loadHead }, ?_, rfl, ?_⟩
      · simp [DeadState.tidyStep, hpc, hhead]
      · simp [toGo, hpc, hhead]
  case destroy p =>
    refine ⟨{ s with destroyed := p :: s.destroyed, tidy := .loadHead }, ?_, rfl, ?_⟩
    · simp [DeadState.tidyStep, hpc]
    · simp only [toGo, hpc, List.length_cons]
      omega

/-- Left to itself the tidy-up thread destroys all that has been put on the stack. -/
theorem Inv.all_destroyed (h : Inv parent s stack) :
    ∃ s', Reach (DeadState.step parent) (fun _ i => i = .tidy) s s' ∧ s.added.Perm s'.destroyed := by
  have hdone : ∃ s', Reach (DeadState.step parent) (fun _ i => i = .tidy) s s' ∧
      ((∃ stack', Inv parent s' stack') ∧ s'.added = s.added) ∧
        s'.destroyed.length = s'.added.length := by
    refine Reach.of_measure toGo ?_ ⟨⟨stack, h⟩, rfl⟩
    rintro s₁ ⟨⟨stack₁, h₁⟩, hadded⟩ hne
    obtain ⟨s₂, hs, heq, hless⟩ := h₁.progress hne
    exact ⟨.tidy, s₂, rfl, hs, ⟨h₁.tidyStep hs, heq.trans hadded⟩, hless⟩
  obtain ⟨s', hreach, ⟨⟨stack', h'⟩, hadded⟩, hlen⟩ := hdone
  refine ⟨s', hreach, ?_⟩
  have hperm := h'.perm
  have hnil : stack' ++ s'.tidy.inHand = [] := by
    have := hperm.length_eq
    rw [List.length_append] at this
    exact List.length_eq_zero_iff.mp (by omega)
  rw [hnil, List.nil_append] at hperm
  rw [← hadded]
  exact hperm

end DeadState

/-- In a run in which no process is put on the stack again, the stack is a finite chain, each process put
on it is destroyed once and exists until then, and the tidy-up thread can get to all of them. -/
theorem deadProcesses_ok {parent : τ → π} {s : DeadState π τ}
    (h : Reach (DeadState.step parent) (DeadState.NotInList parent) .init s) :
    s.Ok parent ∧ ∃ s', Reach (DeadState.step parent) (fun _ i => i = .tidy) s s' ∧
      s.added.Perm s'.destroyed := by
  have hinv : ∃ stack, DeadState.Inv parent s stack := by
    refine h.invariant (I := fun s => ∃ stack, DeadState.Inv parent s stack) ⟨[], .init⟩ ?_
    rintro s₁ i s₂ ⟨stack, h₁⟩ hok hs
    exact h₁.step hok hs
  obtain ⟨stack, hinv⟩ := hinv
  exact ⟨hinv.ok, hinv.all_destroyed⟩

instance (parent : τ → π) (s : DeadState π τ) : ∀ i, Decidable (s.NotInList parent i)
  | .next t => inferInstanceAs (Decidable (s.pc t = .setFlag → s.inDeadList (parent t) = false))
  | .fault _ | .spurious _ | .tidy | .tidySpurious => .isTrue trivial

/-- A thread faults and puts its process on the stack. -/
def faultAndAdd (t : Bool) : List (DeadAct Bool) := .fault t :: List.replicate 4 (.next t)

/-- Two processes with a thread each, the first of which has been destroyed. -/
theorem deadProcesses_ok_two : ∃ s : DeadState Bool Bool, s.destroyed = [true] ∧ s.added = [true, false] ∧
    s.Ok id := by
  obtain ⟨s, hreach, hdestroyed, hadded⟩ := Reach.exists_of_run
    (by decide +kernel : ∃ s ∈ run (DeadState.step id) (DeadState.NotInList id)
      (.init : DeadState Bool Bool)
      (faultAndAdd false ++ faultAndAdd true ++ List.replicate 4 .tidy),
      s.destroyed = [true] ∧ s.added = [true, false])
  exact ⟨s, hdestroyed, hadded, (deadProcesses_ok hreach).1⟩

/-- Two threads of one process fault, and the process is linked to itself. -/
theorem deadProcesses_two_threads :
    ¬ ∀ (parent : Bool → Unit) (s : DeadState Unit Bool),
      Reach (DeadState.step parent) anyInput .init s → s.Ok parent := by
  intro h
  obtain ⟨s, hreach, hhead, hloop⟩ := Reach.exists_of_run
    (by decide +kernel : ∃ s ∈ run (DeadState.step fun _ => ()) anyInput (.init : DeadState Unit Bool)
      (faultAndAdd false ++ faultAndAdd true),
      s.deadProcesses = some () ∧ s.nextDefunctProcess () = some ())
  obtain ⟨stack, hchain, -⟩ := (h _ s hreach).chain
  rw [hhead] at hchain
  exact hchain.next_ne hloop

end Azalea.Proc.Dead
