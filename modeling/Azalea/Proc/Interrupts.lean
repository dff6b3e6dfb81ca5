import Mathlib.Algebra.Order.BigOperators.Group.Finset
import Azalea.Support.Runs

/-!
# Proc — interrupts and their slow path

The table of interrupt handlers (`processor.cpp`).  An interrupt calls the fast handlers of its receivers, on
any number of processors and without a lock, and notes which of them want their slow path; one thread goes
over the table again and again and calls the slow handlers of these.  Handlers are registered meanwhile;
removing them is left out, since the source names it as defective.

Each access to the table is a step.  The calls of the receivers are kept in a log, the last one first.

* `no_request_lost`: a request is noted, about to be noted or about to be served until it is served; no more is
  served than was asked for, and the receivers are given the number that they were registered for.
* `served_within_sweep`: a noted request is served before the thread has gone once over the table.
-/

namespace Azalea.Proc.Interrupts
open Azalea.Runs Function

/-! ### The source -/

/-- `PROC_NUM_INTERRUPTS`. -/
def numInterrupts : Nat := 256

/-- `PROC_IRQ_BASE`. -/
def irqBase : Nat := 32

/-- `PROC_NUM_IRQS`. -/
def numIrqs : Nat := 16

/-- `reserved`, as the interrupts are configured. -/
def reserved (i : Nat) : Bool := i < irqBase + numIrqs

/-- `is_irq`, as the interrupts are configured. -/
def isIrq (i : Nat) : Bool := irqBase ≤ i && i < irqBase + numIrqs

/-- `proc_interrupt_handler`. -/
structure Handler (ρ : Type) where
  receiver : ρ
  slowPathReqd : Bool

/-- What an interrupt calls: `proc_handle_interrupt` or `proc_handle_irq`. -/
inductive Entry where
  | interrupt (interruptNumber : Nat)
  | irq (irqNumber : Nat)

namespace Entry

/-- The place in the table. -/
def place : Entry → Nat
  | interrupt n => n
  | irq q => q + irqBase

/-- The number that the receivers are given. -/
def number : Entry → Nat
  | interrupt n => n
  | irq q => q

/-- The assertions at the start. -/
def Asserted : Entry → Prop
  | interrupt n => n < numInterrupts
  | irq q => q < numIrqs

instance : DecidablePred Asserted
  | interrupt n => inferInstanceAs (Decidable (n < numInterrupts))
  | irq q => inferInstanceAs (Decidable (q < numIrqs))

/-- The processor is set up to call `proc_handle_irq` for the places of IRQs. -/
def Configured : Entry → Prop
  | interrupt n => isIrq n = false
  | irq _ => True

instance : DecidablePred Configured
  | interrupt n => inferInstanceAs (Decidable (isIrq n = false))
  | irq _ => .isTrue trivial

end Entry

/-- The number that the slow path gives. -/
def slowNumber (i : Nat) : Nat := if isIrq i then i - irqBase else i

/-- Where an interrupt is; `cur_item` is a place in the list of handlers. -/
inductive IsrPc where
  | idle
  /-- Before `handle_interrupt_fast`. -/
  | fast (entry : Entry) (k : Nat)
  /-- The receiver wants its slow path. -/
  | request (entry : Entry) (k : Nat)
  | next (entry : Entry) (k : Nat)

/-- Where `proc_interrupt_slowpath_thread` is. -/
inductive SlowPc where
  | lock (i : Nat)
  | head (i : Nat)
  | look (i k : Nat)
  | clear (i k : Nat)
  /-- Before `handle_interrupt_slow`. -/
  | call (i k : Nat)
  | next (i k : Nat)
  | unlock (i : Nat)
  deriving DecidableEq

/-- Where a call of `proc_register_interrupt_handler` is. -/
inductive RegisterPc (ρ : Type) where
  | idle
  | lock (i : Nat) (receiver : ρ)
  | add (i : Nat) (receiver : ρ)
  | unlock (i : Nat)

/-- A receiver is called, with a number: the `k`th one in the `i`th list. -/
inductive Event (ρ : Type) where
  | fast (i k : Nat) (receiver : ρ) (number : Nat) (slowPath : Bool)
  | slow (i k : Nat) (receiver : ρ) (number : Nat)

/-- `proc_interrupt_data_table`, whose locks may be held by the thread of the slow path (`some none`) or by one
that registers a handler, where everything is, and the log. -/
structure IrqState (π τ ρ : Type) where
  handlers : Nat → List (Handler ρ)
  listLock : Nat → Option (Option τ)
  isr : π → IsrPc
  slow : SlowPc
  register : τ → RegisterPc ρ
  log : List (Event ρ)

/-- What can happen. -/
inductive IrqAct (π τ ρ : Type) where
  | interrupt (p : π) (entry : Entry)
  | isr (p : π) (slowPath : Bool)
  | slow
  | registerInterrupt (t : τ) (i : Nat) (receiver : ρ)
  | registerIrq (t : τ) (q : Nat) (receiver : ρ)
  | register (t : τ)

namespace IrqState

variable {π τ ρ : Type} [DecidableEq π] [DecidableEq τ] (s : IrqState π τ ρ)

/-- `proc_config_interrupt_table`. -/
def start : IrqState π τ ρ where
  handlers := fun _ => []
  listLock := fun _ => none
  isr := fun _ => .idle
  slow := .lock 0
  register := fun _ => .idle
  log := []

def setSlowPathReqd (i k : Nat) (value : Bool) : IrqState π τ ρ :=
  { s with
    handlers := update s.handlers i ((s.handlers i).modify k fun h => { h with slowPathReqd := value }) }

/-- The next handler after `k` handlers of a list, if there is one. -/
def isrFrom (entry : Entry) (k : Nat) : IsrPc :=
  if k < (s.handlers entry.place).length then .fast entry k else .idle

def slowFrom (i k : Nat) : SlowPc := if k < (s.handlers i).length then .look i k else .unlock i

/-- `proc_handle_interrupt` and `proc_handle_irq`. -/
def isrStep (p : π) (slowPath : Bool) : Option (IrqState π τ ρ) :=
  match s.isr p with
  | .idle => none
  | .fast entry k => do
      let handler ← (s.handlers entry.place)[k]?
      some { s with
        isr := update s.isr p (if slowPath then .request entry k else .next entry k)
        log := .fast entry.place k handler.receiver entry.number slowPath :: s.log }
  | .request entry k =>
      some { s.setSlowPathReqd entry.place k true with isr := update s.isr p (.next entry k) }
  | .next entry k => some { s with isr := update s.isr p (s.isrFrom entry (k + 1)) }

/-- `proc_interrupt_slowpath_thread`. -/
def slowStep : Option (IrqState π τ ρ) :=
  match s.slow with
  | .lock i =>
      if s.listLock i = none then
        some { s with listLock := update s.listLock i (some none), slow := .head i }
      else none
  | .head i => some { s with slow := s.slowFrom i 0 }
  | .look i k => do
      let handler ← (s.handlers i)[k]?
      some { s with slow := if handler.slowPathReqd then .clear i k else .next i k }
  | .clear i k => some { s.setSlowPathReqd i k false with slow := .call i k }
  | .call i k => do
      let handler ← (s.handlers i)[k]?
      some { s with slow := .next i k, log := .slow i k handler.receiver (slowNumber i) :: s.log }
  | .next i k => some { s with slow := s.slowFrom i (k + 1) }
  | .unlock i =>
      some { s with
        listLock := update s.listLock i none
        slow := .lock ((i + 1) % numInterrupts) }

/-- `proc_register_interrupt_handler`, after its assertions. -/
def registerStep (t : τ) : Option (IrqState π τ ρ) :=
  match s.register t with
  | .idle => none
  | .lock i receiver =>
      if s.listLock i = none then
        some { s with
          listLock := update s.listLock i (some (some t))
          register := update s.register t (.add i receiver) }
      else none
  | .add i receiver =>
      some { s with
        handlers := update s.handlers i (s.handlers i ++ [⟨receiver, false⟩])
        register := update s.register t (.unlock i) }
  | .unlock i =>
      some { s with
        listLock := update s.listLock i none
        register := update s.register t .idle }

/-- A thread calls `proc_register_interrupt_handler`. -/
def registerCall (t : τ) (i : Nat) (receiver : ρ) : Option (IrqState π τ ρ) :=
  match s.register t with
  | .idle =>
      if i < numInterrupts ∧ (reserved i = false ∨ isIrq i = true) then
        some { s with register := update s.register t (.lock i receiver) }
      else none
  | _ => none

/-- An interrupt comes. -/
def interrupt (p : π) (entry : Entry) : Option (IrqState π τ ρ) :=
  match s.isr p with
  | .idle => if entry.Asserted then some { s with isr := update s.isr p (s.isrFrom entry 0) } else none
  | _ => none

def step : IrqAct π τ ρ → Option (IrqState π τ ρ)
  | .interrupt p entry => s.interrupt p entry
  | .isr p slowPath => s.isrStep p slowPath
  | .slow => s.slowStep
  | .registerInterrupt t i receiver => s.registerCall t i receiver
  | .registerIrq t q receiver => if q < numIrqs then s.registerCall t (q + irqBase) receiver else none
  | .register t => s.registerStep t

/-- Interrupts come as the processor is set up. -/
def Configured (_ : IrqState π τ ρ) : IrqAct π τ ρ → Prop
  | .interrupt _ entry => entry.Configured
  | _ => True

instance (s : IrqState π τ ρ) : DecidablePred s.Configured
  | .interrupt _ entry => inferInstanceAs (Decidable entry.Configured)
  | .isr _ _ | .slow | .registerInterrupt _ _ _ | .registerIrq _ _ _ | .register _ => .isTrue trivial

end IrqState

/-! ### What is to be shown -/

section
variable {π τ ρ : Type}

/-- Since the start of its last slow call the handler has wanted its slow path. -/
def Pending (i k : Nat) : List (Event ρ) → Prop
  | [] => False
  | .fast i' k' _ _ slowPath :: log => (i' = i ∧ k' = k ∧ slowPath = true) ∨ Pending i k log
  | .slow i' k' _ _ :: log => ¬ (i' = i ∧ k' = k) ∧ Pending i k log

/-- How often a handler has wanted its slow path. -/
def requests (i k : Nat) : List (Event ρ) → Nat
  | [] => 0
  | .fast i' k' _ _ slowPath :: log =>
      (if i' = i ∧ k' = k ∧ slowPath = true then 1 else 0) + requests i k log
  | .slow _ _ _ _ :: log => requests i k log

/-- How often its slow path was called. -/
def slowCalls (i k : Nat) : List (Event ρ) → Nat
  | [] => 0
  | .fast _ _ _ _ _ :: log => slowCalls i k log
  | .slow i' k' _ _ :: log => (if i' = i ∧ k' = k then 1 else 0) + slowCalls i k log

/-- The event is a call of that handler, with that number. -/
def Event.Is (i k : Nat) (receiver : ρ) (number : Nat) : Event ρ → Prop
  | .fast i' k' receiver' number' _ | .slow i' k' receiver' number' =>
      i' = i ∧ k' = k ∧ receiver' = receiver ∧ number' = number

/-- The handler is marked. -/
def IrqState.required (s : IrqState π τ ρ) (i k : Nat) : Bool := (s.handlers i)[k]?.any (·.slowPathReqd)

/-- In the section that a lock protects. -/
def SlowPc.Holds (i : Nat) : SlowPc → Prop
  | .lock _ => False
  | .head j | .look j _ | .clear j _ | .call j _ | .next j _ | .unlock j => j = i

def RegisterPc.Holds (i : Nat) : RegisterPc ρ → Prop
  | .idle | .lock _ _ => False
  | .add j _ | .unlock j => j = i

/-- No request is lost and none is made up. -/
structure Served (s : IrqState π τ ρ) : Prop where
  kept : ∀ i k, Pending i k s.log → s.required i k = true ∨
    (∃ p entry, s.isr p = .request entry k ∧ entry.place = i) ∨ s.slow = .call i k
  requested : ∀ i k, slowCalls i k s.log ≤ requests i k s.log
  numbered : ∀ e ∈ s.log, ∃ i k handler, (s.handlers i)[k]? = some handler ∧
    e.Is i k handler.receiver (slowNumber i)
  exclusive : ∀ i t, (s.register t).Holds i →
    ¬ s.slow.Holds i ∧ ∀ t', (s.register t').Holds i → t' = t

/-- How many steps it takes to go once over the table. -/
def IrqState.sweep (s : IrqState π τ ρ) : Nat :=
  ∑ i ∈ Finset.range numInterrupts, (3 + 4 * (s.handlers i).length)

/-- How many steps the thread of the slow path makes. -/
def slowSteps : List (IrqAct π τ ρ) → Nat
  | [] => 0
  | .slow :: as => slowSteps as + 1
  | _ :: as => slowSteps as

end

/-! ### The numbers -/

theorem Entry.number_eq {entry : Entry} (hasserted : entry.Asserted) (hconfigured : entry.Configured) :
    entry.number = slowNumber entry.place := by
  cases entry with
  | interrupt n => exact (if_neg (Bool.eq_false_iff.1 hconfigured)).symm
  | irq q =>
      have hlt : q + irqBase < irqBase + numIrqs := Nat.add_comm irqBase q ▸ Nat.add_lt_add_left hasserted _
      have hirq : isIrq (q + irqBase) = true := by
        rw [isIrq, Bool.and_eq_true, decide_eq_true_eq, decide_eq_true_eq]
        exact ⟨Nat.le_add_left _ _, hlt⟩
      rw [slowNumber, Entry.place, if_pos hirq, Nat.add_sub_cancel]
      rfl

section
variable {π τ ρ : Type} [DecidableEq π] [DecidableEq τ] {s s' : IrqState π τ ρ} {i i' k k' : Nat} {p : π} {t : τ}
  {log : List (Event ρ)}

/-! ### The requests that are noted -/

/-- An interrupt is about to mark the handler. -/
def IsrPc.asks (i k : Nat) : IsrPc → Nat
  | .request entry k' => if entry.place = i ∧ k' = k then 1 else 0
  | _ => 0

/-- How many interrupts are. -/
def asks [Fintype π] (isr : π → IsrPc) (i k : Nat) : Nat := ∑ p, (isr p).asks i k

/-- The thread of the slow path is about to call the handler. -/
def SlowPc.calls (i k : Nat) : SlowPc → Nat
  | .call i' k' => if i' = i ∧ k' = k then 1 else 0
  | _ => 0

/-- For one handler: what is asked for is noted somewhere, and what is noted was asked for. -/
structure Balanced (i k : Nat) (required : Bool) (asks calls : Nat) (log : List (Event ρ)) : Prop where
  kept : Pending i k log → required = true ∨ 0 < asks ∨ 0 < calls
  counted : slowCalls i k log + required.toNat + asks + calls ≤ requests i k log

theorem asks_update [Fintype π] (isr : π → IsrPc) (p : π) (pc : IsrPc) (i k : Nat) :
    asks (update isr p pc) i k + (isr p).asks i k = asks isr i k + pc.asks i k := by
  unfold asks
  rw [← Finset.add_sum_erase _ _ (Finset.mem_univ p), ← Finset.add_sum_erase Finset.univ _ (Finset.mem_univ p),
    update_self]
  have hothers : ∑ q ∈ Finset.univ.erase p, (update isr p pc q).asks i k =
      ∑ q ∈ Finset.univ.erase p, (isr q).asks i k :=
    Finset.sum_congr rfl fun q hq => by rw [update_of_ne (Finset.ne_of_mem_erase hq)]
  omega

variable {required : Bool} {asked calls asked' calls' number : Nat} {receiver : ρ} {slowPath : Bool}

theorem Balanced.fast (h : Balanced i k required asked calls log)
    (hasks : asked' = asked + if i' = i ∧ k' = k ∧ slowPath = true then 1 else 0) :
    Balanced i k required asked' calls (.fast i' k' receiver number slowPath :: log) where
  kept hpending := by
    rcases hpending with hnew | hold
    · rw [hasks, if_pos hnew]
      exact Or.inr (Or.inl (Nat.succ_pos _))
    · exact (h.kept hold).imp_right (Or.imp_left fun hpos => by omega)
  counted := by
    have hcounted := h.counted
    simp only [slowCalls, requests]
    omega

theorem Balanced.mark (h : Balanced i k required asked calls log)
    (hasks : asked' + (if i' = i ∧ k' = k then 1 else 0) = asked) :
    Balanced i k (if i' = i ∧ k' = k then true else required) asked' calls log := by
  by_cases hsame : i' = i ∧ k' = k
  · rw [if_pos hsame] at hasks ⊢
    refine ⟨fun _ => Or.inl rfl, ?_⟩
    have hcounted := h.counted
    rw [Bool.toNat_true]
    omega
  · rw [if_neg hsame] at hasks ⊢
    exact (show asked' = asked from hasks) ▸ h

theorem Balanced.clear (h : Balanced i k required asked 0 log) (hmarked : i' = i ∧ k' = k → required = true) :
    Balanced i k (if i' = i ∧ k' = k then false else required) asked (if i' = i ∧ k' = k then 1 else 0) log := by
  by_cases hsame : i' = i ∧ k' = k
  · rw [if_pos hsame, if_pos hsame]
    refine ⟨fun _ => Or.inr (Or.inr Nat.one_pos), ?_⟩
    have hcounted := h.counted
    rw [hmarked hsame, Bool.toNat_true] at hcounted
    rw [Bool.toNat_false]
    omega
  · rw [if_neg hsame, if_neg hsame]
    exact h

theorem Balanced.serve (h : Balanced i k required asked (if i' = i ∧ k' = k then 1 else 0) log) :
    Balanced i k required asked 0 (.slow i' k' receiver number :: log) where
  kept hpending := by
    have hkept := h.kept hpending.2
    rwa [if_neg hpending.1] at hkept
  counted := by
    have hcounted := h.counted
    simp only [slowCalls, requests]
    omega

/-! ### The lists of handlers -/

section
omit [DecidableEq π] [DecidableEq τ]

theorem getElem?_set (value : Bool) :
    ((s.setSlowPathReqd i' k' value).handlers i)[k]? =
      (s.handlers i)[k]?.map fun h => if i' = i ∧ k' = k then { h with slowPathReqd := value } else h := by
  unfold IrqState.setSlowPathReqd
  dsimp only
  by_cases hi : i = i'
  · subst hi
    rw [update_self, List.getElem?_modify]
    by_cases hk : k' = k
    · simp [hk]
    · simp [hk]
  · rw [update_of_ne hi]
    have hne : ¬ (i' = i ∧ k' = k) := fun h => hi h.1.symm
    simp [hne]

theorem required_set (value : Bool) (hk : k' < (s.handlers i').length) :
    (s.setSlowPathReqd i' k' value).required i k = if i' = i ∧ k' = k then value else s.required i k := by
  unfold IrqState.required
  rw [getElem?_set]
  by_cases hsame : i' = i ∧ k' = k
  · obtain ⟨rfl, rfl⟩ := hsame
    rw [if_pos ⟨rfl, rfl⟩, List.getElem?_eq_getElem hk]
    simp
  · rw [if_neg hsame]
    simp [hsame]

end

/-- Handlers keep their places. -/
def Kept (handlers handlers' : Nat → List (Handler ρ)) : Prop :=
  ∀ (i k : Nat) (handler : Handler ρ), (handlers i)[k]? = some handler →
    ∃ handler' : Handler ρ, (handlers' i)[k]? = some handler' ∧ handler'.receiver = handler.receiver

theorem Kept.refl (handlers : Nat → List (Handler ρ)) : Kept handlers handlers :=
  fun _ _ handler hget => ⟨handler, hget, rfl⟩

omit [DecidableEq π] [DecidableEq τ] in
theorem kept_set (s : IrqState π τ ρ) (i' k' : Nat) (value : Bool) :
    Kept s.handlers (s.setSlowPathReqd i' k' value).handlers := by
  intro i k handler hget
  refine ⟨_, by rw [getElem?_set, hget]; rfl, ?_⟩
  split <;> rfl

theorem kept_add (handlers : Nat → List (Handler ρ)) (i' : Nat) (handler : Handler ρ) :
    Kept handlers (update handlers i' (handlers i' ++ [handler])) := by
  intro i k old hget
  refine ⟨old, ?_, rfl⟩
  by_cases hi : i = i'
  · subst hi
    rw [update_self, List.getElem?_append_left (List.getElem?_eq_some_iff.1 hget).1, hget]
  · rw [update_of_ne hi, hget]

theorem Kept.length_le {handlers handlers' : Nat → List (Handler ρ)} (h : Kept handlers handlers') (i : Nat) :
    (handlers i).length ≤ (handlers' i).length := by
  by_contra hlt
  obtain ⟨handler', hget, -⟩ := h i (handlers' i).length _ (List.getElem?_eq_getElem (Nat.lt_of_not_le hlt))
  exact absurd (List.getElem?_eq_some_iff.1 hget).1 (Nat.lt_irrefl _)

omit [DecidableEq π] [DecidableEq τ] in
/-- A new handler is not marked. -/
theorem required_add (s : IrqState π τ ρ) (i' : Nat) (receiver : ρ) (i k : Nat) :
    IrqState.required { s with handlers := update s.handlers i' (s.handlers i' ++ [⟨receiver, false⟩]) } i k =
      s.required i k := by
  unfold IrqState.required
  dsimp only
  by_cases hi : i = i'
  · subst hi
    rw [update_self, List.getElem?_append]
    split
    · rfl
    · next hlen =>
        rw [List.getElem?_eq_none (Nat.le_of_not_lt hlen)]
        cases k - (s.handlers i).length with
        | zero => rfl
        | succ n => rfl
  · rw [update_of_ne hi]

/-! ### The invariant -/

/-- An interrupt is inside of the lists, with the number of its place. -/
def IsrPc.Within (handlers : Nat → List (Handler ρ)) : IsrPc → Prop
  | .idle => True
  | .fast entry k | .request entry k | .next entry k =>
      entry.number = slowNumber entry.place ∧ k < (handlers entry.place).length

def SlowPc.Within (handlers : Nat → List (Handler ρ)) : SlowPc → Prop
  | .lock i | .head i | .unlock i => i < numInterrupts
  | .look i k | .clear i k | .call i k | .next i k => i < numInterrupts ∧ k < (handlers i).length

/-- The receivers of a log are those that were registered, and their numbers those of their places. -/
def Numbered (handlers : Nat → List (Handler ρ)) (log : List (Event ρ)) : Prop :=
  ∀ e ∈ log, ∃ i k handler, (handlers i)[k]? = some handler ∧ e.Is i k handler.receiver (slowNumber i)

variable {handlers handlers' : Nat → List (Handler ρ)} {pc : IsrPc} {slow : SlowPc} {entry : Entry}
  {handler : Handler ρ} {isr : π → IsrPc} {register : τ → RegisterPc ρ}

theorem IsrPc.Within.kept (h : pc.Within handlers) (hkept : Kept handlers handlers') : pc.Within handlers' := by
  cases pc with
  | idle => trivial
  | fast entry k => exact ⟨h.1, Nat.lt_of_lt_of_le h.2 (hkept.length_le _)⟩
  | request entry k => exact ⟨h.1, Nat.lt_of_lt_of_le h.2 (hkept.length_le _)⟩
  | next entry k => exact ⟨h.1, Nat.lt_of_lt_of_le h.2 (hkept.length_le _)⟩

theorem SlowPc.Within.kept (h : slow.Within handlers) (hkept : Kept handlers handlers') :
    slow.Within handlers' := by
  cases slow with
  | lock i | head i | unlock i => exact h
  | look i k => exact ⟨h.1, Nat.lt_of_lt_of_le h.2 (hkept.length_le _)⟩
  | clear i k => exact ⟨h.1, Nat.lt_of_lt_of_le h.2 (hkept.length_le _)⟩
  | call i k => exact ⟨h.1, Nat.lt_of_lt_of_le h.2 (hkept.length_le _)⟩
  | next i k => exact ⟨h.1, Nat.lt_of_lt_of_le h.2 (hkept.length_le _)⟩

theorem Numbered.kept (h : Numbered handlers log) (hkept : Kept handlers handlers') : Numbered handlers' log := by
  intro e he
  obtain ⟨i, k, handler, hget, his⟩ := h e he
  obtain ⟨handler', hget', hsame⟩ := hkept i k handler hget
  exact ⟨i, k, handler', hget', hsame ▸ his⟩

theorem within_update (h : ∀ q, (isr q).Within handlers) (hpc : pc.Within handlers) (p : π) :
    ∀ q, (update isr p pc q).Within handlers :=
  (forall_update_iff isr fun _ pc => IsrPc.Within handlers pc).2 ⟨hpc, fun q _ => h q⟩

/-- What holds in every state. -/
structure Inv [Fintype π] (s : IrqState π τ ρ) : Prop where
  isr : ∀ p, (s.isr p).Within s.handlers
  slow : s.slow.Within s.handlers
  marked : ∀ i k, s.slow = .clear i k → s.required i k = true
  slowLock : ∀ i, s.slow.Holds i → s.listLock i = some none
  registerLock : ∀ i t, (s.register t).Holds i → s.listLock i = some (some t)
  balanced : ∀ i k, Balanced i k (s.required i k) (asks s.isr i k) (s.slow.calls i k) s.log
  numbered : Numbered s.handlers s.log

variable [Fintype π]

omit [DecidableEq π] [DecidableEq τ] in
theorem inv_start : Inv (.start : IrqState π τ ρ) where
  isr _ := trivial
  slow := show 0 < numInterrupts by decide
  marked _ _ hclear := SlowPc.noConfusion hclear
  slowLock _ hholds := hholds.elim
  registerLock _ _ hholds := hholds.elim
  balanced i k := by
    refine ⟨fun hpending => hpending.elim, ?_⟩
    have hasks : asks (IrqState.start : IrqState π τ ρ).isr i k = 0 := Finset.sum_const_zero
    rw [hasks]
    exact Nat.le_refl 0
  numbered _ he := absurd he List.not_mem_nil

/-! ### Interrupts -/

omit [DecidableEq τ] in
/-- An interrupt goes on. -/
theorem Inv.setIsr (h : Inv s) (p : π) (hpc : pc.Within s.handlers)
    (hasks : ∀ i k, pc.asks i k = (s.isr p).asks i k) : Inv { s with isr := update s.isr p pc } :=
  { h with
    isr := within_update h.isr hpc p
    balanced := by
      intro i k
      have hsame : asks (update s.isr p pc) i k = asks s.isr i k := by
        have hupdate := asks_update s.isr p pc i k
        rw [hasks] at hupdate
        exact Nat.add_right_cancel hupdate
      exact hsame.symm ▸ h.balanced i k }

omit [DecidableEq π] [DecidableEq τ] [Fintype π] in
theorem isrFrom_within (hnumber : entry.number = slowNumber entry.place) (k : Nat) :
    (s.isrFrom entry k).Within s.handlers := by
  unfold IrqState.isrFrom
  split
  · next hlt => exact ⟨hnumber, hlt⟩
  · trivial

omit [DecidableEq π] [DecidableEq τ] [Fintype π] in
theorem isrFrom_asks (entry : Entry) (j : Nat) : (s.isrFrom entry j).asks i k = 0 := by
  unfold IrqState.isrFrom
  split <;> rfl

section
omit [DecidableEq τ]

theorem Inv.interrupt (h : Inv s) (hconfigured : entry.Configured) (hstep : s.interrupt p entry = some s') :
    Inv s' := by
  unfold IrqState.interrupt at hstep
  split at hstep
  · next hidle =>
      split at hstep
      · next hasserted =>
          rw [← Option.some.inj hstep]
          refine h.setIsr p (isrFrom_within (Entry.number_eq hasserted hconfigured) 0) fun i k => ?_
          rw [isrFrom_asks, hidle]
          rfl
      · cases hstep
  · cases hstep

/-- A fast handler has been called. -/
theorem Inv.fast (h : Inv s) (hpc : s.isr p = .fast entry k) (hget : (s.handlers entry.place)[k]? = some handler) :
    Inv { s with
      isr := update s.isr p (if slowPath then .request entry k else .next entry k)
      log := .fast entry.place k handler.receiver entry.number slowPath :: s.log } :=
  have hwithin : (IsrPc.fast entry k).Within s.handlers := hpc ▸ h.isr p
  { h with
    isr := within_update h.isr (by cases slowPath <;> exact hwithin) p
    balanced := by
      intro i j
      refine (h.balanced i j).fast ?_
      have hupdate := asks_update s.isr p (if slowPath then .request entry k else .next entry k) i j
      rw [hpc] at hupdate
      refine hupdate.trans (congrArg (asks s.isr i j + ·) ?_)
      cases slowPath <;> simp [IsrPc.asks]
    numbered := by
      intro e he
      rcases List.mem_cons.1 he with rfl | hold
      · exact ⟨entry.place, k, handler, hget, rfl, rfl, rfl, hwithin.1⟩
      · exact h.numbered e hold }

/-- A handler has been marked. -/
theorem Inv.mark (h : Inv s) (hpc : s.isr p = .request entry k) :
    Inv { s.setSlowPathReqd entry.place k true with isr := update s.isr p (.next entry k) } :=
  have hwithin : (IsrPc.next entry k).Within s.handlers :=
    show (IsrPc.request entry k).Within s.handlers from hpc ▸ h.isr p
  have hkept := kept_set s entry.place k true
  { h with
    isr := within_update (fun q => (h.isr q).kept hkept) (hwithin.kept hkept) p
    slow := h.slow.kept hkept
    marked := by
      intro i j hclear
      refine (required_set true hwithin.2).trans ?_
      split
      · rfl
      · exact h.marked i j hclear
    balanced := by
      intro i j
      refine (required_set (i := i) (k := j) true hwithin.2).symm ▸ (h.balanced i j).mark ?_
      have hupdate := asks_update s.isr p (.next entry k) i j
      rw [hpc] at hupdate
      exact hupdate
    numbered := h.numbered.kept hkept }

theorem Inv.isrStep (h : Inv s) (hstep : s.isrStep p slowPath = some s') : Inv s' := by
  unfold IrqState.isrStep at hstep
  split at hstep
  · cases hstep
  · next entry k hpc =>
      obtain ⟨handler, hget, hstep⟩ := Option.bind_eq_some_iff.1 hstep
      rw [← Option.some.inj hstep]
      exact h.fast hpc hget
  · next entry k hpc =>
      rw [← Option.some.inj hstep]
      exact h.mark hpc
  · next entry k hpc =>
      rw [← Option.some.inj hstep]
      have hwithin : (IsrPc.next entry k).Within s.handlers := hpc ▸ h.isr p
      refine h.setIsr p (isrFrom_within hwithin.1 (k + 1)) fun i j => ?_
      rw [isrFrom_asks, hpc]
      rfl

end

/-! ### The thread of the slow path -/

section
omit [DecidableEq π] [DecidableEq τ]

/-- The thread goes on with the lock that it has. -/
theorem Inv.goSlow (h : Inv s) (hwithin : slow.Within s.handlers)
    (hcalls : ∀ i k, slow.calls i k = s.slow.calls i k)
    (hmarked : ∀ i k, slow = .clear i k → s.required i k = true)
    (hholds : ∀ i, slow.Holds i → s.slow.Holds i) : Inv { s with slow := slow } :=
  { h with
    slow := hwithin
    marked := hmarked
    slowLock := fun i hi => h.slowLock i (hholds i hi)
    balanced := fun i k => (hcalls i k).symm ▸ h.balanced i k }

/-- The thread goes to a handler of a list, or to the end. -/
theorem Inv.goFrom (h : Inv s) (hplace : i < numInterrupts) (hcalls : ∀ i' k', s.slow.calls i' k' = 0)
    (hholds : s.slow.Holds i) (k : Nat) : Inv { s with slow := s.slowFrom i k } := by
  unfold IrqState.slowFrom
  split
  · next hlt =>
      exact h.goSlow ⟨hplace, hlt⟩ (fun i' k' => (hcalls i' k').symm) (fun _ _ hclear => SlowPc.noConfusion hclear)
        fun j hj => hj ▸ hholds
  · exact h.goSlow hplace (fun i' k' => (hcalls i' k').symm) (fun _ _ hclear => SlowPc.noConfusion hclear)
      fun j hj => hj ▸ hholds

theorem Inv.slowLocks (h : Inv s) (hpc : s.slow = .lock i) (hfree : s.listLock i = none) :
    Inv { s with listLock := update s.listLock i (some none), slow := .head i } :=
  have hwithin : (SlowPc.lock i).Within s.handlers := hpc ▸ h.slow
  { h with
    slow := hwithin
    marked := fun _ _ hclear => SlowPc.noConfusion hclear
    slowLock := by
      rintro j rfl
      exact update_self ..
    registerLock := by
      intro j t hj
      have hne : j ≠ i := by
        rintro rfl
        exact Option.some_ne_none _ ((h.registerLock j t hj).symm.trans hfree)
      exact (update_of_ne hne ..).trans (h.registerLock j t hj)
    balanced := by
      intro j k
      have hbalanced := h.balanced j k
      rwa [hpc] at hbalanced }

theorem Inv.slowUnlocks (h : Inv s) (hpc : s.slow = .unlock i) :
    Inv { s with listLock := update s.listLock i none, slow := .lock ((i + 1) % numInterrupts) } :=
  { h with
    slow := Nat.mod_lt _ (by decide)
    marked := fun _ _ hclear => SlowPc.noConfusion hclear
    slowLock := fun _ hj => hj.elim
    registerLock := by
      intro j t hj
      have hne : j ≠ i := by
        rintro rfl
        have hheld := h.slowLock j (by rw [hpc]; rfl)
        exact Option.some_ne_none t (Option.some.inj ((h.registerLock j t hj).symm.trans hheld))
      exact (update_of_ne hne ..).trans (h.registerLock j t hj)
    balanced := by
      intro j k
      have hbalanced := h.balanced j k
      rwa [hpc] at hbalanced }

/-- A mark has been cleared. -/
theorem Inv.clear (h : Inv s) (hpc : s.slow = .clear i k) :
    Inv { s.setSlowPathReqd i k false with slow := .call i k } :=
  have hwithin : (SlowPc.call i k).Within s.handlers :=
    show (SlowPc.clear i k).Within s.handlers from hpc ▸ h.slow
  have hkept := kept_set s i k false
  { h with
    isr := fun p => (h.isr p).kept hkept
    slow := hwithin.kept hkept
    marked := fun _ _ hclear => SlowPc.noConfusion hclear
    slowLock := fun j hj => h.slowLock j (by rw [hpc]; exact hj)
    balanced := by
      intro j l
      refine (required_set (i := j) (k := l) false hwithin.2).symm ▸ Balanced.clear ?_ ?_
      · have hbalanced := h.balanced j l
        rwa [hpc] at hbalanced
      · rintro ⟨rfl, rfl⟩
        exact h.marked i k hpc
    numbered := h.numbered.kept hkept }

/-- A slow handler is called. -/
theorem Inv.serve (h : Inv s) (hpc : s.slow = .call i k) (hget : (s.handlers i)[k]? = some handler) :
    Inv { s with slow := .next i k, log := .slow i k handler.receiver (slowNumber i) :: s.log } :=
  have hwithin : (SlowPc.next i k).Within s.handlers :=
    show (SlowPc.call i k).Within s.handlers from hpc ▸ h.slow
  { h with
    slow := hwithin
    marked := fun _ _ hclear => SlowPc.noConfusion hclear
    slowLock := fun j hj => h.slowLock j (by rw [hpc]; exact hj)
    balanced := by
      intro j l
      have hbalanced := h.balanced j l
      rw [hpc] at hbalanced
      exact hbalanced.serve
    numbered := by
      intro e he
      rcases List.mem_cons.1 he with rfl | hold
      · exact ⟨i, k, handler, hget, rfl, rfl, rfl, rfl⟩
      · exact h.numbered e hold }

theorem Inv.slowStep (h : Inv s) (hstep : s.slowStep = some s') : Inv s' := by
  unfold IrqState.slowStep at hstep
  have hslow := h.slow
  split at hstep
  · next i hpc =>
      split at hstep
      · next hfree =>
          rw [← Option.some.inj hstep]
          exact h.slowLocks hpc hfree
      · cases hstep
  · next i hpc =>
      rw [hpc] at hslow
      rw [← Option.some.inj hstep]
      exact h.goFrom hslow (fun _ _ => by rw [hpc]; rfl) (by rw [hpc]; rfl) 0
  · next i k hpc =>
      rw [hpc] at hslow
      obtain ⟨handler, hget, hstep⟩ := Option.bind_eq_some_iff.1 hstep
      rw [← Option.some.inj hstep]
      split
      · next hreqd =>
          refine h.goSlow hslow (fun _ _ => by rw [hpc]; rfl) ?_ fun j hj => by rw [hpc]; exact hj
          intro i' k' hclear
          obtain ⟨rfl, rfl⟩ := SlowPc.clear.inj hclear
          rw [IrqState.required, hget]
          exact hreqd
      · exact h.goSlow hslow (fun _ _ => by rw [hpc]; rfl) (fun _ _ hclear => SlowPc.noConfusion hclear)
          fun j hj => by rw [hpc]; exact hj
  · next i k hpc =>
      rw [← Option.some.inj hstep]
      exact h.clear hpc
  · next i k hpc =>
      obtain ⟨handler, hget, hstep⟩ := Option.bind_eq_some_iff.1 hstep
      rw [← Option.some.inj hstep]
      exact h.serve hpc hget
  · next i k hpc =>
      rw [hpc] at hslow
      rw [← Option.some.inj hstep]
      exact h.goFrom hslow.1 (fun _ _ => by rw [hpc]; rfl) (by rw [hpc]; rfl) (k + 1)
  · next i hpc =>
      rw [← Option.some.inj hstep]
      exact h.slowUnlocks hpc

end

/-! ### Registrations -/

section
omit [DecidableEq π]

/-- A thread that registers a handler goes on with the locks as they are. -/
theorem Inv.goRegister (h : Inv s) {pc : RegisterPc ρ} (hholds : ∀ i, pc.Holds i → (s.register t).Holds i) :
    Inv { s with register := update s.register t pc } :=
  { h with
    registerLock := by
      intro i u hu
      dsimp only at hu
      by_cases hut : u = t
      · subst hut
        rw [update_self] at hu
        exact h.registerLock i u (hholds i hu)
      · rw [update_of_ne hut] at hu
        exact h.registerLock i u hu }

theorem Inv.registerCall (h : Inv s) (hstep : s.registerCall t i receiver = some s') : Inv s' := by
  unfold IrqState.registerCall at hstep
  split at hstep
  · split at hstep
    · rw [← Option.some.inj hstep]
      exact h.goRegister fun _ hj => hj.elim
    · cases hstep
  · cases hstep

theorem Inv.registerLocks (h : Inv s) (hfree : s.listLock i = none) :
    Inv { s with
      listLock := update s.listLock i (some (some t))
      register := update s.register t (.add i receiver) } :=
  { h with
    slowLock := by
      intro j hj
      have hne : j ≠ i := by
        rintro rfl
        exact Option.some_ne_none _ ((h.slowLock j hj).symm.trans hfree)
      exact (update_of_ne hne ..).trans (h.slowLock j hj)
    registerLock := by
      intro j u hu
      dsimp only at hu ⊢
      by_cases hut : u = t
      · subst hut
        rw [update_self] at hu
        obtain rfl : i = j := hu
        exact update_self ..
      · rw [update_of_ne hut] at hu
        have hne : j ≠ i := by
          rintro rfl
          exact Option.some_ne_none _ ((h.registerLock j u hu).symm.trans hfree)
        exact (update_of_ne hne ..).trans (h.registerLock j u hu) }

theorem Inv.registerUnlocks (h : Inv s) (hpc : s.register t = .unlock i) :
    Inv { s with listLock := update s.listLock i none, register := update s.register t .idle } :=
  have hheld : s.listLock i = some (some t) := h.registerLock i t (by rw [hpc]; rfl)
  { h with
    slowLock := by
      intro j hj
      have hne : j ≠ i := by
        rintro rfl
        exact Option.some_ne_none t (Option.some.inj (hheld.symm.trans (h.slowLock j hj)))
      exact (update_of_ne hne ..).trans (h.slowLock j hj)
    registerLock := by
      intro j u hu
      dsimp only at hu ⊢
      by_cases hut : u = t
      · subst hut
        rw [update_self] at hu
        exact hu.elim
      · rw [update_of_ne hut] at hu
        have hne : j ≠ i := by
          rintro rfl
          exact hut (Option.some.inj (Option.some.inj ((h.registerLock j u hu).symm.trans hheld)))
        exact (update_of_ne hne ..).trans (h.registerLock j u hu) }

end

omit [DecidableEq π] [DecidableEq τ] in
/-- A handler is added, without a mark. -/
theorem Inv.add (h : Inv s) (i : Nat) (receiver : ρ) :
    Inv { s with handlers := update s.handlers i (s.handlers i ++ [⟨receiver, false⟩]) } :=
  have hkept := kept_add s.handlers i ⟨receiver, false⟩
  { h with
    isr := fun p => (h.isr p).kept hkept
    slow := h.slow.kept hkept
    marked := fun i' k' hclear => (required_add s i receiver i' k').trans (h.marked i' k' hclear)
    balanced := fun i' k' => (required_add s i receiver i' k').symm ▸ h.balanced i' k'
    numbered := h.numbered.kept hkept }

omit [DecidableEq π] in
theorem Inv.registerStep (h : Inv s) (hstep : s.registerStep t = some s') : Inv s' := by
  unfold IrqState.registerStep at hstep
  split at hstep
  · cases hstep
  · next i receiver hpc =>
      split at hstep
      · next hfree =>
          rw [← Option.some.inj hstep]
          exact h.registerLocks hfree
      · cases hstep
  · next i receiver hpc =>
      rw [← Option.some.inj hstep]
      exact (h.add i receiver).goRegister fun j hj => by
        change (s.register t).Holds j
        rw [hpc]
        exact hj
  · next i hpc =>
      rw [← Option.some.inj hstep]
      exact h.registerUnlocks hpc

theorem Inv.step {a : IrqAct π τ ρ} (h : Inv s) (hok : s.Configured a) (hstep : s.step a = some s') : Inv s' := by
  cases a with
  | interrupt p entry => exact h.interrupt hok hstep
  | isr p slowPath => exact h.isrStep hstep
  | slow => exact h.slowStep hstep
  | registerInterrupt t i receiver => exact h.registerCall hstep
  | registerIrq t q receiver =>
      rw [IrqState.step] at hstep
      split at hstep
      · exact h.registerCall hstep
      · cases hstep
  | register t => exact h.registerStep hstep

/-! ### The slow path is served -/

/-- What is noted: the handler is marked, or about to be called. -/
def Noted (i k : Nat) (s : IrqState π τ ρ) : Prop := s.required i k = true ∨ s.slow = .call i k

/-- How long it takes to go over the lists before the `i`th one; a list of `n` handlers takes `3 + 4 * n`
steps. -/
def offset (length : Nat → Nat) (i : Nat) : Nat := ∑ j ∈ Finset.range i, (3 + 4 * length j)

/-- Where in its round the thread is. -/
def SlowPc.position (length : Nat → Nat) : SlowPc → Nat
  | .lock i => offset length i
  | .head i => offset length i + 1
  | .look i k => offset length i + 2 + 4 * k
  | .clear i k => offset length i + 3 + 4 * k
  | .call i k => offset length i + 4 + 4 * k
  | .next i k => offset length i + 5 + 4 * k
  | .unlock i => offset length i + 2 + 4 * length i

/-- How many steps there are at most until the thread calls a handler. -/
def SlowPc.toGo (length : Nat → Nat) (i k : Nat) (slow : SlowPc) : Nat :=
  if slow.position length ≤ offset length i + 4 + 4 * k then offset length i + 4 + 4 * k - slow.position length
  else offset length numInterrupts - slow.position length + (offset length i + 4 + 4 * k)

variable {length : Nat → Nat}

theorem offset_succ (i : Nat) : offset length (i + 1) = offset length i + (3 + 4 * length i) :=
  Finset.sum_range_succ _ i

theorem offset_lt (h : i < i') : offset length i + (3 + 4 * length i) ≤ offset length i' := by
  rw [← offset_succ]
  exact Finset.sum_le_sum_of_subset (Finset.range_subset_range.2 h)

theorem toGo_lt (hi : i < numInterrupts) (hk : k < length i) (slow : SlowPc) :
    slow.toGo length i k < offset length numInterrupts := by
  have hlast : offset length i + (3 + 4 * length i) ≤ offset length numInterrupts := offset_lt hi
  unfold SlowPc.toGo
  split <;> omega

/-- A step from one position of the `j`th list to a later one takes the thread nearer to a handler, unless it
passes the handler by. -/
theorem toGo_within {slow slow' : SlowPc} {j a b : Nat} (hi : i < numInterrupts) (hk : k < length i)
    (hj : j < numInterrupts) (hpos : slow.position length = offset length j + a)
    (hpos' : slow'.position length = offset length j + b) (hab : a < b) (hb : b ≤ 3 + 4 * length j)
    (hnot : j = i → a ≤ 4 + 4 * k → b ≤ 4 + 4 * k) : slow'.toGo length i k < slow.toGo length i k := by
  have hlast : offset length j + (3 + 4 * length j) ≤ offset length numInterrupts := offset_lt hj
  have hforward : slow.position length < slow'.position length := by omega
  have hend : slow'.position length ≤ offset length numInterrupts := by omega
  have hpass : slow.position length ≤ offset length i + 4 + 4 * k →
      slow'.position length ≤ offset length i + 4 + 4 * k := by
    rcases Nat.lt_trichotomy j i with hlt | rfl | hgt
    · have hbefore : offset length j + (3 + 4 * length j) ≤ offset length i := offset_lt hlt
      omega
    · have hsame := hnot rfl
      omega
    · have hafter : offset length i + (3 + 4 * length i) ≤ offset length j := offset_lt hgt
      omega
  unfold SlowPc.toGo
  split
  · split <;> omega
  · split <;> omega

/-- The next list is that after this one, or the first. -/
theorem toGo_unlock {j : Nat} (hi : i < numInterrupts) (hk : k < length i) (hj : j < numInterrupts) :
    (SlowPc.lock ((j + 1) % numInterrupts)).toGo length i k < (SlowPc.unlock j).toGo length i k := by
  rcases Nat.lt_or_eq_of_le hj with hlt | hlast
  · have hsucc : (SlowPc.lock ((j + 1) % numInterrupts)).position length =
        offset length j + (3 + 4 * length j) := by
      rw [Nat.mod_eq_of_lt hlt, SlowPc.position, offset_succ]
    refine toGo_within hi hk hj (a := 2 + 4 * length j) (Nat.add_assoc ..) hsucc (by omega) (Nat.le_refl _) ?_
    rintro rfl hle
    omega
  · have hzero : (SlowPc.lock ((j + 1) % numInterrupts)).position length = 0 := by
      rw [show j + 1 = numInterrupts from hlast, Nat.mod_self]
      rfl
    have hunlock : (SlowPc.unlock j).position length + 1 = offset length numInterrupts := by
      rw [← hlast, offset_succ, SlowPc.position]
      omega
    have hend : offset length i + (3 + 4 * length i) ≤ offset length numInterrupts := offset_lt hi
    unfold SlowPc.toGo
    rw [hzero, if_pos (Nat.zero_le _), if_neg (by omega)]
    omega

omit [DecidableEq π] [DecidableEq τ] in
/-- A step of the thread calls the handler, or takes the thread nearer to it. -/
theorem Inv.toGo_slowStep (h : Inv s) (hlength : ∀ j, (s.handlers j).length ≤ length j) (hi : i < numInterrupts)
    (hk : k < (s.handlers i).length) (hnoted : Noted i k s) (hcall : s.slow ≠ .call i k)
    (hstep : s.slowStep = some s') :
    Noted i k s' ∧ s'.slow.toGo length i k < s.slow.toGo length i k := by
  have hrequired : s.required i k = true := hnoted.resolve_right hcall
  have hk' : k < length i := Nat.lt_of_lt_of_le hk (hlength i)
  have hslow := h.slow
  unfold IrqState.slowStep at hstep
  split at hstep
  · next j hpc =>
      rw [hpc] at hslow ⊢
      split at hstep
      · rw [← Option.some.inj hstep]
        exact ⟨Or.inl hrequired, toGo_within hi hk' hslow (a := 0) (b := 1) rfl rfl Nat.one_pos (by omega)
          fun _ _ => by omega⟩
      · cases hstep
  · next j hpc =>
      rw [hpc] at hslow ⊢
      rw [← Option.some.inj hstep]
      refine ⟨Or.inl hrequired, ?_⟩
      dsimp only
      unfold IrqState.slowFrom
      split
      · exact toGo_within hi hk' hslow (a := 1) (b := 2) rfl rfl (by omega) (by omega) fun _ _ => by omega
      · next hempty =>
          refine toGo_within hi hk' hslow (a := 1) (b := 2 + 4 * length j) rfl (Nat.add_assoc ..) (by omega)
            (by omega) ?_
          rintro rfl
          omega
  · next j l hpc =>
      rw [hpc] at hslow ⊢
      obtain ⟨handler, hget, hstep⟩ := Option.bind_eq_some_iff.1 hstep
      rw [← Option.some.inj hstep]
      refine ⟨Or.inl hrequired, ?_⟩
      have hl := Nat.lt_of_lt_of_le hslow.2 (hlength j)
      dsimp only
      split
      · exact toGo_within hi hk' hslow.1 (a := 2 + 4 * l) (b := 3 + 4 * l) (Nat.add_assoc ..)
          (Nat.add_assoc ..) (by omega) (by omega) fun _ _ => by omega
      · next hunmarked =>
          refine toGo_within hi hk' hslow.1 (a := 2 + 4 * l) (b := 5 + 4 * l) (Nat.add_assoc ..)
            (Nat.add_assoc ..) (by omega) (by omega) ?_
          rintro rfl hle
          have hne : l ≠ k := by
            rintro rfl
            rw [IrqState.required, hget] at hrequired
            exact hunmarked hrequired
          omega
  · next j l hpc =>
      rw [hpc] at hslow ⊢
      rw [← Option.some.inj hstep]
      have hl := Nat.lt_of_lt_of_le hslow.2 (hlength j)
      refine ⟨?_, toGo_within hi hk' hslow.1 (a := 3 + 4 * l) (b := 4 + 4 * l) (Nat.add_assoc ..)
        (Nat.add_assoc ..) (by omega) (by omega) fun _ _ => by omega⟩
      by_cases hsame : j = i ∧ l = k
      · obtain ⟨rfl, rfl⟩ := hsame
        exact Or.inr rfl
      · exact Or.inl ((required_set false hslow.2).trans ((if_neg hsame).trans hrequired))
  · next j l hpc =>
      rw [hpc] at hslow hcall ⊢
      obtain ⟨handler, hget, hstep⟩ := Option.bind_eq_some_iff.1 hstep
      rw [← Option.some.inj hstep]
      have hl := Nat.lt_of_lt_of_le hslow.2 (hlength j)
      refine ⟨Or.inl hrequired, toGo_within hi hk' hslow.1 (a := 4 + 4 * l) (b := 5 + 4 * l)
        (Nat.add_assoc ..) (Nat.add_assoc ..) (by omega) (by omega) ?_⟩
      rintro rfl hle
      have hne : l ≠ k := fun hl => hcall (congrArg (SlowPc.call j) hl)
      omega
  · next j l hpc =>
      rw [hpc] at hslow ⊢
      rw [← Option.some.inj hstep]
      have hl := Nat.lt_of_lt_of_le hslow.2 (hlength j)
      refine ⟨Or.inl hrequired, ?_⟩
      dsimp only
      unfold IrqState.slowFrom
      split
      · exact toGo_within hi hk' hslow.1 (a := 5 + 4 * l) (b := 2 + 4 * (l + 1)) (Nat.add_assoc ..)
          (Nat.add_assoc ..) (by omega) (by omega) fun _ _ => by omega
      · next hend =>
          refine toGo_within hi hk' hslow.1 (a := 5 + 4 * l) (b := 2 + 4 * length j) (Nat.add_assoc ..)
            (Nat.add_assoc ..) (by omega) (by omega) ?_
          rintro rfl hle
          omega
  · next j hpc =>
      rw [hpc] at hslow ⊢
      rw [← Option.some.inj hstep]
      exact ⟨Or.inl hrequired, toGo_unlock hi hk' hslow⟩

/-- What every step keeps: the handlers have their places, and no call is taken back. -/
structure Onward (i k : Nat) (s s' : IrqState π τ ρ) : Prop where
  kept : Kept s.handlers s'.handlers
  calls : slowCalls i k s.log ≤ slowCalls i k s'.log

/-- What the steps of the others keep. -/
structure Aside (i k : Nat) (s s' : IrqState π τ ρ) : Prop extends Onward i k s s' where
  slow : s'.slow = s.slow
  required : s.required i k = true → s'.required i k = true

omit [DecidableEq π] [DecidableEq τ] [Fintype π] in
theorem aside_same (h : s'.handlers = s.handlers) (hslow : s'.slow = s.slow)
    (hcalls : slowCalls i k s.log ≤ slowCalls i k s'.log) : Aside i k s s' where
  kept := h ▸ Kept.refl _
  calls := hcalls
  slow := hslow
  required hrequired := by rwa [IrqState.required, h]

omit [DecidableEq τ] in
theorem Inv.isrStep_aside (h : Inv s) (hstep : s.isrStep p slowPath = some s') : Aside i k s s' := by
  unfold IrqState.isrStep at hstep
  split at hstep
  · cases hstep
  · obtain ⟨handler, -, hstep⟩ := Option.bind_eq_some_iff.1 hstep
    rw [← Option.some.inj hstep]
    exact aside_same rfl rfl (Nat.le_refl _)
  · next entry j hpc =>
      have hwithin : (IsrPc.request entry j).Within s.handlers := hpc ▸ h.isr p
      rw [← Option.some.inj hstep]
      refine ⟨⟨kept_set s _ _ _, Nat.le_refl _⟩, rfl, fun hrequired => ?_⟩
      refine (required_set true hwithin.2).trans ?_
      split
      · rfl
      · exact hrequired
  · rw [← Option.some.inj hstep]
    exact aside_same rfl rfl (Nat.le_refl _)

omit [DecidableEq π] [Fintype π] in
theorem registerCall_aside {j : Nat} (hstep : s.registerCall t j receiver = some s') : Aside i k s s' := by
  unfold IrqState.registerCall at hstep
  split at hstep
  · split at hstep
    · rw [← Option.some.inj hstep]
      exact aside_same rfl rfl (Nat.le_refl _)
    · cases hstep
  · cases hstep

omit [DecidableEq π] [Fintype π] in
theorem registerStep_aside (hstep : s.registerStep t = some s') : Aside i k s s' := by
  unfold IrqState.registerStep at hstep
  split at hstep
  · cases hstep
  · split at hstep
    · rw [← Option.some.inj hstep]
      exact aside_same rfl rfl (Nat.le_refl _)
    · cases hstep
  · next j receiver hpc =>
      rw [← Option.some.inj hstep]
      refine ⟨⟨kept_add _ _ _, Nat.le_refl _⟩, rfl, fun hrequired => ?_⟩
      exact (required_add s j receiver i k).trans hrequired
  · rw [← Option.some.inj hstep]
    exact aside_same rfl rfl (Nat.le_refl _)

/-- The steps of the others leave the thread and the marks as they are. -/
theorem Inv.step_aside {a : IrqAct π τ ρ} (h : Inv s) (ha : slowSteps [a] = 0) (hstep : s.step a = some s') :
    Aside i k s s' := by
  cases a with
  | interrupt p entry =>
      rw [IrqState.step, IrqState.interrupt] at hstep
      split at hstep
      · split at hstep
        · rw [← Option.some.inj hstep]
          exact aside_same rfl rfl (Nat.le_refl _)
        · cases hstep
      · cases hstep
  | isr p slowPath => exact h.isrStep_aside hstep
  | slow => exact absurd ha Nat.one_ne_zero
  | registerInterrupt t j receiver => exact registerCall_aside hstep
  | registerIrq t q receiver =>
      rw [IrqState.step] at hstep
      split at hstep
      · exact registerCall_aside hstep
      · cases hstep
  | register t => exact registerStep_aside hstep

omit [Fintype π] [DecidableEq π] [DecidableEq τ] in
theorem slowStep_onward (hstep : s.slowStep = some s') : Onward i k s s' := by
  unfold IrqState.slowStep at hstep
  split at hstep
  · split at hstep
    · rw [← Option.some.inj hstep]
      exact ⟨Kept.refl _, Nat.le_refl _⟩
    · cases hstep
  · rw [← Option.some.inj hstep]
    exact ⟨Kept.refl _, Nat.le_refl _⟩
  · obtain ⟨handler, -, hstep⟩ := Option.bind_eq_some_iff.1 hstep
    rw [← Option.some.inj hstep]
    exact ⟨Kept.refl _, Nat.le_refl _⟩
  · rw [← Option.some.inj hstep]
    exact ⟨kept_set s _ _ _, Nat.le_refl _⟩
  · obtain ⟨handler, -, hstep⟩ := Option.bind_eq_some_iff.1 hstep
    rw [← Option.some.inj hstep]
    exact ⟨Kept.refl _, Nat.le_add_left ..⟩
  · rw [← Option.some.inj hstep]
    exact ⟨Kept.refl _, Nat.le_refl _⟩
  · rw [← Option.some.inj hstep]
    exact ⟨Kept.refl _, Nat.le_refl _⟩

omit [DecidableEq π] [DecidableEq τ] [Fintype π] in
theorem slowStep_call (hcall : s.slow = .call i k) (hstep : s.slowStep = some s') :
    slowCalls i k s.log < slowCalls i k s'.log := by
  rw [IrqState.slowStep, hcall] at hstep
  obtain ⟨handler, -, hstep⟩ := Option.bind_eq_some_iff.1 hstep
  rw [← Option.some.inj hstep, slowCalls, if_pos ⟨rfl, rfl⟩, Nat.add_comm]
  exact Nat.lt_succ_self _

theorem Inv.step_onward {a : IrqAct π τ ρ} (h : Inv s) (hstep : s.step a = some s') : Onward i k s s' := by
  cases a with
  | slow => exact slowStep_onward hstep
  | interrupt p entry => exact (h.step_aside rfl hstep).toOnward
  | isr p slowPath => exact (h.step_aside rfl hstep).toOnward
  | registerInterrupt t j receiver => exact (h.step_aside rfl hstep).toOnward
  | registerIrq t q receiver => exact (h.step_aside rfl hstep).toOnward
  | register t => exact (h.step_aside rfl hstep).toOnward

/-- A step serves the handler, or it stays noted and the thread does not get farther from it. -/
theorem Inv.noted_step {a : IrqAct π τ ρ} (h : Inv s) (hlength : ∀ j, (s.handlers j).length ≤ length j)
    (hi : i < numInterrupts) (hk : k < (s.handlers i).length) (hnoted : Noted i k s)
    (hstep : s.step a = some s') :
    slowCalls i k s.log < slowCalls i k s'.log ∨
      Noted i k s' ∧ slowSteps [a] + s'.slow.toGo length i k ≤ s.slow.toGo length i k := by
  have hother : slowSteps [a] = 0 →
      Noted i k s' ∧ slowSteps [a] + s'.slow.toGo length i k ≤ s.slow.toGo length i k := by
    intro ha
    have haside : Aside i k s s' := h.step_aside ha hstep
    refine ⟨hnoted.imp haside.required (haside.slow.trans ·), ?_⟩
    rw [ha, haside.slow, Nat.zero_add]
  cases a with
  | slow =>
      by_cases hcall : s.slow = .call i k
      · exact Or.inl (slowStep_call hcall hstep)
      · obtain ⟨hnoted', hlt⟩ := h.toGo_slowStep hlength hi hk hnoted hcall hstep
        exact Or.inr ⟨hnoted', Nat.add_comm 1 _ ▸ hlt⟩
  | interrupt p entry => exact Or.inr (hother rfl)
  | isr p slowPath => exact Or.inr (hother rfl)
  | registerInterrupt t j receiver => exact Or.inr (hother rfl)
  | registerIrq t q receiver => exact Or.inr (hother rfl)
  | register t => exact Or.inr (hother rfl)

omit [DecidableEq π] [DecidableEq τ] [Fintype π] in
theorem slowSteps_cons (a : IrqAct π τ ρ) (as : List (IrqAct π τ ρ)) :
    slowSteps (a :: as) = slowSteps [a] + slowSteps as := by
  cases a with
  | slow => exact Nat.add_comm ..
  | _ => exact (Nat.zero_add _).symm

variable {as : List (IrqAct π τ ρ)}

omit [Fintype π] in
theorem run_cons {a : IrqAct π τ ρ} (hrun : run IrqState.step IrqState.Configured s (a :: as) = some s') :
    s.Configured a ∧ ∃ s₁, s.step a = some s₁ ∧ run IrqState.step IrqState.Configured s₁ as = some s' := by
  rw [run] at hrun
  split at hrun
  · next hok => exact ⟨hok, Option.bind_eq_some_iff.1 hrun⟩
  · cases hrun

theorem run_onward : ∀ {s : IrqState π τ ρ}, Inv s → run IrqState.step IrqState.Configured s as = some s' →
    Onward i k s s' := by
  induction as with
  | nil =>
      rintro s - hrun
      obtain rfl := Option.some.inj hrun
      exact ⟨Kept.refl _, Nat.le_refl _⟩
  | cons a as ih =>
      intro s h hrun
      obtain ⟨hok, s₁, hstep, hrest⟩ := run_cons hrun
      have hfirst : Onward i k s s₁ := h.step_onward hstep
      have hlater := ih (h.step hok hstep) hrest
      refine ⟨fun j l handler hget => ?_, hfirst.calls.trans hlater.calls⟩
      obtain ⟨handler₁, hget₁, hsame₁⟩ := hfirst.kept j l handler hget
      obtain ⟨handler', hget', hsame⟩ := hlater.kept j l handler₁ hget₁
      exact ⟨handler', hget', hsame.trans hsame₁⟩

/-- A run serves the handler, or the thread has come nearer to it with each of its steps. -/
theorem noted_run (hi : i < numInterrupts) (hlength : ∀ j, (s'.handlers j).length ≤ length j) :
    ∀ {s : IrqState π τ ρ}, Inv s → k < (s.handlers i).length → Noted i k s →
      run IrqState.step IrqState.Configured s as = some s' →
      slowCalls i k s.log < slowCalls i k s'.log ∨
        slowSteps as + s'.slow.toGo length i k ≤ s.slow.toGo length i k := by
  induction as with
  | nil =>
      rintro s - - - hrun
      obtain rfl := Option.some.inj hrun
      exact Or.inr (Nat.zero_add _).le
  | cons a as ih =>
      intro s h hk hnoted hrun
      obtain ⟨hok, s₁, hstep, hrest⟩ := run_cons hrun
      have hinv := h.step hok hstep
      have hfirst : Onward i k s s₁ := h.step_onward hstep
      have hlater : Onward i k s₁ s' := run_onward hinv hrest
      have hlen : ∀ j, (s.handlers j).length ≤ length j := fun j =>
        ((hfirst.kept.length_le j).trans (hlater.kept.length_le j)).trans (hlength j)
      rcases h.noted_step hlen hi hk hnoted hstep with hserved | ⟨hnoted', hle⟩
      · exact Or.inl (Nat.lt_of_lt_of_le hserved hlater.calls)
      · rcases ih hinv (Nat.lt_of_lt_of_le hk (hfirst.kept.length_le i)) hnoted' hrest with hserved | hle'
        · exact Or.inl (Nat.lt_of_le_of_lt hfirst.calls hserved)
        · refine Or.inr ?_
          rw [slowSteps_cons]
          omega

/-! ### The results -/

omit [DecidableEq π] [DecidableEq τ] in
theorem Inv.served (h : Inv s) : Served s where
  kept i k hpending := by
    rcases (h.balanced i k).kept hpending with hrequired | hasks | hcalls
    · exact Or.inl hrequired
    · obtain ⟨p, -, hp⟩ := Finset.exists_ne_zero_of_sum_ne_zero (Nat.pos_iff_ne_zero.1 hasks)
      refine Or.inr (Or.inl ⟨p, ?_⟩)
      unfold IsrPc.asks at hp
      split at hp
      · next entry k' hpc =>
          obtain ⟨hplace, rfl⟩ := of_not_not fun hnot => hp (if_neg hnot)
          exact ⟨entry, hpc, hplace⟩
      · exact absurd rfl hp
    · refine Or.inr (Or.inr ?_)
      unfold SlowPc.calls at hcalls
      split at hcalls
      · next i' k' hpc =>
          obtain ⟨rfl, rfl⟩ := of_not_not fun hnot => Nat.ne_of_gt hcalls (if_neg hnot)
          exact hpc
      · exact absurd hcalls (Nat.lt_irrefl 0)
  requested i k := by
    have hcounted := (h.balanced i k).counted
    omega
  numbered := h.numbered
  exclusive i t ht := by
    have hheld := h.registerLock i t ht
    refine ⟨fun hslow => ?_, fun t' ht' => ?_⟩
    · exact Option.some_ne_none t (Option.some.inj (hheld.symm.trans (h.slowLock i hslow)))
    · exact Option.some.inj (Option.some.inj ((h.registerLock i t' ht').symm.trans hheld))

theorem reach_inv (h : Reach IrqState.step IrqState.Configured (.start : IrqState π τ ρ) s) : Inv s :=
  h.invariant inv_start fun _ _ _ hinv hok hstep => hinv.step hok hstep

/-- **No request is lost.**  In every interleaving of interrupts, registrations and the thread of the slow path. -/
theorem no_request_lost (h : Reach IrqState.step IrqState.Configured (.start : IrqState π τ ρ) s) : Served s :=
  (reach_inv h).served

/-- A handler of IRQ 1 is registered and wants its slow path. -/
def keyPressed : List (IrqAct Unit Unit Unit) :=
  [.registerIrq () 1 (), .register (), .register (), .register (), .interrupt () (.irq 1), .isr () true,
    .isr () true]

theorem no_request_lost_keyPressed :
    ∃ s : IrqState Unit Unit Unit, run IrqState.step IrqState.Configured .start keyPressed = some s ∧ Served s :=
  ⟨_, rfl, no_request_lost (Reach.refl.run (rfl : run _ _ _ keyPressed = _))⟩

/-- **The slow path is served.**  In every run that goes on from a state in which a handler is marked, its slow
handler is called before the thread has made as many steps as it takes to go once over the handlers that are
registered at the end. -/
theorem served_within_sweep (h : Reach IrqState.step IrqState.Configured (.start : IrqState π τ ρ) s)
    (hi : i < numInterrupts) (hrequired : s.required i k = true)
    (hrun : run IrqState.step IrqState.Configured s as = some s') :
    slowSteps as < s'.sweep ∨ slowCalls i k s.log < slowCalls i k s'.log := by
  have hk : k < (s.handlers i).length := by
    by_contra hge
    rw [IrqState.required, List.getElem?_eq_none (Nat.le_of_not_lt hge)] at hrequired
    exact Bool.false_ne_true hrequired
  have hinv := reach_inv h
  have honward : Onward i k s s' := run_onward hinv hrun
  rcases noted_run hi (fun j => Nat.le_refl _) hinv hk (Or.inl hrequired) hrun with hserved | hle
  · exact Or.inr hserved
  · have hlt : s.slow.toGo (fun j => (s'.handlers j).length) i k < s'.sweep :=
      toGo_lt hi (Nat.lt_of_lt_of_le hk (honward.kept.length_le i)) s.slow
    exact Or.inl (Nat.lt_of_le_of_lt (Nat.le_of_add_right_le hle) hlt)

/-- The thread locks the first list and looks at it. -/
def firstLooks : List (IrqAct Unit Unit Unit) := [.slow, .slow]

theorem served_within_sweep_keyPressed :
    ∃ s s' : IrqState Unit Unit Unit, run IrqState.step IrqState.Configured .start keyPressed = some s ∧
      run IrqState.step IrqState.Configured s firstLooks = some s' ∧
      (slowSteps firstLooks < s'.sweep ∨ slowCalls 33 0 s.log < slowCalls 33 0 s'.log) := by
  refine ⟨_, _, rfl, rfl, ?_⟩
  exact served_within_sweep (Reach.refl.run (rfl : run _ _ _ keyPressed = _)) (by decide : 33 < numInterrupts)
    rfl (rfl : run _ _ _ firstLooks = _)

end

end Azalea.Proc.Interrupts
