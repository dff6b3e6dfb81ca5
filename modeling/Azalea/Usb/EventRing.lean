import Mathlib.Data.List.Infix
import Azalea.Support.CycleRing
import Azalea.Support.Runs
import Azalea.Usb.TrbRing

/-!
# Usb — the event ring

`devices/usb/controllers/usb_xhci_trb_ring.cpp`: `trb_event_ring`, whose `dequeue_trb` runs against a
controller that writes events behind it.  The controller writes an event word by word, the cycle bit
with the second; it never goes further than once round the ring from the dequeue pointer it was last
told.  `dequeue_trb` is cut at each of its accesses to the ring and to the register.

* `eventRing_ok`: the events are returned in the order they were produced, each once, and a call that
  was given somewhere to put an event returns false only if there was none when it looked.
-/

namespace Azalea.Usb
open Azalea.CycleRing Azalea.Runs

/-- Where `dequeue_trb` is. -/
inductive DequeuePc where
  | idle
  | check
  | copyFirst
  | copySecond
  | advance
  | lookNext
  | notBusy (result : Bool)
  | leave (result : Bool)
  deriving DecidableEq

/-- A `trb_event_ring` with the controller that fills it. -/
structure EventRing where
  ring : Nat → Trb
  dequeuePtr : Nat
  consumerCycleStateBit : Bool
  /-- `erst_dequeue_ptr_phys`, in TRBs from the start of the ring. -/
  erstDequeuePtr : Nat
  pc : DequeuePc
  /-- What the call's argument points to, if it is not null. -/
  dest : Option Trb
  -- the controller: where it writes, its cycle state and the event of which it wrote the first word
  enqueuePtr : Nat
  producerCycleState : Bool
  writing : Option Trb
  -- what has happened so far
  produced : List Trb
  returned : List Trb
  /-- How many events had been taken when the register was last written. -/
  reported : Nat
  /-- How many events had been produced when the call in progress decided on its result. -/
  producedSeen : Nat

/-- `trb_event_ring::trb_event_ring`. -/
def EventRing.new : EventRing where
  ring _ := .populate
  dequeuePtr := 0
  consumerCycleStateBit := true
  erstDequeuePtr := 0
  pc := .idle
  dest := none
  enqueuePtr := 0
  producerCycleState := true
  writing := none
  produced := []
  returned := []
  reported := 0
  producedSeen := 0

/-- What happens next: a step of the call to `dequeue_trb` in progress, if there is none the start of
one, or the controller writes a word. -/
inductive EventInput where
  | call (dest : Option Trb)
  | proceed
  | produceFirst (event : Trb)
  | produceSecond

namespace EventRing

/-- How many events have been taken off the ring: those returned and the one about to be. -/
def taken (s : EventRing) : Nat :=
  match s.pc with
  | .lookNext | .notBusy true | .leave true => s.returned.length + 1
  | _ => s.returned.length

/-- One step of `dequeue_trb` on a ring of `n` entries. -/
def proceed (n : Nat) (s : EventRing) : Option EventRing :=
  match s.pc with
  | .idle => none
  | .check =>
      let found := (s.ring s.dequeuePtr).cycle == s.consumerCycleStateBit
      some { s with
        producedSeen := s.produced.length
        pc := if found then .copyFirst else .notBusy false }
  | .copyFirst => some { s with
      dest := s.dest.map fun t => { t with reserved1 := (s.ring s.dequeuePtr).reserved1 }
      pc := .copySecond }
  | .copySecond => some { s with
      dest := s.dest.map fun t => { t with reserved2 := (s.ring s.dequeuePtr).reserved2 }
      pc := .advance }
  | .advance =>
      if s.dequeuePtr + 1 ≥ n then
        some { s with dequeuePtr := 0, consumerCycleStateBit := !s.consumerCycleStateBit, pc := .lookNext }
      else
        some { s with dequeuePtr := s.dequeuePtr + 1, pc := .lookNext }
  | .lookNext =>
      let more := (s.ring s.dequeuePtr).cycle == s.consumerCycleStateBit
      some { s with pc := if more then .leave true else .notBusy true }
  | .notBusy result => some { s with
      erstDequeuePtr := s.dequeuePtr
      reported := s.taken
      pc := .leave result }
  | .leave result => some { s with
      returned := if result then s.returned ++ s.dest.toList else s.returned
      pc := .idle }

/-- One step of the system. -/
def step (n : Nat) (s : EventRing) : EventInput → Option EventRing
  | .call dest =>
      if s.pc = .idle then
        -- without a destination the result is decided at once
        match dest with
        | none => some { s with dest := none, producedSeen := s.produced.length, pc := .notBusy false }
        | some t => some { s with dest := some t, pc := .check }
      else none
  | .proceed => s.proceed n
  | .produceFirst event =>
      if s.writing = none ∧ s.produced.length < s.reported + n then
        some { s with
          ring := Function.update s.ring s.enqueuePtr
            { s.ring s.enqueuePtr with reserved1 := event.reserved1 }
          writing := some event }
      else none
  | .produceSecond =>
      match s.writing with
      | none => none
      | some event =>
          let written := event.setCycle s.producerCycleState
          let wraps := s.enqueuePtr + 1 ≥ n
          some { s with
            ring := Function.update s.ring s.enqueuePtr
              { s.ring s.enqueuePtr with reserved2 := written.reserved2 }
            enqueuePtr := if wraps then 0 else s.enqueuePtr + 1
            producerCycleState := if wraps then !s.producerCycleState else s.producerCycleState
            writing := none
            produced := s.produced ++ [written] }

end EventRing

namespace EventRing

/-- What a call knows of its destination and of the events, wherever it is. -/
def CallOk (s : EventRing) : Prop :=
  match s.pc with
  | .idle => True
  | .check => s.dest ≠ none
  | .copyFirst => s.dest ≠ none ∧ s.returned.length < s.produced.length
  | .copySecond => ∃ t u, s.dest = some t ∧ s.produced[s.returned.length]? = some u ∧
      t.reserved1 = u.reserved1
  | .advance | .lookNext | .notBusy true | .leave true =>
      ∃ t, s.dest = some t ∧ s.produced[s.returned.length]? = some t
  | .notBusy false | .leave false => s.dest ≠ none → s.returned.length = s.producedSeen

/-- What holds between the steps. -/
structure Inv (n : Nat) (s : EventRing) : Prop where
  written : Written n Trb.cycle s.ring s.taken s.produced
  reported_le : s.reported ≤ s.taken
  room : s.produced.length ≤ s.reported + n
  dequeuePtr : s.dequeuePtr = s.taken % n
  consumerCycle : s.consumerCycleStateBit = lapBit n s.taken
  erstDequeuePtr : s.erstDequeuePtr = s.reported % n
  enqueuePtr : s.enqueuePtr = s.produced.length % n
  producerCycle : s.producerCycleState = lapBit n s.produced.length
  writing : ∀ event, s.writing = some event →
    s.produced.length < s.reported + n ∧ (s.ring s.enqueuePtr).reserved1 = event.reserved1
  returned : s.returned <+: s.produced
  call : s.CallOk

variable {n : Nat} {s s' : EventRing}

theorem Inv.new : Inv n EventRing.new where
  written := .nil fun _ => Trb.cycle_populate
  reported_le := le_rfl
  room := Nat.zero_le _
  dequeuePtr := (Nat.zero_mod n).symm
  consumerCycle := lapBit_zero.symm
  erstDequeuePtr := (Nat.zero_mod n).symm
  enqueuePtr := (Nat.zero_mod n).symm
  producerCycle := lapBit_zero.symm
  writing _ h := nomatch h
  returned := List.prefix_rfl
  call := trivial

/-- A step of the call that only moves it on and takes nothing. -/
theorem Inv.move {pc : DequeuePc} {dest : Option Trb} {seen : Nat} (h : Inv n s)
    (htaken : EventRing.taken { s with pc, dest, producedSeen := seen } = s.taken)
    (hcall : CallOk { s with pc, dest, producedSeen := seen }) :
    Inv n { s with pc, dest, producedSeen := seen } where
  written := htaken ▸ h.written
  reported_le := htaken ▸ h.reported_le
  room := h.room
  dequeuePtr := htaken ▸ h.dequeuePtr
  consumerCycle := htaken ▸ h.consumerCycle
  erstDequeuePtr := h.erstDequeuePtr
  enqueuePtr := h.enqueuePtr
  producerCycle := h.producerCycle
  writing := h.writing
  returned := h.returned
  call := hcall

/-- The test of the cycle bit tells if there is an event left. -/
theorem Inv.cycle_eq_iff (hn : 0 < n) (h : Inv n s) :
    (s.ring s.dequeuePtr).cycle = s.consumerCycleStateBit ↔ s.taken < s.produced.length := by
  rw [h.dequeuePtr, h.consumerCycle]
  exact h.written.bit_eq_iff hn

/-- The event `dequeue_trb` is about to copy is the next one. -/
theorem Inv.next_event (h : Inv n s) (hlt : s.taken < s.produced.length) :
    s.produced[s.taken]? = some (s.ring s.dequeuePtr) := by
  rw [h.dequeuePtr, h.written.unread _ le_rfl hlt]
  exact List.getElem?_eq_getElem hlt

/-- The event has been copied and `dequeue_ptr` moves on. -/
theorem Inv.take {ptr : Nat} {bit : Bool} (h : Inv n s) (hpc : s.pc = .advance)
    (hptr : ptr = (s.taken + 1) % n) (hbit : bit = lapBit n (s.taken + 1)) :
    Inv n { s with dequeuePtr := ptr, consumerCycleStateBit := bit, pc := .lookNext } := by
  have hcall := h.call
  simp only [CallOk, hpc] at hcall
  obtain ⟨t, hdest, hnext⟩ := hcall
  have htaken : s.taken = s.returned.length := by simp only [taken, hpc]
  have hlt : s.taken < s.produced.length := by
    rw [htaken]
    exact (List.getElem?_eq_some_iff.mp hnext).1
  have htaken' : EventRing.taken
      { s with dequeuePtr := ptr, consumerCycleStateBit := bit, pc := .lookNext } = s.taken + 1 := by
    rw [htaken, taken]
  have hreported := h.reported_le
  constructor <;> (try rw [htaken'])
  case written => exact h.written.next hlt
  case reported_le => exact Nat.le_succ_of_le hreported
  case room => exact h.room
  case dequeuePtr => exact hptr
  case consumerCycle => exact hbit
  case erstDequeuePtr => exact h.erstDequeuePtr
  case enqueuePtr => exact h.enqueuePtr
  case producerCycle => exact h.producerCycle
  case writing => exact h.writing
  case returned => exact h.returned
  case call => exact ⟨t, hdest, hnext⟩

/-- The call returns, with the event if it found one. -/
theorem Inv.leave {result : Bool} (h : Inv n s) (hpc : s.pc = .leave result) :
    Inv n { s with
      returned := if result then s.returned ++ s.dest.toList else s.returned
      pc := .idle } := by
  have hcall := h.call
  cases result with
  | false =>
      have htaken : EventRing.taken { s with pc := .idle } = s.taken := by simp [taken, hpc]
      exact h.move htaken trivial
  | true =>
      simp only [CallOk, hpc] at hcall
      obtain ⟨t, hdest, hnext⟩ := hcall
      have htaken : EventRing.taken
          { s with returned := s.returned ++ s.dest.toList, pc := .idle } = s.taken := by
        simp [taken, hpc, hdest]
      simp only [if_true]
      constructor <;> (try rw [htaken])
      case written => exact h.written
      case reported_le => exact h.reported_le
      case room => exact h.room
      case dequeuePtr => exact h.dequeuePtr
      case consumerCycle => exact h.consumerCycle
      case erstDequeuePtr => exact h.erstDequeuePtr
      case enqueuePtr => exact h.enqueuePtr
      case producerCycle => exact h.producerCycle
      case writing => exact h.writing
      case returned =>
        rw [hdest, Option.toList_some]
        obtain ⟨hlt, rfl⟩ := List.getElem?_eq_some_iff.mp hnext
        exact List.concat_get_prefix h.returned hlt
      case call => trivial

/-- The register is written. -/
theorem Inv.report {result : Bool} (h : Inv n s) (hpc : s.pc = .notBusy result) :
    Inv n { s with erstDequeuePtr := s.dequeuePtr, reported := s.taken, pc := .leave result } := by
  have hcall := h.call
  have htaken : EventRing.taken
      { s with erstDequeuePtr := s.dequeuePtr, reported := s.taken, pc := .leave result } =
        s.taken := by
    cases result <;> simp only [taken, hpc]
  have hreported := h.reported_le
  have hroom := h.room
  constructor <;> (try rw [htaken])
  case written => exact h.written
  case room => exact h.written.room
  case dequeuePtr => exact h.dequeuePtr
  case consumerCycle => exact h.consumerCycle
  case erstDequeuePtr => exact h.dequeuePtr
  case enqueuePtr => exact h.enqueuePtr
  case producerCycle => exact h.producerCycle
  case writing =>
    intro event hevent
    obtain ⟨hlt, hword⟩ := h.writing event hevent
    exact ⟨Nat.lt_of_lt_of_le hlt (Nat.add_le_add_right hreported n), hword⟩
  case returned => exact h.returned
  case call => cases result <;> simpa only [CallOk, hpc] using hcall

/-- `dequeue_trb` keeps what it relies on. -/
theorem Inv.proceed (hn : 0 < n) (h : Inv n s) (hs : s.proceed n = some s') : Inv n s' := by
  have hcall := h.call
  cases hpc : s.pc <;> simp only [CallOk, hpc] at hcall <;>
    simp only [EventRing.proceed, hpc, reduceCtorEq, Option.some.injEq] at hs
  case check =>
    have hfound := h.cycle_eq_iff hn
    have htaken : s.taken = s.returned.length := by simp only [taken, hpc]
    rw [htaken] at hfound
    by_cases hlt : s.returned.length < s.produced.length
    · rw [beq_iff_eq.mpr (hfound.mpr hlt), if_pos rfl] at hs
      subst hs
      exact h.move (by simp only [taken, hpc]) ⟨hcall, hlt⟩
    · rw [beq_eq_false_iff_ne.mpr (mt hfound.mp hlt), if_neg Bool.false_ne_true] at hs
      subst hs
      have hle := h.returned.length_le
      exact h.move (by simp only [taken, hpc]) fun _ => by simp only; omega
  case copyFirst =>
    obtain ⟨hdest, hlt⟩ := hcall
    obtain ⟨t, ht⟩ := Option.ne_none_iff_exists'.mp hdest
    have htaken : s.taken = s.returned.length := by simp only [taken, hpc]
    have hnext := h.next_event (htaken ▸ hlt)
    rw [htaken] at hnext
    subst hs
    refine h.move (by simp only [taken, hpc])
      ⟨{ t with reserved1 := (s.ring s.dequeuePtr).reserved1 }, s.ring s.dequeuePtr, ?_, hnext, rfl⟩
    simp only [ht, Option.map_some]
  case copySecond =>
    obtain ⟨t, u, ht, hu, hword⟩ := hcall
    have htaken : s.taken = s.returned.length := by simp only [taken, hpc]
    have hlt := (List.getElem?_eq_some_iff.mp hu).1
    have hnext := h.next_event (htaken ▸ hlt)
    rw [htaken, hu, Option.some.injEq] at hnext
    subst hs
    refine h.move (by simp only [taken, hpc]) ⟨u, ?_, hu⟩
    simp only [ht, Option.map_some, hword, ← hnext]
  case advance =>
    have hmod := mod_succ hn (k := s.taken)
    have hbit := lapBit_succ hn (k := s.taken)
    have hlt := Nat.mod_lt s.taken hn
    rw [← h.dequeuePtr] at hmod hbit hlt
    split at hs
    next hwrap =>
      have hlast : s.dequeuePtr + 1 = n := by omega
      obtain rfl := Option.some.inj hs
      rw [if_pos hlast] at hmod hbit
      exact h.take hpc hmod.symm (by rw [hbit, h.consumerCycle])
    next hwrap =>
      have hlast : s.dequeuePtr + 1 ≠ n := by omega
      obtain rfl := Option.some.inj hs
      rw [if_neg hlast] at hmod hbit
      exact h.take hpc hmod.symm (by rw [hbit, h.consumerCycle])
  case lookNext =>
    subst hs
    split
    next => exact h.move (by simp only [taken, hpc]) hcall
    next => exact h.move (by simp only [taken, hpc]) hcall
  case notBusy result =>
    subst hs
    exact h.report hpc
  case leave result =>
    subst hs
    exact h.leave hpc

/-- More events do not take away what a call knows. -/
theorem CallOk.produce {ring : Nat → Trb} {ptr : Nat} {bit : Bool} {w : Option Trb} {t : Trb}
    (h : s.CallOk) :
    CallOk { s with
      ring := ring
      enqueuePtr := ptr
      producerCycleState := bit
      writing := w
      produced := s.produced ++ [t] } := by
  have hmore : ∀ {k : Nat} {u : Trb}, s.produced[k]? = some u → (s.produced ++ [t])[k]? = some u := by
    intro k u hu
    rw [List.getElem?_append_left (List.getElem?_eq_some_iff.mp hu).1, hu]
  cases hpc : s.pc <;> simp only [CallOk, hpc] at h ⊢
  case check => exact h
  case copyFirst => exact ⟨h.1, h.2.trans (by simp)⟩
  case copySecond =>
    obtain ⟨t, u, ht, hu, hword⟩ := h
    exact ⟨t, u, ht, hmore hu, hword⟩
  case advance | lookNext =>
    obtain ⟨t, ht, hu⟩ := h
    exact ⟨t, ht, hmore hu⟩
  case notBusy result | leave result =>
    cases result with
    | false => exact h
    | true =>
        obtain ⟨t, ht, hu⟩ := h
        exact ⟨t, ht, hmore hu⟩

/-- The controller writes the first word. -/
theorem Inv.produceFirst {event : Trb} (h : Inv n s) (hroom : s.produced.length < s.reported + n) :
    Inv n { s with
      ring := Function.update s.ring s.enqueuePtr
        { s.ring s.enqueuePtr with reserved1 := event.reserved1 }
      writing := some event } where
  written := by
    have hreported := h.reported_le
    have hptr := h.enqueuePtr
    simp only [hptr]
    exact h.written.touch (by omega) rfl
  reported_le := h.reported_le
  room := h.room
  dequeuePtr := h.dequeuePtr
  consumerCycle := h.consumerCycle
  erstDequeuePtr := h.erstDequeuePtr
  enqueuePtr := h.enqueuePtr
  producerCycle := h.producerCycle
  writing e he := by
    obtain rfl := Option.some.inj he
    exact ⟨hroom, by simp only [Function.update_self]⟩
  returned := h.returned
  call := h.call

/-- The controller writes the second word, with which the event is there. -/
theorem Inv.produceSecond {event : Trb} {ptr : Nat} {bit : Bool} (h : Inv n s)
    (hevent : s.writing = some event) (hptr : ptr = (s.produced.length + 1) % n)
    (hbit : bit = lapBit n (s.produced.length + 1)) :
    Inv n { s with
      ring := Function.update s.ring s.enqueuePtr { s.ring s.enqueuePtr with
        reserved2 := (event.setCycle s.producerCycleState).reserved2 }
      enqueuePtr := ptr
      producerCycleState := bit
      writing := none
      produced := s.produced ++ [event.setCycle s.producerCycleState] } := by
  obtain ⟨hroom, hword⟩ := h.writing event hevent
  have hreported := h.reported_le
  have hlen : (s.produced ++ [event.setCycle s.producerCycleState]).length = s.produced.length + 1 :=
    List.length_append
  have hnew : { s.ring s.enqueuePtr with
      reserved2 := (event.setCycle s.producerCycleState).reserved2 } =
        event.setCycle s.producerCycleState := by
    simp only [hword, ← Trb.reserved1_setCycle event s.producerCycleState]
  constructor
  case written =>
    simp only [hnew]
    rw [h.enqueuePtr]
    refine h.written.push (by omega) ?_
    rw [Trb.cycle_setCycle, h.producerCycle]
  case reported_le => exact hreported
  case room => simp only [hlen]; omega
  case dequeuePtr => exact h.dequeuePtr
  case consumerCycle => exact h.consumerCycle
  case erstDequeuePtr => exact h.erstDequeuePtr
  case enqueuePtr => simp only [hlen, hptr]
  case producerCycle => simp only [hlen, hbit]
  case writing => exact fun _ he => nomatch he
  case returned => exact h.returned.trans (List.prefix_append _ _)
  case call => exact h.call.produce

theorem Inv.call_step {dest : Option Trb} (h : Inv n s) (hs : s.step n (.call dest) = some s') :
    Inv n s' := by
  simp only [step] at hs
  split at hs
  next hpc =>
    split at hs <;> obtain rfl := Option.some.inj hs
    next => exact h.move (by simp only [taken, hpc]) fun hdest => absurd rfl hdest
    next t => exact h.move (by simp only [taken, hpc]) (Option.some_ne_none t)
  next => cases hs

/-- Every step keeps it. -/
theorem Inv.step {i : EventInput} (hn : 0 < n) (h : Inv n s) (hs : s.step n i = some s') :
    Inv n s' := by
  cases i with
  | call dest => exact h.call_step hs
  | proceed => exact h.proceed hn hs
  | produceFirst event =>
      simp only [EventRing.step] at hs
      split at hs
      next hroom =>
        obtain rfl := Option.some.inj hs
        exact h.produceFirst hroom.2
      next => cases hs
  | produceSecond =>
      simp only [EventRing.step] at hs
      split at hs
      next => cases hs
      next event hevent =>
        obtain rfl := Option.some.inj hs
        have hlt := Nat.mod_lt s.produced.length hn
        rw [← h.enqueuePtr] at hlt
        have hlast : s.enqueuePtr + 1 ≥ n ↔ s.enqueuePtr + 1 = n := by omega
        refine h.produceSecond hevent ?_ ?_
        · rw [mod_succ hn, ← h.enqueuePtr]
          simp only [hlast]
        · rw [lapBit_succ hn, ← h.enqueuePtr, ← h.producerCycle]
          simp only [hlast]

theorem inv_of_reach (hn : 0 < n) (h : Reach (EventRing.step n) anyInput EventRing.new s) : Inv n s :=
  h.invariant .new fun _ _ _ h _ hs => h.step hn hs

end EventRing

/-- The events returned are a prefix of those produced, and a call with a destination returns false
only if all events produced until it looked have been returned. -/
theorem eventRing_ok {n : Nat} (hn : 0 < n) {s : EventRing}
    (h : Reach (EventRing.step n) anyInput EventRing.new s) :
    s.returned <+: s.produced ∧
      (s.pc = .leave false → s.dest ≠ none → s.returned.length = s.producedSeen) := by
  have hinv := EventRing.inv_of_reach hn h
  refine ⟨hinv.returned, fun hpc => ?_⟩
  have hcall := hinv.call
  simpa only [EventRing.CallOk, hpc] using hcall

/-- One event is produced and returned, and the next call finds none. -/
theorem eventRing_ok_one_event :
    ∃ s, Reach (EventRing.step 16) anyInput EventRing.new s ∧ s.pc = .leave false ∧
      s.returned.length = 1 ∧ s.returned <+: s.produced ∧ s.returned.length = s.producedSeen := by
  obtain ⟨s, hreach, hpc, hdest, hone⟩ := Reach.exists_of_run
    (by decide +kernel : ∃ s ∈ run (EventRing.step 16) anyInput EventRing.new
      ([.produceFirst .populate, .produceSecond, .call (some .populate)] ++
        List.replicate 7 .proceed ++ [.call (some .populate), .proceed, .proceed]),
      s.pc = .leave false ∧ s.dest ≠ none ∧ s.returned.length = 1)
  obtain ⟨hpre, hfalse⟩ := eventRing_ok (by decide) hreach
  exact ⟨s, hreach, hpc, hone, hpre, hfalse hpc hdest⟩

/-- Without a destination `dequeue_trb` returns false although there is an event. -/
theorem eventRing_null_destination :
    ¬ ∀ n, 16 ≤ n → n ≤ 4096 → ∀ s, Reach (EventRing.step n) anyInput EventRing.new s →
      s.returned <+: s.produced ∧ (s.pc = .leave false → s.returned.length = s.producedSeen) := by
  intro h
  obtain ⟨s, hreach, hpc, hne⟩ := Reach.exists_of_run
    (by decide +kernel : ∃ s ∈ run (EventRing.step 16) anyInput EventRing.new
      [.produceFirst .populate, .produceSecond, .call none, .proceed],
      s.pc = .leave false ∧ s.returned.length ≠ s.producedSeen)
  exact hne ((h 16 le_rfl (by decide) s hreach).2 hpc)

end Azalea.Usb
