import Mathlib.Algebra.Order.Ring.Nat
import Mathlib.Data.List.Infix
import Mathlib.Logic.Function.Basic
import Azalea.Support.Runs

/-!
# Usb — the rings the kernel fills

`devices/usb/controllers/usb_xhci_trb_ring.cpp`: `trb_generic_ring::queue_trb`, and the controller at
the other end of the ring, as the xHCI specification has it.  A TRB is two 64-bit words, which
`copy_trb` writes one after the other; the controller sees it once the second word, with the cycle bit,
is there.

* `trbRing_ok`: while the ring is filled for the first time, each TRB is consumed once and in order, none
  is overwritten, and `queue_trb` accepts one whenever its slot is free.  There is no second lap: the test
  for a full ring is for a cycle bit of 1 whatever the lap, and the link TRB neither has the cycle bit of
  the lap nor tells the controller to toggle (`trbRing_second_lap`).
-/

namespace Azalea.Usb
open Azalea.Runs

/-- A `template_trb`. -/
structure Trb where
  reserved1 : BitVec 64
  reserved2 : BitVec 64
  deriving DecidableEq

namespace Trb

def cycle (t : Trb) : Bool := t.reserved2.getLsbD 32

/-- In a `link_trb`. -/
def toggleCycle (t : Trb) : Bool := t.reserved2.getLsbD 33

def trbType (t : Trb) : BitVec 6 := t.reserved2.extractLsb' 42 6

def setCycle (t : Trb) (cycle : Bool) : Trb :=
  { t with reserved2 :=
      if cycle then t.reserved2 ||| BitVec.twoPow 64 32 else t.reserved2 &&& ~~~ BitVec.twoPow 64 32 }

/-- `template_trb::populate`. -/
def populate : Trb := ⟨0, 0⟩

/-- `TRB_TYPES::LINK`. -/
def link : BitVec 6 := 6

/-- `link_trb::populate`, with the arguments that are 0 for every ring left out. -/
def populateLink (nextTrbPhysAddr : BitVec 64) (toggleCycle cycle : Bool) : Trb :=
  { reserved1 := nextTrbPhysAddr
    reserved2 := link.zeroExtend 64 <<< 42 ||| (BitVec.ofBool toggleCycle).zeroExtend 64 <<< 33 |||
      (BitVec.ofBool cycle).zeroExtend 64 <<< 32 }

@[simp] theorem cycle_populate : populate.cycle = false := by decide

@[simp] theorem reserved1_setCycle (t : Trb) (b : Bool) : (t.setCycle b).reserved1 = t.reserved1 := rfl

@[simp] theorem cycle_setCycle (t : Trb) (b : Bool) : (t.setCycle b).cycle = b := by
  cases b <;> simp [cycle, setCycle]

@[simp] theorem trbType_setCycle (t : Trb) (b : Bool) : (t.setCycle b).trbType = t.trbType := by
  ext i hi
  cases b <;> simp [trbType, setCycle, BitVec.getLsbD_twoPow] <;> omega

@[simp] theorem cycle_populateLink {base : BitVec 64} {toggle cycle : Bool} :
    (populateLink base toggle cycle).cycle = cycle := by
  simp only [Trb.cycle, populateLink]
  cases toggle <;> cases cycle <;> decide

theorem trbType_populateLink {base : BitVec 64} {toggle cycle : Bool} :
    (populateLink base toggle cycle).trbType = link := by
  simp only [trbType, populateLink]
  cases toggle <;> cases cycle <;> decide

end Trb

/-- The two kinds of ring that are filled by `queue_trb`. -/
inductive RingKind where
  | transfer
  | command
  deriving DecidableEq

/-- `is_valid_trb`. -/
def RingKind.isValidTrb (kind : RingKind) (t : Trb) : Bool :=
  match kind with
  | .transfer => t.trbType ∈ ([1, 2, 3, 4, 5, 7, 8] : List (BitVec 6))
  | .command => 9 ≤ t.trbType && t.trbType ≤ 23

theorem RingKind.not_link {kind : RingKind} {t : Trb} (h : kind.isValidTrb t) :
    t.trbType ≠ Trb.link := by
  intro heq
  cases kind <;> simp [isValidTrb, heq, Trb.link] at h

/-- Where `queue_trb` is, and the TRB it was given. -/
inductive QueuePc where
  | idle
  | check (newTrb : Trb)
  | copyFirst (newTrb : Trb)
  | copySecond (newTrb : Trb)
  | advance
  | leave (result : Bool)
  deriving DecidableEq

/-- A `trb_generic_ring`, with the controller that works it off. -/
structure TrbRing where
  ring : Nat → Trb
  enqueuePtr : Nat
  cycleBit : Bool
  pc : QueuePc
  -- the controller: the position and the cycle state it has got to
  dequeuePtr : Nat
  consumerCycleState : Bool
  -- what has happened so far
  queued : List Trb
  consumed : List Trb
  /-- `queue_trb` has said that the ring is full when the TRB in its slot had been consumed. -/
  refusedFree : Bool

/-- `trb_generic_ring::trb_generic_ring`; the ring is at `base`. -/
def TrbRing.new (maxEntries : Nat) (base : BitVec 64) : TrbRing where
  ring k := if k = maxEntries - 1 then .populateLink base false false else .populate
  enqueuePtr := 0
  cycleBit := true
  pc := .idle
  dequeuePtr := 0
  consumerCycleState := true
  queued := []
  consumed := []
  refusedFree := false

/-- What happens next: `queue_trb` is called, or goes on, or the controller looks at the TRB at its
dequeue position. -/
inductive QueueInput where
  | call (newTrb : Option Trb)
  | proceed
  | consume

namespace TrbRing

/-- One step of `queue_trb` on a ring of `n` entries. -/
def proceed (n : Nat) (s : TrbRing) : Option TrbRing :=
  match s.pc with
  | .idle => none
  | .check t =>
      if (s.ring s.enqueuePtr).cycle then
        some { s with
          refusedFree := s.refusedFree || s.queued.length < s.consumed.length + (n - 1)
          pc := .leave false }
      else
        some { s with pc := .copyFirst (t.setCycle s.cycleBit) }
  | .copyFirst t => some { s with
      ring := Function.update s.ring s.enqueuePtr
        { s.ring s.enqueuePtr with reserved1 := t.reserved1 }
      pc := .copySecond t }
  | .copySecond t => some { s with
      ring := Function.update s.ring s.enqueuePtr
        { s.ring s.enqueuePtr with reserved2 := t.reserved2 }
      queued := s.queued ++ [t]
      pc := .advance }
  | .advance =>
      if (s.ring (s.enqueuePtr + 1)).trbType = Trb.link then
        some { s with enqueuePtr := 0, cycleBit := !s.cycleBit, pc := .leave true }
      else
        some { s with enqueuePtr := s.enqueuePtr + 1, pc := .leave true }
  | .leave _ => some { s with pc := .idle }

/-- The controller consumes the TRB at its dequeue position, or follows the link there. -/
def consume (s : TrbRing) : Option TrbRing :=
  let t := s.ring s.dequeuePtr
  if t.cycle ≠ s.consumerCycleState then none
  else if t.trbType = Trb.link then
    some { s with
      dequeuePtr := 0
      consumerCycleState := if t.toggleCycle then !s.consumerCycleState else s.consumerCycleState }
  else
    some { s with dequeuePtr := s.dequeuePtr + 1, consumed := s.consumed ++ [t] }

/-- One step of the system. -/
def step (kind : RingKind) (n : Nat) (s : TrbRing) : QueueInput → Option TrbRing
  | .call newTrb =>
      if s.pc = .idle then
        match newTrb with
        | none => some { s with pc := .leave false }
        | some t => some { s with pc := if kind.isValidTrb t then .check t else .leave false }
      else none
  | .proceed => s.proceed n
  | .consume => s.consume

/-- The TRBs queued are consumed in order, each once; one that is not yet consumed is still in the
ring; and `queue_trb` has taken a TRB whenever its slot was free. -/
structure Ok (n : Nat) (s : TrbRing) : Prop where
  order : s.consumed <+: s.queued
  kept : ∀ k, s.consumed.length ≤ k → ∀ h : k < s.queued.length, s.ring (k % (n - 1)) = s.queued[k]
  accepted : s.refusedFree = false

/-- `queue_trb` looks for a free slot only in the first lap, or if nothing has been consumed. -/
def FirstLap (n : Nat) (s : TrbRing) : QueueInput → Prop
  | .proceed => ∀ t, s.pc = .check t → s.queued.length < n - 1 ∨ s.consumed = []
  | _ => True

variable {kind : RingKind} {n : Nat} {base : BitVec 64} {s s' : TrbRing}

/-- `enqueue_ptr` between two calls: after the last TRB queued, or back at the start of a ring that has
been filled once. -/
def BetweenCalls (n : Nat) (s : TrbRing) : Prop :=
  (s.queued.length < n - 1 ∧ s.enqueuePtr = s.queued.length ∧ s.cycleBit = true) ∨
    (s.queued.length = n - 1 ∧ s.enqueuePtr = 0)

/-- `enqueue_ptr` and the TRB in hand, wherever `queue_trb` is. -/
def CallOk (n : Nat) (s : TrbRing) : Prop :=
  match s.pc with
  | .idle | .leave _ => s.BetweenCalls n
  | .check t => t.trbType ≠ Trb.link ∧ s.BetweenCalls n
  | .copyFirst t => t.trbType ≠ Trb.link ∧ t.cycle = true ∧
      s.queued.length < n - 1 ∧ s.enqueuePtr = s.queued.length ∧ s.cycleBit = true
  | .copySecond t => t.trbType ≠ Trb.link ∧ t.cycle = true ∧
      s.queued.length < n - 1 ∧ s.enqueuePtr = s.queued.length ∧ s.cycleBit = true ∧
      (s.ring s.enqueuePtr).reserved1 = t.reserved1
  | .advance => s.enqueuePtr + 1 = s.queued.length ∧ s.cycleBit = true

/-- What holds between the steps.  Nothing is ever queued in a second lap: the TRBs of the first keep
their cycle bit of 1. -/
structure Inv (n : Nat) (base : BitVec 64) (s : TrbRing) : Prop where
  lap : s.queued.length ≤ n - 1
  link : s.ring (n - 1) = .populateLink base false false
  filled : ∀ k, ∀ h : k < s.queued.length, s.ring k = s.queued[k]
  marked : ∀ t ∈ s.queued, t.cycle = true ∧ t.trbType ≠ Trb.link
  unused : ∀ k, s.queued.length ≤ k → k < n - 1 → (s.ring k).reserved2 = 0
  dequeuePtr : s.dequeuePtr = s.consumed.length
  consumerCycle : s.consumerCycleState = true
  order : s.consumed <+: s.queued
  call : s.CallOk n

theorem Inv.new (hn : 1 < n) : Inv n base (TrbRing.new n base) where
  lap := Nat.zero_le _
  link := if_pos rfl
  filled k h := absurd h (Nat.not_lt_zero k)
  marked t h := absurd h List.not_mem_nil
  unused k _ hk := by
    simp only [TrbRing.new, if_neg hk.ne]
    rfl
  dequeuePtr := rfl
  consumerCycle := rfl
  order := List.prefix_rfl
  call := .inl ⟨Nat.sub_pos_of_lt hn, rfl, rfl⟩

theorem cycle_of_reserved2 {t : Trb} (h : t.reserved2 = 0) : t.cycle = false := by
  rw [Trb.cycle, h]
  rfl

/-- `queue_trb` goes on without touching the ring. -/
theorem Inv.move {pc : QueuePc} {ptr : Nat} {bit refused : Bool} (h : Inv n base s)
    (hcall : CallOk n { s with pc := pc, enqueuePtr := ptr, cycleBit := bit, refusedFree := refused }) :
    Inv n base { s with pc := pc, enqueuePtr := ptr, cycleBit := bit, refusedFree := refused } :=
  { h with call := hcall }

/-- What the test for a full ring finds. -/
theorem Inv.cycle_eq (hn : 1 < n) (h : Inv n base s) (hbetween : s.BetweenCalls n) :
    (s.ring s.enqueuePtr).cycle = decide (s.queued.length = n - 1) := by
  rcases hbetween with ⟨hlt, hptr, -⟩ | ⟨hfull, hptr⟩
  · rw [hptr, cycle_of_reserved2 (h.unused _ le_rfl hlt)]
    exact (decide_eq_false hlt.ne).symm
  · have hpos : 0 < s.queued.length := by omega
    rw [hptr, h.filled 0 hpos, (h.marked _ (List.getElem_mem hpos)).1]
    exact (decide_eq_true hfull).symm

/-- The slot after the one just filled is the link exactly in the last of the ring. -/
theorem Inv.trbType_eq_link_iff (h : Inv n base s) (hpos : 0 < s.queued.length) :
    (s.ring s.queued.length).trbType = Trb.link ↔ s.queued.length = n - 1 := by
  constructor
  · intro hlink
    by_contra hne
    have hzero := h.unused _ le_rfl (by have := h.lap; omega)
    rw [Trb.trbType, hzero] at hlink
    exact absurd hlink (by decide)
  · intro heq
    rw [heq, h.link]
    exact Trb.trbType_populateLink

theorem Inv.copyFirst {t : Trb} (h : Inv n base s) (hpc : s.pc = .copyFirst t) :
    Inv n base { s with
      ring := Function.update s.ring s.enqueuePtr
        { s.ring s.enqueuePtr with reserved1 := t.reserved1 }
      pc := .copySecond t } := by
  have hcall := h.call
  simp only [CallOk, hpc] at hcall
  obtain ⟨hlink, hcycle, hlt, hptr, hbit⟩ := hcall
  constructor
  case lap => exact h.lap
  case link =>
    rw [← h.link]
    exact Function.update_of_ne (by omega) _ _
  case filled =>
    intro k hk
    rw [← h.filled k hk]
    exact Function.update_of_ne (by simp only at hk; omega) _ _
  case marked => exact h.marked
  case unused =>
    intro k hk hlast
    rw [← h.unused k hk hlast]
    by_cases heq : k = s.enqueuePtr
    · simp only [heq, Function.update_self]
    · simp only [Function.update_of_ne heq]
  case dequeuePtr => exact h.dequeuePtr
  case consumerCycle => exact h.consumerCycle
  case order => exact h.order
  case call => exact ⟨hlink, hcycle, hlt, hptr, hbit, by simp only [Function.update_self]⟩

theorem Inv.copySecond {t : Trb} (h : Inv n base s) (hpc : s.pc = .copySecond t) :
    Inv n base { s with
      ring := Function.update s.ring s.enqueuePtr
        { s.ring s.enqueuePtr with reserved2 := t.reserved2 }
      queued := s.queued ++ [t]
      pc := .advance } := by
  have hcall := h.call
  simp only [CallOk, hpc] at hcall
  obtain ⟨hlink, hcycle, hlt, hptr, hbit, hword⟩ := hcall
  have hlen : (s.queued ++ [t]).length = s.queued.length + 1 := List.length_append
  have hnew : ({ s.ring s.enqueuePtr with reserved2 := t.reserved2 } : Trb) = t := by
    simp only [hword]
  constructor
  case lap => simp only [hlen]; omega
  case link =>
    rw [← h.link]
    exact Function.update_of_ne (by omega) _ _
  case filled =>
    intro k hk
    simp only [hnew]
    rcases Nat.lt_or_ge k s.queued.length with hold | hge
    · rw [Function.update_of_ne (by omega), List.getElem_append_left hold]
      exact h.filled k hold
    · obtain rfl : k = s.queued.length := by simp only [hlen] at hk; omega
      simp [hptr]
  case marked =>
    intro u hu
    rcases List.mem_append.mp hu with hold | hnew
    · exact h.marked u hold
    · obtain rfl := List.mem_singleton.mp hnew
      exact ⟨hcycle, hlink⟩
  case unused =>
    intro k hk hlast
    simp only [hlen] at hk
    rw [← h.unused k (by omega) hlast]
    simp only [Function.update_of_ne (by omega : k ≠ s.enqueuePtr)]
  case dequeuePtr => exact h.dequeuePtr
  case consumerCycle => exact h.consumerCycle
  case order => exact h.order.trans (List.prefix_append _ _)
  case call => exact ⟨by simp only [hlen, hptr], hbit⟩

/-- `queue_trb` keeps what it relies on. -/
theorem Inv.proceed (hn : 1 < n) (h : Inv n base s) (hs : s.proceed n = some s') : Inv n base s' := by
  have hcall := h.call
  cases hpc : s.pc <;> simp only [CallOk, hpc] at hcall <;>
    simp only [TrbRing.proceed, hpc, reduceCtorEq, Option.some.injEq] at hs
  case check t =>
    obtain ⟨hlink, hbetween⟩ := hcall
    rw [h.cycle_eq hn hbetween] at hs
    split at hs
    next =>
      obtain rfl := Option.some.inj hs
      exact h.move hbetween
    next hfree =>
      obtain rfl := Option.some.inj hs
      rcases hbetween with ⟨hlt, hptr, hbit⟩ | ⟨hfull, -⟩
      · refine h.move ⟨?_, ?_, hlt, hptr, hbit⟩
        · rwa [Trb.trbType_setCycle]
        · rw [Trb.cycle_setCycle, hbit]
      · exact absurd (decide_eq_true hfull) hfree
  case copyFirst t =>
    subst hs
    exact h.copyFirst hpc
  case copySecond t =>
    subst hs
    exact h.copySecond hpc
  case advance =>
    obtain ⟨hptr, hbit⟩ := hcall
    have hlap := h.lap
    simp only [hptr, h.trbType_eq_link_iff (by omega : 0 < s.queued.length)] at hs
    split at hs <;> obtain rfl := Option.some.inj hs
    next hfull => exact h.move (.inr ⟨hfull, rfl⟩)
    next hne => exact h.move (.inl ⟨by simp only; omega, rfl, hbit⟩)
  case leave result =>
    subst hs
    exact h.move hcall

/-- The controller consumes the next TRB of those queued, and never gets past the link. -/
theorem Inv.consume_eq (h : Inv n base s) :
    s.consume = (s.queued[s.consumed.length]?).map fun t =>
      { s with dequeuePtr := s.dequeuePtr + 1, consumed := s.consumed ++ [t] } := by
  have hle := h.order.length_le
  rcases Nat.lt_or_ge s.consumed.length s.queued.length with hlt | hge
  · obtain ⟨hcycle, hlink⟩ := h.marked _ (List.getElem_mem hlt)
    simp only [TrbRing.consume, h.dequeuePtr, h.filled _ hlt, h.consumerCycle, hcycle, hlink,
      ne_eq, not_true_eq_false, if_false, List.getElem?_eq_getElem hlt, Option.map_some]
  · have hstop : (s.ring s.dequeuePtr).cycle = false := by
      have hlap := h.lap
      rw [h.dequeuePtr]
      rcases Nat.lt_or_ge s.consumed.length (n - 1) with hlt | hlast
      · exact cycle_of_reserved2 (h.unused _ hge hlt)
      · rw [Nat.le_antisymm (hle.trans hlap) hlast, h.link, Trb.cycle_populateLink]
    simp [TrbRing.consume, hstop, h.consumerCycle, hge]

theorem Inv.consume (h : Inv n base s) (hs : s.consume = some s') : Inv n base s' := by
  rw [h.consume_eq] at hs
  obtain ⟨t, ht, rfl⟩ := Option.map_eq_some_iff.mp hs
  have hlen : (s.consumed ++ [t]).length = s.consumed.length + 1 := List.length_append
  refine { h with dequeuePtr := ?_, order := ?_ }
  · simp only [hlen, h.dequeuePtr]
  · obtain ⟨hlt, rfl⟩ := List.getElem?_eq_some_iff.mp ht
    exact List.concat_get_prefix h.order hlt

theorem Inv.call_step {newTrb : Option Trb} (h : Inv n base s)
    (hs : s.step kind n (.call newTrb) = some s') : Inv n base s' := by
  have hcall := h.call
  simp only [step] at hs
  split at hs
  next hpc =>
    simp only [CallOk, hpc] at hcall
    cases newTrb with
    | none =>
        obtain rfl := Option.some.inj hs
        exact h.move hcall
    | some t =>
        simp only [Option.some.injEq] at hs
        subst hs
        split
        next hvalid => exact h.move ⟨RingKind.not_link hvalid, hcall⟩
        next => exact h.move hcall
  next => cases hs

/-- Every step keeps it, whenever `queue_trb` is called. -/
theorem Inv.step {i : QueueInput} (hn : 1 < n) (h : Inv n base s) (hs : s.step kind n i = some s') :
    Inv n base s' := by
  cases i with
  | call newTrb => exact h.call_step hs
  | proceed => exact h.proceed hn hs
  | consume => exact h.consume hs

/-- A TRB is only refused in a state that is not of the first lap. -/
theorem Inv.refusedFree_step {i : QueueInput} (hn : 1 < n) (h : Inv n base s) (hok : FirstLap n s i)
    (hs : s.step kind n i = some s') : s'.refusedFree = s.refusedFree := by
  have hcall := h.call
  cases i with
  | call newTrb =>
      simp only [TrbRing.step] at hs
      split at hs
      next => cases newTrb <;> obtain rfl := Option.some.inj hs <;> rfl
      next => cases hs
  | consume =>
      simp only [TrbRing.step, h.consume_eq] at hs
      obtain ⟨t, -, rfl⟩ := Option.map_eq_some_iff.mp hs
      rfl
  | proceed =>
      cases hpc : s.pc <;> simp only [TrbRing.step, TrbRing.proceed, hpc, reduceCtorEq] at hs
      case check t =>
        simp only [CallOk, hpc] at hcall
        rw [h.cycle_eq hn hcall.2] at hs
        split at hs <;> obtain rfl := Option.some.inj hs
        next hfull =>
          have hlen : s.queued.length = n - 1 := of_decide_eq_true hfull
          rcases hok t hpc with hlt | hnone
          · exact absurd hlen hlt.ne
          · simp [hnone, hlen]
        next => rfl
      case advance =>
        split at hs <;> obtain rfl := Option.some.inj hs <;> rfl
      all_goals
        obtain rfl := Option.some.inj hs
        rfl

theorem inv_of_reach (hn : 1 < n)
    (h : Reach (TrbRing.step kind n) (FirstLap n) (TrbRing.new n base) s) :
    Inv n base s ∧ s.refusedFree = false := by
  refine h.invariant (I := fun s => Inv n base s ∧ s.refusedFree = false) ⟨.new hn, rfl⟩ ?_
  intro s i s' hinv hok hs
  exact ⟨hinv.1.step hn hs, (hinv.1.refusedFree_step hn hok hs).trans hinv.2⟩

theorem Inv.ok (h : Inv n base s) (haccepted : s.refusedFree = false) : s.Ok n where
  order := h.order
  kept k _ hk := by
    rw [Nat.mod_eq_of_lt (hk.trans_le h.lap)]
    exact h.filled k hk
  accepted := haccepted

/-- As long as a TRB is queued that has not been consumed, the controller consumes one. -/
theorem Inv.consume_progress (h : Inv n base s) (hne : s.consumed ≠ s.queued) :
    ∃ s', s.consume = some s' ∧ s'.queued = s.queued ∧
      s'.queued.length - s'.consumed.length < s.queued.length - s.consumed.length := by
  have hlt : s.consumed.length < s.queued.length :=
    lt_of_le_of_ne h.order.length_le fun heq => hne (h.order.eq_of_length heq)
  have hs := h.consume_eq
  rw [List.getElem?_eq_getElem hlt, Option.map_some] at hs
  refine ⟨_, hs, rfl, ?_⟩
  simp only [List.length_append, List.length_singleton]
  omega

/-- Left to itself the controller consumes all that has been queued. -/
theorem Inv.all_consumed (h : Inv n base s) :
    ∃ s', Reach (TrbRing.step kind n) (fun _ i => i = .consume) s s' ∧ s'.consumed = s.queued := by
  have hdone : ∃ s', Reach (TrbRing.step kind n) (fun _ i => i = .consume) s s' ∧
      (Inv n base s' ∧ s'.queued = s.queued) ∧ s'.consumed = s'.queued := by
    refine Reach.of_measure (fun s' => s'.queued.length - s'.consumed.length) ?_ ⟨h, rfl⟩
    intro s₁ h₁ hne
    obtain ⟨s₂, hs, hqueued, hless⟩ := h₁.1.consume_progress hne
    exact ⟨.consume, s₂, rfl, hs, ⟨h₁.1.consume hs, hqueued.trans h₁.2⟩, hless⟩
  obtain ⟨s', hreach, ⟨-, hqueued⟩, hall⟩ := hdone
  exact ⟨s', hreach, hall.trans hqueued⟩

end TrbRing

/-- In a run in which `queue_trb` looks for a slot only while the ring is filled for the first time, or
while nothing has been consumed, the ring does what it is for: the order is kept, nothing is lost or
overwritten, the controller can get to the end and a free slot is accepted. -/
theorem trbRing_ok {kind : RingKind} {n : Nat} {base : BitVec 64} {s : TrbRing} (hn : 1 < n)
    (h : Reach (TrbRing.step kind n) (TrbRing.FirstLap n) (TrbRing.new n base) s) :
    s.Ok n ∧ ∃ s', Reach (TrbRing.step kind n) (fun _ i => i = .consume) s s' ∧
      s'.consumed = s.queued := by
  obtain ⟨hinv, haccepted⟩ := TrbRing.inv_of_reach hn h
  exact ⟨hinv.ok haccepted, hinv.all_consumed⟩

/-- A `NO_OP_CMD`. -/
def noOpCmd : Trb := ⟨0, (23 : BitVec 64) <<< 42⟩

instance (n : Nat) (s : TrbRing) : ∀ i, Decidable (TrbRing.FirstLap n s i)
  | .call _ | .consume => .isTrue trivial
  | .proceed =>
      match hpc : s.pc with
      | .check _ => decidable_of_iff (s.queued.length < n - 1 ∨ s.consumed = [])
          (by simp [TrbRing.FirstLap, hpc])
      | .idle | .copyFirst _ | .copySecond _ | .advance | .leave _ =>
          .isTrue fun t ht => by simp [hpc] at ht

/-- `queue_trb` from its call to its return. -/
def queueNoOp : List QueueInput := .call (some noOpCmd) :: List.replicate 5 .proceed

theorem trbRing_ok_no_op : ∃ s : TrbRing, s.consumed.length = 1 ∧ s.queued.length = 2 ∧ s.Ok 4 := by
  obtain ⟨s, hreach, hc, hq⟩ := Reach.exists_of_run
    (by decide +kernel : ∃ s ∈ run (TrbRing.step .command 4) (TrbRing.FirstLap 4) (TrbRing.new 4 0)
      (queueNoOp ++ [.consume] ++ queueNoOp), s.consumed.length = 1 ∧ s.queued.length = 2)
  exact ⟨s, hc, hq, (trbRing_ok (by decide) hreach).1⟩

/-- In a ring with one slot besides the link, a second TRB is refused after the first was consumed. -/
theorem trbRing_second_lap :
    ¬ ∀ kind n base, 1 < n → ∀ s, Reach (TrbRing.step kind n) anyInput (TrbRing.new n base) s →
      s.Ok n := by
  intro h
  obtain ⟨s, hreach, hrefused⟩ := Reach.exists_of_run
    (by decide +kernel : ∃ s ∈ run (TrbRing.step .command 2) anyInput (TrbRing.new 2 0)
      (queueNoOp ++ [.consume, .call (some noOpCmd), .proceed]), s.refusedFree = true)
  have haccepted := (h .command 2 0 (by decide) s hreach).accepted
  rw [hrefused] at haccepted
  cases haccepted

end Azalea.Usb
