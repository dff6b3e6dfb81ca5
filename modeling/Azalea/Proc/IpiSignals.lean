import Mathlib.Data.List.Infix
import Mathlib.Logic.Function.Basic
import Azalea.Support.Runs

/-!
# Proc — messages between processors

`processor/x64/multi_processor-x64.cpp`: `proc_mp_x64_signal_proc` sends a message to another processor
by an NMI, which carries nothing; the message is in a slot that each processor has, with a word that
both sides write and a lock for the senders.  Any threads send to any processors, and between any two of
their steps the processors signalled take steps of `proc_mp_x64_receive_signal_int`.

* `ipiSignals_ok`: each message is handled once, as it was sent and in order, no ASSERT trips and a call
  that has to see its message completed does, as long as a processor is not signalled again after a call
  has taken the word back before the message was completed.  A call that need not see that does so as
  soon as the message is acknowledged: the target then writes `COMPLETED` over the `NO_MSG` that the next
  sender asks for (`ipiSignals_early_return`).
-/

namespace Azalea.Proc.Ipi
open Azalea.Runs

/-- `PROC_IPI_MSGS`. -/
inductive IpiMsg where
  | resume
  | suspend
  | tlbShootdown
  | reloadIdt
  deriving DecidableEq

/-- `proc_mp_receive_signal` returns from handling the message. -/
def IpiMsg.returning : IpiMsg → Bool
  | .tlbShootdown | .reloadIdt => true
  | .resume | .suspend => false

/-- `PROC_MP_X64_MSG_STATE`. -/
inductive MsgState where
  | noMsg
  | msgWaiting
  | acknowledged
  | completed
  deriving DecidableEq

/-- Where a processor is in `proc_mp_x64_receive_signal_int`. -/
inductive ReceiverPc where
  | idle
  | check
  | acknowledge
  | handle
  | complete
  | stopped
  | assertFailed
  deriving DecidableEq

/-- A `proc_mp_ipi_msg_state` with the processor it belongs to. -/
structure Line (τ : Type*) where
  msgBeingSent : IpiMsg
  msgControlState : MsgState
  signalLock : Option τ
  -- NMIs sent and not yet delivered
  pendingNmis : Nat
  receiver : ReceiverPc
  -- what has been signalled, and passed to `proc_mp_receive_signal`
  sent : List IpiMsg
  handled : List IpiMsg
  /-- A call has written `NO_MSG` while its message was only acknowledged. -/
  abandoned : Bool

/-- Where a thread is in `proc_mp_x64_signal_proc`. -/
inductive SenderPc where
  | lock
  | check
  | store
  | announce
  | sendNmi
  | spin
  | reset
  | unlock
  | leave
  | assertFailed
  deriving DecidableEq

/-- A call of `proc_mp_x64_signal_proc`; `ticket` is how many messages were sent to the processor
before its own. -/
structure Call (π : Type*) where
  procId : π
  msg : IpiMsg
  mustComplete : Bool
  pc : SenderPc
  ticket : Nat

/-- The processors and the threads that send. -/
structure IpiState (π τ : Type*) where
  line : π → Line τ
  call : τ → Option (Call π)

/-- What happens next. -/
inductive IpiAct (π τ : Type*) where
  | signalProc (t : τ) (procId : π) (msg : IpiMsg) (mustComplete : Bool)
  | next (t : τ)
  | nmi (p : π)
  | receive (p : π)

variable {π τ : Type*}

namespace Line

/-- As `proc_mp_init` leaves it. -/
def init : Line τ where
  msgBeingSent := .resume
  msgControlState := .noMsg
  signalLock := none
  pendingNmis := 0
  receiver := .idle
  sent := []
  handled := []
  abandoned := false

/-- An NMI is delivered.  The processor takes none while it is in the handler of another. -/
def nmi (l : Line τ) : Option (Line τ) :=
  if l.receiver = .idle ∧ 0 < l.pendingNmis then
    some { l with pendingNmis := l.pendingNmis - 1, receiver := .check }
  else none

/-- One step of `proc_mp_x64_receive_signal_int`. -/
def receive (l : Line τ) : Option (Line τ) :=
  match l.receiver with
  | .idle | .stopped | .assertFailed => none
  | .check =>
      some { l with receiver := if l.msgControlState = .msgWaiting then .acknowledge else .assertFailed }
  | .acknowledge => some { l with msgControlState := .acknowledged, receiver := .handle }
  | .handle => some { l with
      handled := l.handled ++ [l.msgBeingSent]
      receiver := if l.msgBeingSent.returning then .complete else .stopped }
  | .complete => some { l with msgControlState := .completed, receiver := .idle }

end Line

/-- One step of `proc_mp_x64_signal_proc` by thread `t`. -/
def Call.advance (c : Call π) (l : Line τ) (t : τ) : Option (Line τ × Call π) :=
  match c.pc with
  | .lock =>
      match l.signalLock with
      | none => some ({ l with signalLock := some t }, { c with pc := .check })
      | some _ => none
  | .check => some (l, { c with pc := if l.msgControlState = .noMsg then .store else .assertFailed })
  | .store => some ({ l with msgBeingSent := c.msg }, { c with pc := .announce })
  | .announce => some ({ l with msgControlState := .msgWaiting }, { c with pc := .sendNmi })
  | .sendNmi => some
      ({ l with pendingNmis := l.pendingNmis + 1, sent := l.sent ++ [c.msg] },
        { c with pc := .spin, ticket := l.sent.length })
  | .spin =>
      let completed := (!c.mustComplete && l.msgControlState = .acknowledged) ||
        l.msgControlState = .completed
      some (l, { c with pc := if completed then .reset else .spin })
  | .reset => some
      ({ l with
          msgControlState := .noMsg
          abandoned := l.abandoned || l.msgControlState = .acknowledged },
        { c with pc := .unlock })
  | .unlock => some ({ l with signalLock := none }, { c with pc := .leave })
  | .leave | .assertFailed => none

namespace IpiState

variable [DecidableEq π] [DecidableEq τ] (s : IpiState π τ)

def init : IpiState π τ where
  line _ := .init
  call _ := none

def setLine (p : π) (l : Line τ) : IpiState π τ := { s with line := Function.update s.line p l }

/-- One step of the system.  A thread that has come to the end of a call may make another. -/
def step : IpiAct π τ → Option (IpiState π τ)
  | .signalProc t procId msg mustComplete =>
      let c : Call π := ⟨procId, msg, mustComplete, .lock, 0⟩
      match s.call t with
      | none => some { s with call := Function.update s.call t (some c) }
      | some old =>
          if old.pc = .leave then some { s with call := Function.update s.call t (some c) } else none
  | .next t =>
      (s.call t).bind fun c => (c.advance (s.line c.procId) t).map fun lc =>
        { line := Function.update s.line c.procId lc.1, call := Function.update s.call t (some lc.2) }
  | .nmi p => (s.line p).nmi.map (s.setLine p)
  | .receive p => (s.line p).receive.map (s.setLine p)

/-- What is asked of the messages: no ASSERT trips, those handled are those sent, in the same order, and
a call with `must_complete` returns after its message was handled. -/
structure Ok : Prop where
  sender : ∀ t, ∀ c ∈ s.call t, c.pc ≠ .assertFailed
  receiver : ∀ p, (s.line p).receiver ≠ .assertFailed
  handled : ∀ p, (s.line p).handled <+: (s.line p).sent
  completed : ∀ t, ∀ c ∈ s.call t, c.pc = .leave → c.mustComplete → c.ticket < (s.line c.procId).handled.length

/-- Only messages that return are sent. -/
def ReturningOnly (_ : IpiState π τ) : IpiAct π τ → Prop
  | .signalProc _ _ msg _ => msg.returning
  | _ => True

/-- Only messages that return are sent, and none to a processor after a call has taken the word back
from a message that was not completed. -/
def NotAbandoned : IpiAct π τ → Prop
  | .signalProc _ _ msg _ => msg.returning
  | .next t => ∀ c ∈ s.call t, c.pc = .lock → (s.line c.procId).abandoned = false
  | _ => True

end IpiState

/-! ### A line between its steps -/

namespace Line

variable {l l' : Line τ}

/-- Nothing is going on. -/
structure Quiet (l : Line τ) : Prop where
  state : l.msgControlState = .noMsg
  idle : l.receiver = .idle
  nmis : l.pendingNmis = 0
  done : l.sent = l.handled
  kept : l.abandoned = false

/-- The message is announced, and the NMI on its way or just come. -/
structure Delivering (l : Line τ) : Prop where
  state : l.msgControlState = .msgWaiting
  one : l.sent = l.handled ++ [l.msgBeingSent]
  returning : l.msgBeingSent.returning
  place : (l.pendingNmis = 1 ∧ l.receiver = .idle) ∨
    (l.pendingNmis = 0 ∧ (l.receiver = .check ∨ l.receiver = .acknowledge))
  kept : l.abandoned = false

/-- The message has been acknowledged; `state` is in the word until the target writes it again. -/
def Handling (state : MsgState) (l : Line τ) : Prop :=
  l.pendingNmis = 0 ∧
    ((l.receiver = .handle ∧ l.msgControlState = state ∧ l.sent = l.handled ++ [l.msgBeingSent] ∧
        l.msgBeingSent.returning) ∨
      (l.receiver = .complete ∧ l.msgControlState = state ∧ l.sent = l.handled) ∨
      (l.receiver = .idle ∧ l.msgControlState = .completed ∧ l.sent = l.handled))

/-- No sender is using the line. -/
def Free (l : Line τ) : Prop := l.Quiet ∨ (l.abandoned = true ∧ l.Handling .noMsg)

theorem Quiet.nmi_eq (h : l.Quiet) : l.nmi = none := by
  simp [nmi, h.nmis]

theorem Quiet.receive_eq (h : l.Quiet) : l.receive = none := by
  simp [receive, h.idle]

theorem Delivering.nmi (h : l.Delivering) (hs : l.nmi = some l') : l'.Delivering := by
  simp only [Line.nmi, Option.ite_none_right_eq_some, Option.some.injEq] at hs
  obtain ⟨⟨hidle, hpos⟩, rfl⟩ := hs
  refine ⟨h.state, h.one, h.returning, .inr ⟨?_, .inl rfl⟩, h.kept⟩
  rcases h.place with ⟨hone, -⟩ | ⟨hnone, -⟩
  · simp only [hone]
  · omega

theorem Delivering.receive (h : l.Delivering) (hs : l.receive = some l') :
    l'.Delivering ∨ (l'.abandoned = false ∧ l'.Handling .acknowledged) := by
  rcases h.place with ⟨-, hidle⟩ | ⟨hnmis, hcheck | hack⟩
  · simp [Line.receive, hidle] at hs
  · simp only [Line.receive, hcheck, h.state, if_true, Option.some.injEq] at hs
    subst hs
    exact .inl ⟨rfl, h.one, h.returning, .inr ⟨hnmis, .inr rfl⟩, h.kept⟩
  · simp only [Line.receive, hack, Option.some.injEq] at hs
    subst hs
    exact .inr ⟨h.kept, hnmis, .inl ⟨rfl, rfl, h.one, h.returning⟩⟩

theorem Handling.nmi_eq {state : MsgState} (h : l.Handling state) : l.nmi = none := by
  simp [Line.nmi, h.1]

theorem Handling.receive {state : MsgState} (h : l.Handling state) (hs : l.receive = some l') :
    l'.abandoned = l.abandoned ∧ l'.Handling state := by
  obtain ⟨hnmis, ⟨hpc, hstate, hone, hret⟩ | ⟨hpc, hstate, hdone⟩ | ⟨hpc, -, -⟩⟩ := h
  · simp only [Line.receive, hpc, hret, if_true, Option.some.injEq] at hs
    subst hs
    exact ⟨rfl, hnmis, .inr (.inl ⟨rfl, hstate, hone⟩)⟩
  · simp only [Line.receive, hpc, Option.some.injEq] at hs
    subst hs
    exact ⟨rfl, hnmis, .inr (.inr ⟨rfl, rfl, hdone⟩)⟩
  · simp [Line.receive, hpc] at hs

/-- A message once completed stays completed. -/
theorem receive_completed {state : MsgState} (h : l.Handling state) (hstate : state ≠ .completed)
    (hdone : l.msgControlState = .completed) : l.receive = none := by
  obtain ⟨-, ⟨-, heq, -⟩ | ⟨-, heq, -⟩ | ⟨hpc, -⟩⟩ := h
  · exact absurd (heq.symm.trans hdone) hstate
  · exact absurd (heq.symm.trans hdone) hstate
  · simp [Line.receive, hpc]

/-- A line at any time: no ASSERT of the target trips, the messages handled are the first of those sent,
and there is a message that is not yet handled only where the target is about to handle it. -/
structure Sound (l : Line τ) : Prop where
  assert : l.receiver ≠ .assertFailed
  handled : l.handled <+: l.sent
  waiting : l.handled ≠ l.sent → l.Delivering ∨ ∃ state, l.receiver = .handle ∧ l.Handling state

theorem Quiet.sound (h : l.Quiet) : l.Sound :=
  ⟨by simp [h.idle], by rw [h.done], fun hne => absurd h.done.symm hne⟩

theorem Delivering.sound (h : l.Delivering) : l.Sound := by
  refine ⟨?_, by rw [h.one]; exact List.prefix_append _ _, fun _ => .inl h⟩
  rcases h.place with ⟨-, hpc⟩ | ⟨-, hpc | hpc⟩ <;> simp [hpc]

theorem Handling.sound {state : MsgState} (h : l.Handling state) : l.Sound := by
  obtain ⟨-, ⟨hpc, -, hone, -⟩ | ⟨hpc, -, hdone⟩ | ⟨hpc, -, hdone⟩⟩ := id h
  · exact ⟨by simp [hpc], by rw [hone]; exact List.prefix_append _ _, fun _ => .inr ⟨state, hpc, h⟩⟩
  · exact ⟨by simp [hpc], by rw [hdone], fun hne => absurd hdone.symm hne⟩
  · exact ⟨by simp [hpc], by rw [hdone], fun hne => absurd hdone.symm hne⟩

theorem Free.sound (h : l.Free) : l.Sound := by
  rcases h with hquiet | ⟨-, hhandling⟩
  · exact hquiet.sound
  · exact hhandling.sound

/-- How many steps the target is away from handling a message. -/
def toGo (l : Line τ) : Nat :=
  match l.receiver with
  | .idle => 4
  | .check => 3
  | .acknowledge => 2
  | .handle => 1
  | .complete | .stopped | .assertFailed => 0

theorem Sound.progress (h : l.Sound) (hne : l.handled ≠ l.sent) :
    ∃ l', (l.nmi = some l' ∨ l.receive = some l') ∧ l'.toGo < l.toGo := by
  rcases h.waiting hne with hdelivering | ⟨state, hpc, hhandling⟩
  · rcases hdelivering.place with ⟨hone, hpc⟩ | ⟨-, hpc | hpc⟩
    · exact ⟨_, .inl (if_pos ⟨hpc, by omega⟩), by simp [toGo, hpc]⟩
    · simp only [receive, hpc]
      exact ⟨_, .inr rfl, by simp [toGo, hpc, hdelivering.state]⟩
    · simp only [receive, hpc]
      exact ⟨_, .inr rfl, by simp [toGo, hpc]⟩
  · obtain ⟨-, ⟨-, -, -, hret⟩ | ⟨hcomplete, -⟩ | ⟨hidle, -⟩⟩ := hhandling
    · simp only [receive, hpc]
      exact ⟨_, .inr rfl, by simp [toGo, hpc, hret]⟩
    · rw [hpc] at hcomplete
      cases hcomplete
    · rw [hpc] at hidle
      cases hidle

/-- What the target does to a line leaves alone. -/
theorem receive_frame (hs : l.receive = some l') :
    l'.signalLock = l.signalLock ∧ l'.sent = l.sent ∧ l'.abandoned = l.abandoned ∧
      l.handled <+: l'.handled := by
  unfold Line.receive at hs
  split at hs <;> first | cases hs; done | (obtain rfl := Option.some.inj hs; simp)

theorem nmi_frame (hs : l.nmi = some l') :
    l'.signalLock = l.signalLock ∧ l'.sent = l.sent ∧ l'.abandoned = l.abandoned ∧
      l'.handled = l.handled := by
  simp only [Line.nmi, Option.ite_none_right_eq_some, Option.some.injEq] at hs
  obtain ⟨-, rfl⟩ := hs
  exact ⟨rfl, rfl, rfl, rfl⟩

end Line

/-! ### The call that holds the lock -/

/-- A call holds `signal_lock`. -/
def SenderPc.holds : SenderPc → Bool
  | .lock | .leave | .assertFailed => false
  | .check | .store | .announce | .sendNmi | .spin | .reset | .unlock => true

/-- The line as the call that holds its lock knows it. -/
def Call.Knows (c : Call π) (l : Line τ) : Prop :=
  match c.pc with
  | .lock | .leave | .assertFailed => False
  | .check | .store => l.Quiet
  | .announce => l.Quiet ∧ l.msgBeingSent = c.msg
  | .sendNmi => (∃ l₀ : Line τ, l₀.Quiet ∧ l = { l₀ with msgControlState := .msgWaiting }) ∧
      l.msgBeingSent = c.msg
  | .spin => (l.Delivering ∨ (l.abandoned = false ∧ l.Handling .acknowledged)) ∧
      c.ticket + 1 = l.sent.length
  | .reset => (l.abandoned = false ∧ l.Handling .acknowledged) ∧
      (c.mustComplete → l.msgControlState = .completed) ∧ c.ticket + 1 = l.sent.length
  | .unlock => l.Free ∧ (c.mustComplete → l.Quiet) ∧ c.ticket + 1 = l.sent.length

/-- What holds of a call that does not hold the lock. -/
structure Call.Ok (c : Call π) (l : Line τ) : Prop where
  returning : c.msg.returning
  assert : c.pc ≠ .assertFailed
  completed : c.pc = .leave → c.mustComplete → c.ticket < l.handled.length

namespace Call

variable {c c' : Call π} {l l' : Line τ} {t : τ}

/-- A step of the call that holds the lock, and the line after it. -/
theorem Knows.advance (h : c.Knows l) (hok : c.Ok l) (hs : c.advance l t = some (l', c')) :
    c'.Ok l' ∧ c'.procId = c.procId ∧
      ((c'.pc.holds ∧ c'.Knows l' ∧ l'.signalLock = l.signalLock) ∨
        (c'.pc.holds = false ∧ l'.Free ∧ l'.signalLock = none)) := by
  obtain ⟨hret, -, -⟩ := hok
  cases hpc : c.pc <;> simp only [Knows, hpc] at h <;>
    simp only [Call.advance, hpc, Option.some.injEq, Prod.mk.injEq] at hs
  case check =>
    obtain ⟨rfl, rfl⟩ := hs
    rw [if_pos h.state]
    exact ⟨⟨hret, nofun, nofun⟩, rfl, .inl ⟨rfl, h, rfl⟩⟩
  case store =>
    obtain ⟨rfl, rfl⟩ := hs
    exact ⟨⟨hret, nofun, nofun⟩, rfl, .inl ⟨rfl, ⟨⟨h.state, h.idle, h.nmis, h.done, h.kept⟩, rfl⟩, rfl⟩⟩
  case announce =>
    obtain ⟨rfl, rfl⟩ := hs
    exact ⟨⟨hret, nofun, nofun⟩, rfl, .inl ⟨rfl, ⟨⟨l, h.1, rfl⟩, h.2⟩, rfl⟩⟩
  case sendNmi =>
    obtain ⟨rfl, rfl⟩ := hs
    obtain ⟨⟨l₀, hquiet, rfl⟩, hmsg⟩ := h
    refine ⟨⟨hret, nofun, nofun⟩, rfl, .inl ⟨rfl, ⟨.inl ⟨rfl, ?_, ?_, .inl ⟨?_, hquiet.idle⟩, hquiet.kept⟩, ?_⟩,
      rfl⟩⟩
    · simp only at hmsg
      simp only [hquiet.done, hmsg]
    · exact hmsg ▸ hret
    · simp only [hquiet.nmis]
    · simp
  case spin =>
    obtain ⟨rfl, rfl⟩ := hs
    obtain ⟨hline, hticket⟩ := h
    split
    next hexit =>
      simp only [Bool.or_eq_true, Bool.and_eq_true, Bool.not_eq_true', decide_eq_true_eq] at hexit
      refine ⟨⟨hret, nofun, nofun⟩, rfl, .inl ⟨rfl, ⟨?_, fun hmust => ?_, hticket⟩, rfl⟩⟩
      · rcases hline with hdelivering | hhandling
        · simp [hdelivering.state] at hexit
        · exact hhandling
      · rcases hexit with ⟨hnot, -⟩ | hdone
        · exact absurd hmust (by simp [hnot])
        · exact hdone
    next => exact ⟨⟨hret, nofun, nofun⟩, rfl, .inl ⟨rfl, ⟨hline, hticket⟩, rfl⟩⟩
  case reset =>
    obtain ⟨rfl, rfl⟩ := hs
    obtain ⟨⟨hkept, hnmis, hplace⟩, hmust, hticket⟩ := h
    have hquiet : l.msgControlState = .completed → Line.Quiet
        { l with
          msgControlState := .noMsg
          abandoned := l.abandoned || l.msgControlState = .acknowledged } := by
      intro hdone
      rcases hplace with ⟨-, hack, -⟩ | ⟨-, hack, -⟩ | ⟨hidle, -, hsent⟩
      · exact absurd (hack.symm.trans hdone) nofun
      · exact absurd (hack.symm.trans hdone) nofun
      · exact ⟨rfl, hidle, hnmis, hsent, by simp [hkept, hdone]⟩
    refine ⟨⟨hret, nofun, nofun⟩, rfl, .inl ⟨rfl, ⟨?_, fun h => hquiet (hmust h), hticket⟩, rfl⟩⟩
    rcases hplace with ⟨hpc, hack, hone, hret⟩ | ⟨hpc, hack, hsent⟩ | ⟨-, hdone, -⟩
    · exact .inr ⟨by simp [hack], hnmis, .inl ⟨hpc, rfl, hone, hret⟩⟩
    · exact .inr ⟨by simp [hack], hnmis, .inr (.inl ⟨hpc, rfl, hsent⟩)⟩
    · exact .inl (hquiet hdone)
  case unlock =>
    obtain ⟨rfl, rfl⟩ := hs
    obtain ⟨hfree, hmust, hticket⟩ := h
    refine ⟨⟨hret, nofun, fun _ h => ?_⟩, rfl, .inr ⟨rfl, ?_, rfl⟩⟩
    · have hdone := (hmust h).done
      simp only at h ⊢
      rw [← hdone]
      omega
    · rcases hfree with hquiet | hrest
      · exact .inl ⟨hquiet.state, hquiet.idle, hquiet.nmis, hquiet.done, hquiet.kept⟩
      · exact .inr hrest

/-- Only the target handles messages. -/
theorem advance_handled (hs : c.advance l t = some (l', c')) : l'.handled = l.handled := by
  unfold Call.advance at hs
  split at hs
  case h_1 =>
    split at hs
    · cases hs
      rfl
    · cases hs
  case h_9 | h_10 => cases hs
  all_goals
    cases hs
    rfl

theorem Knows.sound (h : c.Knows l) : l.Sound := by
  cases hpc : c.pc <;> simp only [Knows, hpc] at h
  case check | store => exact h.sound
  case announce => exact h.1.sound
  case sendNmi =>
    obtain ⟨⟨l₀, hquiet, rfl⟩, -⟩ := h
    exact ⟨hquiet.sound.assert, hquiet.sound.handled, fun hne => absurd hquiet.done.symm hne⟩
  case spin =>
    rcases h.1 with hdelivering | ⟨-, hhandling⟩
    · exact hdelivering.sound
    · exact hhandling.sound
  case reset => exact h.1.2.sound
  case unlock => exact h.1.sound

theorem Ok.mono (h : c.Ok l) (hle : l.handled <+: l'.handled) : c.Ok l' :=
  ⟨h.returning, h.assert, fun hpc hmust => (h.completed hpc hmust).trans_le hle.length_le⟩

/-- What the target does keeps what the call knows. -/
theorem Knows.receive (h : c.Knows l) (hs : l.receive = some l') : c.Knows l' := by
  obtain ⟨-, hsent, habandoned, -⟩ := Line.receive_frame hs
  cases hpc : c.pc <;> simp only [Knows, hpc] at h ⊢
  case check | store => simp [h.receive_eq] at hs
  case announce => simp [h.1.receive_eq] at hs
  case sendNmi =>
    obtain ⟨⟨l₀, hquiet, rfl⟩, -⟩ := h
    simp [Line.receive, hquiet.idle] at hs
  case spin =>
    refine ⟨?_, hsent ▸ h.2⟩
    rcases h.1 with hdelivering | ⟨hkept, hhandling⟩
    · exact hdelivering.receive hs
    · exact .inr ⟨habandoned.trans hkept, (hhandling.receive hs).2⟩
  case reset =>
    obtain ⟨⟨hkept, hhandling⟩, hmust, hticket⟩ := h
    refine ⟨⟨habandoned.trans hkept, (hhandling.receive hs).2⟩, fun hm => ?_, hsent ▸ hticket⟩
    rw [Line.receive_completed hhandling nofun (hmust hm)] at hs
    cases hs
  case unlock =>
    obtain ⟨hfree, hmust, hticket⟩ := h
    refine ⟨?_, fun hm => ?_, hsent ▸ hticket⟩
    · rcases hfree with hquiet | ⟨hab, hhandling⟩
      · simp [hquiet.receive_eq] at hs
      · exact .inr ⟨habandoned.trans hab, (hhandling.receive hs).2⟩
    · simp [(hmust hm).receive_eq] at hs

theorem Knows.nmi (h : c.Knows l) (hs : l.nmi = some l') : c.Knows l' := by
  obtain ⟨-, hsent, habandoned, -⟩ := Line.nmi_frame hs
  cases hpc : c.pc <;> simp only [Knows, hpc] at h ⊢
  case check | store => simp [h.nmi_eq] at hs
  case announce => simp [h.1.nmi_eq] at hs
  case sendNmi =>
    obtain ⟨⟨l₀, hquiet, rfl⟩, -⟩ := h
    simp [Line.nmi, hquiet.nmis] at hs
  case spin =>
    refine ⟨?_, hsent ▸ h.2⟩
    rcases h.1 with hdelivering | ⟨-, hhandling⟩
    · exact .inl (hdelivering.nmi hs)
    · simp [hhandling.nmi_eq] at hs
  case reset => simp [h.1.2.nmi_eq] at hs
  case unlock =>
    rcases h.1 with hquiet | ⟨-, hhandling⟩
    · simp [hquiet.nmi_eq] at hs
    · simp [hhandling.nmi_eq] at hs

end Call

/-! ### The system -/

namespace IpiState

/-- What holds between the steps. -/
structure Inv (s : IpiState π τ) : Prop where
  lock : ∀ p t, (s.line p).signalLock = some t ↔ ∃ c, s.call t = some c ∧ c.procId = p ∧ c.pc.holds
  free : ∀ p, (s.line p).signalLock = none → (s.line p).Free
  knows : ∀ t c, s.call t = some c → c.pc.holds → c.Knows (s.line c.procId)
  calls : ∀ t c, s.call t = some c → c.Ok (s.line c.procId)

theorem Inv.init : Inv (init : IpiState π τ) where
  lock _ _ := ⟨nofun, nofun⟩
  free _ _ := .inl ⟨rfl, rfl, rfl, rfl, rfl⟩
  knows _ _ h := nomatch h
  calls _ _ h := nomatch h

variable [DecidableEq π] [DecidableEq τ] {s s' : IpiState π τ} {t : τ} {p : π} {c c' : Call π}
  {l' : Line τ}

/-- A step of a call that takes, keeps or gives back the lock of a line no other call holds. -/
theorem Inv.advance (h : Inv s) (hc : s.call t = some c) (hproc : c'.procId = c.procId)
    (hown : ∀ u, (s.line c.procId).signalLock = some u → u = t)
    (hhandled : l'.handled = (s.line c.procId).handled) (hok : c'.Ok l')
    (hnew : (c'.pc.holds ∧ c'.Knows l' ∧ l'.signalLock = some t) ∨
      (c'.pc.holds = false ∧ l'.Free ∧ l'.signalLock = none)) :
    Inv { line := Function.update s.line c.procId l', call := Function.update s.call t (some c') } where
  lock p u := by
    by_cases hu : u = t
    · subst hu
      simp only [Function.update_self, Option.some.injEq, exists_eq_left']
      by_cases hp : p = c.procId
      · subst hp
        simp only [Function.update_self, hproc, true_and]
        rcases hnew with ⟨hholds, -, hlock⟩ | ⟨hholds, -, hlock⟩ <;> simp [hholds, hlock]
      · have hne : c'.procId ≠ p := fun heq => hp (heq.symm.trans hproc)
        simp only [Function.update_of_ne hp, hne, false_and, iff_false]
        rw [h.lock]
        rintro ⟨c₁, hc₁, rfl, -⟩
        rw [hc] at hc₁
        exact hp (congrArg Call.procId (Option.some.inj hc₁)).symm
    · simp only [Function.update_of_ne hu]
      by_cases hp : p = c.procId
      · subst hp
        simp only [Function.update_self]
        rw [← h.lock]
        constructor
        · intro hlock
          rcases hnew with ⟨-, -, heq⟩ | ⟨-, -, heq⟩ <;> rw [heq] at hlock
          · exact absurd (Option.some.inj hlock).symm hu
          · cases hlock
        · exact fun hlock => absurd (hown u hlock) hu
      · rw [Function.update_of_ne hp]
        exact h.lock p u
  free p hnone := by
    by_cases hp : p = c.procId
    · subst hp
      simp only [Function.update_self] at hnone ⊢
      rcases hnew with ⟨-, -, heq⟩ | ⟨-, hfree, -⟩
      · rw [heq] at hnone
        cases hnone
      · exact hfree
    · simp only [Function.update_of_ne hp] at hnone ⊢
      exact h.free p hnone
  knows u c₁ hcall hholds := by
    by_cases hu : u = t
    · subst hu
      simp only [Function.update_self, Option.some.injEq] at hcall
      subst hcall
      simp only [hproc, Function.update_self]
      rcases hnew with ⟨-, hknows, -⟩ | ⟨hnot, -, -⟩
      · exact hknows
      · rw [hnot] at hholds
        cases hholds
    · simp only [Function.update_of_ne hu] at hcall
      have hne : c₁.procId ≠ c.procId := fun heq =>
        hu (hown u ((h.lock _ u).mpr ⟨c₁, hcall, heq, hholds⟩))
      simp only [Function.update_of_ne hne]
      exact h.knows u c₁ hcall hholds
  calls u c₁ hcall := by
    by_cases hu : u = t
    · subst hu
      simp only [Function.update_self, Option.some.injEq] at hcall
      subst hcall
      simp only [hproc, Function.update_self]
      exact hok
    · simp only [Function.update_of_ne hu] at hcall
      have hold := h.calls u c₁ hcall
      by_cases hp : c₁.procId = c.procId
      · rw [hp] at hold
        simp only [hp, Function.update_self]
        exact hold.mono (by rw [hhandled])
      · simp only [Function.update_of_ne hp]
        exact hold

omit [DecidableEq τ] in
/-- A step of the target on its line. -/
theorem Inv.target (h : Inv s) (hlock : l'.signalLock = (s.line p).signalLock)
    (hhandled : (s.line p).handled <+: l'.handled)
    (hfree : (s.line p).signalLock = none → (s.line p).Free → l'.Free)
    (hknows : ∀ c : Call π, c.Knows (s.line p) → c.Knows l') : Inv (s.setLine p l') where
  lock q t := by
    have hold := h.lock q t
    by_cases hq : q = p
    · subst hq
      simpa only [setLine, Function.update_self, hlock] using hold
    · simpa only [setLine, Function.update_of_ne hq] using hold
  free q hnone := by
    by_cases hq : q = p
    · subst hq
      simp only [setLine, Function.update_self, hlock] at hnone ⊢
      exact hfree hnone (h.free q hnone)
    · simp only [setLine, Function.update_of_ne hq] at hnone ⊢
      exact h.free q hnone
  knows t c hcall hholds := by
    have hold := h.knows t c hcall hholds
    by_cases hq : c.procId = p
    · simp only [setLine, hq, Function.update_self] at hold ⊢
      exact hknows c hold
    · simp only [setLine, Function.update_of_ne hq]
      exact hold
  calls t c hcall := by
    have hold := h.calls t c hcall
    by_cases hq : c.procId = p
    · simp only [setLine, hq, Function.update_self] at hold ⊢
      exact hold.mono hhandled
    · simp only [setLine, Function.update_of_ne hq]
      exact hold

theorem Inv.receive (h : Inv s) (hs : s.step (.receive p) = some s') : Inv s' := by
  obtain ⟨l', hl, rfl⟩ := Option.map_eq_some_iff.mp hs
  obtain ⟨hlock, -, habandoned, hhandled⟩ := Line.receive_frame hl
  refine h.target hlock hhandled (fun _ hfree => ?_) fun c hknows => hknows.receive hl
  rcases hfree with hquiet | ⟨hab, hhandling⟩
  · simp [hquiet.receive_eq] at hl
  · exact .inr ⟨habandoned.trans hab, (hhandling.receive hl).2⟩

theorem Inv.nmi (h : Inv s) (hs : s.step (.nmi p) = some s') : Inv s' := by
  obtain ⟨l', hl, rfl⟩ := Option.map_eq_some_iff.mp hs
  obtain ⟨hlock, -, -, hhandled⟩ := Line.nmi_frame hl
  refine h.target hlock (by rw [hhandled]) (fun _ hfree => ?_) fun c hknows => hknows.nmi hl
  rcases hfree with hquiet | ⟨-, hhandling⟩
  · simp [hquiet.nmi_eq] at hl
  · simp [hhandling.nmi_eq] at hl

/-- A sender takes the lock of a line that has not been abandoned. -/
theorem Inv.takeLock (h : Inv s) (hc : s.call t = some c) (hnone : (s.line c.procId).signalLock = none)
    (hkept : (s.line c.procId).abandoned = false) :
    Inv { line := Function.update s.line c.procId { s.line c.procId with signalLock := some t }
          call := Function.update s.call t (some { c with pc := .check }) } := by
  have hquiet : (s.line c.procId).Quiet := by
    rcases h.free _ hnone with hquiet | ⟨hab, -⟩
    · exact hquiet
    · rw [hkept] at hab
      cases hab
  refine h.advance hc rfl (fun u hu => ?_) rfl ⟨(h.calls t c hc).returning, nofun, nofun⟩
    (.inl ⟨rfl, ?_, rfl⟩)
  · rw [hnone] at hu
    cases hu
  · exact ⟨hquiet.state, hquiet.idle, hquiet.nmis, hquiet.done, hquiet.kept⟩

theorem Inv.next (h : Inv s) (hok : s.NotAbandoned (.next t)) (hs : s.step (.next t) = some s') :
    Inv s' := by
  simp only [step, Option.bind_eq_some_iff, Option.map_eq_some_iff] at hs
  obtain ⟨c, hc, ⟨l', c'⟩, hadv, rfl⟩ := hs
  by_cases hholds : c.pc.holds
  · have hlock := (h.lock c.procId t).mpr ⟨c, hc, rfl, hholds⟩
    obtain ⟨hok', hproc, hnew⟩ := (h.knows t c hc hholds).advance (h.calls t c hc) hadv
    rw [hlock] at hnew
    refine h.advance hc hproc (fun u hu => ?_) (Call.advance_handled hadv) hok' hnew
    rw [hlock] at hu
    exact (Option.some.inj hu).symm
  · cases hpc : c.pc <;> simp only [Call.advance, hpc, SenderPc.holds, not_true_eq_false] at hadv hholds
    case lock =>
      split at hadv
      next hnone =>
        obtain ⟨rfl, rfl⟩ := Prod.mk.inj (Option.some.inj hadv)
        exact h.takeLock hc hnone (hok c hc hpc)
      next => cases hadv
    all_goals cases hadv

omit [DecidableEq π] in
/-- A thread that is not using a line makes a call. -/
theorem Inv.newCall (h : Inv s) (hold : ∀ c₀ ∈ s.call t, c₀.pc.holds = false) (hpc : c.pc = .lock)
    (hret : c.msg.returning) : Inv { s with call := Function.update s.call t (some c) } where
  lock p u := by
    rw [h.lock p u]
    by_cases hu : u = t
    · subst hu
      have hnot : c.pc.holds = false := by
        rw [hpc]
        rfl
      simp only [Function.update_self, Option.some.injEq, exists_eq_left', hnot]
      constructor
      · rintro ⟨c₀, hc₀, -, hholds⟩
        rw [hold c₀ hc₀] at hholds
        cases hholds
      · rintro ⟨-, hfalse⟩
        cases hfalse
    · simp only [Function.update_of_ne hu]
  free := h.free
  knows u c₁ hcall hholds := by
    by_cases hu : u = t
    · subst hu
      simp only [Function.update_self, Option.some.injEq] at hcall
      subst hcall
      rw [hpc] at hholds
      cases hholds
    · simp only [Function.update_of_ne hu] at hcall
      exact h.knows u c₁ hcall hholds
  calls u c₁ hcall := by
    by_cases hu : u = t
    · subst hu
      simp only [Function.update_self, Option.some.injEq] at hcall
      subst hcall
      exact ⟨hret, by simp [hpc], by simp [hpc]⟩
    · simp only [Function.update_of_ne hu] at hcall
      exact h.calls u c₁ hcall

/-- Every step keeps it. -/
theorem Inv.step {i : IpiAct π τ} (h : Inv s) (hok : s.NotAbandoned i) (hs : s.step i = some s') :
    Inv s' := by
  cases i with
  | signalProc t procId msg mustComplete =>
      simp only [IpiState.step] at hs
      split at hs
      next hnone =>
        obtain rfl := Option.some.inj hs
        exact h.newCall (by simp [hnone]) rfl hok
      next c hc =>
        simp only [Option.ite_none_right_eq_some, Option.some.injEq] at hs
        obtain ⟨hleave, rfl⟩ := hs
        refine h.newCall (fun c₀ hc₀ => ?_) rfl hok
        rw [hc, Option.mem_some_iff] at hc₀
        rw [← hc₀, hleave]
        rfl
  | next t => exact h.next hok hs
  | nmi p => exact h.nmi hs
  | receive p => exact h.receive hs

omit [DecidableEq π] [DecidableEq τ] in
theorem Inv.sound (h : Inv s) (p : π) : (s.line p).Sound := by
  cases hlock : (s.line p).signalLock with
  | none => exact (h.free p hlock).sound
  | some t =>
      obtain ⟨c, hc, rfl, hholds⟩ := (h.lock p t).mp hlock
      exact (h.knows t c hc hholds).sound

omit [DecidableEq π] [DecidableEq τ] in
theorem Inv.ok (h : Inv s) : s.Ok where
  sender t c hc := (h.calls t c hc).assert
  receiver p := (h.sound p).assert
  handled p := (h.sound p).handled
  completed t c hc := (h.calls t c hc).completed

/-- The target of a message handles it without any help. -/
theorem Inv.all_handled (h : Inv s) (p : π) :
    ∃ s', Reach IpiState.step (fun _ i => i = .nmi p ∨ i = .receive p) s s' ∧
      (s'.line p).handled = (s.line p).sent := by
  have hdone : ∃ s', Reach IpiState.step (fun _ i => i = .nmi p ∨ i = .receive p) s s' ∧
      (Inv s' ∧ (s'.line p).sent = (s.line p).sent) ∧ (s'.line p).handled = (s'.line p).sent := by
    refine Reach.of_measure (fun s' => (s'.line p).toGo) ?_ ⟨h, rfl⟩
    rintro s₁ ⟨h₁, hsent⟩ hne
    obtain ⟨l', hl, hless⟩ := (h₁.sound p).progress hne
    have hline : (s₁.setLine p l').line p = l' := Function.update_self ..
    rcases hl with hl | hl
    · have hs : s₁.step (.nmi p) = some (s₁.setLine p l') := by simp [IpiState.step, hl]
      refine ⟨.nmi p, _, .inl rfl, hs, ⟨h₁.nmi hs, ?_⟩, by rw [hline]; exact hless⟩
      rw [hline, (Line.nmi_frame hl).2.1, hsent]
    · have hs : s₁.step (.receive p) = some (s₁.setLine p l') := by simp [IpiState.step, hl]
      refine ⟨.receive p, _, .inr rfl, hs, ⟨h₁.receive hs, ?_⟩, by rw [hline]; exact hless⟩
      rw [hline, (Line.receive_frame hl).2.1, hsent]
  obtain ⟨s', hreach, ⟨-, hsent⟩, hhandled⟩ := hdone
  exact ⟨s', hreach, hhandled.trans hsent⟩

end IpiState

/-- In a run in which no processor is signalled again after a message to it was abandoned, the messages
are handled as they were sent, each once, no ASSERT trips, and `must_complete` is kept. -/
theorem ipiSignals_ok [DecidableEq π] [DecidableEq τ] {s : IpiState π τ}
    (h : Reach IpiState.step IpiState.NotAbandoned .init s) :
    s.Ok ∧ ∀ p, ∃ s', Reach IpiState.step (fun _ i => i = .nmi p ∨ i = .receive p) s s' ∧
      (s'.line p).handled = (s.line p).sent := by
  have hinv : s.Inv := h.invariant .init fun _ _ _ h hok hs => h.step hok hs
  exact ⟨hinv.ok, hinv.all_handled⟩

instance [DecidableEq π] [DecidableEq τ] (s : IpiState π τ) :
    ∀ i, Decidable (s.NotAbandoned i)
  | .signalProc _ _ msg _ => inferInstanceAs (Decidable (msg.returning = true))
  | .next t =>
      match hc : s.call t with
      | none => .isTrue fun c h => by simp [hc] at h
      | some c => decidable_of_iff (c.pc = .lock → (s.line c.procId).abandoned = false)
          (by simp [IpiState.NotAbandoned, hc])
  | .nmi _ | .receive _ => .isTrue trivial

instance (s : IpiState π τ) : ∀ i, Decidable (s.ReturningOnly i)
  | .signalProc _ _ msg _ => inferInstanceAs (Decidable (msg.returning = true))
  | .next _ | .nmi _ | .receive _ => .isTrue trivial

/-- A call from its start to its wait for the target. -/
def sendTo (t : Bool) (mustComplete : Bool) : List (IpiAct Unit Bool) :=
  .signalProc t () .tlbShootdown mustComplete :: List.replicate 5 (.next t)

/-- Two messages one after the other, each seen through. -/
theorem ipiSignals_ok_twice : ∃ s : IpiState Unit Bool, (s.line ()).handled.length = 2 ∧ s.Ok := by
  obtain ⟨s, hreach, htwo⟩ := Reach.exists_of_run
    (by decide +kernel : ∃ s ∈ run IpiState.step IpiState.NotAbandoned (.init : IpiState Unit Bool)
      (sendTo false true ++ .nmi () :: List.replicate 4 (.receive ()) ++ List.replicate 3 (.next false) ++
        (sendTo true true ++ .nmi () :: List.replicate 4 (.receive ()))),
      (s.line ()).handled.length = 2)
  exact ⟨s, htwo, (ipiSignals_ok hreach).1⟩

/-- The first call returns on `ACKNOWLEDGED`; the target then writes `COMPLETED`, and the ASSERT of the
second trips. -/
theorem ipiSignals_early_return :
    ¬ ∀ s : IpiState Unit Bool, Reach IpiState.step IpiState.ReturningOnly .init s → s.Ok := by
  intro h
  obtain ⟨s, hreach, hassert⟩ := Reach.exists_of_run
    (by decide +kernel : ∃ s ∈ run IpiState.step IpiState.ReturningOnly (.init : IpiState Unit Bool)
      (sendTo false false ++ [.nmi (), .receive (), .receive ()] ++ List.replicate 3 (.next false) ++
        [.receive (), .receive ()] ++ [.signalProc true () .tlbShootdown false, .next true, .next true]),
      (s.call true).map Call.pc = some .assertFailed)
  obtain ⟨c, hc, hpc⟩ := Option.map_eq_some_iff.mp hassert
  exact (h s hreach).sender true c hc hpc

end Azalea.Proc.Ipi
