import Azalea.Proc.Completion

/-!
# Proc — runs of messages that are completed

What holds of every message and every sender between the steps of `Completion`.

* `completion_ok`: the semaphore is signalled once, after the handler has run, and the sender copies what
  was put into the buffer, as long as a handler signals the semaphore itself exactly if
  `auto_signal_semaphore` was clear when the message was taken, a sender has no deadline left when it
  waits, and a semaphore that the sender has brought has a user or a waiting thread when it is signalled.
  The source looks at the flag before it calls the handler: one that clears it, as the flag is meant for,
  has the semaphore signalled twice (`completion_signalled_twice`).  A semaphore that nobody has, brought
  for a message without a buffer, trips an ASSERT of `klib_synch_semaphore_clear`
  (`completion_assertFailed`).
-/

namespace Azalea.Proc.Completion
open Azalea.Runs Azalea.Proc.Work

variable {σ ω ρ μ κ β : Type*} [DecidableEq σ] [DecidableEq ω] [DecidableEq ρ] [DecidableEq μ] [DecidableEq κ]

/-- A message that `process_next_message` has come to a place with. -/
def Message.Ok (x : Message σ κ β) : Phase → Prop
  | .fresh => x.entered = false ∧ x.returned = false ∧ x.takenOver = false ∧ x.selfSignalled = false ∧
      x.signals = 0
  | .ready saved => x.entered = false ∧ x.returned = false ∧ x.takenOver = false ∧
      x.selfSignalled = false ∧ x.signals = 0 ∧ saved = (x.autoSignalSemaphore && x.completionSemaphore.isSome)
  | .inside saved => x.entered = true ∧ x.returned = false ∧ x.selfSignalled = false ∧ x.signals = 0 ∧
      (saved = true → x.completionSemaphore.isSome = true ∧ x.takenOver = false) ∧
      (x.takenOver = true → x.completionSemaphore.isSome = true)
  | .after saved => x.entered = true ∧ x.returned = true ∧
      (saved = true → x.completionSemaphore.isSome = true ∧ x.takenOver = false ∧ x.selfSignalled = false ∧
        x.signals = 0) ∧
      (saved = false → x.takenOver = x.completionSemaphore.isSome ∧ x.signals = x.selfSignalled.toNat ∧
        (x.selfSignalled = true → x.takenOver = true))
  | .ended => x.entered = true ∧ x.returned = true ∧
      (x.takenOver = true → x.completionSemaphore.isSome = true ∧ x.signals = x.selfSignalled.toNat) ∧
      (x.takenOver = false → x.selfSignalled = false ∧ x.signals = x.completionSemaphore.isSome.toNat)

omit [DecidableEq σ] [DecidableEq κ] in
theorem Message.Ok.once {x : Message σ κ β} {p : Phase} (h : x.Ok p) :
    x.signals ≤ 1 ∧ (0 < x.signals → x.entered ∧ x.returned) := by
  have hbool : ∀ b : Bool, b.toNat ≤ 1 := Bool.toNat_le
  cases p with
  | fresh | ready saved | inside saved =>
      have hzero : x.signals = 0 := by simp only [Message.Ok] at h; omega
      exact ⟨by omega, by omega⟩
  | after saved =>
      obtain ⟨hentered, hreturned, hsaved, hunsaved⟩ := h
      refine ⟨?_, fun _ => ⟨hentered, hreturned⟩⟩
      cases saved with
      | true => rw [(hsaved rfl).2.2.2]; omega
      | false => rw [(hunsaved rfl).2.1]; exact hbool _
  | ended =>
      obtain ⟨hentered, hreturned, hover, hnot⟩ := h
      refine ⟨?_, fun _ => ⟨hentered, hreturned⟩⟩
      cases htaken : x.takenOver with
      | true => rw [(hover htaken).2]; exact hbool _
      | false => rw [(hnot htaken).2]; exact hbool _

omit [DecidableEq σ] [DecidableEq κ] in
/-- A message that has been dealt with is signalled, or its receiver has taken it over. -/
theorem Message.Ok.signalled {x : Message σ κ β} (h : x.Ok .ended) (hsem : x.completionSemaphore.isSome = true) :
    x.signals = 1 ∨ x.takenOver = true ∧ x.selfSignalled = false := by
  obtain ⟨-, -, hover, hnot⟩ := h
  cases htaken : x.takenOver with
  | true =>
      cases hself : x.selfSignalled with
      | true => exact .inl (by rw [(hover htaken).2, hself]; rfl)
      | false => exact .inr ⟨rfl, rfl⟩
  | false => exact .inl (by rw [(hnot htaken).2, hsem]; rfl)

/-- The message that a call of `syscall_send_message` is about. -/
def CallerPc.refers : CallerPc μ β → Option μ
  | .idle => none
  | .queueing m _ | .wait m | .blocked m | .copy m | .finished m _ => some m

/-- The message whose semaphore a call of `syscall_send_message` has made. -/
def CallerPc.needs : CallerPc μ β → Option μ
  | .idle | .queueing _ false => none
  | .queueing m true | .wait m | .blocked m | .copy m | .finished m _ => some m

omit [DecidableEq μ] in
theorem CallerPc.refers_of_needs {pc : CallerPc μ β} {m : μ} (h : pc.needs = some m) : pc.refers = some m := by
  cases pc with
  | queueing m' hasBuffer =>
      cases hasBuffer with
      | true => exact h
      | false => cases h
  | idle => cases h
  | wait | blocked | copy | finished => exact h

namespace CompletionState

/-- The place that `process_next_message` has come to with a message. -/
def phase (s : CompletionState σ ω ρ μ κ β) (m : μ) : Phase :=
  match s.stage m with
  | .inHand w => s.part w
  | .done => .ended
  | .unsent | .sending _ | .queued _ => .fresh

/-- The semaphore of the message that a sender waits for, and what it has copied. -/
def CallerOk (s : CompletionState σ ω ρ μ κ β) (a : σ) : Prop :=
  match s.caller a with
  | .idle | .queueing _ false => True
  | .queueing m true | .wait m =>
      (s.message m).users + (s.message m).signals = 1 ∧ (s.message m).waiter = none
  | .blocked m => (s.message m).waiter = some a ∧ (s.message m).signals = 0 ∧ s.wakeThreadAfter a = 0
  | .copy m => (s.message m).signals = 1 ∧ (s.message m).waiter = none
  | .finished m copied => (s.message m).signals = 1 ∧ (s.message m).waiter = none ∧
      copied = (s.message m).outputBuffer

/-- What holds between the steps. -/
structure Inv (s : CompletionState σ ω ρ μ κ β) : Prop where
  work : Work.Inv s.work
  located : Located s.work s.stage
  message : ∀ m, (s.message m).Ok (s.phase m)
  caller : ∀ a, s.CallerOk a
  waiter : ∀ m a, (s.message m).waiter = some a → s.caller a = .blocked m
  refers : ∀ a m, (s.caller a).refers = some m → s.stage m ≠ .unsent
  unique : ∀ a b m, (s.caller a).refers = some m → (s.caller b).refers = some m → a = b
  /-- The semaphore that a sender waits for is its message's own, with one user up to the signal. -/
  own : ∀ a m, (s.caller a).needs = some m → (s.message m).completionSemaphore = some .new
  users : ∀ m, (s.message m).completionSemaphore = some .new → (s.message m).signals = 0 →
    (s.message m).users = 1
  semaphore : ∀ k, (s.semaphore k).Full
  running : s.assertFailed = false

variable {s s' : CompletionState σ ω ρ μ κ β} {a : σ} {w : ω} {r : ρ} {m : μ}

section
omit [DecidableEq σ] [DecidableEq ω] [DecidableEq ρ] [DecidableEq μ] [DecidableEq κ]

theorem Inv.start {empty : β} {users : κ → Nat × Nat} :
    Inv (start empty users : CompletionState σ ω ρ μ κ β) where
  work := .start
  located := .start
  message _ := ⟨rfl, rfl, rfl, rfl, rfl⟩
  caller _ := trivial
  waiter _ _ h := nomatch h
  refers _ _ h := nomatch h
  unique _ _ _ h := nomatch h
  own _ _ h := nomatch h
  users _ h := nomatch h
  semaphore _ h := absurd rfl h
  running := rfl

/-- A step of the work queue that leaves each message at its place in `process_next_message`. -/
theorem Inv.moved {work : WorkState σ ω ρ μ} {stage : μ → Stage σ ω ρ} {part : ω → Phase} (h : Inv s)
    (hwork : Work.Inv work) (hlocated : Located work stage)
    (hphase : ∀ m, phase { s with work, stage, part } m = s.phase m)
    (hstage : ∀ m, s.stage m ≠ .unsent → stage m ≠ .unsent) : Inv { s with work, stage, part } where
  work := hwork
  located := hlocated
  message m := by rw [hphase]; exact h.message m
  caller := h.caller
  waiter := h.waiter
  refers a m ha := hstage m (h.refers a m ha)
  unique := h.unique
  own := h.own
  users := h.users
  semaphore := h.semaphore
  running := h.running

/-- Only one message is in the hand of a worker. -/
theorem Inv.inHand_iff (h : Inv s) : s.inHand w = some m ↔ s.stage m = .inHand w := by
  rw [h.located.inHand, inHand]
  cases s.work.worker w <;> simp [workerMessage]

end

omit [DecidableEq σ] [DecidableEq ω] [DecidableEq ρ] [DecidableEq κ] in
/-- A message changes that is not signalled by it. -/
theorem Inv.setMessage {f : Message σ κ β → Message σ κ β} {part : ω → Phase} (h : Inv s)
    (hphase : ∀ m' ≠ m, phase { s with part } m' = s.phase m')
    (hok : (f (s.message m)).Ok (phase { s with part } m))
    (hsem : (f (s.message m)).completionSemaphore = (s.message m).completionSemaphore)
    (hsignals : (f (s.message m)).signals = (s.message m).signals)
    (husers : (f (s.message m)).users = (s.message m).users)
    (hwaiter : (f (s.message m)).waiter = (s.message m).waiter)
    (hbuffer : (f (s.message m)).outputBuffer = (s.message m).outputBuffer ∨ (s.message m).signals = 0) :
    Inv ({ s with part }.setMessage m f) where
  work := h.work
  located := h.located
  message m' := by
    have hsame : phase ({ s with part }.setMessage m f) m' = phase { s with part } m' := rfl
    rw [hsame]
    by_cases heq : m' = m
    · subst heq
      simpa only [CompletionState.setMessage, Function.update_self] using hok
    · have hold := h.message m'
      rw [← hphase m' heq] at hold
      simpa only [CompletionState.setMessage, Function.update_of_ne heq] using hold
  caller a := by
    have hold := h.caller a
    unfold CallerOk at hold ⊢
    simp only [CompletionState.setMessage]
    cases hpc : s.caller a <;> simp only [hpc] at hold ⊢
    case queueing m' hasBuffer =>
      cases hasBuffer
      · trivial
      · by_cases heq : m' = m
        · subst heq
          simpa only [Function.update_self, husers, hsignals, hwaiter] using hold
        · simpa only [Function.update_of_ne heq] using hold
    case finished m' copied =>
      by_cases heq : m' = m
      · subst heq
        simp only [Function.update_self, hsignals, hwaiter]
        rcases hbuffer with hsame | hzero
        · rw [hsame]
          exact hold
        · omega
      · simpa only [Function.update_of_ne heq] using hold
    all_goals
      next m' =>
        by_cases heq : m' = m
        · subst heq
          simpa only [Function.update_self, husers, hsignals, hwaiter] using hold
        · simpa only [Function.update_of_ne heq] using hold
  waiter m' a hw := by
    by_cases heq : m' = m
    · subst heq
      simp only [CompletionState.setMessage, Function.update_self, hwaiter] at hw
      exact h.waiter m' a hw
    · simp only [CompletionState.setMessage, Function.update_of_ne heq] at hw
      exact h.waiter m' a hw
  refers := h.refers
  unique := h.unique
  own a m' ha := by
    by_cases heq : m' = m
    · subst heq
      simpa only [CompletionState.setMessage, Function.update_self, hsem] using h.own a m' ha
    · simpa only [CompletionState.setMessage, Function.update_of_ne heq] using h.own a m' ha
  users m' := by
    by_cases heq : m' = m
    · subst heq
      simpa only [CompletionState.setMessage, Function.update_self, hsem, hsignals, husers] using h.users m'
    · simpa only [CompletionState.setMessage, Function.update_of_ne heq] using h.users m'
  semaphore := h.semaphore
  running := h.running

omit [DecidableEq σ] [DecidableEq ω] [DecidableEq ρ] [DecidableEq μ] [DecidableEq κ] in
/-- What a sender knows does not change with messages it is not about. -/
theorem CallerOk.congr (h : s.CallerOk a) (hcaller : s'.caller a = s.caller a)
    (hwake : s'.wakeThreadAfter a = s.wakeThreadAfter a)
    (hmessage : ∀ m, (s.caller a).refers = some m → s'.message m = s.message m) : s'.CallerOk a := by
  unfold CallerOk at h ⊢
  rw [hcaller]
  cases hpc : s.caller a with
  | idle => trivial
  | queueing m hasBuffer =>
      cases hasBuffer
      · trivial
      · simp only [hpc] at h ⊢
        rwa [hmessage m (by rw [hpc]; rfl)]
  | blocked m =>
      simp only [hpc] at h ⊢
      rwa [hmessage m (by rw [hpc]; rfl), hwake]
  | wait m | copy m | finished m _ =>
      simp only [hpc] at h ⊢
      rwa [hmessage m (by rw [hpc]; rfl)]

omit [DecidableEq σ] [DecidableEq ω] [DecidableEq ρ] [DecidableEq κ] in
/-- A message that is signalled keeps its semaphore, of which its sender has had the first user. -/
theorem Inv.signal_own {x : Message σ κ β} (h : Inv s) (hone : x.signals = 1)
    (hsem : x.completionSemaphore = (s.message m).completionSemaphore) :
    (∀ a m', (s.caller a).needs = some m' →
      (Function.update s.message m x m').completionSemaphore = some .new) ∧
    ∀ m', (Function.update s.message m x m').completionSemaphore = some .new →
      (Function.update s.message m x m').signals = 0 → (Function.update s.message m x m').users = 1 := by
  constructor
  · intro a m' ha
    by_cases heq : m' = m
    · subst heq
      rw [Function.update_self, hsem]
      exact h.own a m' ha
    · rw [Function.update_of_ne heq]
      exact h.own a m' ha
  · intro m' hnew hzero
    by_cases heq : m' = m
    · subst heq
      rw [Function.update_self, hone] at hzero
      omega
    · rw [Function.update_of_ne heq] at hnew hzero ⊢
      exact h.users m' hnew hzero

omit [DecidableEq σ] [DecidableEq ω] [DecidableEq ρ] [DecidableEq κ] in
/-- A message is signalled that nobody waits for yet. -/
theorem Inv.signal_none {part : ω → Phase} {x : Message σ κ β} (h : Inv s)
    (hphase : ∀ m' ≠ m, phase { s with part } m' = s.phase m') (hzero : (s.message m).signals = 0)
    (hnone : (s.message m).waiter = none) (hone : x.signals = 1) (hwaiter : x.waiter = none)
    (husers : x.users = (s.message m).users - 1)
    (hsem : x.completionSemaphore = (s.message m).completionSemaphore)
    (hok : x.Ok (phase { s with part } m)) :
    Inv { s with part, message := Function.update s.message m x } where
  work := h.work
  located := h.located
  message m' := by
    have hsame : phase { s with part, message := Function.update s.message m x } m' =
      phase { s with part } m' := rfl
    rw [hsame]
    by_cases heq : m' = m
    · subst heq
      simpa only [Function.update_self] using hok
    · rw [hphase m' heq]
      simpa only [Function.update_of_ne heq] using h.message m'
  caller a := by
    have hold := h.caller a
    by_cases hrefers : (s.caller a).refers = some m
    · unfold CallerOk at hold ⊢
      cases hpc : s.caller a <;> simp only [hpc, CallerPc.refers, Option.some.injEq, reduceCtorEq] at hold hrefers
      case queueing m' hasBuffer =>
        subst hrefers
        cases hasBuffer
        · trivial
        · simp only [Function.update_self, hone, hwaiter, husers, and_true]
          omega
      case wait m' =>
        subst hrefers
        simp only [Function.update_self, hone, hwaiter, husers, and_true]
        omega
      case blocked m' =>
        subst hrefers
        rw [hnone] at hold
        cases hold.1
      all_goals
        subst hrefers
        omega
    · refine hold.congr rfl rfl fun m' hm' => Function.update_of_ne ?_ _ _
      rintro rfl
      exact hrefers hm'
  waiter m' a hw := by
    by_cases heq : m' = m
    · subst heq
      simp only [Function.update_self, hwaiter] at hw
      cases hw
    · simp only [Function.update_of_ne heq] at hw
      exact h.waiter m' a hw
  refers := h.refers
  unique := h.unique
  own := (h.signal_own hone hsem).1
  users := (h.signal_own hone hsem).2
  semaphore := h.semaphore
  running := h.running

omit [DecidableEq σ] [DecidableEq ω] [DecidableEq ρ] in
/-- A message is signalled whose semaphore the sender has brought. -/
theorem Inv.signal_handled {part : ω → Phase} {x : Message σ κ β} {k : κ} {y : Semaphore} (h : Inv s)
    (hphase : ∀ m' ≠ m, phase { s with part } m' = s.phase m')
    (hhandled : (s.message m).completionSemaphore = some (.handled k)) (hy : (s.semaphore k).clear = some y)
    (hone : x.signals = 1) (hwaiter : x.waiter = (s.message m).waiter)
    (hsem : x.completionSemaphore = (s.message m).completionSemaphore)
    (hok : x.Ok (phase { s with part } m)) :
    Inv { s with
      part
      message := Function.update s.message m x
      semaphore := Function.update s.semaphore k y } where
  work := h.work
  located := h.located
  message m' := by
    have hsame : phase { s with
        part
        message := Function.update s.message m x
        semaphore := Function.update s.semaphore k y } m' = phase { s with part } m' := rfl
    rw [hsame]
    by_cases heq : m' = m
    · subst heq
      simpa only [Function.update_self] using hok
    · rw [hphase m' heq]
      simpa only [Function.update_of_ne heq] using h.message m'
  caller a := by
    have hold := h.caller a
    have hother : (s.caller a).needs ≠ some m := by
      intro hneeds
      have hnew := h.own a m hneeds
      rw [hhandled] at hnew
      cases hnew
    have hne : ∀ m', (s.caller a).needs = some m' → m' ≠ m := by
      rintro m' hm' rfl
      exact hother hm'
    unfold CallerOk at hold ⊢
    cases hpc : s.caller a with
    | idle => trivial
    | queueing m' hasBuffer =>
        cases hasBuffer with
        | false => trivial
        | true =>
            simp only [hpc] at hold ⊢
            rwa [Function.update_of_ne (hne m' (by rw [hpc]; rfl))]
    | wait m' | blocked m' | copy m' | finished m' _ =>
        simp only [hpc] at hold ⊢
        rwa [Function.update_of_ne (hne m' (by rw [hpc]; rfl))]
  waiter m' a hw := by
    by_cases heq : m' = m
    · subst heq
      simp only [Function.update_self, hwaiter] at hw
      exact h.waiter m' a hw
    · simp only [Function.update_of_ne heq] at hw
      exact h.waiter m' a hw
  refers := h.refers
  unique := h.unique
  own := (h.signal_own hone hsem).1
  users := (h.signal_own hone hsem).2
  semaphore k' := by
    change (Function.update s.semaphore k y k').Full
    rw [Function.update_apply]
    split
    · exact Semaphore.full_of_clear hy
    · exact h.semaphore k'
  running := h.running

omit [DecidableEq ω] [DecidableEq ρ] [DecidableEq κ] in
/-- A message is signalled and its sender woken. -/
theorem Inv.signal_some {part : ω → Phase} {x : Message σ κ β} (h : Inv s)
    (hphase : ∀ m' ≠ m, phase { s with part } m' = s.phase m')
    (hsome : (s.message m).waiter = some a) (hone : x.signals = 1) (hwaiter : x.waiter = none)
    (hsem : x.completionSemaphore = (s.message m).completionSemaphore)
    (hok : x.Ok (phase { s with part } m)) :
    Inv { s with
      part
      message := Function.update s.message m x
      caller := Function.update s.caller a (.copy m) } := by
  have hblocked := h.waiter m a hsome
  have hrefers : ∀ b, (Function.update s.caller a (.copy m) b).refers = (s.caller b).refers := by
    intro b
    rw [Function.update_apply]
    split
    next heq =>
      rw [heq, hblocked]
      rfl
    next => rfl
  have hneeds : ∀ b, (Function.update s.caller a (.copy m) b).needs = (s.caller b).needs := by
    intro b
    rw [Function.update_apply]
    split
    next heq =>
      rw [heq, hblocked]
      rfl
    next => rfl
  refine ⟨h.work, h.located, fun m' => ?_, fun b => ?_, fun m' b hw => ?_, fun b m' => ?_, fun b c m' => ?_,
    fun b m' => ?_, (h.signal_own hone hsem).2, h.semaphore, h.running⟩
  · have hsame : phase { s with
          part
          message := Function.update s.message m x
          caller := Function.update s.caller a (.copy m) } m' = phase { s with part } m' := rfl
    rw [hsame]
    by_cases heq : m' = m
    · subst heq
      simpa only [Function.update_self] using hok
    · rw [hphase m' heq]
      simpa only [Function.update_of_ne heq] using h.message m'
  · by_cases hb : b = a
    · subst hb
      simp only [CallerOk, Function.update_self]
      exact ⟨hone, hwaiter⟩
    · refine (h.caller b).congr (Function.update_of_ne hb _ _) rfl fun m' hm' => Function.update_of_ne ?_ _ _
      rintro rfl
      exact hb (h.unique b a m' hm' (by rw [hblocked]; rfl))
  · by_cases heq : m' = m
    · subst heq
      simp only [Function.update_self, hwaiter] at hw
      cases hw
    · simp only [Function.update_of_ne heq] at hw
      have hold := h.waiter m' b hw
      have hb : b ≠ a := by
        rintro rfl
        rw [hblocked] at hold
        exact heq (CallerPc.blocked.inj hold).symm
      simp only [Function.update_of_ne hb, hold]
  · simp only [hrefers]
    exact h.refers b m'
  · simp only [hrefers]
    exact h.unique b c m'
  · simp only [hneeds]
    exact (h.signal_own hone hsem).1 b m'

omit [DecidableEq σ] [DecidableEq ρ] [DecidableEq μ] [DecidableEq κ] in
/-- A worker comes to another place with the message in its hand. -/
theorem Inv.phase_setPart (h : Inv s) (hin : s.stage m = .inHand w) (p : Phase) :
    (∀ m' ≠ m, phase { s with part := Function.update s.part w p } m' = s.phase m') ∧
      phase { s with part := Function.update s.part w p } m = p := by
  have hw := h.inHand_iff.mpr hin
  constructor
  · intro m' hne
    simp only [phase]
    cases hst : s.stage m' <;> simp only
    case inHand v =>
      refine Function.update_of_ne ?_ _ _
      rintro rfl
      exact hne (Option.some.inj ((h.inHand_iff.mpr hst).symm.trans hw))
  · simp only [phase, hin, Function.update_self]

omit [DecidableEq σ] [DecidableEq ρ] [DecidableEq κ] in
theorem Inv.setPart {p : Phase} (h : Inv s) (hin : s.stage m = .inHand w) (hok : (s.message m).Ok p) :
    Inv (s.setPart w p) := by
  obtain ⟨hother, hself⟩ := h.phase_setPart hin p
  refine ⟨h.work, h.located, fun m' => ?_, h.caller, h.waiter, h.refers, h.unique, h.own, h.users,
    h.semaphore, h.running⟩
  by_cases heq : m' = m
  · subst heq
    rw [CompletionState.setPart, hself]
    exact hok
  · rw [CompletionState.setPart, hother m' heq]
    exact h.message m'

omit [DecidableEq σ] [DecidableEq ω] [DecidableEq ρ] [DecidableEq μ] [DecidableEq κ] in
/-- The phase of the message in a worker's hand. -/
theorem phase_of_inHand (hin : s.stage m = .inHand w) : s.phase m = s.part w := by
  rw [phase, hin]

omit [DecidableEq ω] [DecidableEq ρ] in
/-- `completion_semaphore->signal()`, for a message that has not been signalled; `f` is what else happens to
the message. -/
theorem Inv.signal {part : ω → Phase} {f : Message σ κ β → Message σ κ β} (h : Inv s)
    (hphase : ∀ m' ≠ m, phase { s with part } m' = s.phase m') (hrel : s.Releasable m)
    (hsome : (s.message m).completionSemaphore.isSome = true) (hzero : (s.message m).signals = 0)
    (hsem : (f (s.message m)).completionSemaphore = (s.message m).completionSemaphore)
    (hsignals : (f (s.message m)).signals = (s.message m).signals)
    (husers : (f (s.message m)).users = (s.message m).users)
    (hwaiter : (f (s.message m)).waiter = (s.message m).waiter)
    (hok : ∀ (users : Nat) (waiter : Option σ), Message.Ok { f (s.message m) with signals := 1, users, waiter }
      (phase { s with part } m)) :
    Inv (({ s with part }.setMessage m f).signal m) := by
  have hone : (s.message m).signals + 1 = 1 := by rw [hzero]
  cases hx : (s.message m).completionSemaphore with
  | none =>
      rw [hx] at hsome
      cases hsome
  | some sem =>
    cases sem with
    | new =>
        have hfull := h.users m hx hzero
        cases hw : (s.message m).waiter with
        | some b =>
            have heq : ({ s with part }.setMessage m f).signal m = { s with
                part
                message := Function.update s.message m
                  { f (s.message m) with signals := (f (s.message m)).signals + 1, waiter := none }
                caller := Function.update s.caller b (.copy m) } := by
              simp only [CompletionState.signal, CompletionState.setMessage, Function.update_self, hsem, hx,
                hwaiter, hw, husers, hfull, if_true, CompletionState.setCaller, Function.update_idem]
            rw [heq]
            refine h.signal_some hphase hw (by rw [hsignals]; exact hone) rfl hsem ?_
            rw [hsignals, hone]
            exact hok _ _
        | none =>
            have heq : ({ s with part }.setMessage m f).signal m = { s with
                part
                message := Function.update s.message m
                  { f (s.message m) with
                    signals := (f (s.message m)).signals + 1
                    users := (f (s.message m)).users - 1 } } := by
              simp only [CompletionState.signal, CompletionState.setMessage, Function.update_self, hsem, hx,
                hwaiter, hw, husers, hfull, Nat.lt_one_iff, if_true, Function.update_idem]
            rw [heq]
            refine h.signal_none hphase hzero hw (by rw [hsignals]; exact hone) (hwaiter.trans hw)
              (by rw [husers]) hsem ?_
            rw [hsignals, hone]
            exact hok _ _
    | handled k =>
        have htaken : (s.semaphore k).Taken := by
          unfold Releasable at hrel
          rwa [hx] at hrel
        obtain ⟨y, hy⟩ := (h.semaphore k).exists_clear htaken
        have heq : ({ s with part }.setMessage m f).signal m = { s with
            part
            message := Function.update s.message m
              { f (s.message m) with signals := (f (s.message m)).signals + 1 }
            semaphore := Function.update s.semaphore k y } := by
          simp only [CompletionState.signal, CompletionState.setMessage, Function.update_self, hsem, hx, hy,
            CompletionState.setSemaphore, Function.update_idem]
        rw [heq]
        refine h.signal_handled hphase hx hy (by rw [hsignals]; exact hone) hwaiter hsem ?_
        rw [hsignals, hone]
        exact hok _ _

omit [DecidableEq ρ] in
/-- Signalling moves no worker. -/
theorem setPart_signal (s : CompletionState σ ω ρ μ κ β) (m : μ) (w : ω) (p : Phase) :
    (s.signal m).setPart w p = (s.setPart w p).signal m := by
  have hsame : (s.setPart w p).message = s.message ∧ (s.setPart w p).semaphore = s.semaphore := ⟨rfl, rfl⟩
  simp only [CompletionState.signal, hsame]
  split
  · split <;> split <;> rfl
  · split <;> rfl
  · rfl

omit [DecidableEq ρ] in
/-- `completion_sem->signal()` after the handler. -/
theorem Inv.autoSignal (h : Inv s) (hin : s.stage m = .inHand w) (hpart : s.part w = .after true)
    (hrel : s.Releasable m) : Inv ((s.signal m).setPart w .ended) := by
  obtain ⟨hother, hself⟩ := h.phase_setPart hin .ended
  have hok := h.message m
  rw [phase_of_inHand hin, hpart] at hok
  obtain ⟨hentered, hreturned, hsaved, -⟩ := hok
  obtain ⟨hsem, hover, hself', hzero⟩ := hsaved rfl
  have hnew := h.signal (f := fun x => x) hother hrel hsem hzero rfl rfl rfl rfl fun users waiter => by
    rw [hself]
    simp [Message.Ok, hentered, hreturned, hover, hself', hsem]
  rw [setPart_signal]
  simpa only [CompletionState.setMessage, Function.update_eq_self, CompletionState.setPart] using hnew

omit [DecidableEq ω] [DecidableEq ρ] in
/-- The receiver signals the semaphore of a message it has taken over. -/
theorem Inv.signalLater (h : Inv s) (hover : (s.message m).takenOver = true)
    (hnot : (s.message m).selfSignalled = false) (hreturned : (s.message m).returned = true)
    (hrel : s.Releasable m) :
    Inv ((s.setMessage m fun x => { x with selfSignalled := true }).signal m) := by
  have hok := h.message m
  have hzero : (s.message m).signals = 0 ∧ (s.message m).completionSemaphore.isSome = true := by
    cases hp : s.phase m <;> simp [hp, Message.Ok, hover, hnot, hreturned] at hok
    case after saved => cases saved <;> simp_all
    case ended => exact ⟨hok.2.2, hok.2.1⟩
  have hnew : ∀ (users : Nat) (waiter : Option σ),
      Message.Ok { s.message m with selfSignalled := true, signals := 1, users, waiter } (s.phase m) := by
    intro users waiter
    cases hp : s.phase m <;> simp only [hp, Message.Ok] at hok ⊢
    case after saved => cases saved <;> simp_all
    all_goals simp_all
  have hphase : ∀ m' ≠ m, phase { s with part := s.part } m' = s.phase m' := fun _ _ => rfl
  exact h.signal (f := fun x => { x with selfSignalled := true }) hphase hrel hzero.2 hzero.1 rfl rfl rfl rfl hnew

omit [DecidableEq σ] [DecidableEq ω] [DecidableEq ρ] [DecidableEq κ] in
/-- The message in a worker's hand changes inside the handler. -/
theorem Inv.inHandler {f : Message σ κ β → Message σ κ β} {saved : Bool} (h : Inv s)
    (hin : s.inHand w = some m) (hpart : s.part w = .inside saved)
    (hok : (s.message m).Ok (.inside saved) → (f (s.message m)).Ok (.inside saved))
    (hsem : (f (s.message m)).completionSemaphore = (s.message m).completionSemaphore)
    (hsignals : (f (s.message m)).signals = (s.message m).signals)
    (husers : (f (s.message m)).users = (s.message m).users)
    (hwaiter : (f (s.message m)).waiter = (s.message m).waiter) : Inv (s.setMessage m f) := by
  have hphase : s.phase m = .inside saved := by rw [phase_of_inHand (h.inHand_iff.mp hin), hpart]
  have hold := h.message m
  rw [hphase] at hold
  refine h.setMessage (fun _ _ => rfl) ?_ hsem hsignals husers hwaiter (.inr hold.2.2.2.1)
  change (f (s.message m)).Ok (s.phase m)
  rw [hphase]
  exact hok hold

theorem Inv.processStep (h : Inv s) {more : Bool} (hpc : s.work.worker w = .handle r m more)
    (hrel : s.part w = .after true → s.Releasable m) (hs : s.processStep w m = some s') : Inv s' := by
  have hin : s.stage m = .inHand w := (h.located.inHand w m).mpr ⟨r, by rw [hpc]; rfl⟩
  have hold := h.message m
  rw [phase_of_inHand hin] at hold
  cases hpart : s.part w <;> simp only [hpart] at hold <;>
    simp only [CompletionState.processStep, hpart, reduceCtorEq, Option.some.injEq] at hs
  case fresh =>
    subst hs
    obtain ⟨h1, h2, h3, h4, h5⟩ := hold
    exact h.setPart hin ⟨h1, h2, h3, h4, h5, rfl⟩
  case ready saved =>
    subst hs
    obtain ⟨hother, hself⟩ := h.phase_setPart hin (.inside saved)
    obtain ⟨h1, h2, h3, h4, h5, hsave⟩ := hold
    have hnew : Inv ({ s with part := Function.update s.part w (.inside saved) }.setMessage m
        fun x => { x with entered := true }) := by
      refine h.setMessage hother ?_ rfl rfl rfl rfl (.inl rfl)
      rw [hself]
      refine ⟨rfl, h2, h4, h5, fun hsaved => ⟨?_, h3⟩, fun hover => ?_⟩
      · exact (Bool.and_eq_true_iff.mp (hsave.symm.trans hsaved)).2
      · simp only [h3] at hover
        cases hover
    exact hnew
  case after saved =>
    subst hs
    cases saved with
    | true => exact h.autoSignal hin hpart (hrel hpart)
    | false =>
        refine h.setPart hin ?_
        obtain ⟨h1, h2, -, h4⟩ := hold
        obtain ⟨hsem, hsignals, hself⟩ := h4 rfl
        refine ⟨h1, h2, fun hover => ⟨hsem ▸ hover, hsignals⟩, fun hover => ?_⟩
        have hnot : (s.message m).selfSignalled = false := by
          by_contra hne
          rw [hself (by simpa using hne)] at hover
          cases hover
        rw [hsignals, ← hsem, hover, hnot]
        exact ⟨rfl, rfl⟩
  case ended =>
    obtain ⟨work, hwork, rfl⟩ := Option.map_eq_some_iff.mp hs
    refine h.moved (h.work.step (i := .worker w) trivial hwork)
      (h.located.moved (h.located.handled hpc hwork)) (fun m' => ?_) fun m' hm' => ?_
    · by_cases heq : m' = m
      · subst heq
        simp only [phase, Function.update_self, hin, hpart]
      · simp only [phase, Function.update_of_ne heq]
    · rw [Function.update_apply]
      split
      · nofun
      · exact hm'

theorem Inv.workerStep (h : Inv s) (hrel : s.part w = .after true → ∀ m ∈ s.inHand w, s.Releasable m)
    (hs : s.workerStep w = some s') : Inv s' := by
  unfold CompletionState.workerStep at hs
  split at hs
  next r m more hpc => exact h.processStep hpc (fun hpart => hrel hpart m (by rw [inHand, hpc]; rfl)) hs
  next r hpc =>
    obtain ⟨work, hwork, rfl⟩ := Option.map_eq_some_iff.mp hs
    have hinv := h.work.step (i := .worker w) trivial hwork
    split
    next m rest hqueue =>
      have hstage := (h.located.queued r m).mpr (by rw [hqueue]; exact List.mem_cons_self)
      refine h.moved hinv (h.located.moved (h.located.take hpc hqueue hwork)) (fun m' => ?_) fun m' hm' => ?_
      · by_cases heq : m' = m
        · subst heq
          simp only [phase, CompletionState.setStage, Function.update_self, hstage]
        · simp only [phase, CompletionState.setStage, Function.update_of_ne heq]
          cases hst : s.stage m' <;> simp only
          case inHand v =>
            refine Function.update_of_ne ?_ _ _
            rintro rfl
            obtain ⟨q, hq⟩ := (h.located.inHand v m').mp hst
            rw [hpc] at hq
            cases hq
      · simp only [CompletionState.setStage]
        rw [Function.update_apply]
        split
        · nofun
        · exact hm'
    next hqueue => exact absurd hqueue (h.work.take_ne_nil hpc)
  next hhandle htake =>
    obtain ⟨work, hwork, rfl⟩ := Option.map_eq_some_iff.mp hs
    exact h.moved (h.work.step (i := .worker w) trivial hwork)
      (h.located.unmoved (unmoved_worker hhandle htake hwork)) (fun _ => rfl) fun _ hm' => hm'

omit [DecidableEq κ] in
theorem Inv.senderStep (h : Inv s) (hs : s.senderStep a = some s') : Inv s' := by
  unfold CompletionState.senderStep at hs
  split at hs
  next r m hpc =>
    obtain ⟨work, hwork, rfl⟩ := Option.map_eq_some_iff.mp hs
    have hstage := h.located.sending a m (by rw [hpc]; rfl)
    refine h.moved (h.work.step (i := .sender a) trivial hwork)
      (h.located.moved (h.located.push hpc hwork)) (fun m' => ?_) fun m' hm' => ?_
    · by_cases heq : m' = m
      · subst heq
        simp only [phase, Function.update_self, hstage]
      · simp only [phase, Function.update_of_ne heq]
    · rw [Function.update_apply]
      split
      · nofun
      · exact hm'
  next hpush =>
    obtain ⟨work, hwork, rfl⟩ := Option.map_eq_some_iff.mp hs
    exact h.moved (h.work.step (i := .sender a) trivial hwork)
      (h.located.unmoved (unmoved_sender hpush hwork)) (fun _ => rfl) fun _ hm' => hm'

omit [DecidableEq κ] in
/-- A message is given to `queue_message`. -/
theorem Inv.send {empty : β} {autoSignal hasBuffer : Bool} {semaphore : Option κ} {work : WorkState σ ω ρ μ}
    (h : Inv s) (hidle : s.caller a = .idle ∨ ∃ m c, s.caller a = .finished m c) (hnew : s.stage m = .unsent)
    (hwork : s.work.step (.call a r m) = some work) :
    Inv ((({ s with work }.setStage m (.sending a)).setMessage m
      fun _ => .new empty autoSignal (if hasBuffer then some .new else semaphore.map .handled)).setCaller a
        (.queueing m hasBuffer)) := by
  have hother : ∀ b m', (s.caller b).refers = some m' → m' ≠ m := by
    rintro b m' hb rfl
    exact h.refers b m' hb hnew
  refine ⟨h.work.step (i := .call a r m) trivial hwork, h.located.moved (h.located.call hnew hwork),
    fun m' => ?_, fun b => ?_, fun m' b hw => ?_, fun b m' hb => ?_, fun b c m' hb hc => ?_,
    fun b m' hb => ?_, fun m' => ?_, h.semaphore, h.running⟩
  · by_cases heq : m' = m
    · subst heq
      simp only [CompletionState.setMessage, CompletionState.setCaller, CompletionState.setStage, phase,
        Function.update_self]
      exact ⟨rfl, rfl, rfl, rfl, rfl⟩
    · have hold := h.message m'
      simpa only [CompletionState.setMessage, CompletionState.setCaller, CompletionState.setStage, phase,
        Function.update_of_ne heq] using hold
  · by_cases hb : b = a
    · subst hb
      cases hasBuffer <;> simp only [CallerOk, CompletionState.setCaller, CompletionState.setMessage,
        Function.update_self]
      exact ⟨rfl, rfl⟩
    · exact (h.caller b).congr (Function.update_of_ne hb _ _) rfl
        fun m' hm' => Function.update_of_ne (hother b m' hm') _ _
  · by_cases heq : m' = m
    · subst heq
      simp only [CompletionState.setMessage, CompletionState.setCaller, Function.update_self] at hw
      cases hw
    · simp only [CompletionState.setMessage, CompletionState.setCaller, CompletionState.setStage,
        Function.update_of_ne heq] at hw ⊢
      have hold := h.waiter m' b hw
      rw [Function.update_of_ne, hold]
      rintro rfl
      rcases hidle with hidle | ⟨_, _, hidle⟩ <;> rw [hold] at hidle <;> cases hidle
  · simp only [CompletionState.setMessage, CompletionState.setCaller, CompletionState.setStage,
      Function.update_apply] at hb ⊢
    split at hb
    · rw [if_pos (Option.some.inj hb).symm]
      nofun
    · rw [if_neg (hother b m' hb)]
      exact h.refers b m' hb
  · simp only [CompletionState.setMessage, CompletionState.setCaller, CompletionState.setStage,
      Function.update_apply] at hb hc
    split at hb <;> split at hc
    next hba hca => rw [hba, hca]
    next => exact absurd (Option.some.inj hb).symm (hother c m' hc)
    next => exact absurd (Option.some.inj hc).symm (hother b m' hb)
    next => exact h.unique b c m' hb hc
  · simp only [CompletionState.setMessage, CompletionState.setCaller, CompletionState.setStage,
      Function.update_apply] at hb ⊢
    split at hb
    next =>
      cases hasBuffer with
      | false => cases hb
      | true =>
          rw [if_pos (Option.some.inj hb).symm]
          rfl
    next =>
      rw [if_neg (hother b m' (CallerPc.refers_of_needs hb))]
      exact h.own b m' hb
  · by_cases heq : m' = m
    · subst heq
      simp only [CompletionState.setMessage, CompletionState.setCaller, Function.update_self]
      exact fun _ _ => rfl
    · simpa only [CompletionState.setMessage, CompletionState.setCaller, CompletionState.setStage,
        Function.update_of_ne heq] using h.users m'

omit [DecidableEq ω] [DecidableEq ρ] [DecidableEq κ] in
/-- A sender goes on with the message that it has sent, or forgets it. -/
theorem Inv.setCaller {pc : CallerPc μ β} {f : Message σ κ β → Message σ κ β} (h : Inv s)
    (hpc : (s.caller a).refers = some m) (hrefers : pc.refers = some m ∨ pc.refers = none)
    (hneeds : ∀ m', pc.needs = some m' → (s.caller a).needs = some m')
    (hok : (f (s.message m)).Ok (s.phase m))
    (hsem : (f (s.message m)).completionSemaphore = (s.message m).completionSemaphore)
    (husers : (s.message m).completionSemaphore = some .new → (f (s.message m)).signals = 0 →
      (f (s.message m)).users = 1)
    (hcaller : CallerOk ((s.setMessage m f).setCaller a pc) a)
    (hwaiter : ∀ b, (f (s.message m)).waiter = some b → b = a ∧ pc = .blocked m) :
    Inv ((s.setMessage m f).setCaller a pc) := by
  have hback : ∀ b m', (Function.update s.caller a pc b).refers = some m' → (s.caller b).refers = some m' := by
    intro b m' hb
    rw [Function.update_apply] at hb
    split at hb
    next heq =>
      rw [heq, hpc, ← hb]
      rcases hrefers with hsame | hnone
      · exact hsame.symm
      · rw [hnone] at hb
        cases hb
    next => exact hb
  refine ⟨h.work, h.located, fun m' => ?_, fun b => ?_, fun m' b hw => ?_,
    fun b m' hb => h.refers b m' (hback b m' hb),
    fun b c m' hb hc => h.unique b c m' (hback b m' hb) (hback c m' hc), fun b m' hb => ?_, fun m' => ?_,
    h.semaphore, h.running⟩
  · have hsame : phase ((s.setMessage m f).setCaller a pc) m' = s.phase m' := rfl
    rw [hsame]
    by_cases heq : m' = m
    · subst heq
      simpa only [CompletionState.setMessage, CompletionState.setCaller, Function.update_self] using hok
    · have hold := h.message m'
      simpa only [CompletionState.setMessage, CompletionState.setCaller, Function.update_of_ne heq] using hold
  · by_cases hb : b = a
    · subst hb
      exact hcaller
    · refine (h.caller b).congr (Function.update_of_ne hb _ _) rfl fun m' hm' => Function.update_of_ne ?_ _ _
      rintro rfl
      exact hb (h.unique b a m' hm' hpc)
  · by_cases heq : m' = m
    · subst heq
      simp only [CompletionState.setMessage, CompletionState.setCaller, Function.update_self] at hw ⊢
      obtain ⟨rfl, rfl⟩ := hwaiter b hw
      rw [Function.update_self]
    · simp only [CompletionState.setMessage, CompletionState.setCaller, Function.update_of_ne heq] at hw ⊢
      have hold := h.waiter m' b hw
      rw [Function.update_of_ne, hold]
      rintro rfl
      rw [hold] at hpc
      exact heq (Option.some.inj hpc)
  · have hb' : (s.caller b).needs = some m' := by
      simp only [CompletionState.setCaller, Function.update_apply] at hb
      split at hb
      next heq =>
        rw [heq]
        exact hneeds m' hb
      next => exact hb
    by_cases heq : m' = m
    · subst heq
      simpa only [CompletionState.setMessage, CompletionState.setCaller, Function.update_self, hsem]
        using h.own b m' hb'
    · simpa only [CompletionState.setMessage, CompletionState.setCaller, Function.update_of_ne heq]
        using h.own b m' hb'
  · by_cases heq : m' = m
    · subst heq
      simpa only [CompletionState.setMessage, CompletionState.setCaller, Function.update_self, hsem] using husers
    · simpa only [CompletionState.setMessage, CompletionState.setCaller, Function.update_of_ne heq]
        using h.users m'

omit [DecidableEq σ] [DecidableEq ω] [DecidableEq ρ] [DecidableEq κ] in
theorem setMessage_id (s : CompletionState σ ω ρ μ κ β) (m : μ) : (s.setMessage m fun x => x) = s := by
  simp only [CompletionState.setMessage, Function.update_eq_self]

omit [DecidableEq ω] [DecidableEq ρ] [DecidableEq κ] in
theorem Inv.callerStep (h : Inv s)
    (hok : ∀ m, s.caller a = .wait m → 1 ≤ (s.message m).users → s.wakeThreadAfter a = 0)
    (hs : s.callerStep a = some s') : Inv s' := by
  have hold := h.caller a
  unfold CallerOk at hold
  unfold CompletionState.callerStep at hs
  cases hpc : s.caller a <;> simp only [hpc, reduceCtorEq] at hs hold
  case queueing m hasBuffer =>
    split at hs
    next =>
      obtain rfl := Option.some.inj hs
      cases hasBuffer with
      | false =>
          rw [← setMessage_id s m]
          refine h.setCaller (by rw [hpc]; rfl) (.inr rfl) (fun _ hm => nomatch hm) (h.message m) rfl
            (h.users m) ?_ fun b hb => ?_
          · simp only [CallerOk, CompletionState.setCaller, Function.update_self, Bool.false_eq_true, if_false]
          · have hblocked := h.waiter m b hb
            have hb' := h.unique b a m (by rw [hblocked]; rfl) (by rw [hpc]; rfl)
            rw [hb', hpc] at hblocked
            cases hblocked
      | true =>
          rw [← setMessage_id s m]
          refine h.setCaller (by rw [hpc]; rfl) (.inl rfl) (fun m' hm => by rw [hpc]; exact hm) (h.message m) rfl
            (h.users m) ?_ fun b hb => ?_
          · simpa only [CallerOk, CompletionState.setCaller, setMessage_id, Function.update_self, if_true]
              using hold
          · rw [hold.2] at hb
            cases hb
    next => cases hs
  case wait m =>
    simp only [ite_eq_iff, Option.some.injEq] at hs
    rcases hs with ⟨hfree, rfl⟩ | ⟨hfull, ⟨-, rfl⟩ | ⟨hmore, -⟩⟩
    · refine h.setCaller (by rw [hpc]; rfl) (.inl rfl) (fun m' hm => by rw [hpc]; exact hm) (h.message m) rfl
        (fun _ hzero => ?_) ?_ fun b hb => ?_
      · change (s.message m).signals = 0 at hzero
        omega
      · simp only [CallerOk, CompletionState.setCaller, CompletionState.setMessage, Function.update_self]
        exact ⟨by omega, hold.2⟩
      · simp only [hold.2] at hb
        cases hb
    · refine h.setCaller (by rw [hpc]; rfl) (.inl rfl) (fun m' hm => by rw [hpc]; exact hm) (h.message m) rfl
        (h.users m) ?_ fun b hb => ?_
      · simp only [CallerOk, CompletionState.setCaller, CompletionState.setMessage, Function.update_self]
        exact ⟨trivial, by omega, hok m hpc (by omega)⟩
      · exact ⟨(Option.some.inj hb).symm, rfl⟩
    · omega
  case copy m =>
    obtain rfl := Option.some.inj hs
    rw [← setMessage_id s m]
    refine h.setCaller (by rw [hpc]; rfl) (.inl rfl) (fun m' hm => by rw [hpc]; exact hm) (h.message m) rfl
      (h.users m) ?_ fun b hb => ?_
    · simp only [CallerOk, CompletionState.setCaller, setMessage_id, Function.update_self]
      exact ⟨hold.1, hold.2, trivial⟩
    · simp only [hold.2] at hb
      cases hb

omit [DecidableEq ω] [DecidableEq ρ] [DecidableEq μ] [DecidableEq κ] in
/-- A thread that does not wait is given a deadline. -/
theorem Inv.otherWait {deadline : Nat} (h : Inv s) (hpc : ∀ m, s.caller a ≠ .blocked m) :
    Inv { s with wakeThreadAfter := Function.update s.wakeThreadAfter a deadline } := by
  refine ⟨h.work, h.located, h.message, fun b => ?_, h.waiter, h.refers, h.unique, h.own, h.users, h.semaphore,
    h.running⟩
  by_cases hb : b = a
  · subst hb
    have hold := h.caller b
    unfold CallerOk at hold ⊢
    split at hold <;> simp_all
  · exact (h.caller b).congr rfl (Function.update_of_ne hb _ _) fun _ _ => rfl

omit [DecidableEq σ] [DecidableEq ω] [DecidableEq ρ] [DecidableEq μ] in
/-- A thread does something with a semaphore that it has a handle of. -/
theorem Inv.setSemaphore {k : κ} {y : Semaphore} (h : Inv s) (hy : y.Full) : Inv (s.setSemaphore k y) := by
  refine ⟨h.work, h.located, h.message, h.caller, h.waiter, h.refers, h.unique, h.own, h.users, fun k' => ?_,
    h.running⟩
  simp only [CompletionState.setSemaphore, Function.update_apply]
  split
  · exact hy
  · exact h.semaphore k'

omit [DecidableEq σ] [DecidableEq ρ] [DecidableEq κ] in
/-- The handler returns. -/
theorem Inv.leaveHandler {saved : Bool} (h : Inv s) (hin : s.inHand w = some m)
    (hpart : s.part w = .inside saved)
    (hok : saved = false → (s.message m).completionSemaphore.isSome = true → (s.message m).takenOver = true) :
    Inv ((s.setMessage m fun x => { x with returned := true }).setPart w (.after saved)) := by
  have hstage := h.inHand_iff.mp hin
  obtain ⟨hother, hself⟩ := h.phase_setPart hstage (.after saved)
  have hold := h.message m
  rw [phase_of_inHand hstage, hpart] at hold
  obtain ⟨hentered, hreturned, hnot, hzero, hsaved, hover⟩ := hold
  have hnew : Inv ({ s with part := Function.update s.part w (.after saved) }.setMessage m
      fun x => { x with returned := true }) := by
    refine h.setMessage hother ?_ rfl rfl rfl rfl (.inl rfl)
    rw [hself]
    refine ⟨hentered, rfl, fun hs => ⟨(hsaved hs).1, (hsaved hs).2, hnot, hzero⟩,
      fun hs => ⟨?_, ?_, fun hne => ?_⟩⟩
    · exact Bool.eq_iff_iff.mpr ⟨hover, hok hs⟩
    · simp only [hzero, hnot, Bool.toNat_false]
    · simp only [hnot] at hne
      cases hne
  exact hnew

omit [DecidableEq σ] [DecidableEq ω] [DecidableEq ρ] [DecidableEq μ] [DecidableEq κ] in
/-- A message taken over is not signalled before the receiver does it. -/
theorem Inv.signals_eq_zero (h : Inv s) (hover : (s.message m).takenOver = true)
    (hnot : (s.message m).selfSignalled = false) : (s.message m).signals = 0 := by
  have hok := h.message m
  cases hp : s.phase m <;> simp [hp, Message.Ok, hover, hnot] at hok
  case inside saved => exact hok.2.2.1
  case after saved => cases saved <;> simp_all
  case ended => exact hok.2.2.2

variable {empty : β}

theorem Inv.next {i : CompletionAct σ ω ρ μ κ β} (h : Inv s) (hok : s.SignalsIfClear i)
    (hs : s.next empty i = some s') : Inv s' := by
  cases i with
  | send a r m autoSignal semaphore hasBuffer =>
      simp only [CompletionState.next] at hs
      split at hs
      next hidle hnew =>
        simp only [Option.ite_none_left_eq_some, Option.map_eq_some_iff] at hs
        obtain ⟨-, work, hwork, rfl⟩ := hs
        exact h.send (.inl hidle) hnew hwork
      next hidle hnew =>
        simp only [Option.ite_none_left_eq_some, Option.map_eq_some_iff] at hs
        obtain ⟨-, work, hwork, rfl⟩ := hs
        exact h.send (.inr ⟨_, _, hidle⟩) hnew hwork
      next => cases hs
  | sender a => exact h.senderStep hs
  | worker w => exact h.workerStep hok hs
  | destroy r =>
      simp only [CompletionState.next, Option.map_eq_some_iff] at hs
      obtain ⟨work, hwork, rfl⟩ := hs
      have hinv := h.work.step (i := .destroy r) hok hwork
      obtain rfl := Option.some.inj hwork
      exact h.moved hinv h.located.destroy (fun _ => rfl) fun _ hm' => hm'
  | caller a => exact h.callerStep hok hs
  | considerThread a now =>
      have hold := h.caller a
      simp only [CompletionState.next] at hs
      split at hs
      next m hpc =>
        -- the sender has no deadline
        simp only [CallerOk, hpc] at hold
        simp only [hold.2.2, ne_eq, not_true_eq_false, false_and, if_false, reduceCtorEq] at hs
      next => cases hs
  | otherWait a deadline =>
      simp only [CompletionState.next] at hs
      split at hs
      next hidle =>
        obtain rfl := Option.some.inj hs
        exact h.otherWait (by rw [hidle]; nofun)
      next hidle =>
        obtain rfl := Option.some.inj hs
        exact h.otherWait (by rw [hidle]; nofun)
      next => cases hs
  | semaphoreWait k =>
      simp only [CompletionState.next, Option.map_eq_some_iff] at hs
      obtain ⟨y, hy, rfl⟩ := hs
      exact h.setSemaphore ((h.semaphore k).wait hy)
  | semaphoreClear k =>
      simp only [CompletionState.next, Option.map_eq_some_iff] at hs
      obtain ⟨y, hy, rfl⟩ := hs
      exact h.setSemaphore (Semaphore.full_of_clear hy)
  | fill w v =>
      simp only [CompletionState.next] at hs
      split at hs
      next m saved hin hpart =>
        obtain rfl := Option.some.inj hs
        exact h.inHandler hin hpart (fun hold => hold) rfl rfl rfl rfl
      next => cases hs
  | release w =>
      simp only [CompletionState.next] at hs
      split at hs
      next m saved hin hpart =>
        obtain rfl := Option.some.inj hs
        exact h.inHandler hin hpart (fun hold => hold) rfl rfl rfl rfl
      next => cases hs
  | takeOver w =>
      simp only [CompletionState.next] at hs
      split at hs
      next m saved hin hpart =>
        simp only [Option.ite_none_right_eq_some, Option.some.injEq] at hs
        obtain ⟨hsem, rfl⟩ := hs
        refine h.inHandler hin hpart (fun hold => ?_) rfl rfl rfl rfl
        obtain ⟨h1, h2, h3, h4, -, -⟩ := hold
        have hsaved : saved = false := Phase.inside.inj (hpart.symm.trans hok)
        refine ⟨h1, h2, h3, h4, fun hne => ?_, fun _ => hsem⟩
        rw [hsaved] at hne
        cases hne
      next => cases hs
  | leaveHandler w =>
      simp only [CompletionState.next] at hs
      split at hs
      next m saved hin hpart =>
        obtain rfl := Option.some.inj hs
        refine h.leaveHandler hin hpart fun hsaved => hok ?_ m hin
        rw [hpart, hsaved]
      next => cases hs
  | fillLater m v =>
      simp only [CompletionState.next, Option.ite_none_right_eq_some, Option.some.injEq] at hs
      obtain ⟨⟨hover, hnot⟩, rfl⟩ := hs
      have hzero := h.signals_eq_zero hover (by simpa using hnot)
      exact h.setMessage (fun _ _ => rfl) (h.message m) rfl rfl rfl rfl (.inr hzero)
  | signalLater m =>
      simp only [CompletionState.next, Option.ite_none_right_eq_some, Option.some.injEq] at hs
      obtain ⟨⟨hover, hnot, hreturned⟩, rfl⟩ := hs
      exact h.signalLater hover (by simpa using hnot) hreturned hok

theorem Inv.step {i : CompletionAct σ ω ρ μ κ β} (h : Inv s) (hok : s.SignalsIfClear i)
    (hs : s.step empty i = some s') : Inv s' := by
  rw [CompletionState.step, h.running] at hs
  exact h.next hok hs

/-- Each message is completed once, after its handler, and its sender gets what is in the buffer. -/
structure Completes (s : CompletionState σ ω ρ μ κ β) : Prop where
  /-- No signal has tripped an ASSERT. -/
  running : s.assertFailed = false
  once : ∀ m, (s.message m).signals ≤ 1
  after : ∀ m, 0 < (s.message m).signals → (s.message m).entered ∧ (s.message m).returned
  /-- A sender that is blocked has not been signalled, and one that goes on has been. -/
  blocked : ∀ a m, s.caller a = .blocked m → (s.message m).signals = 0
  resumed : ∀ a m, s.caller a = .copy m → (s.message m).signals = 1
  copied : ∀ a m c, s.caller a = .finished m c → (s.message m).signals = 1 ∧ c = (s.message m).outputBuffer
  /-- Whenever the threads have come to rest, each message sent to a live receiver has been signalled,
  unless the receiver has taken it over and is still to do so. -/
  signalled : AtRest s.work → ∀ r m, (s.work.receiver r).alive → m ∈ (s.work.receiver r).sent →
    (s.message m).completionSemaphore.isSome → (s.message m).signals = 1 ∨
      (s.message m).takenOver ∧ (s.message m).selfSignalled = false

omit [DecidableEq μ] [DecidableEq κ] in
theorem Inv.completes (h : Inv s) : Completes s where
  running := h.running
  once m := (h.message m).once.1
  after m := (h.message m).once.2
  blocked a m ha := by
    have hold := h.caller a
    simp only [CallerOk, ha] at hold
    exact hold.2.1
  resumed a m ha := by
    have hold := h.caller a
    simp only [CallerOk, ha] at hold
    exact hold.1
  copied a m c ha := by
    have hold := h.caller a
    simp only [CallerOk, ha] at hold
    exact ⟨hold.1, hold.2.2⟩
  signalled hrest r m hlive hsent hsem := by
    -- nothing is left in the queue of a live receiver or in the hand of a worker
    have hempty : (s.work.receiver r).messageQueue = [] := by
      have hd := h.work.delivers hlive
      have htaken := hd.taken_eq_sent hrest
      have horder := hd.inOrder
      rw [htaken] at horder
      exact List.append_right_eq_self.mp horder.symm
    have hdone : s.stage m = .done := by
      rcases h.located.sent r m hsent with hqueued | ⟨w, hw⟩ | hdone
      · have hmem := (h.located.queued r m).mp hqueued
        rw [hempty] at hmem
        cases hmem
      · rw [hrest.2.2 w] at hw
        cases hw
      · exact hdone
    have hover := h.message m
    rw [phase, hdone] at hover
    exact hover.signalled hsem

end CompletionState

/-- In every interleaving in which handlers signal a semaphore exactly if its message said so when it was
taken, senders that wait have no deadline left, and a semaphore that a sender has brought has a user or a
waiting thread when it is signalled, each message is completed once. -/
theorem completion_ok {empty : β} {users : κ → Nat × Nat} {s : CompletionState σ ω ρ μ κ β}
    (h : Reach (CompletionState.step · empty) CompletionState.SignalsIfClear (.start empty users) s) :
    s.Completes := by
  have hinv : s.Inv := by
    refine h.invariant (I := CompletionState.Inv) .start ?_
    intro s₁ i s₂ h₁ hok hs
    exact h₁.step hok hs
  exact hinv.completes

/-- A handler may do as it likes. -/
def AnyHandler (s : CompletionState σ ω ρ μ κ β) : CompletionAct σ ω ρ μ κ β → Prop
  | .takeOver _ | .leaveHandler _ => True
  | i => s.SignalsIfClear i

/-- A sender, a worker, a receiver and a semaphore that the sender has a handle of. -/
abbrev SmallCompletion := CompletionState Unit Unit Unit Nat Unit Nat

instance (s : SmallCompletion) (m : Nat) : Decidable (s.Releasable m) :=
  match h : (s.message m).completionSemaphore with
  | some (.handled k) => decidable_of_iff (s.semaphore k).Taken (by simp only [CompletionState.Releasable, h])
  | some .new | none => .isTrue (by simp only [CompletionState.Releasable, h])

instance (s : SmallCompletion) : ∀ i, Decidable (s.SignalsIfClear i)
  | .takeOver w => inferInstanceAs (Decidable (s.part w = _))
  | .leaveHandler w => inferInstanceAs (Decidable (s.part w = _ → ∀ m ∈ s.inHand w, _ → _ = true))
  | .caller a =>
      match h : s.caller a with
      | .wait m => decidable_of_iff (1 ≤ (s.message m).users → s.wakeThreadAfter a = 0)
          ⟨fun hm m' hm' => by
            cases h.symm.trans hm'
            exact hm, fun hm => hm m h⟩
      | .idle | .queueing .. | .blocked _ | .copy _ | .finished .. => .isTrue fun m hm => by
          rw [h] at hm
          cases hm
  | .destroy r => inferInstanceAs (Decidable (PointersKept s.work (.destroy r)))
  | .worker w => inferInstanceAs (Decidable (s.part w = _ → ∀ m ∈ s.inHand w, s.Releasable m))
  | .signalLater m => inferInstanceAs (Decidable (s.Releasable m))
  | .send .. | .sender _ | .considerThread .. | .otherWait .. | .semaphoreWait _ | .semaphoreClear _
  | .fill .. | .release _ | .fillLater .. => .isTrue trivial

instance (s : SmallCompletion) : ∀ i, Decidable (AnyHandler s i)
  | .takeOver _ | .leaveHandler _ => .isTrue trivial
  | .caller a => inferInstanceAs (Decidable (s.SignalsIfClear (.caller a)))
  | .destroy r => inferInstanceAs (Decidable (s.SignalsIfClear (.destroy r)))
  | .worker w => inferInstanceAs (Decidable (s.SignalsIfClear (.worker w)))
  | .signalLater m => inferInstanceAs (Decidable (s.SignalsIfClear (.signalLater m)))
  | .send .. | .sender _ | .considerThread .. | .otherWait .. | .semaphoreWait _ | .semaphoreClear _
  | .fill .. | .release _ | .fillLater .. => .isTrue trivial

/-- A message with an output buffer is sent, its sender waits, and a worker comes to its handler. -/
def sendAndHandle (m : Nat) : List (CompletionAct Unit Unit Unit Nat Unit Nat) :=
  .send () () m true none true :: List.replicate 5 (.sender ()) ++ [.caller (), .caller ()] ++
    List.replicate 9 (.worker ())

/-- A handler answers a message with a number. -/
theorem completion_ok_answer : ∃ s : SmallCompletion, s.caller () = .finished 0 7 ∧ AtRest s.work ∧
    s.Completes := by
  obtain ⟨s, hreach, hcaller, hrest⟩ := Reach.exists_of_run
    (by decide +kernel : ∃ s ∈ run (CompletionState.step · 0) CompletionState.SignalsIfClear
      (.start 0 fun _ => (1, 0) : SmallCompletion)
      (sendAndHandle 0 ++ [.fill () 7, .release (), .leaveHandler ()] ++ List.replicate 2 (.worker ()) ++
        [.caller ()]),
      s.caller () = .finished 0 7 ∧ s.work.receiverQueue = [] ∧ (∀ a, s.work.sender a = .idle) ∧
        ∀ w, s.work.worker w = .idle)
  exact ⟨s, hcaller, hrest, completion_ok hreach⟩

/-- A handler clears `auto_signal_semaphore` and signals the semaphore itself, after
`process_next_message` has done it. -/
theorem completion_signalled_twice : ¬ ∀ s : SmallCompletion,
    Reach (CompletionState.step · 0) AnyHandler (.start 0 fun _ => (1, 0)) s → s.Completes := by
  intro h
  obtain ⟨s, hreach, htwo⟩ := Reach.exists_of_run
    (by decide +kernel : ∃ s ∈ run (CompletionState.step · 0) AnyHandler (.start 0 fun _ => (1, 0) : SmallCompletion)
      (sendAndHandle 0 ++ [.takeOver (), .leaveHandler (), .worker (), .signalLater 0]),
      (s.message 0).signals = 2)
  have honce := (h s hreach).once 0
  omega

/-- A message without an output buffer is sent with a semaphore that nobody has. -/
theorem completion_assertFailed :
    ∃ s ∈ run (CompletionState.step · 0) (fun _ _ => True) (.start 0 fun _ => (1, 0) : SmallCompletion)
      (.send () () 0 true (some ()) false :: List.replicate 5 (.sender ()) ++ [.caller ()] ++
        List.replicate 9 (.worker ()) ++ [.leaveHandler (), .worker ()]),
      s.assertFailed := by
  decide +kernel

end Azalea.Proc.Completion
