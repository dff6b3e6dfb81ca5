import Azalea.Proc.Mutex

/-!
# Proc — every interleaving of threads on mutexes

* `mutex_safe`: as long as no thread that has to wait without limit brings along the deadline of an
  earlier wait, and mutexes are released by their owners, at most one thread holds a mutex, threads
  get it in the order they queued, and a thread that waits without limit goes on only as its owner.
  `start_thread` does not clear `wake_thread_after`, so that a finite wait that was granted leaves its
  deadline behind, and the scheduler ends a later wait for it (`mutex_safe_fails`).
-/

namespace Azalea.Proc.Mutexes
open Azalea.Runs

variable {τ μ : Type*} [DecidableEq τ] [DecidableEq μ]

/-- The mutex whose `access_lock` a thread holds. -/
def MutexPc.holds : MutexPc μ → Option μ
  | .look m _ | .stop m _ | .setDeadline m _ | .unlock m _ | .resumed m _ | .leave m _
  | .handOver m _ => some m
  | _ => none

/-- The mutex a thread has queued for. -/
def MutexPc.waits : MutexPc μ → Option μ
  | .stop m _ | .setDeadline m _ | .unlock m _ | .asleep m _ | .awake m _ | .resumed m _ => some m
  | _ => none

/-- The mutex a thread has stopped itself for, without limit. -/
def MutexPc.sleeps : MutexPc μ → Option μ
  | .setDeadline m w | .unlock m w | .asleep m w => if w = mutexMaxWait then some m else none
  | _ => none

/-- The mutex a thread should own by now. -/
def MutexPc.owns : MutexPc μ → Option μ
  | .awake m w | .resumed m w => if w = mutexMaxWait then some m else none
  | .leave m .acquired | .leave m .alreadyOwned => some m
  | _ => none

/-- The mutex a thread gives up. -/
def MutexPc.gives : MutexPc μ → Option μ
  | .release m _ | .handOver m _ => some m
  | _ => none

/-- What a thread and a mutex have to do with each other. -/
structure PairOk (s : MutexState τ μ) (t : τ) (m : μ) : Prop where
  lock : (s.mutex m).accessLock = some t ↔ (s.pc t).holds = some m
  list : t ∈ (s.mutex m).waitingThreadsList ↔ s.listObj t = some m
  waits_of_list : s.listObj t = some m → (s.pc t).waits = some m
  waits : (s.pc t).waits = some m → s.listObj t = some m ∨ (s.mutex m).ownerThread = some t
  notOwner : (s.mutex m).ownerThread = some t → s.listObj t ≠ some m
  believes : s.believes t m → (s.mutex m).ownerThread = some t
  gives : (s.pc t).gives = some m → s.believes t m = false
  owns : (s.pc t).owns = some m → (s.mutex m).ownerThread = some t
  stop : s.pc t = .stop m mutexMaxWait → (s.thread t).wakeThreadAfter = 0
  sleeps : (s.pc t).sleeps = some m → (s.thread t).wakeThreadAfter = 0 ∧
    ((s.thread t).permitRunning → (s.mutex m).ownerThread = some t)

/-- What holds of a mutex. -/
structure MutexOk (s : MutexState τ μ) (m : μ) : Prop where
  owned : (s.mutex m).mutexLocked ↔ (s.mutex m).ownerThread ≠ none
  waited : (s.mutex m).waitingThreadsList ≠ [] → (s.mutex m).mutexLocked
  nodup : (s.mutex m).waitingThreadsList.Nodup
  sorted : (s.mutex m).waitingThreadsList.Pairwise (s.ticket · < s.ticket ·)
  numbered : ∀ t ∈ (s.mutex m).waitingThreadsList, s.ticket t < s.nextTicket

/-- The invariant of all mutexes. -/
structure Inv (s : MutexState τ μ) : Prop where
  pair : ∀ t m, PairOk s t m
  mutex : ∀ m, MutexOk s m

/-- A thread that has to wait without limit has no deadline left, and one that gives up a mutex is
its owner, whether `klib_synch_mutex_release` checks it or not. -/
def MutexPc.Ready (s : MutexState τ μ) (t : τ) : MutexPc μ → Prop
  | .look m w => w = mutexMaxWait → (s.mutex m).mutexLocked → (s.mutex m).ownerThread ≠ some t →
      (s.thread t).wakeThreadAfter = 0
  | .handOver m disregardOwner => disregardOwner → (s.mutex m).ownerThread = some t
  | _ => True

/-- Every thread that takes a step of a call is ready for it. -/
def NoDeadline (s : MutexState τ μ) : MutexAct τ μ → Prop
  | .next t _ => (s.pc t).Ready s t
  | _ => True

instance (s : MutexState τ μ) (t : τ) (pc : MutexPc μ) : Decidable (pc.Ready s t) :=
  match pc with
  | .look _ _ => inferInstanceAs (Decidable (_ → _))
  | .handOver _ _ => inferInstanceAs (Decidable (_ → _))
  | .running | .acquire .. | .stop .. | .setDeadline .. | .unlock .. | .asleep .. | .awake ..
  | .resumed .. | .leave .. | .release .. => .isTrue trivial

instance (s : MutexState τ μ) (i : MutexAct τ μ) : Decidable (NoDeadline s i) :=
  match i with
  | .next t _ => inferInstanceAs (Decidable ((s.pc t).Ready s t))
  | .callAcquire .. | .callRelease .. | .considerThread .. | .otherWait .. => .isTrue trivial

variable {s s' : MutexState τ μ} {t : τ} {m : μ} {w now : Nat}

attribute [local grind =] MutexPc.holds MutexPc.waits MutexPc.sleeps MutexPc.owns MutexPc.gives

omit [DecidableEq μ] in
theorem MutexPc.waits_of_sleeps {pc : MutexPc μ} (h : pc.sleeps = some m) : pc.waits = some m := by
  unfold MutexPc.sleeps at h
  split at h <;> simp_all [MutexPc.waits]

section
omit [DecidableEq τ] [DecidableEq μ]

theorem Inv.start (thread : τ → Thread) : Inv (.start thread : MutexState τ μ) := by
  constructor
  · intro t m
    constructor <;> simp [MutexState.start, MutexPc.holds, MutexPc.waits, MutexPc.sleeps,
      MutexPc.owns, MutexPc.gives]
  · intro m
    constructor <;> simp [MutexState.start]

theorem MutexOk.congr (h : MutexOk s m)
    (hlocked : (s'.mutex m).mutexLocked = (s.mutex m).mutexLocked)
    (howner : (s'.mutex m).ownerThread = (s.mutex m).ownerThread)
    (hlist : (s'.mutex m).waitingThreadsList = (s.mutex m).waitingThreadsList)
    (hticket : ∀ t ∈ (s.mutex m).waitingThreadsList, s'.ticket t = s.ticket t)
    (hnext : s.nextTicket ≤ s'.nextTicket) : MutexOk s' m := by
  obtain ⟨g1, g2, g3, g4, g5⟩ := h
  constructor
  · rwa [hlocked, howner]
  · rwa [hlocked, hlist]
  · rwa [hlist]
  · rw [hlist]
    refine g4.imp_of_mem fun ha hb hab => ?_
    rwa [hticket _ ha, hticket _ hb]
  · rw [hlist]
    intro t ht
    rw [hticket t ht]
    exact (g5 t ht).trans_le hnext

/-- A step that leaves the mutexes, the lists and the numbers as they are. -/
theorem Inv.same (h : Inv s) (hpair : ∀ t m, PairOk s' t m)
    (hmutex : ∀ m, (s'.mutex m).mutexLocked = (s.mutex m).mutexLocked ∧
      (s'.mutex m).ownerThread = (s.mutex m).ownerThread ∧
      (s'.mutex m).waitingThreadsList = (s.mutex m).waitingThreadsList)
    (hticket : s'.ticket = s.ticket) (hnext : s'.nextTicket = s.nextTicket) : Inv s' :=
  ⟨hpair, fun m => (h.mutex m).congr (hmutex m).1 (hmutex m).2.1 (hmutex m).2.2
    (fun t _ => by rw [hticket]) hnext.ge⟩

end

theorem Inv.lock {pc : MutexPc μ} (h : Inv s) (hs : s.lock t m pc = some s')
    (hold : (s.pc t).holds = none) (hnew : pc.holds = some m) (hwaits : pc.waits = (s.pc t).waits)
    (hgives : pc.gives = (s.pc t).gives) (howns : pc.owns = (s.pc t).owns)
    (hsleeps : pc.sleeps = none) (hstop : ∀ m w, pc ≠ .stop m w) : Inv s' := by
  simp only [MutexState.lock, Option.ite_none_right_eq_some, Option.some.injEq] at hs
  obtain ⟨hfree, rfl⟩ := hs
  refine h.same (fun u m' => ?_) (by grind -linarith) rfl rfl
  obtain ⟨g1, g2, g3, g4, g5, g6, g7, g8, g9, g10⟩ := h.pair u m'
  constructor <;> grind -linarith

/-- What a thread that asks for a mutex can find. -/
theorem look_cases (hs : s.look t m w = some s') :
    ((s.mutex m).ownerThread = some t ∧ s' = s.setPc t (.leave m .alreadyOwned)) ∨
    ((s.mutex m).mutexLocked = false ∧
      s' = (s.setMutex m fun x => { x with mutexLocked := true, ownerThread := some t }).setPc t
        (.leave m .acquired)) ∨
    s' = s.setPc t (.leave m .timeout) ∨
    ((s.mutex m).mutexLocked ∧ (s.mutex m).ownerThread ≠ some t ∧ s.listObj t = none ∧
      s' = (s.enqueue t m).setPc t (.stop m w)) := by
  unfold MutexState.look at hs
  grind -linarith

/-- A new number at the end of a list in order. -/
theorem pairwise_append_update {f : τ → Nat} {n : Nat} {l : List τ}
    (hl : l.Pairwise (f · < f ·)) (hn : ∀ u ∈ l, f u < n) (ht : t ∉ l) :
    (l ++ [t]).Pairwise (Function.update f t n · < Function.update f t n ·) := by
  have hsame : ∀ u ∈ l, Function.update f t n u = f u := by
    intro u hu
    exact Function.update_of_ne (by rintro rfl; exact ht hu) ..
  rw [List.pairwise_append]
  refine ⟨hl.imp_of_mem fun ha hb hab => ?_, List.pairwise_singleton .., fun u hu v hv => ?_⟩
  · rwa [hsame _ ha, hsame _ hb]
  · rw [List.mem_singleton] at hv
    rw [hv, hsame u hu, Function.update_self]
    exact hn u hu

theorem MutexOk.enqueue (h : MutexOk s m) (hlocked : (s.mutex m).mutexLocked)
    (ht : t ∉ (s.mutex m).waitingThreadsList) : MutexOk (s.enqueue t m) m := by
  obtain ⟨g1, g2, g3, g4, g5⟩ := h
  constructor
  · simpa [MutexState.enqueue] using g1
  · simp [MutexState.enqueue, hlocked]
  · simp only [MutexState.enqueue, MutexState.mutex_setMutex, if_true]
    exact List.nodup_append.mpr ⟨g3, by simp, by simp; grind⟩
  · simp only [MutexState.enqueue, MutexState.mutex_setMutex, if_true]
    exact pairwise_append_update g4 g5 ht
  · simp only [MutexState.enqueue, MutexState.mutex_setMutex, if_true, List.mem_append,
      List.mem_singleton, Function.update_apply]
    rintro u (hu | rfl)
    · have := g5 u hu
      split <;> omega
    · simp

theorem Inv.look (h : Inv s) (hpc : s.pc t = .look m w) (hs : s.look t m w = some s')
    (hno : (MutexPc.look m w).Ready s t) : Inv s' := by
  have ht := h.pair t m
  have hm := h.mutex m
  rcases look_cases hs with ⟨hown, rfl⟩ | ⟨hfree, rfl⟩ | rfl | ⟨hlocked, hown, hlist, rfl⟩
  · refine h.same (fun u m' => ?_) (fun _ => ⟨rfl, rfl, rfl⟩) rfl rfl
    obtain ⟨g1, g2, g3, g4, g5, g6, g7, g8, g9, g10⟩ := h.pair u m'
    constructor <;> grind -linarith
  · have howned := hm.owned
    refine ⟨fun u m' => ?_, fun m' => ?_⟩
    · obtain ⟨g1, g2, g3, g4, g5, g6, g7, g8, g9, g10⟩ := h.pair u m'
      constructor <;> grind -linarith
    · obtain ⟨g1, g2, g3, g4, g5⟩ := h.mutex m'
      constructor <;> grind -linarith
  · refine h.same (fun u m' => ?_) (fun _ => ⟨rfl, rfl, rfl⟩) rfl rfl
    obtain ⟨g1, g2, g3, g4, g5, g6, g7, g8, g9, g10⟩ := h.pair u m'
    constructor <;> grind -linarith
  · have hno' : w = mutexMaxWait → (s.thread t).wakeThreadAfter = 0 := fun hw =>
      hno hw hlocked hown
    have hnew : t ∉ (s.mutex m).waitingThreadsList := by simp [ht.list, hlist]
    refine ⟨fun u m' => ?_, fun m' => ?_⟩
    · obtain ⟨g1, g2, g3, g4, g5, g6, g7, g8, g9, g10⟩ := h.pair u m'
      constructor <;> simp only [MutexState.enqueue] <;> grind -linarith
    · by_cases e : m' = m
      · subst e
        exact (hm.enqueue hlocked hnew).congr rfl rfl rfl (fun _ _ => rfl) le_rfl
      · have hnew' : t ∉ (s.mutex m').waitingThreadsList := by simp [(h.pair t m').list, hlist]
        exact (h.mutex m').congr (by simp [MutexState.enqueue, e]) (by simp [MutexState.enqueue, e])
          (by simp [MutexState.enqueue, e])
          (fun u hu => Function.update_of_ne (by rintro rfl; exact hnew' hu) ..) (Nat.le_succ _)

theorem Inv.stop (h : Inv s) (hpc : s.pc t = .stop m w) :
    Inv ((s.setThread t Thread.stopThread).setPc t (.setDeadline m w)) := by
  refine h.same (fun u m' => ?_) (fun _ => ⟨rfl, rfl, rfl⟩) rfl rfl
  obtain ⟨g1, g2, g3, g4, g5, g6, g7, g8, g9, g10⟩ := h.pair u m'
  constructor <;> grind -linarith [Thread.stopThread]

theorem Inv.setDeadline {d : Nat} (h : Inv s) (hpc : s.pc t = .setDeadline m w)
    (hw : w ≠ mutexMaxWait) :
    Inv ((s.setThread t fun x => { x with wakeThreadAfter := d }).setPc t (.unlock m w)) := by
  refine h.same (fun u m' => ?_) (fun _ => ⟨rfl, rfl, rfl⟩) rfl rfl
  obtain ⟨g1, g2, g3, g4, g5, g6, g7, g8, g9, g10⟩ := h.pair u m'
  constructor <;> grind -linarith

theorem Inv.noDeadline (h : Inv s) (hpc : s.pc t = .setDeadline m mutexMaxWait) :
    Inv (s.setPc t (.unlock m mutexMaxWait)) := by
  refine h.same (fun u m' => ?_) (fun _ => ⟨rfl, rfl, rfl⟩) rfl rfl
  obtain ⟨g1, g2, g3, g4, g5, g6, g7, g8, g9, g10⟩ := h.pair u m'
  constructor <;> grind -linarith

theorem Inv.unlock (h : Inv s) (hpc : s.pc t = .unlock m w) :
    Inv ((s.setMutex m fun x => { x with accessLock := none }).setPc t (.asleep m w)) := by
  refine h.same (fun u m' => ?_) (by grind -linarith) rfl rfl
  have := (h.pair t m').lock
  obtain ⟨g1, g2, g3, g4, g5, g6, g7, g8, g9, g10⟩ := h.pair u m'
  constructor <;> grind -linarith

theorem Inv.asleep (h : Inv s) (hpc : s.pc t = .asleep m w)
    (hpermit : (s.thread t).permitRunning) : Inv (s.setPc t (.awake m w)) := by
  refine h.same (fun u m' => ?_) (fun _ => ⟨rfl, rfl, rfl⟩) rfl rfl
  obtain ⟨g1, g2, g3, g4, g5, g6, g7, g8, g9, g10⟩ := h.pair u m'
  constructor <;> grind -linarith

omit [DecidableEq μ] in
/-- `klib_list_remove` of a thread that waits. -/
theorem MutexOk.erase (h : MutexOk s m) (hmutex : (s'.mutex m).mutexLocked ∧
      (s'.mutex m).ownerThread ≠ none ∧
      (s'.mutex m).waitingThreadsList = (s.mutex m).waitingThreadsList.erase t)
    (hticket : s'.ticket = s.ticket) (hnext : s'.nextTicket = s.nextTicket) : MutexOk s' m := by
  obtain ⟨hlocked, howner, hlist⟩ := hmutex
  obtain ⟨g1, g2, g3, g4, g5⟩ := h
  constructor
  · simp [hlocked, howner]
  · exact fun _ => hlocked
  · rw [hlist]
    exact g3.erase t
  · rw [hlist, hticket]
    exact g4.sublist List.erase_sublist
  · rw [hlist, hticket, hnext]
    exact fun u hu => g5 u (List.mem_of_mem_erase hu)

theorem Inv.resume (h : Inv s) (hpc : s.pc t = .resumed m w) (hs : s.resume t m w = some s') :
    Inv s' := by
  simp only [MutexState.resume, Option.ite_none_right_eq_some] at hs
  obtain ⟨⟨hlocked, hlimit⟩, hs⟩ := hs
  split at hs
  next hown =>
    cases hs
    refine h.same (fun u m' => ?_) (fun _ => ⟨rfl, rfl, rfl⟩) rfl rfl
    obtain ⟨g1, g2, g3, g4, g5, g6, g7, g8, g9, g10⟩ := h.pair u m'
    constructor <;> grind -linarith
  next hown =>
    have hlist : s.listObj t = some m :=
      ((h.pair t m).waits (by rw [hpc]; rfl)).resolve_right hown
    simp only [MutexState.dequeue, hlist, Option.map_some, Option.some.injEq] at hs
    subst hs
    refine ⟨fun u m' => ?_, fun m' => ?_⟩
    · have hnd := (h.mutex m').nodup
      obtain ⟨g1, g2, g3, g4, g5, g6, g7, g8, g9, g10⟩ := h.pair u m'
      constructor <;> grind -linarith
    · by_cases e : m' = m
      · subst e
        refine (h.mutex m').erase (t := t) ?_ rfl rfl
        have := (h.mutex m').owned
        grind -linarith
      · exact (h.mutex m').congr (by simp [e]) (by simp [e]) (by simp [e]) (fun _ _ => rfl) le_rfl

theorem Inv.leave {res : SyncAcqResult} (h : Inv s) (hpc : s.pc t = .leave m res)
    (hs : s.leave t m res = some s') : Inv s' := by
  simp only [MutexState.leave] at hs
  have hlock := fun m' => (h.pair t m').lock
  split at hs
  next => cases hs
  next hok =>
    split at hs
    next hres =>
      cases hs
      refine h.same (fun u m' => ?_) (by grind -linarith) rfl rfl
      obtain ⟨g1, g2, g3, g4, g5, g6, g7, g8, g9, g10⟩ := h.pair u m'
      constructor <;> grind -linarith
    next hres =>
      cases hs
      have hown : (s.mutex m).ownerThread = some t := by
        refine (h.pair t m).owns ?_
        rw [hpc]
        cases res <;> simp_all [MutexPc.owns]
      refine h.same (fun u m' => ?_) (by grind -linarith) rfl rfl
      obtain ⟨g1, g2, g3, g4, g5, g6, g7, g8, g9, g10⟩ := h.pair u m'
      constructor <;> grind -linarith

theorem handOver_owner {d : Bool} (hok : d → (s.mutex m).ownerThread = some t)
    (hs : s.handOver t m d = some s') : (s.mutex m).ownerThread = some t := by
  simp only [MutexState.handOver, Option.ite_none_right_eq_some] at hs
  exact hs.1.2.elim hok id

/-- The owner gives the mutex to the thread that has waited longest, or to nobody. -/
theorem handOver_cases {d : Bool} (h : Inv s) (hown : (s.mutex m).ownerThread = some t)
    (hs : s.handOver t m d = some s') :
    ((s.mutex m).waitingThreadsList = [] ∧ s' = (s.setMutex m fun x =>
        { x with mutexLocked := false, ownerThread := none, accessLock := none }).setPc t .running) ∨
    ∃ u rest, (s.mutex m).waitingThreadsList = u :: rest ∧ s.listObj u = some m ∧
      s' = { ((s.setMutex m fun x => { x with
          ownerThread := some u, waitingThreadsList := rest, accessLock := none }).setThread u
            Thread.startThread).setPc t .running with
        listObj := Function.update s.listObj u none } := by
  simp only [MutexState.handOver, Option.ite_none_right_eq_some] at hs
  obtain ⟨-, hs⟩ := hs
  split at hs
  next hnil =>
    cases hs
    exact .inl ⟨hnil, rfl⟩
  next u rest hcons =>
    have hlist : s.listObj u = some m := (h.pair u m).list.1 (by simp [hcons])
    refine .inr ⟨u, rest, hcons, hlist, ?_⟩
    simp only [MutexState.dequeue, MutexState.listObj_setMutex, hlist, Option.map_some,
      Option.some.injEq] at hs
    subst hs
    simp [MutexState.setMutex, MutexState.setThread, MutexState.setPc, hcons]

theorem Inv.handOver {d : Bool} (h : Inv s) (hpc : s.pc t = .handOver m d)
    (hown : (s.mutex m).ownerThread = some t) (hs : s.handOver t m d = some s') : Inv s' := by
  have hlock := fun m' => (h.pair t m').lock
  have hgives := (h.pair t m).gives
  rcases handOver_cases h hown hs with ⟨hnil, rfl⟩ | ⟨u, rest, hcons, hlist, rfl⟩
  · refine ⟨fun v m' => ?_, fun m' => ?_⟩
    · obtain ⟨g1, g2, g3, g4, g5, g6, g7, g8, g9, g10⟩ := h.pair v m'
      constructor <;> grind -linarith
    · obtain ⟨g1, g2, g3, g4, g5⟩ := h.mutex m'
      constructor <;> grind -linarith
  · have hnd := (h.mutex m).nodup
    refine ⟨fun v m' => ?_, fun m' => ?_⟩
    · obtain ⟨g1, g2, g3, g4, g5, g6, g7, g8, g9, g10⟩ := h.pair v m'
      have hw := (h.pair u m).waits_of_list hlist
      have hsl : (s.pc v).sleeps = some m' → (s.pc v).waits = some m' := MutexPc.waits_of_sleeps
      constructor <;> grind -linarith [Thread.startThread]
    · by_cases e : m' = m
      · subst e
        refine (h.mutex m').erase (t := u) ?_ rfl rfl
        have := (h.mutex m').owned
        simp [hcons, this, hown]
      · exact (h.mutex m').congr (by simp [e]) (by simp [e]) (by simp [e]) (fun _ _ => rfl) le_rfl

theorem Inv.next (h : Inv s) (hok : NoDeadline s (.next t now)) (hs : s.next t now = some s') :
    Inv s' := by
  simp only [NoDeadline] at hok
  simp only [MutexState.next] at hs
  cases hpc : s.pc t with
  | running => simp [hpc] at hs
  | acquire m w =>
      simp only [hpc] at hs
      exact h.lock hs (by rw [hpc]; rfl) rfl (by rw [hpc]; rfl) (by rw [hpc]; rfl) (by rw [hpc]; rfl)
        rfl (by simp)
  | look m w =>
      simp only [hpc] at hs
      rw [hpc] at hok
      exact h.look hpc hs hok
  | stop m w =>
      simp only [hpc, Option.some.injEq] at hs
      exact hs ▸ h.stop hpc
  | setDeadline m w =>
      simp only [hpc] at hs
      split at hs
      next hw => cases hs; exact h.setDeadline hpc hw
      next hw =>
        cases hs
        obtain rfl := not_not.mp hw
        exact h.noDeadline hpc
  | unlock m w =>
      simp only [hpc, Option.some.injEq] at hs
      exact hs ▸ h.unlock hpc
  | asleep m w =>
      simp only [hpc, Option.ite_none_right_eq_some, Option.some.injEq] at hs
      exact hs.2 ▸ h.asleep hpc hs.1
  | awake m w =>
      simp only [hpc] at hs
      exact h.lock hs (by rw [hpc]; rfl) rfl (by rw [hpc]; rfl) (by rw [hpc]; rfl) (by rw [hpc]; rfl)
        rfl (by simp)
  | resumed m w =>
      simp only [hpc] at hs
      exact h.resume hpc hs
  | leave m res =>
      simp only [hpc] at hs
      exact h.leave hpc hs
  | release m d =>
      simp only [hpc] at hs
      exact h.lock hs (by rw [hpc]; rfl) rfl (by rw [hpc]; rfl) (by rw [hpc]; rfl) (by rw [hpc]; rfl)
        rfl (by simp)
  | handOver m d =>
      simp only [hpc] at hs
      rw [hpc] at hok
      exact h.handOver hpc (handOver_owner hok hs) hs

theorem Inv.step {i : MutexAct τ μ} (h : Inv s) (hok : NoDeadline s i) (hs : s.step i = some s') :
    Inv s' := by
  cases i with
  | callAcquire t m w =>
      simp only [MutexState.step, Option.ite_none_right_eq_some, Option.some.injEq] at hs
      obtain ⟨hpc, rfl⟩ := hs
      refine h.same (fun u m' => ?_) (fun _ => ⟨rfl, rfl, rfl⟩) rfl rfl
      obtain ⟨g1, g2, g3, g4, g5, g6, g7, g8, g9, g10⟩ := h.pair u m'
      constructor <;> grind -linarith
  | callRelease t m d =>
      simp only [MutexState.step, Option.ite_none_right_eq_some, Option.some.injEq] at hs
      obtain ⟨hpc, rfl⟩ := hs
      refine h.same (fun u m' => ?_) (fun _ => ⟨rfl, rfl, rfl⟩) rfl rfl
      obtain ⟨g1, g2, g3, g4, g5, g6, g7, g8, g9, g10⟩ := h.pair u m'
      constructor <;> grind -linarith
  | next t now => exact h.next hok hs
  | considerThread t now =>
      cases hs
      refine h.same (fun u m' => ?_) (fun _ => ⟨rfl, rfl, rfl⟩) rfl rfl
      obtain ⟨g1, g2, g3, g4, g5, g6, g7, g8, g9, g10⟩ := h.pair u m'
      constructor <;> grind -linarith [Thread.timedWake, Thread.shouldWake]
  | otherWait t d =>
      simp only [MutexState.step, Option.ite_none_right_eq_some, Option.some.injEq] at hs
      obtain ⟨hpc, rfl⟩ := hs
      refine h.same (fun u m' => ?_) (fun _ => ⟨rfl, rfl, rfl⟩) rfl rfl
      obtain ⟨g1, g2, g3, g4, g5, g6, g7, g8, g9, g10⟩ := h.pair u m'
      constructor <;> grind -linarith

/-! ### What mutexes are for -/

/-- What should hold of mutexes at any moment. -/
structure MutexSafe (s : MutexState τ μ) : Prop where
  locked : ∀ m, (s.mutex m).mutexLocked ↔ (s.mutex m).ownerThread ≠ none
  oneHolder : ∀ m t u, s.believes t m → s.believes u m → t = u
  /-- The threads in a list are in the order in which they queued. -/
  inOrder : ∀ m, (s.mutex m).waitingThreadsList.Pairwise (s.ticket · < s.ticket ·)
  /-- A thread that is in no wait, such as one that has been told of a timeout, is in no list. -/
  left : ∀ t, (s.pc t).waits = none → ∀ m, t ∉ (s.mutex m).waitingThreadsList
  /-- A thread that has waited without limit is the owner. -/
  resumed : ∀ t m, s.pc t = .awake m mutexMaxWait ∨ s.pc t = .resumed m mutexMaxWait →
    (s.mutex m).ownerThread = some t
  /-- The ASSERTs after `task_yield`. -/
  asserts : ∀ t m w, s.pc t = .resumed m w → (s.mutex m).mutexLocked ∧
    (w = mutexMaxWait → (s.mutex m).ownerThread = some t) ∧
    ((s.mutex m).ownerThread ≠ some t → s.listObj t = some m)
  assertLeave : ∀ t m, s.pc t = .leave m .acquired →
    (s.mutex m).mutexLocked ∧ (s.mutex m).ownerThread = some t

/-- A step that makes a waiting thread the owner takes the one that queued first. -/
def GrantsInOrder (s s' : MutexState τ μ) : Prop :=
  ∀ m, ∀ t ∈ (s.mutex m).waitingThreadsList, (s'.mutex m).ownerThread = some t →
    ∀ u ∈ (s.mutex m).waitingThreadsList, s.ticket t ≤ s.ticket u

omit [DecidableEq τ] [DecidableEq μ] in
theorem Inv.safe (h : Inv s) : MutexSafe s where
  locked m := (h.mutex m).owned
  oneHolder m t u ht hu := by
    have := ((h.pair t m).believes ht).symm.trans ((h.pair u m).believes hu)
    exact Option.some.inj this
  inOrder m := (h.mutex m).sorted
  left t ht m hm := by
    have := (h.pair t m).waits_of_list ((h.pair t m).list.1 hm)
    rw [ht] at this
    cases this
  resumed t m hpc := by
    refine (h.pair t m).owns ?_
    rcases hpc with hpc | hpc <;> simp [hpc, MutexPc.owns]
  asserts t m w hpc := by
    have hp := h.pair t m
    have hwaits := hp.waits (by rw [hpc]; rfl)
    refine ⟨?_, fun hw => hp.owns (by simp [hpc, MutexPc.owns, hw]), hwaits.resolve_right⟩
    rcases hwaits with hlist | hown
    · exact (h.mutex m).waited (List.ne_nil_of_mem (hp.list.2 hlist))
    · exact (h.mutex m).owned.2 (by simp [hown])
  assertLeave t m hpc := by
    have hown := (h.pair t m).owns (by rw [hpc]; rfl)
    exact ⟨(h.mutex m).owned.2 (by simp [hown]), hown⟩

theorem dequeue_owner (hs : s.dequeue t = some s') (m : μ) :
    (s'.mutex m).ownerThread = (s.mutex m).ownerThread := by
  obtain ⟨m', -, rfl⟩ := Option.map_eq_some_iff.mp hs
  by_cases e : m = m' <;> simp [e]

theorem leave_owner {res : SyncAcqResult} (hs : s.leave t m res = some s') (m' : μ) :
    (s'.mutex m').ownerThread = (s.mutex m').ownerThread := by
  simp only [MutexState.leave] at hs
  split at hs
  next => cases hs
  next => split at hs <;> (cases hs; by_cases e : m' = m <;> simp [e])

/-- The thread that takes a mutex over had queued for it first, or had not queued. -/
theorem Inv.next_grants (h : Inv s) (hok : NoDeadline s (.next t now))
    (hs : s.next t now = some s') : GrantsInOrder s s' := by
  intro m u hu hown v hv
  have hlist := (h.pair u m).list.1 hu
  have hwaits := (h.pair u m).waits_of_list hlist
  have hnot : (s.mutex m).ownerThread ≠ some u := fun e => (h.pair u m).notOwner e hlist
  have hsame : (s'.mutex m).ownerThread ≠ (s.mutex m).ownerThread := fun e => hnot (e ▸ hown)
  simp only [NoDeadline] at hok
  simp only [MutexState.next] at hs
  cases hpc : s.pc t with
  | look m' w =>
      simp only [hpc] at hs
      rcases look_cases hs with ⟨-, rfl⟩ | ⟨-, rfl⟩ | rfl | ⟨-, -, -, rfl⟩
      · exact absurd rfl hsame
      · by_cases e : m = m'
        · subst e
          have htu : t = u := by simpa using hown
          rw [← htu, hpc] at hwaits
          cases hwaits
        · simp [e] at hsame
      · exact absurd rfl hsame
      · by_cases e : m = m' <;> simp [MutexState.enqueue, e] at hsame
  | handOver m' d =>
      simp only [hpc] at hs
      rw [hpc] at hok
      rcases handOver_cases h (handOver_owner hok hs) hs with ⟨-, rfl⟩ | ⟨x, rest, hcons, -, rfl⟩
      · by_cases e : m = m'
        · simp [e] at hown
        · simp [e] at hsame
      · by_cases e : m = m'
        · subst e
          obtain rfl : x = u := by simpa using hown
          have hsorted := (h.mutex m).sorted
          rw [hcons, List.pairwise_cons] at hsorted
          rw [hcons, List.mem_cons] at hv
          rcases hv with rfl | hv
          · exact le_rfl
          · exact (hsorted.1 v hv).le
        · simp [e] at hsame
  | resumed m' w =>
      simp only [hpc, MutexState.resume, Option.ite_none_right_eq_some] at hs
      obtain ⟨-, hs⟩ := hs
      split at hs
      next => cases hs; exact absurd rfl hsame
      next =>
        obtain ⟨s₁, hs₁, rfl⟩ := Option.map_eq_some_iff.mp hs
        exact absurd (dequeue_owner hs₁ m) hsame
  | leave m' res =>
      simp only [hpc] at hs
      exact absurd (leave_owner hs m) hsame
  | _ =>
      simp only [hpc, MutexState.lock] at hs
      grind -linarith

theorem Inv.grants {i : MutexAct τ μ} (h : Inv s) (hok : NoDeadline s i)
    (hs : s.step i = some s') : GrantsInOrder s s' := by
  have hsame : (∀ m, (s'.mutex m).ownerThread = (s.mutex m).ownerThread) → GrantsInOrder s s' := by
    intro howner m t ht hown
    exact absurd ((h.pair t m).list.1 ht) ((h.pair t m).notOwner ((howner m).symm.trans hown))
  cases i with
  | callAcquire t m w | callRelease t m d | otherWait t d =>
      simp only [MutexState.step, Option.ite_none_right_eq_some, Option.some.injEq] at hs
      obtain ⟨-, rfl⟩ := hs
      exact hsame fun _ => rfl
  | considerThread t now =>
      cases hs
      exact hsame fun _ => rfl
  | next t now => exact h.next_grants hok hs

/-- In every interleaving in which threads wait without limit only with no deadline left, and mutexes
are released by their owners. -/
theorem mutex_safe {thread : τ → Thread}
    (h : Reach MutexState.step NoDeadline (.start thread : MutexState τ μ) s) :
    MutexSafe s ∧ ∀ i s', NoDeadline s i → s.step i = some s' → GrantsInOrder s s' := by
  have hinv : Inv s := h.invariant (.start thread) fun _ _ _ h hok hs => h.step hok hs
  exact ⟨hinv.safe, fun i s' hok hs => hinv.grants hok hs⟩

/-! ### Two threads and two mutexes -/

/-- A call of one thread, with so many steps of it. -/
def calls (i : MutexAct Bool Bool) (t : Bool) (steps now : Nat) : List (MutexAct Bool Bool) :=
  i :: List.replicate steps (.next t now)

/-- The second thread holds the first mutex, and the first thread waits for it. -/
def waitsFor (w : Nat) : List (MutexAct Bool Bool) :=
  calls (.callAcquire true false 0) true 3 0 ++ calls (.callAcquire false false w) false 5 0

/-- The second thread gives the first mutex up. -/
def givesUp : List (MutexAct Bool Bool) := calls (.callRelease true false false) true 2 0

/-- Both threads are running. -/
abbrev twoRunning : MutexState Bool Bool := .start fun _ => { permitRunning := true }

theorem mutex_safe_granted : ∃ s : MutexState Bool Bool,
    Reach MutexState.step NoDeadline twoRunning s ∧ s.pc false = .resumed false mutexMaxWait ∧
      (s.mutex false).ownerThread = some false := by
  obtain ⟨s, hs, hpc⟩ := Reach.exists_of_run
    (by decide : ∃ s ∈ run MutexState.step NoDeadline twoRunning
      (waitsFor mutexMaxWait ++ givesUp ++ List.replicate 2 (.next false 0)),
      s.pc false = .resumed false mutexMaxWait)
  exact ⟨s, hs, hpc, (mutex_safe hs).1.resumed _ _ (.inr hpc)⟩

/-- The first thread gets the first mutex within its limit of one microsecond, and then waits without
limit for the second.  Its first deadline passes, and the scheduler ends the second wait. -/
theorem mutex_safe_fails : ¬ ∀ s : MutexState Bool Bool,
    Reach MutexState.step anyInput twoRunning s → MutexSafe s := by
  intro h
  obtain ⟨s, hs, hpc, hown⟩ := Reach.exists_of_run
    (by decide : ∃ s ∈ run MutexState.step anyInput twoRunning
      (waitsFor 1 ++ givesUp ++ List.replicate 4 (.next false 0) ++
        calls (.callAcquire true true 0) true 3 0 ++
        calls (.callAcquire false true mutexMaxWait) false 5 0 ++
        .considerThread false 2000 :: List.replicate 2 (.next false 2000)),
      s.pc false = .resumed true mutexMaxWait ∧ (s.mutex true).ownerThread = some true)
  have := (h s hs).resumed false true (.inr hpc)
  rw [hown] at this
  cases this

end Azalea.Proc.Mutexes
