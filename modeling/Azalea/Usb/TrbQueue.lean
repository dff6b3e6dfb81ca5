import Azalea.Usb.TrbRing

/-!
# Usb — one call of `queue_trb`

`trb_generic_ring::queue_trb` (`devices/usb/controllers/usb_xhci_trb_ring.cpp`) as the other functions of
the ring classes call it: the whole call is one step.  It takes the same slot and leaves the same ring as
the call that `TrbRing.step` makes in several steps (`queueTrb_reach`).
-/

namespace Azalea.Usb
open Azalea.Runs

/-- What `queue_trb` reads and writes of a `trb_generic_ring`. -/
structure GenericRing where
  ring : Nat → Trb
  enqueuePtr : Nat
  cycleBit : Bool

/-- `trb_generic_ring::trb_generic_ring`. -/
def GenericRing.new (maxEntries : Nat) (base : BitVec 64) : GenericRing where
  ring k := if k = maxEntries - 1 then .populateLink base false false else .populate
  enqueuePtr := 0
  cycleBit := true

/-- `enqueue_ptr` and the cycle bit, moved on from the slot that has been filled. -/
def GenericRing.advance (r : GenericRing) : GenericRing :=
  if (r.ring (r.enqueuePtr + 1)).trbType = Trb.link then
    { r with enqueuePtr := 0, cycleBit := !r.cycleBit }
  else
    { r with enqueuePtr := r.enqueuePtr + 1 }

/-- `queue_trb`: the `segment_position` and the ring, if the TRB is taken. -/
def queueTrb (kind : RingKind) (r : GenericRing) (newTrb : Option Trb) : Option (Nat × GenericRing) :=
  match newTrb with
  | none => none
  | some t =>
      if ¬ kind.isValidTrb t then none
      else if (r.ring r.enqueuePtr).cycle then none
      else
        some (r.enqueuePtr, GenericRing.advance
          { r with ring := Function.update r.ring r.enqueuePtr (t.setCycle r.cycleBit) })

/-- The ring of a system in which `queue_trb` takes several steps. -/
def TrbRing.generic (s : TrbRing) : GenericRing := ⟨s.ring, s.enqueuePtr, s.cycleBit⟩

section

variable {kind : RingKind} {n : Nat} {r r' : GenericRing} {t : Trb} {posn : Nat}

theorem GenericRing.advance_ring : r.advance.ring = r.ring := by
  unfold advance
  split <;> rfl

theorem queueTrb_eq_some_iff :
    queueTrb kind r (some t) = some (posn, r') ↔
      kind.isValidTrb t ∧ (r.ring r.enqueuePtr).cycle = false ∧ posn = r.enqueuePtr ∧
        r' = GenericRing.advance
          { r with ring := Function.update r.ring r.enqueuePtr (t.setCycle r.cycleBit) } := by
  simp only [queueTrb, Bool.not_eq_true]
  cases kind.isValidTrb t <;> cases (r.ring r.enqueuePtr).cycle <;> simp [eq_comm]

theorem queueTrb_eq_none_iff :
    queueTrb kind r (some t) = none ↔
      kind.isValidTrb t = false ∨ (r.ring r.enqueuePtr).cycle = true := by
  simp only [queueTrb]
  cases kind.isValidTrb t <;> cases (r.ring r.enqueuePtr).cycle <;> simp

/-- Both words of the slot are written, one after the other. -/
theorem update_words (ring : Nat → Trb) (k : Nat) (t : Trb) :
    Function.update (Function.update ring k { ring k with reserved1 := t.reserved1 }) k
      { Function.update ring k { ring k with reserved1 := t.reserved1 } k with
        reserved2 := t.reserved2 } = Function.update ring k t := by
  rw [Function.update_self, Function.update_idem]

theorem proceed_reach {s₀ s s' : TrbRing} (h : Reach (TrbRing.step kind n) anyInput s₀ s)
    (hs : s.proceed n = some s') : Reach (TrbRing.step kind n) anyInput s₀ s' :=
  .step QueueInput.proceed h trivial hs

/-- A TRB that finds its slot free is copied to it. -/
theorem copy_reach {s₀ s : TrbRing} (h : Reach (TrbRing.step kind n) anyInput s₀ s)
    (hpc : s.pc = .check t) (hcycle : (s.ring s.enqueuePtr).cycle = false) :
    ∃ s', Reach (TrbRing.step kind n) anyInput s₀ s' ∧ s'.pc = .advance ∧
      s'.generic = { s.generic with
        ring := Function.update s.ring s.enqueuePtr (t.setCycle s.cycleBit) } := by
  have hfree : s.proceed n = some { s with pc := .copyFirst (t.setCycle s.cycleBit) } := by
    simp only [TrbRing.proceed, hpc, hcycle, Bool.false_eq_true, if_false]
  have hfirst := proceed_reach (proceed_reach h hfree) rfl
  refine ⟨_, proceed_reach hfirst rfl, rfl, ?_⟩
  simp only [TrbRing.generic, update_words]

theorem proceed_advance {s : TrbRing} (hpc : s.pc = .advance) :
    s.proceed n = some { s with
      enqueuePtr := s.generic.advance.enqueuePtr
      cycleBit := s.generic.advance.cycleBit
      pc := .leave true } := by
  simp only [TrbRing.proceed, hpc]
  by_cases hlink : (s.ring (s.enqueuePtr + 1)).trbType = Trb.link
  · rw [show s.generic.advance = ⟨s.ring, 0, !s.cycleBit⟩ from if_pos hlink]
    exact if_pos hlink
  · rw [show s.generic.advance = ⟨s.ring, s.enqueuePtr + 1, s.cycleBit⟩ from if_neg hlink]
    exact if_neg hlink

/-- The steps of a call leave what the call in one step leaves. -/
theorem queueTrb_reach {s : TrbRing} (newTrb : Option Trb) (hidle : s.pc = .idle) :
    ∃ s', Reach (TrbRing.step kind n) anyInput s s' ∧
      s'.pc = .leave (queueTrb kind s.generic newTrb).isSome ∧
      s'.generic = ((queueTrb kind s.generic newTrb).map Prod.snd).getD s.generic := by
  cases newTrb with
  | none =>
      refine ⟨{ s with pc := .leave false }, .step (.call none) .refl trivial ?_, rfl, rfl⟩
      exact if_pos hidle
  | some t =>
      have hcall : s.step kind n (.call (some t)) =
          some { s with pc := if kind.isValidTrb t then .check t else .leave false } := if_pos hidle
      by_cases hvalid : kind.isValidTrb t = true
      swap
      · rw [queueTrb_eq_none_iff.mpr (.inl (Bool.eq_false_iff.mpr hvalid))]
        exact ⟨_, .step _ .refl trivial hcall, by simp only [hvalid]; rfl, rfl⟩
      rw [if_pos hvalid] at hcall
      have hcheck : Reach (TrbRing.step kind n) anyInput s { s with pc := .check t } :=
        .step (.call (some t)) .refl trivial hcall
      cases hcycle : (s.ring s.enqueuePtr).cycle with
      | true =>
          have hfull : TrbRing.proceed n { s with pc := .check t } = some { s with
              refusedFree := s.refusedFree || s.queued.length < s.consumed.length + (n - 1)
              pc := .leave false } := by
            simp only [TrbRing.proceed, hcycle, if_true]
          rw [queueTrb_eq_none_iff (r := s.generic) |>.mpr (.inr hcycle)]
          exact ⟨_, proceed_reach hcheck hfull, rfl, rfl⟩
      | false =>
          rw [queueTrb_eq_some_iff (r := s.generic) |>.mpr ⟨hvalid, hcycle, rfl, rfl⟩]
          obtain ⟨s', hcopied, hpc, hgeneric⟩ := copy_reach hcheck rfl hcycle
          refine ⟨_, proceed_reach hcopied (proceed_advance hpc), rfl, ?_⟩
          have hring : s'.generic.advance.ring = s'.ring := GenericRing.advance_ring
          calc (⟨s'.ring, s'.generic.advance.enqueuePtr, s'.generic.advance.cycleBit⟩ : GenericRing)
              = s'.generic.advance := by rw [← hring]
            _ = _ := congrArg GenericRing.advance hgeneric

/-- The slot after `k` in a ring of `n` entries, with the link skipped. -/
def nextSlot (n k : Nat) : Nat := if k + 2 < n then k + 1 else 0

theorem nextSlot_lt {k : Nat} (hn : 1 < n) : nextSlot n k + 1 < n := by
  unfold nextSlot
  split <;> omega

/-- A ring of `n` entries between two calls: the link is in the last and nowhere else, and `enqueue_ptr`
is before it. -/
structure GenericRing.Ok (n : Nat) (r : GenericRing) : Prop where
  enqueuePtr : r.enqueuePtr + 1 < n
  link : (r.ring (n - 1)).trbType = Trb.link
  others : ∀ k, k + 1 < n → (r.ring k).trbType ≠ Trb.link

theorem GenericRing.Ok.new {base : BitVec 64} (hn : 1 < n) : (GenericRing.new n base).Ok n where
  enqueuePtr := hn
  link := by
    simp only [GenericRing.new, if_true]
    exact Trb.trbType_populateLink
  others k hk := by
    have hne : k ≠ n - 1 := by omega
    simp only [GenericRing.new, if_neg hne]
    decide

/-- The link is met exactly after the last slot. -/
theorem GenericRing.Ok.advance_eq (h : r.Ok n) :
    r.advance = ⟨r.ring, nextSlot n r.enqueuePtr,
      if r.enqueuePtr + 2 < n then r.cycleBit else !r.cycleBit⟩ := by
  have hptr := h.enqueuePtr
  simp only [GenericRing.advance, nextSlot]
  by_cases hnext : r.enqueuePtr + 2 < n
  · rw [if_neg (h.others _ hnext), if_pos hnext, if_pos hnext]
  · have hlast : r.enqueuePtr + 1 = n - 1 := by omega
    rw [if_pos (hlast ▸ h.link), if_neg hnext, if_neg hnext]

/-- A TRB that is no link is put in the slot of `enqueue_ptr`. -/
theorem GenericRing.Ok.put (h : r.Ok n) (ht : t.trbType ≠ Trb.link) :
    GenericRing.Ok n { r with ring := Function.update r.ring r.enqueuePtr t } := by
  have hptr := h.enqueuePtr
  refine ⟨hptr, ?_, ?_⟩
  · simp only [Function.update_of_ne (by omega : n - 1 ≠ r.enqueuePtr), h.link]
  · intro k hk
    by_cases heq : k = r.enqueuePtr
    · simpa only [heq, Function.update_self] using ht
    · simpa only [Function.update_of_ne heq] using h.others k hk

/-- What a call that takes the TRB does to a ring. -/
theorem GenericRing.Ok.queueTrb_some (h : r.Ok n) (hq : queueTrb kind r (some t) = some (posn, r')) :
    posn = r.enqueuePtr ∧ r'.Ok n ∧ r'.enqueuePtr = nextSlot n r.enqueuePtr ∧
      r'.ring = Function.update r.ring r.enqueuePtr (t.setCycle r.cycleBit) ∧
      r'.cycleBit = if r.enqueuePtr + 2 < n then r.cycleBit else !r.cycleBit := by
  obtain ⟨hvalid, -, rfl, rfl⟩ := queueTrb_eq_some_iff.mp hq
  have hput := h.put (t := t.setCycle r.cycleBit) (by
    rw [Trb.trbType_setCycle]
    exact RingKind.not_link hvalid)
  rw [hput.advance_eq]
  have hlt : nextSlot n r.enqueuePtr + 1 < n := nextSlot_lt (by have := h.enqueuePtr; omega)
  exact ⟨rfl, ⟨hlt, hput.link, hput.others⟩, rfl, rfl, rfl⟩

end

end Azalea.Usb
