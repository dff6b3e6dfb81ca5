import Mathlib.Data.Nat.ModEq
import Azalea.Usb.TrbQueue

/-!
# Usb — control transfers

`trb_transfer_ring::queue_ctrl_transfer` (`devices/usb/controllers/usb_xhci_trb_ring.cpp`): the setup stage,
the data stages and the status stage are given to `queue_trb` one after the other, and what it says is
looked at for the last of them only.  So a transfer is queued as a whole or not at all exactly when it is
rejected at once, when all of it fits, or when `queue_trb` takes none of it (`queueCtrlTransfer_iff`).
-/

namespace Azalea.Usb

/-- The bit is at the same place in a setup and in a data stage. -/
def Trb.clearInterruptOnComplete (t : Trb) : Trb :=
  { t with reserved2 := t.reserved2 &&& ~~~ BitVec.twoPow 64 37 }

/-- The arguments of `queue_ctrl_transfer`; of the array of data stages, the element at each index. -/
structure ControlTransfer where
  setupTrb : Option Trb
  dataTrbs : Option (Nat → Trb)
  statusTrb : Option Trb
  numDataTrbs : BitVec 32

namespace ControlTransfer

/-- The parameters are invalid. -/
def rejected (segmentSize : BitVec 16) (c : ControlTransfer) : Bool :=
  (c.dataTrbs.isSome && c.numDataTrbs = 0) || (c.dataTrbs.isNone && c.numDataTrbs ≠ 0) ||
    c.setupTrb.isNone || c.statusTrb.isNone || segmentSize.setWidth 32 - 3 < c.numDataTrbs

/-- The data stages, as they are queued. -/
def dataStages (c : ControlTransfer) : List Trb :=
  match c.dataTrbs with
  | none => []
  | some dataTrbs => (List.range c.numDataTrbs.toNat).map fun i => (dataTrbs i).clearInterruptOnComplete

/-- The stages in the order in which they belong on the ring. -/
def stages (c : ControlTransfer) : List Trb :=
  (c.setupTrb.map Trb.clearInterruptOnComplete).toList ++ c.dataStages ++ c.statusTrb.toList

end ControlTransfer

/-- A call of `queue_trb` whose result is not looked at. -/
def GenericRing.queued (kind : RingKind) (r : GenericRing) (newTrb : Trb) : GenericRing :=
  ((queueTrb kind r (some newTrb)).map Prod.snd).getD r

/-- What `queue_ctrl_transfer` returns and leaves. -/
structure ControlOutcome where
  result : Bool
  generic : GenericRing
  trbPhysAddr : BitVec 64

/-- `queue_ctrl_transfer`.  `posn` is what the variable of that name happens to hold before it is set. -/
def queueCtrlTransfer (segmentSize : BitVec 16) (trbRingBasePhys : BitVec 64) (r : GenericRing)
    (c : ControlTransfer) (posn : Nat) (trbPhysAddr : BitVec 64) : ControlOutcome :=
  match c.rejected segmentSize, c.setupTrb, c.statusTrb with
  | false, some setupTrb, some statusTrb =>
      let r := r.queued .transfer setupTrb.clearInterruptOnComplete
      let r := c.dataStages.foldl (GenericRing.queued .transfer) r
      match queueTrb .transfer r (some statusTrb) with
      | some (posn, r) => ⟨true, r, trbRingBasePhys + BitVec.ofNat 64 (16 * posn)⟩
      | none => ⟨false, r, trbRingBasePhys + BitVec.ofNat 64 (16 * posn)⟩
  | _, _, _ => ⟨false, r, trbPhysAddr⟩

/-- The slot that comes `k` after the slot `p` in a ring of `n` entries, the last of which is the link. -/
def slotAfter (n p k : Nat) : Nat := (p + k) % (n - 1)

/-- The TRBs are in consecutive slots from `p` on, up to their cycle bits. -/
def PlacedFrom (n p : Nat) (ring : Nat → Trb) (ts : List Trb) : Prop :=
  ts.length < n ∧ ∀ k, ∀ h : k < ts.length, ∃ cycle, ring (slotAfter n p k) = ts[k].setCycle cycle

/-- The transfer is on the ring and the caller is told where its status stage is; or nothing has
happened. -/
def AllOrNothing (segmentSize : BitVec 16) (base : BitVec 64) (r : GenericRing) (c : ControlTransfer)
    (o : ControlOutcome) : Prop :=
  (o.result = true →
    PlacedFrom segmentSize.toNat r.enqueuePtr o.generic.ring c.stages ∧
      o.trbPhysAddr = base + BitVec.ofNat 64
        (16 * slotAfter segmentSize.toNat r.enqueuePtr (c.stages.length - 1))) ∧
    (o.result = false → o.generic = r)

/-- Each TRB is one for the ring, and there is a free slot for each. -/
def Fits (kind : RingKind) (n : Nat) (r : GenericRing) (ts : List Trb) : Prop :=
  (∀ t ∈ ts, kind.isValidTrb t) ∧ ts.length < n ∧
    ∀ k < ts.length, (r.ring (slotAfter n r.enqueuePtr k)).cycle = false

/-- The ring is full, or no TRB is one for it. -/
def NoneTaken (kind : RingKind) (r : GenericRing) (ts : List Trb) : Prop :=
  (r.ring r.enqueuePtr).cycle = true ∨ ∀ t ∈ ts, kind.isValidTrb t = false

section

variable {kind : RingKind} {n p k : Nat} {r : GenericRing} {t : Trb} {ts : List Trb}

/-- How many of the TRBs are taken. -/
def taken (kind : RingKind) : GenericRing → List Trb → Nat
  | _, [] => 0
  | r, t :: ts => (if (queueTrb kind r (some t)).isSome then 1 else 0) + taken kind (r.queued kind t) ts

theorem taken_le (kind : RingKind) (r : GenericRing) (ts : List Trb) : taken kind r ts ≤ ts.length := by
  induction ts generalizing r with
  | nil => exact le_rfl
  | cons t ts ih =>
      have h := ih (r.queued kind t)
      simp only [taken, List.length_cons]
      split <;> omega

theorem taken_singleton : taken kind r [t] = if (queueTrb kind r (some t)).isSome then 1 else 0 := rfl

theorem taken_append (kind : RingKind) (r : GenericRing) (ts ts' : List Trb) :
    taken kind r (ts ++ ts') =
      taken kind r ts + taken kind (ts.foldl (GenericRing.queued kind) r) ts' := by
  induction ts generalizing r with
  | nil => simp [taken]
  | cons t ts ih =>
      rw [List.cons_append, taken, taken, ih, List.foldl_cons]
      omega

theorem slotAfter_zero (hp : p + 1 < n) : slotAfter n p 0 = p :=
  Nat.mod_eq_of_lt (by omega)

theorem slotAfter_nextSlot (hp : p + 1 < n) : slotAfter n (nextSlot n p) k = slotAfter n p (k + 1) := by
  unfold slotAfter nextSlot
  split
  next => rw [Nat.add_right_comm, Nat.add_assoc]
  next hlast =>
    have hn : n - 1 = p + 1 := by omega
    rw [hn, Nat.zero_add, Nat.add_comm k 1, ← Nat.add_assoc, Nat.add_mod_left]

/-- Fewer slots on than the ring has, one is never back at the start. -/
theorem slotAfter_injective {j : Nat} (hj : j + 1 < n) (hk : k + 1 < n)
    (h : slotAfter n p j = slotAfter n p k) : j = k := by
  have hmod : Nat.ModEq (n - 1) j k := Nat.ModEq.add_left_cancel' p h
  rwa [Nat.ModEq, Nat.mod_eq_of_lt (by omega), Nat.mod_eq_of_lt (by omega)] at hmod

/-- One TRB: refused, and the ring is as it was; or put in the next slot. -/
theorem GenericRing.Ok.queued_cases (kind : RingKind) (h : r.Ok n) (t : Trb) :
    ((queueTrb kind r (some t)).isSome = false ∧ r.queued kind t = r ∧
        (kind.isValidTrb t = false ∨ (r.ring r.enqueuePtr).cycle = true)) ∨
      ((queueTrb kind r (some t)).isSome = true ∧ kind.isValidTrb t = true ∧
        (r.ring r.enqueuePtr).cycle = false ∧ (r.queued kind t).Ok n ∧
        (r.queued kind t).enqueuePtr = nextSlot n r.enqueuePtr ∧
        (r.queued kind t).ring = Function.update r.ring r.enqueuePtr (t.setCycle r.cycleBit)) := by
  unfold GenericRing.queued
  cases hq : queueTrb kind r (some t) with
  | none => exact .inl ⟨rfl, rfl, queueTrb_eq_none_iff.mp hq⟩
  | some q =>
      obtain ⟨posn, r'⟩ := q
      obtain ⟨-, hok, hptr, hring, -⟩ := h.queueTrb_some hq
      obtain ⟨hvalid, hcycle, -, -⟩ := queueTrb_eq_some_iff.mp hq
      exact .inr ⟨rfl, hvalid, hcycle, hok, hptr, hring⟩

theorem GenericRing.Ok.foldl_queued (kind : RingKind) (h : r.Ok n) (ts : List Trb) :
    (ts.foldl (GenericRing.queued kind) r).Ok n ∧
      (ts.foldl (GenericRing.queued kind) r).enqueuePtr =
        slotAfter n r.enqueuePtr (taken kind r ts) := by
  induction ts generalizing r with
  | nil => exact ⟨h, (slotAfter_zero h.enqueuePtr).symm⟩
  | cons t ts ih =>
      rw [List.foldl_cons, taken]
      rcases h.queued_cases kind t with ⟨hsome, hsame, -⟩ | ⟨hsome, -, -, hok, hptr, -⟩
      · rw [hsome, hsame, if_neg Bool.false_ne_true, Nat.zero_add]
        exact ih h
      · rw [hsome, if_pos rfl, Nat.add_comm 1, ← slotAfter_nextSlot h.enqueuePtr, ← hptr]
        exact ih hok

theorem GenericRing.Ok.taken_eq_zero_iff (h : r.Ok n) (ts : List Trb) :
    taken kind r ts = 0 ↔ NoneTaken kind r ts := by
  induction ts with
  | nil => exact iff_of_true rfl (.inr fun _ hmem => absurd hmem List.not_mem_nil)
  | cons t ts ih =>
      rw [taken]
      simp only [NoneTaken, List.forall_mem_cons] at ih ⊢
      rcases h.queued_cases kind t with ⟨hsome, hsame, hrefused⟩ | ⟨hsome, hvalid, hcycle, -⟩
      · rw [hsome, hsame, if_neg Bool.false_ne_true, Nat.zero_add, ih]
        rcases hrefused with hinvalid | hfull
        · simp only [hinvalid, true_and]
        · simp only [hfull, true_or]
      · simp [hsome, hvalid, hcycle]

theorem GenericRing.Ok.foldl_eq_self (h : r.Ok n) {ts : List Trb} (hnone : taken kind r ts = 0) :
    ts.foldl (GenericRing.queued kind) r = r := by
  induction ts with
  | nil => rfl
  | cons t ts ih =>
      rw [taken] at hnone
      rcases h.queued_cases kind t with ⟨hsome, hsame, -⟩ | ⟨hsome, -⟩
      · rw [hsome, hsame] at hnone
        rw [List.foldl_cons, hsame]
        exact ih (by simpa using hnone)
      · simp [hsome] at hnone

/-- The slot just filled is not come to again as long as no more TRBs are queued than the ring has
slots. -/
theorem slotAfter_succ_ne (hp : p + 1 < n) (hk : k + 2 < n) : slotAfter n p (k + 1) ≠ p := by
  intro heq
  have h := slotAfter_injective hk (by omega) (heq.trans (slotAfter_zero hp).symm)
  omega

theorem GenericRing.Ok.taken_eq_length_iff (h : r.Ok n) (hlen : ts.length < n) :
    taken kind r ts = ts.length ↔ (∀ t ∈ ts, kind.isValidTrb t) ∧
      ∀ k < ts.length, (r.ring (slotAfter n r.enqueuePtr k)).cycle = false := by
  induction ts generalizing r with
  | nil => simp [taken]
  | cons t ts ih =>
      rw [List.length_cons] at hlen ⊢
      have hle := taken_le kind (r.queued kind t) ts
      rw [taken, List.forall_mem_cons, Nat.forall_lt_succ_left, slotAfter_zero h.enqueuePtr]
      rcases h.queued_cases kind t with
        ⟨hsome, -, hrefused⟩ | ⟨hsome, hvalid, hcycle, hok, hptr, hring⟩
      · rw [hsome]
        refine iff_of_false (by simp; omega) ?_
        rintro ⟨⟨hvalid, -⟩, hfree, -⟩
        rcases hrefused with hinvalid | hfull
        · rw [hvalid] at hinvalid
          cases hinvalid
        · rw [hfull] at hfree
          cases hfree
      · have hrest := ih hok (by omega)
        rw [hptr, hring] at hrest
        have hsame : ∀ k < ts.length,
            Function.update r.ring r.enqueuePtr (t.setCycle r.cycleBit)
              (slotAfter n (nextSlot n r.enqueuePtr) k) = r.ring (slotAfter n r.enqueuePtr (k + 1)) := by
          intro k hk
          rw [slotAfter_nextSlot h.enqueuePtr]
          exact Function.update_of_ne (slotAfter_succ_ne h.enqueuePtr (by omega)) _ _
        rw [hsome, if_pos rfl, Nat.add_comm 1, Nat.add_right_cancel_iff, hrest]
        simp only [hvalid, hcycle, true_and]
        refine and_congr_right fun _ => forall₂_congr fun k hk => ?_
        rw [hsame k hk]

/-- Where the TRBs are if all are taken. -/
theorem GenericRing.Ok.placed (h : r.Ok n) (hlen : ts.length < n) (hall : taken kind r ts = ts.length) :
    (∀ k, ∀ hk : k < ts.length, ∃ cycle,
      (ts.foldl (GenericRing.queued kind) r).ring (slotAfter n r.enqueuePtr k) = ts[k].setCycle cycle) ∧
    ∀ j, (∀ k < ts.length, j ≠ slotAfter n r.enqueuePtr k) →
      (ts.foldl (GenericRing.queued kind) r).ring j = r.ring j := by
  induction ts generalizing r with
  | nil => exact ⟨fun k hk => absurd hk (Nat.not_lt_zero k), fun _ _ => rfl⟩
  | cons t ts ih =>
      rw [List.length_cons] at hlen hall
      have hle := taken_le kind (r.queued kind t) ts
      rw [taken] at hall
      rcases h.queued_cases kind t with ⟨hsome, -⟩ | ⟨hsome, -, -, hok, hptr, hring⟩
      · simp only [hsome, Bool.false_eq_true, if_false] at hall
        omega
      · rw [hsome, if_pos rfl] at hall
        obtain ⟨hplaced, hrest⟩ := ih hok (by omega) (by omega)
        simp only [hptr, slotAfter_nextSlot h.enqueuePtr] at hplaced hrest
        rw [List.foldl_cons]
        constructor
        · rintro (_ | k) hk
          · refine ⟨r.cycleBit, ?_⟩
            rw [slotAfter_zero h.enqueuePtr, hrest, hring, Function.update_self, List.getElem_cons_zero]
            intro k hk
            exact (slotAfter_succ_ne h.enqueuePtr (by omega)).symm
          · exact hplaced k (by simpa using hk)
        · intro j hj
          have hfirst := hj 0 (Nat.zero_lt_succ _)
          rw [slotAfter_zero h.enqueuePtr] at hfirst
          rw [hrest j fun k hk => hj (k + 1) (Nat.succ_lt_succ hk), hring]
          exact Function.update_of_ne hfirst _ _

/-- How far a ring with one slot besides the link has got: its slot is free, with a cycle bit of 0 to be
written or of 1, or it is not. -/
def stage (r : GenericRing) : Nat :=
  if (r.ring 0).cycle then 2 else if r.cycleBit then 1 else 0

theorem GenericRing.Ok.stage_add_taken_le (kind : RingKind) (h : r.Ok 2) (ts : List Trb) :
    stage r + taken kind r ts ≤ stage (ts.foldl (GenericRing.queued kind) r) := by
  induction ts generalizing r with
  | nil => exact le_rfl
  | cons t ts ih =>
      have hptr : r.enqueuePtr = 0 := by have := h.enqueuePtr; omega
      rw [List.foldl_cons, taken, GenericRing.queued]
      cases hq : queueTrb kind r (some t) with
      | none => exact (Nat.zero_add _).symm ▸ ih h
      | some q =>
          obtain ⟨-, hok, -, hring, hbit⟩ := h.queueTrb_some hq
          obtain ⟨-, hcycle, -, -⟩ := queueTrb_eq_some_iff.mp hq
          have hless : stage r + 1 ≤ stage q.2 := by
            rw [hptr] at hcycle hring hbit
            simp only [stage, hring, hbit, hcycle, Function.update_self, Trb.cycle_setCycle]
            cases r.cycleBit <;> decide
          have hrest := ih hok
          simp only [Option.isSome_some, if_true, Option.map_some, Option.getD_some]
          omega

/-- A ring that is as it was has taken nothing, if what it was given was not enough to get round. -/
theorem GenericRing.Ok.taken_eq_zero (h : r.Ok n) (hlen : 2 < n → ts.length + 1 < n)
    (hsame : ts.foldl (GenericRing.queued kind) r = r) : taken kind r ts = 0 := by
  have hptr := h.enqueuePtr
  rcases Nat.lt_or_ge 2 n with hn | hn
  · have hback := (h.foldl_queued kind ts).2
    have hle := taken_le kind r ts
    rw [hsame] at hback
    have := hlen hn
    exact slotAfter_injective (by omega) (by omega) (hback.symm.trans (slotAfter_zero hptr).symm)
  · obtain rfl : n = 2 := by omega
    have hstage := h.stage_add_taken_le kind ts
    rw [hsame] at hstage
    omega

theorem GenericRing.Ok.fits_iff (h : r.Ok n) :
    Fits kind n r ts ↔ ts.length < n ∧ taken kind r ts = ts.length := by
  unfold Fits
  rw [and_left_comm]
  exact and_congr_right fun hlen => (h.taken_eq_length_iff hlen).symm

end

section

variable {segmentSize : BitVec 16} {base addr : BitVec 64} {r : GenericRing} {c : ControlTransfer}
  {posn : Nat}

/-- What is not rejected.  In a ring of two entries there is no limit: `segment_size - 3` is negative,
and the comparison takes it for a large number. -/
theorem ControlTransfer.of_not_rejected (h : c.rejected segmentSize = false) :
    ∃ setupTrb statusTrb, c.setupTrb = some setupTrb ∧ c.statusTrb = some statusTrb ∧
      (2 < segmentSize.toNat → c.dataStages.length + 3 ≤ segmentSize.toNat) := by
  obtain ⟨setupTrb, dataTrbs, statusTrb, num⟩ := c
  simp only [rejected, Bool.or_eq_false_iff, Option.isNone_eq_false_iff, decide_eq_false_iff_not] at h
  obtain ⟨⟨⟨⟨-, -⟩, hsetup⟩, hstatus⟩, hnum⟩ := h
  obtain ⟨setup, rfl⟩ := Option.isSome_iff_exists.mp hsetup
  obtain ⟨status, rfl⟩ := Option.isSome_iff_exists.mp hstatus
  refine ⟨setup, status, rfl, rfl, fun hsize => ?_⟩
  have hdata : (dataStages ⟨some setup, dataTrbs, some status, num⟩).length ≤ num.toNat := by
    cases dataTrbs <;> simp [dataStages]
  have hmax := segmentSize.isLt
  rw [BitVec.not_lt, BitVec.le_def, BitVec.toNat_sub, BitVec.toNat_setWidth] at hnum
  have h3 : (3 : BitVec 32).toNat = 3 := rfl
  rw [h3] at hnum
  omega

theorem queueCtrlTransfer_eq {setupTrb statusTrb : Trb} (hrejected : c.rejected segmentSize = false)
    (hsetup : c.setupTrb = some setupTrb) (hstatus : c.statusTrb = some statusTrb) :
    queueCtrlTransfer segmentSize base r c posn addr =
      (let r := (setupTrb.clearInterruptOnComplete :: c.dataStages).foldl (GenericRing.queued .transfer) r
      match queueTrb .transfer r (some statusTrb) with
      | some (posn, r) => ⟨true, r, base + BitVec.ofNat 64 (16 * posn)⟩
      | none => ⟨false, r, base + BitVec.ofNat 64 (16 * posn)⟩) := by
  simp only [queueCtrlTransfer, hrejected, hsetup, hstatus, List.foldl_cons]

/-- No two slots of a ring have one address. -/
theorem address_injective {p j k : Nat} (segmentSize : BitVec 16) (h : r.Ok segmentSize.toNat)
    (heq : base + BitVec.ofNat 64 (16 * slotAfter segmentSize.toNat p j) =
      base + BitVec.ofNat 64 (16 * slotAfter segmentSize.toNat p k)) :
    slotAfter segmentSize.toNat p j = slotAfter segmentSize.toNat p k := by
  have hmax := segmentSize.isLt
  have hptr := h.enqueuePtr
  have hj : slotAfter segmentSize.toNat p j < segmentSize.toNat - 1 := Nat.mod_lt _ (by omega)
  have hk : slotAfter segmentSize.toNat p k < segmentSize.toNat - 1 := Nat.mod_lt _ (by omega)
  have hnat := congrArg BitVec.toNat ((BitVec.add_right_inj base).mp heq)
  rw [BitVec.toNat_ofNat, BitVec.toNat_ofNat, Nat.mod_eq_of_lt (by omega),
    Nat.mod_eq_of_lt (by omega)] at hnat
  omega

/-- The exact condition under which a control transfer is queued as a whole or not at all. -/
theorem queueCtrlTransfer_iff (h : r.Ok segmentSize.toNat) :
    AllOrNothing segmentSize base r c (queueCtrlTransfer segmentSize base r c posn addr) ↔
      c.rejected segmentSize = true ∨ Fits .transfer segmentSize.toNat r c.stages ∨
        NoneTaken .transfer r c.stages := by
  cases hrejected : c.rejected segmentSize with
  | true =>
      simp [AllOrNothing, queueCtrlTransfer, hrejected]
  | false =>
      obtain ⟨setupTrb, statusTrb, hsetup, hstatus, hlen⟩ := c.of_not_rejected hrejected
      let front := setupTrb.clearInterruptOnComplete :: c.dataStages
      have hstages : c.stages = front ++ [statusTrb] := by
        simp [ControlTransfer.stages, hsetup, hstatus, front]
      have hsize : c.stages.length = front.length + 1 := by simp [hstages]
      have hle := taken_le .transfer r front
      obtain ⟨hok, hptr⟩ := h.foldl_queued .transfer front
      have htaken := taken_append .transfer r front [statusTrb]
      rw [← hstages, taken_singleton] at htaken
      rw [queueCtrlTransfer_eq hrejected hsetup hstatus, h.fits_iff, ← h.taken_eq_zero_iff, htaken,
        or_iff_right Bool.false_ne_true]
      dsimp only
      cases hq : queueTrb .transfer (front.foldl (GenericRing.queued .transfer) r) (some statusTrb) with
      | none =>
          simp only [AllOrNothing, Bool.false_eq_true, false_imp_iff, true_imp_iff, true_and,
            Option.isSome_none, if_false, Nat.add_zero]
          rw [or_iff_right (by omega)]
          exact ⟨h.taken_eq_zero (by simp only [List.length_cons]; omega), h.foldl_eq_self⟩
      | some q =>
          obtain ⟨statusPosn, r'⟩ := q
          obtain ⟨hposn, -, -, -⟩ := hok.queueTrb_some hq
          rw [hptr] at hposn
          simp only [AllOrNothing, Option.isSome_some, if_true, true_imp_iff, reduceCtorEq,
            false_imp_iff, and_true]
          rw [hposn, hsize, Nat.add_sub_cancel, or_false, Nat.add_right_cancel_iff]
          constructor
          · rintro ⟨hplaced, haddr⟩
            have hlt : front.length + 1 < segmentSize.toNat := hsize ▸ hplaced.1
            exact ⟨hlt, slotAfter_injective (by omega) hlt (address_injective segmentSize h haddr)⟩
          · rintro ⟨hlt, hall⟩
            have hplaced := (h.placed (by omega : c.stages.length < _) (by
              rw [htaken, hq, hsize, hall]
              rfl)).1
            have hr' : c.stages.foldl (GenericRing.queued .transfer) r = r' := by
              rw [hstages, List.foldl_append, List.foldl_cons, List.foldl_nil, GenericRing.queued, hq]
              rfl
            rw [hr'] at hplaced
            exact ⟨⟨by omega, hplaced⟩, by rw [hall]⟩

/-- Whatever the outcome, the ring can be used again. -/
theorem GenericRing.Ok.queueCtrlTransfer (h : r.Ok segmentSize.toNat) :
    (queueCtrlTransfer segmentSize base r c posn addr).generic.Ok segmentSize.toNat := by
  unfold Usb.queueCtrlTransfer
  split
  next setupTrb statusTrb _ _ _ =>
    have hok := (h.foldl_queued .transfer
      (setupTrb.clearInterruptOnComplete :: c.dataStages)).1
    rw [List.foldl_cons] at hok
    dsimp only
    split
    next hq => exact (hok.queueTrb_some hq).2.1
    next => exact hok
  next => exact h

end

/-- A setup and a status stage, with no data. -/
def noDataTransfer : ControlTransfer := ⟨some ⟨0, 2 <<< 42⟩, none, some ⟨0, 4 <<< 42⟩, 0⟩

theorem queueCtrlTransfer_iff_no_data :
    (queueCtrlTransfer 4 0 (.new 4 0) noDataTransfer 0 0).result = true ∧
      AllOrNothing 4 0 (.new 4 0) noDataTransfer
        (queueCtrlTransfer 4 0 (.new 4 0) noDataTransfer 0 0) := by
  refine ⟨by decide +kernel, (queueCtrlTransfer_iff (.new (by decide))).mpr (.inr (.inl ?_))⟩
  unfold Fits
  decide +kernel

/-- The second such transfer on a ring of four entries: `false` is returned, and the setup stage has been
put in the last free slot. -/
theorem queueCtrlTransfer_half_queued :
    ¬ ∀ segmentSize base r c posn addr, GenericRing.Ok segmentSize.toNat r →
      AllOrNothing segmentSize base r c (queueCtrlTransfer segmentSize base r c posn addr) := by
  intro h
  have hok : GenericRing.Ok (4 : BitVec 16).toNat (.new 4 0) := .new (by decide)
  have hsecond := h 4 0 _ noDataTransfer 0 0 (@GenericRing.Ok.queueCtrlTransfer 4 0 0 _ noDataTransfer 0
    hok)
  have hptr := congrArg GenericRing.enqueuePtr (hsecond.2 (by decide +kernel))
  exact absurd hptr (by decide +kernel)

end Azalea.Usb
