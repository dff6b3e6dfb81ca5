import Mathlib.Data.List.Nodup
import Azalea.Usb.ConfigReading

/-!
# Usb — the endpoint contexts

`device_core::configuration_set` (`devices/usb/usb_xhci_device.cpp`), which fills the contexts of the
endpoints of the active configuration and lets the controller configure them.

* `configurationSet_iff`: for a configuration that was interpreted with success, only endpoint contexts and
  the table of transfer rings are written, the kernel is not stopped, and the command tells of just the
  described endpoints, or the core has failed, if and only if the endpoints are usable.
-/

namespace Azalea.Usb

/-! ### The endpoints -/

namespace EndpointDescriptor

variable (e : EndpointDescriptor)

/-- `attributes.transfer_type`: 0 is control, 1 isochronous, 2 bulk, 3 interrupt. -/
def transferType : UInt8 := e.attributes &&& 3

def inDirection : Bool := (e.endpointAddress &&& 0x80) != 0

def addr : Nat := (e.endpointAddress &&& 0x0f).toNat

def flagNumber : Nat := e.addr * 2 + if e.inDirection then 1 else 0

/-- An endpoint for control in one direction only. -/
def refused : Bool := e.transferType == 0 && e.inDirection

/-- The type that the context of an endpoint should have: `EP_TYPES::CONTROL`, `INTERRUPT_IN` or
`INTERRUPT_OUT`. -/
def endpointType : UInt8 := if e.transferType = 0 then 4 else if e.inDirection then 7 else 3

def averageTrbLength : UInt16 := if e.transferType = 0 then 8 else e.maxPacketSize

end EndpointDescriptor

/-- `endpoint_context`; the cycle state is the lowest bit of the pointer. -/
structure EndpointContext where
  endpointState : UInt8
  mult : UInt8
  maxPrimaryStreams : UInt8
  linearStreamArray : UInt8
  interval : UInt8
  maxEsitPayloadHi : UInt8
  errorCount : UInt8
  endpointType : UInt8
  hostInitiateDisable : UInt8
  maxBurstSize : UInt8
  maxPacketSize : UInt16
  trDequeuePhysPtr : UInt64
  averageTrbLength : UInt16
  maxEsitPayloadLo : UInt16

/-- `device_core`: of its input context, the flags and the contexts, which stand one after the other.  The
pair of endpoint `n` has the places `2 * n` and `2 * n + 1`; the first two are those of the slot and of the
default control endpoint.  A transfer ring is the number of those made before it. -/
structure DeviceCore where
  addContextFlags : BitVec 32
  contexts : Nat → EndpointContext
  transferRings : Nat → Bool → Option Nat
  ringsMade : Nat
  currentState : CoreState

namespace DeviceCore

variable (base : Nat → UInt64) (core : DeviceCore) (e : EndpointDescriptor)

/-- The core with a new ring for the endpoint, and its flag. -/
def ringed : DeviceCore where
  addContextFlags := core.addContextFlags ||| 1#32 <<< e.flagNumber
  contexts := core.contexts
  transferRings := fun addr in_ =>
    if addr = e.addr ∧ in_ = e.inDirection then some core.ringsMade else core.transferRings addr in_
  ringsMade := core.ringsMade + 1
  currentState := core.currentState

/-- The endpoint has a new ring and its flag.  A ring that it has already is destroyed, for which the kernel is
stopped (`INCOMPLETE_CODE` in `~trb_generic_ring`). -/
def withRing : Option DeviceCore :=
  if (core.transferRings e.addr e.inDirection).isSome then none else some (core.ringed e)

/-- What is written to a context. -/
def contextOf (ring : Nat) (endpointType : UInt8) (averageTrbLength : UInt16) : EndpointContext where
  endpointState := 0
  mult := 0
  maxPrimaryStreams := 0
  linearStreamArray := 1
  interval := e.serviceInterval
  maxEsitPayloadHi := 0
  errorCount := 0
  endpointType := endpointType
  hostInitiateDisable := 0
  maxBurstSize := 0
  maxPacketSize := e.maxPacketSize
  trDequeuePhysPtr := base ring ||| 1
  averageTrbLength := averageTrbLength
  maxEsitPayloadLo := 0

/-- The context of the endpoint is written, with its ring.  Nothing is returned if this is not the context
of an endpoint. -/
def write (endpointType : UInt8) (averageTrbLength : UInt16) : Option DeviceCore := do
  let ring ← core.transferRings e.addr e.inDirection
  if 2 ≤ e.flagNumber then
    some { core with
      contexts := fun k =>
        if k = e.flagNumber then contextOf base e ring endpointType averageTrbLength else core.contexts k }
  else none

/-- `switch (endpoint->attributes.transfer_type)`, and whether the result is still good.  For isochronous and
bulk endpoints the kernel is stopped. -/
def setUp : Option (DeviceCore × Bool) :=
  if e.transferType = 0 then
    if e.inDirection then some (core, false)
    else (core.write base e 4 8).map fun core => (core, true)
  else if e.transferType = 3 then
    (core.write base e (if e.inDirection then 7 else 3) e.maxPacketSize).map fun core => (core, true)
  else none

/-- The body of the loops; at its end, it is asserted that the context has a ring. -/
def configureEndpoint (s : DeviceCore × Bool) (e : EndpointDescriptor) : Option (DeviceCore × Bool) := do
  let core ← s.1.withRing e
  let r ← core.setUp base e
  if (r.1.contexts e.flagNumber).trDequeuePhysPtr ≠ 0 then some (r.1, s.2 && r.2) else none

/-- The loop over the endpoints of an interface. -/
def configureInterface (s : DeviceCore × Bool) (i : DeviceInterface) : Option (DeviceCore × Bool) :=
  (List.range i.desc.numEndpoints.toNat).foldlM (fun s j => do
    let e ← i.endpoints[j]?
    configureEndpoint base s e) s

/-- The loop over the interfaces. -/
def configureInterfaces (s : DeviceCore × Bool) (config : InterpretedConfig) : Option (DeviceCore × Bool) :=
  (List.range config.desc.numInterfaces.toNat).foldlM (fun s k => do
    let i ← config.interfaces[k]?
    configureInterface base s i) s

/-- `configuration_set`, and whether a command was issued; it is, if the controller accepts it. -/
def configurationSet (config : InterpretedConfig) (accepted : Bool) : Option (DeviceCore × Bool) := do
  let s ← configureInterfaces base ({ core with addContextFlags := 1 }, true) config
  if s.2 && accepted then some (s.1, true) else some ({ s.1 with currentState := .failed }, false)

end DeviceCore

/-- The endpoints that a configuration describes. -/
def InterpretedConfig.endpoints (config : InterpretedConfig) : List EndpointDescriptor :=
  config.interfaces.flatMap (·.endpoints)

/-- Nothing else was written than the contexts of endpoints and the table of transfer rings. -/
structure Inside (core core' : DeviceCore) : Prop where
  contexts : ∀ k, k < 2 ∨ 32 ≤ k → core'.contexts k = core.contexts k
  transferRings : ∀ addr in_, 16 ≤ addr → core'.transferRings addr in_ = core.transferRings addr in_

/-- The flags are those of the described endpoints; the context of each has its type, its packet size and
the base of its transfer ring, with cycle state 1; and the ring is that of no other. -/
structure Described (base : Nat → UInt64) (core : DeviceCore) (es : List EndpointDescriptor) : Prop where
  flags : ∀ k, core.addContextFlags.getLsbD k = true ↔ k = 0 ∨ ∃ e ∈ es, e.flagNumber = k
  contexts : ∀ e ∈ es, (core.contexts e.flagNumber).endpointType = e.endpointType ∧
    (core.contexts e.flagNumber).maxPacketSize = e.maxPacketSize ∧
    ∃ ring, core.transferRings e.addr e.inDirection = some ring ∧
      (core.contexts e.flagNumber).trDequeuePhysPtr = base ring ||| 1
  own : ∀ e ∈ es, ∀ e' ∈ es,
    core.transferRings e.addr e.inDirection = core.transferRings e'.addr e'.inDirection →
      e.flagNumber = e'.flagNumber

/-- The call writes only where it should and does not stop the kernel; either a command is issued for just
the described endpoints, or the core has failed. -/
def Configured (base : Nat → UInt64) (core : DeviceCore) (config : InterpretedConfig) (accepted : Bool) :
    Prop :=
  ∃ core' issued, core.configurationSet base config accepted = some (core', issued) ∧ Inside core core' ∧
    (issued = true → Described base core' config.endpoints) ∧
    (issued = false → core'.currentState = .failed)

/-- Each endpoint is for control or interrupts, and not number 0 if it is not refused; the context of one
that is refused has a ring from before; and no endpoint has been given a ring already or is described twice. -/
structure Usable (core : DeviceCore) (es : List EndpointDescriptor) : Prop where
  supported : ∀ e ∈ es, e.transferType = 0 ∨ e.transferType = 3
  addressed : ∀ e ∈ es, e.refused = false → e.addr ≠ 0
  refused : ∀ e ∈ es, e.refused = true → (core.contexts e.flagNumber).trDequeuePhysPtr ≠ 0
  ringless : ∀ e ∈ es, core.transferRings e.addr e.inDirection = none
  distinct : (es.map EndpointDescriptor.flagNumber).Nodup

open DeviceCore

section
variable {base : Nat → UInt64} {core core₀ core' : DeviceCore} {e e' : EndpointDescriptor}
  {es done : List EndpointDescriptor} {s s' : DeviceCore × Bool} {accepted : Bool}

/-! ### One endpoint -/

theorem addr_lt (e : EndpointDescriptor) : e.addr < 16 := by
  rw [EndpointDescriptor.addr, UInt8.toNat_and]
  exact Nat.lt_succ_of_le Nat.and_le_right

theorem flagNumber_lt (e : EndpointDescriptor) : e.flagNumber < 32 := by
  have haddr := addr_lt e
  rw [EndpointDescriptor.flagNumber]
  split <;> omega

theorem two_le_flagNumber : 2 ≤ e.flagNumber ↔ e.addr ≠ 0 := by
  rw [EndpointDescriptor.flagNumber]
  split <;> omega

theorem flagNumber_inj : e.flagNumber = e'.flagNumber ↔
    e.addr = e'.addr ∧ e.inDirection = e'.inDirection := by
  rw [EndpointDescriptor.flagNumber, EndpointDescriptor.flagNumber]
  cases e.inDirection <;> cases e'.inDirection <;> simp <;> omega

/-- The core with the endpoint set up. -/
def DeviceCore.withContext (base : Nat → UInt64) (core : DeviceCore) (e : EndpointDescriptor) : DeviceCore :=
  { core.ringed e with
    contexts := fun k =>
      if k = e.flagNumber then contextOf base e core.ringsMade e.endpointType e.averageTrbLength
      else core.contexts k }

theorem transferRings_ringed : (core.ringed e).transferRings e.addr e.inDirection = some core.ringsMade :=
  if_pos ⟨rfl, rfl⟩

theorem write_eq (endpointType : UInt8) (averageTrbLength : UInt16) (h : 2 ≤ e.flagNumber) :
    (core.ringed e).write base e endpointType averageTrbLength =
      some { core.ringed e with
        contexts := fun k =>
          if k = e.flagNumber then contextOf base e core.ringsMade endpointType averageTrbLength
          else core.contexts k } := by
  rw [write, transferRings_ringed]
  exact if_pos h

theorem write_none (endpointType : UInt8) (averageTrbLength : UInt16) (h : ¬ 2 ≤ e.flagNumber) :
    (core.ringed e).write base e endpointType averageTrbLength = none := by
  rw [write, transferRings_ringed]
  exact if_neg h

theorem or_one_ne_zero (x : UInt64) : x ||| 1 ≠ 0 := by
  intro h
  have hbit : (x ||| 1).toBitVec.getLsbD 0 = true := by
    rw [UInt64.toBitVec_or, BitVec.getLsbD_or]
    exact Bool.or_true _
  rw [h] at hbit
  exact Bool.false_ne_true hbit

theorem withRing_eq (h : core.transferRings e.addr e.inDirection = none) :
    core.withRing e = some (core.ringed e) := by
  rw [withRing, h]
  rfl

theorem withRing_none (h : core.transferRings e.addr e.inDirection ≠ none) : core.withRing e = none :=
  if_pos (Option.isSome_iff_ne_none.2 h)

/-- An endpoint that is refused gets a ring, but no context. -/
theorem configureEndpoint_refused (h : e.refused = true) :
    configureEndpoint base s e =
      if s.1.transferRings e.addr e.inDirection = none ∧ (s.1.contexts e.flagNumber).trDequeuePhysPtr ≠ 0 then
        some (s.1.ringed e, false)
      else none := by
  obtain ⟨htype, hin⟩ := Bool.and_eq_true_iff.1 h
  by_cases hring : s.1.transferRings e.addr e.inDirection = none
  · rw [configureEndpoint, withRing_eq hring, Option.bind_eq_bind, Option.bind_some, setUp,
      if_pos (beq_iff_eq.1 htype), if_pos hin, Option.bind_eq_bind, Option.bind_some, Bool.and_false]
    exact if_congr (and_iff_right hring).symm rfl rfl
  · rw [configureEndpoint, withRing_none hring, if_neg fun h => hring h.1]
    rfl

/-- Any other is set up, if it can be. -/
theorem configureEndpoint_eq (h : e.refused = false) :
    configureEndpoint base s e =
      if s.1.transferRings e.addr e.inDirection = none ∧
          (e.transferType = 0 ∨ e.transferType = 3) ∧ 2 ≤ e.flagNumber then
        some (s.1.withContext base e, s.2)
      else none := by
  by_cases hring : s.1.transferRings e.addr e.inDirection = none
  case neg =>
    rw [configureEndpoint, withRing_none hring, if_neg fun h => hring h.1]
    rfl
  rw [configureEndpoint, withRing_eq hring, Option.bind_eq_bind, Option.bind_some, setUp]
  have hset : ((s.1.withContext base e).contexts e.flagNumber).trDequeuePhysPtr ≠ 0 := by
    rw [withContext]
    dsimp only
    rw [if_pos rfl]
    exact or_one_ne_zero _
  by_cases hcontrol : e.transferType = 0
  · have hout : e.inDirection = false := by
      rw [EndpointDescriptor.refused, hcontrol] at h
      exact h
    have htype : e.endpointType = 4 := if_pos hcontrol
    have havg : e.averageTrbLength = 8 := if_pos hcontrol
    rw [if_pos hcontrol, hout, if_neg Bool.false_ne_true]
    by_cases hpair : 2 ≤ e.flagNumber
    · rw [write_eq 4 8 hpair, if_pos ⟨hout ▸ hring, Or.inl hcontrol, hpair⟩, ← htype, ← havg]
      exact (if_pos hset).trans (by rw [Bool.and_true]; rfl)
    · rw [write_none 4 8 hpair, if_neg fun h => hpair h.2.2]
      rfl
  · rw [if_neg hcontrol]
    by_cases hinterrupt : e.transferType = 3
    · have htype : e.endpointType = if e.inDirection then 7 else 3 := if_neg hcontrol
      have havg : e.averageTrbLength = e.maxPacketSize := if_neg hcontrol
      rw [if_pos hinterrupt]
      by_cases hpair : 2 ≤ e.flagNumber
      · rw [← htype, ← havg, write_eq e.endpointType e.averageTrbLength hpair,
          if_pos ⟨hring, Or.inr hinterrupt, hpair⟩]
        exact (if_pos hset).trans (by rw [Bool.and_true]; rfl)
      · rw [write_none _ _ hpair, if_neg fun h => hpair h.2.2]
        rfl
    · rw [if_neg hinterrupt, if_neg fun h => h.2.1.elim hcontrol hinterrupt]
      rfl

/-! ### The endpoints so far -/

/-- After some endpoints: what the flags, the contexts and the rings are. -/
structure Holds (base : Nat → UInt64) (core₀ : DeviceCore) (done : List EndpointDescriptor)
    (s : DeviceCore × Bool) : Prop where
  result : s.2 = true ↔ ∀ e ∈ done, e.refused = false
  flags : ∀ k, s.1.addContextFlags.getLsbD k = true ↔ k = 0 ∨ ∃ e ∈ done, e.flagNumber = k
  pointer : ∀ k, (s.1.contexts k).trDequeuePhysPtr ≠ 0 ↔
    (core₀.contexts k).trDequeuePhysPtr ≠ 0 ∨ ∃ e ∈ done, e.refused = false ∧ e.flagNumber = k
  inside : Inside core₀ s.1
  ringless : ∀ e : EndpointDescriptor, s.1.transferRings e.addr e.inDirection = none ↔
    core₀.transferRings e.addr e.inDirection = none ∧ ∀ e' ∈ done, e'.flagNumber ≠ e.flagNumber
  ring : ∀ e ∈ done, ∃ ring < s.1.ringsMade, s.1.transferRings e.addr e.inDirection = some ring ∧
    (s.2 = true → ∃ e' ∈ done, e'.flagNumber = e.flagNumber ∧
      s.1.contexts e.flagNumber = contextOf base e' ring e'.endpointType e'.averageTrbLength)
  own : ∀ e ∈ done, ∀ e' ∈ done,
    s.1.transferRings e.addr e.inDirection = s.1.transferRings e'.addr e'.inDirection →
      e.flagNumber = e'.flagNumber

theorem holds_start (core : DeviceCore) :
    Holds base core [] ({ core with addContextFlags := 1 }, true) where
  result := iff_of_true rfl fun _ h => absurd h List.not_mem_nil
  flags k := by
    change (1#32).getLsbD k = true ↔ _
    rw [BitVec.getLsbD_one]
    simp
  pointer k := ⟨Or.inl, fun h => h.resolve_right fun ⟨_, h, _⟩ => absurd h List.not_mem_nil⟩
  inside := ⟨fun _ _ => rfl, fun _ _ _ => rfl⟩
  ringless _ := (and_iff_left fun _ h => absurd h List.not_mem_nil).symm
  ring _ h := absurd h List.not_mem_nil
  own _ h := absurd h List.not_mem_nil

theorem exists_mem_concat {p : EndpointDescriptor → Prop} :
    (∃ e' ∈ done ++ [e], p e') ↔ (∃ e' ∈ done, p e') ∨ p e := by
  simp [or_and_right, exists_or]

theorem forall_mem_concat {p : EndpointDescriptor → Prop} :
    (∀ e' ∈ done ++ [e], p e') ↔ (∀ e' ∈ done, p e') ∧ p e := by
  rw [List.forall_mem_append, List.forall_mem_singleton]

/-- The flag of one more endpoint. -/
theorem Holds.flags_ringed (h : Holds base core₀ done s) (k : Nat) :
    (s.1.ringed e).addContextFlags.getLsbD k = true ↔ k = 0 ∨ ∃ e' ∈ done ++ [e], e'.flagNumber = k := by
  have hbit : (1#32 <<< e.flagNumber).getLsbD k = (decide (e.flagNumber < 32) && decide (e.flagNumber = k)) :=
    BitVec.getLsbD_twoPow e.flagNumber k
  rw [ringed]
  dsimp only
  rw [BitVec.getLsbD_or, Bool.or_eq_true, h.flags, exists_mem_concat, or_assoc, hbit,
    decide_eq_true (flagNumber_lt e), Bool.true_and, decide_eq_true_iff]

/-- Another entry of the table stays. -/
theorem transferRings_other (h : e'.flagNumber ≠ e.flagNumber) :
    (core.ringed e).transferRings e'.addr e'.inDirection = core.transferRings e'.addr e'.inDirection :=
  if_neg fun hsame => h (flagNumber_inj.2 hsame)

theorem transferRings_same (h : e'.flagNumber = e.flagNumber) :
    (core.ringed e).transferRings e'.addr e'.inDirection = some core.ringsMade :=
  if_pos (flagNumber_inj.1 h)

theorem Holds.ringless_ringed (h : Holds base core₀ done s) (e₁ : EndpointDescriptor) :
    (s.1.ringed e).transferRings e₁.addr e₁.inDirection = none ↔
      core₀.transferRings e₁.addr e₁.inDirection = none ∧ ∀ e' ∈ done ++ [e], e'.flagNumber ≠ e₁.flagNumber := by
  rw [forall_mem_concat]
  by_cases hsame : e₁.flagNumber = e.flagNumber
  · rw [transferRings_same hsame]
    exact iff_of_false (Option.some_ne_none _) fun hall => hall.2.2 hsame.symm
  · rw [transferRings_other hsame, h.ringless, and_iff_left (Ne.symm hsame)]

theorem mem_done (h : e' ∈ done ++ [e]) (hne : e'.flagNumber ≠ e.flagNumber) : e' ∈ done :=
  (List.mem_append.1 h).resolve_right fun h =>
    hne (congrArg EndpointDescriptor.flagNumber (List.mem_singleton.1 h))

/-- One more endpoint has a ring of its own. -/
theorem Holds.own_ringed (h : Holds base core₀ done s) : ∀ e₁ ∈ done ++ [e], ∀ e₂ ∈ done ++ [e],
    (s.1.ringed e).transferRings e₁.addr e₁.inDirection =
      (s.1.ringed e).transferRings e₂.addr e₂.inDirection → e₁.flagNumber = e₂.flagNumber := by
  -- An older ring is not the one that was made last.
  have hold : ∀ e₁ ∈ done, e₁.flagNumber ≠ e.flagNumber →
      (s.1.ringed e).transferRings e₁.addr e₁.inDirection ≠ some s.1.ringsMade := by
    intro e₁ hmem hne heq
    obtain ⟨ring, hlt, hring, -⟩ := h.ring e₁ hmem
    rw [transferRings_other hne, hring] at heq
    exact absurd (Option.some.inj heq) (Nat.ne_of_lt hlt)
  intro e₁ h₁ e₂ h₂ heq
  by_cases hs₁ : e₁.flagNumber = e.flagNumber
  · by_cases hs₂ : e₂.flagNumber = e.flagNumber
    · exact hs₁.trans hs₂.symm
    · rw [transferRings_same hs₁] at heq
      exact absurd heq.symm (hold e₂ (mem_done h₂ hs₂) hs₂)
  · have hmem : e₁ ∈ done := mem_done h₁ hs₁
    by_cases hs₂ : e₂.flagNumber = e.flagNumber
    · rw [transferRings_same hs₂] at heq
      exact absurd heq (hold e₁ hmem hs₁)
    · rw [transferRings_other hs₁, transferRings_other hs₂] at heq
      exact h.own e₁ hmem e₂ (mem_done h₂ hs₂) heq

theorem Inside.ringed (h : Inside core₀ core) : Inside core₀ (core.ringed e) where
  contexts := h.contexts
  transferRings addr in_ haddr := by
    have hother : ¬ (addr = e.addr ∧ in_ = e.inDirection) := fun hsame => by
      have hlt := addr_lt e
      omega
    exact (if_neg hother).trans (h.transferRings addr in_ haddr)

/-- After one that is refused. -/
theorem Holds.refused (h : Holds base core₀ done s) (hrefused : e.refused = true) :
    Holds base core₀ (done ++ [e]) (s.1.ringed e, false) where
  result := iff_of_false Bool.false_ne_true fun hall => by
    rw [hall e (List.mem_append_right _ (List.mem_singleton_self e))] at hrefused
    exact Bool.false_ne_true hrefused
  flags := h.flags_ringed
  pointer k := by
    rw [exists_mem_concat, hrefused]
    exact (h.pointer k).trans (or_congr_right ⟨Or.inl, fun h => h.resolve_right fun h => by cases h.1⟩)
  inside := h.inside.ringed
  ringless := h.ringless_ringed
  ring e₁ h₁ := by
    by_cases hsame : e₁.flagNumber = e.flagNumber
    · exact ⟨s.1.ringsMade, Nat.lt_succ_self _, transferRings_same hsame, fun h => by cases h⟩
    · obtain ⟨ring, hlt, hring, -⟩ := h.ring e₁ (mem_done h₁ hsame)
      exact ⟨ring, Nat.lt_succ_of_lt hlt, (transferRings_other hsame).trans hring, fun h => by cases h⟩
  own := h.own_ringed

/-- After one that is set up. -/
theorem Holds.setUp (h : Holds base core₀ done s) (hgood : e.refused = false) (hpair : 2 ≤ e.flagNumber) :
    Holds base core₀ (done ++ [e]) (s.1.withContext base e, s.2) where
  result := by
    rw [forall_mem_concat, h.result]
    exact ⟨fun h => ⟨h, hgood⟩, fun h => h.1⟩
  flags := h.flags_ringed
  pointer k := by
    rw [exists_mem_concat, withContext]
    dsimp only
    by_cases hk : k = e.flagNumber
    · rw [if_pos hk]
      exact iff_of_true (or_one_ne_zero _) (Or.inr (Or.inr ⟨hgood, hk.symm⟩))
    · rw [if_neg hk, h.pointer k]
      exact or_congr_right ⟨Or.inl, fun h => h.resolve_right fun h => hk h.2.symm⟩
  inside := by
    refine ⟨fun k hk => ?_, h.inside.ringed.transferRings⟩
    have hlt := flagNumber_lt e
    exact (if_neg (by omega)).trans (h.inside.contexts k hk)
  ringless := h.ringless_ringed
  ring e₁ h₁ := by
    by_cases hsame : e₁.flagNumber = e.flagNumber
    · exact ⟨s.1.ringsMade, Nat.lt_succ_self _, transferRings_same hsame, fun _ =>
        ⟨e, List.mem_append_right _ (List.mem_singleton_self e), hsame.symm, if_pos hsame⟩⟩
    · obtain ⟨ring, hlt, hring, hcontext⟩ := h.ring e₁ (mem_done h₁ hsame)
      refine ⟨ring, Nat.lt_succ_of_lt hlt, (transferRings_other hsame).trans hring, fun hok => ?_⟩
      obtain ⟨e', hmem', hflag, hcontext⟩ := hcontext hok
      exact ⟨e', List.mem_append_left _ hmem', hflag, (if_neg hsame).trans hcontext⟩
  own := h.own_ringed

/-- What one endpoint needs, after others. -/
def Ready (core₀ : DeviceCore) (done : List EndpointDescriptor) (e : EndpointDescriptor) : Prop :=
  (core₀.transferRings e.addr e.inDirection = none ∧ ∀ e' ∈ done, e'.flagNumber ≠ e.flagNumber) ∧
    if e.refused then (core₀.contexts e.flagNumber).trDequeuePhysPtr ≠ 0
    else (e.transferType = 0 ∨ e.transferType = 3) ∧ 2 ≤ e.flagNumber

theorem Holds.step_iff (h : Holds base core₀ done s) :
    (∃ s', configureEndpoint base s e = some s') ↔ Ready core₀ done e := by
  rw [Ready]
  cases hrefused : e.refused with
  | true =>
      have hpointer : (∀ e' ∈ done, e'.flagNumber ≠ e.flagNumber) →
          ((s.1.contexts e.flagNumber).trDequeuePhysPtr ≠ 0 ↔
            (core₀.contexts e.flagNumber).trDequeuePhysPtr ≠ 0) := fun hne =>
        (h.pointer e.flagNumber).trans (or_iff_left fun ⟨e', hmem, _, hflag⟩ => hne e' hmem hflag)
      rw [if_pos rfl, configureEndpoint_refused hrefused]
      by_cases hset : s.1.transferRings e.addr e.inDirection = none ∧
          (s.1.contexts e.flagNumber).trDequeuePhysPtr ≠ 0
      · have hring := (h.ringless e).1 hset.1
        rw [if_pos hset]
        exact iff_of_true ⟨_, rfl⟩ ⟨hring, (hpointer hring.2).1 hset.2⟩
      · rw [if_neg hset]
        exact iff_of_false (fun ⟨s', h⟩ => Option.some_ne_none s' h.symm) fun hready =>
          hset ⟨(h.ringless e).2 hready.1, (hpointer hready.1.2).2 hready.2⟩
  | false =>
      rw [if_neg Bool.false_ne_true, configureEndpoint_eq hrefused, ← h.ringless e]
      by_cases hgood : s.1.transferRings e.addr e.inDirection = none ∧
          (e.transferType = 0 ∨ e.transferType = 3) ∧ 2 ≤ e.flagNumber
      · rw [if_pos hgood]
        exact iff_of_true ⟨_, rfl⟩ hgood
      · rw [if_neg hgood]
        exact iff_of_false (fun ⟨s', h⟩ => Option.some_ne_none s' h.symm) hgood

theorem Holds.step (h : Holds base core₀ done s) (hstep : configureEndpoint base s e = some s') :
    Holds base core₀ (done ++ [e]) s' := by
  cases hrefused : e.refused with
  | true =>
      rw [configureEndpoint_refused hrefused] at hstep
      split at hstep
      · obtain rfl := Option.some.inj hstep
        exact h.refused hrefused
      · exact absurd hstep.symm (Option.some_ne_none s')
  | false =>
      rw [configureEndpoint_eq hrefused] at hstep
      split at hstep
      case isTrue hgood =>
        obtain rfl := Option.some.inj hstep
        exact h.setUp hrefused hgood.2.2
      case isFalse => exact absurd hstep.symm (Option.some_ne_none s')

/-! ### All endpoints -/

theorem Holds.run (h : Holds base core₀ done s) (hrun : es.foldlM (configureEndpoint base) s = some s') :
    Holds base core₀ (done ++ es) s' := by
  induction es generalizing done s with
  | nil =>
      obtain rfl := Option.some.inj hrun
      rw [List.append_nil]
      exact h
  | cons e es ih =>
      rw [List.foldlM_cons] at hrun
      obtain ⟨s₁, hstep, hrun⟩ := Option.bind_eq_some_iff.1 hrun
      rw [List.append_cons]
      exact ih (h.step hstep) hrun

theorem Holds.run_iff (h : Holds base core₀ done s) :
    (∃ s', es.foldlM (configureEndpoint base) s = some s') ↔
      ∀ k e, es[k]? = some e → Ready core₀ (done ++ es.take k) e := by
  induction es generalizing done s with
  | nil => exact iff_of_true ⟨s, rfl⟩ fun k e hget => absurd hget.symm (Option.some_ne_none e)
  | cons e es ih =>
      constructor
      · rintro ⟨s', hrun⟩ k e' hget
        rw [List.foldlM_cons] at hrun
        obtain ⟨s₁, hstep, hrun⟩ := Option.bind_eq_some_iff.1 hrun
        cases k with
        | zero =>
            obtain rfl := Option.some.inj hget
            rw [List.take_zero, List.append_nil]
            exact h.step_iff.1 ⟨s₁, hstep⟩
        | succ k =>
            rw [List.take_succ_cons, List.append_cons]
            exact (ih (h.step hstep)).1 ⟨s', hrun⟩ k e' hget
      · intro hready
        have hfirst := hready 0 e rfl
        rw [List.take_zero, List.append_nil] at hfirst
        obtain ⟨s₁, hstep⟩ := h.step_iff.2 hfirst
        obtain ⟨s', hrun⟩ := (ih (h.step hstep)).2 fun k e' hget => by
          have hlater := hready (k + 1) e' hget
          rw [List.take_succ_cons, List.append_cons] at hlater
          exact hlater
        refine ⟨s', ?_⟩
        rw [List.foldlM_cons, hstep]
        exact hrun

/-- The loops go over the endpoints, one by one. -/
theorem foldlM_range {α σ : Type} (f : σ → α → Option σ) (pre xs : List α) (s : σ) :
    (List.range' pre.length xs.length).foldlM (fun s k => do
      let x ← (pre ++ xs)[k]?
      f s x) s = xs.foldlM f s := by
  induction xs generalizing pre s with
  | nil => rfl
  | cons x xs ih =>
      rw [List.length_cons, List.range'_succ, List.foldlM_cons, List.foldlM_cons, getElem?_middle]
      refine congrArg _ (funext fun s => ?_)
      have hrest := ih (pre ++ [x]) s
      rw [List.length_append, List.length_singleton, ← List.append_cons] at hrest
      exact hrest

theorem foldlM_getElem? {α σ : Type} (f : σ → α → Option σ) (xs : List α) (s : σ) {n : Nat}
    (hn : xs.length = n) :
    (List.range n).foldlM (fun s k => do
      let x ← xs[k]?
      f s x) s = xs.foldlM f s := by
  rw [← hn, List.range_eq_range']
  exact foldlM_range f [] xs s

theorem foldlM_flatMap {α β σ : Type} (f : σ → β → Option σ) (g : α → List β) (xs : List α) (s : σ) :
    (xs.flatMap g).foldlM f s = xs.foldlM (fun s x => (g x).foldlM f s) s := by
  induction xs generalizing s with
  | nil => rfl
  | cons x xs ih =>
      rw [List.flatMap_cons, List.foldlM_append, List.foldlM_cons]
      exact congrArg _ (funext fun s => ih s)

theorem foldlM_congr {α σ : Type} {f g : σ → α → Option σ} {xs : List α} (s : σ)
    (h : ∀ x ∈ xs, ∀ s, f s x = g s x) : xs.foldlM f s = xs.foldlM g s := by
  induction xs generalizing s with
  | nil => rfl
  | cons x xs ih =>
      obtain ⟨hx, hxs⟩ := List.forall_mem_cons.1 h
      rw [List.foldlM_cons, List.foldlM_cons, hx]
      exact congrArg _ (funext fun s => ih s hxs)

/-! ### The main result -/

section
variable {config : InterpretedConfig} {raw : List UInt8} {n fuel : Nat}

/-- After an interpretation with success, the arrays are as long as the descriptors say. -/
theorem interpreted_lengths (h : interpretRawDescriptor raw n fuel = some (true, config)) :
    config.interfaces.length = config.desc.numInterfaces.toNat ∧ ∀ i ∈ config.interfaces, Exact i := by
  obtain ⟨desc, hparsed, hpos, -⟩ := numInterfaces_pos h
  obtain ⟨ds, k, -, hcomplete, hinterfaces, -, hdesc, hlength, -⟩ := read_of_interpreted hparsed hpos h
  refine ⟨hlength.trans (by rw [hdesc]), fun i hi => ?_⟩
  rw [hinterfaces] at hi
  rcases List.mem_append.1 hi with hi | hi
  · obtain ⟨group, hgroup, rfl⟩ := List.mem_map.1 hi
    exact hcomplete.2 group hgroup
  · rw [List.eq_of_mem_replicate hi]
    rfl

theorem configureInterfaces_eq (h : interpretRawDescriptor raw n fuel = some (true, config))
    (s : DeviceCore × Bool) :
    configureInterfaces base s config = config.endpoints.foldlM (configureEndpoint base) s := by
  obtain ⟨hlength, hexact⟩ := interpreted_lengths h
  rw [configureInterfaces, foldlM_getElem? _ _ _ hlength, InterpretedConfig.endpoints, foldlM_flatMap]
  exact foldlM_congr s fun i hi s => foldlM_getElem? _ _ _ (hexact i hi)

/-- No two have the same flag, read one by one. -/
theorem nodup_iff : (es.map EndpointDescriptor.flagNumber).Nodup ↔
    ∀ k e, es[k]? = some e → ∀ e' ∈ es.take k, e'.flagNumber ≠ e.flagNumber := by
  rw [List.nodup_iff_pairwise_ne, List.pairwise_map, List.pairwise_iff_getElem]
  constructor
  · intro hpair k e hget e' hmem
    obtain ⟨hk, rfl⟩ := List.getElem?_eq_some_iff.1 hget
    obtain ⟨i, hi, rfl⟩ := List.mem_take_iff_getElem.1 hmem
    exact hpair i k _ hk (Nat.lt_of_lt_of_le hi (Nat.min_le_left _ _))
  · intro hall i j hi hj hlt
    exact hall j es[j] (List.getElem?_eq_getElem hj) es[i]
      (List.mem_take_iff_getElem.2 ⟨i, Nat.lt_min.2 ⟨hlt, hi⟩, rfl⟩)

/-- The conditions are those of each endpoint in its turn. -/
theorem ready_iff : (∀ k e, es[k]? = some e → Ready core (es.take k) e) ↔ Usable core es := by
  constructor
  · intro hready
    have hone : ∀ e ∈ es, ∃ k, es[k]? = some e ∧ Ready core (es.take k) e := fun e he => by
      obtain ⟨k, hget⟩ := List.mem_iff_getElem?.1 he
      exact ⟨k, hget, hready k e hget⟩
    refine ⟨fun e he => ?_, fun e he hgood => ?_, fun e he hrefused => ?_, fun e he => ?_,
      nodup_iff.2 fun k e hget => (hready k e hget).1.2⟩
    · obtain ⟨k, -, -, hkind⟩ := hone e he
      cases hrefused : e.refused with
      | true => exact Or.inl (beq_iff_eq.1 (Bool.and_eq_true_iff.1 hrefused).1)
      | false =>
          rw [hrefused, if_neg Bool.false_ne_true] at hkind
          exact hkind.1
    · obtain ⟨k, -, -, hkind⟩ := hone e he
      rw [hgood, if_neg Bool.false_ne_true] at hkind
      exact two_le_flagNumber.1 hkind.2
    · obtain ⟨k, -, -, hkind⟩ := hone e he
      rw [if_pos hrefused] at hkind
      exact hkind
    · obtain ⟨k, -, hring, -⟩ := hone e he
      exact hring.1
  · rintro ⟨hsupported, haddressed, hrefused, hringless, hdistinct⟩ k e hget
    have hmem := List.mem_of_getElem? hget
    refine ⟨⟨hringless e hmem, nodup_iff.1 hdistinct k e hget⟩, ?_⟩
    cases hcase : e.refused with
    | true => exact hrefused e hmem hcase
    | false => exact ⟨hsupported e hmem, two_le_flagNumber.2 (haddressed e hmem hcase)⟩

/-- If none is refused, the contexts are those of the endpoints. -/
theorem Holds.described (h : Holds base core₀ es s) (hgood : ∀ e ∈ es, e.refused = false)
    (hdistinct : (es.map EndpointDescriptor.flagNumber).Nodup) : Described base s.1 es := by
  refine ⟨h.flags, fun e he => ?_, h.own⟩
  obtain ⟨ring, -, hring, hcontext⟩ := h.ring e he
  obtain ⟨e', he', hflag, hcontext⟩ := hcontext (h.result.2 hgood)
  obtain rfl : e' = e := List.inj_on_of_nodup_map hdistinct he' he hflag
  rw [hcontext]
  exact ⟨rfl, rfl, ring, hring, rfl⟩

/-- For a configuration that was interpreted with success, `configuration_set` does what it should just if
the endpoints are usable. -/
theorem configurationSet_iff (h : interpretRawDescriptor raw n fuel = some (true, config)) :
    Configured base core config accepted ↔ Usable core config.endpoints := by
  have hstart : Holds base core [] ({ core with addContextFlags := 1 }, true) := holds_start core
  have hready : (∃ s', config.endpoints.foldlM (configureEndpoint base)
      ({ core with addContextFlags := 1 }, true) = some s') ↔ Usable core config.endpoints :=
    hstart.run_iff.trans ready_iff
  rw [Configured, configurationSet, configureInterfaces_eq h]
  constructor
  · rintro ⟨core', issued, hset, -⟩
    obtain ⟨s, hrun, -⟩ := Option.bind_eq_some_iff.1 hset
    exact hready.1 ⟨s, hrun⟩
  · intro husable
    obtain ⟨s, hrun⟩ := hready.2 husable
    have hholds : Holds base core config.endpoints s := hstart.run hrun
    rw [hrun, Option.bind_eq_bind, Option.bind_some]
    cases hissued : s.2 && accepted with
    | true =>
        have hgood := hholds.result.1 (Bool.and_eq_true_iff.1 hissued).1
        exact ⟨s.1, true, rfl, hholds.inside, fun _ => hholds.described hgood husable.distinct,
          fun h => absurd h.symm Bool.false_ne_true⟩
    | false =>
        exact ⟨{ s.1 with currentState := .failed }, false, rfl,
          ⟨hholds.inside.contexts, hholds.inside.transferRings⟩,
          fun h => absurd h Bool.false_ne_true, fun _ => rfl⟩

end

end

/-! ### A device -/

/-- What is in the contexts before. -/
def emptyContext : EndpointContext := ⟨0, 0, 0, 0, 0, 0, 0, 0, 0, 0, 0, 0, 0, 0⟩

def exampleDevice : DeviceCore where
  addContextFlags := 3
  contexts := fun _ => emptyContext
  transferRings := fun _ _ => none
  ringsMade := 0
  currentState := .settingConfig

/-- An interface with the interrupt endpoints 1 IN and 2 OUT. -/
def exampleBytes : List UInt8 :=
  [9, 2, 32, 0, 1, 1, 0, 0xa0, 50, 9, 4, 0, 0, 2, 3, 1, 1, 0, 7, 5, 0x81, 3, 8, 0, 10, 7, 5, 0x02, 3, 8, 0, 10]

def exampleConfig : InterpretedConfig :=
  ⟨⟨9, 2, 32, 1, 1, 0, 0xa0, 50⟩,
    [⟨⟨9, 4, 0, 0, 2, 3, 1, 1, 0⟩, [⟨7, 5, 0x81, 3, 8, 10⟩, ⟨7, 5, 0x02, 3, 8, 10⟩], []⟩], []⟩

theorem exampleConfig_interpreted : interpretRawDescriptor exampleBytes 32 4 = some (true, exampleConfig) := rfl

theorem exampleConfig_configured : Configured (fun k => 0x1000 + 0x4000 * k.toUInt64) exampleDevice
    exampleConfig true := by
  have hgood : ∀ e ∈ exampleConfig.endpoints, e.refused = false :=
    List.forall_mem_cons.2 ⟨rfl, List.forall_mem_singleton.2 rfl⟩
  refine (configurationSet_iff exampleConfig_interpreted).2 ⟨?_, ?_, fun e he hrefused => ?_, fun _ _ => rfl, ?_⟩
  · exact List.forall_mem_cons.2 ⟨Or.inr rfl, List.forall_mem_singleton.2 (Or.inr rfl)⟩
  · exact List.forall_mem_cons.2 ⟨fun _ => by decide, List.forall_mem_singleton.2 fun _ => by decide⟩
  · rw [hgood e he] at hrefused
    exact absurd hrefused Bool.false_ne_true
  · decide

/-- An interface with an interrupt endpoint of number 0. -/
def zeroBytes : List UInt8 :=
  [9, 2, 25, 0, 1, 1, 0, 0xa0, 50, 9, 4, 0, 0, 1, 3, 1, 1, 0, 7, 5, 0x80, 3, 8, 0, 10]

def zeroConfig : InterpretedConfig :=
  ⟨⟨9, 2, 25, 1, 1, 0, 0xa0, 50⟩,
    [⟨⟨9, 4, 0, 0, 1, 3, 1, 1, 0⟩, [⟨7, 5, 0x80, 3, 8, 10⟩], []⟩], []⟩

/-- The context of the default control endpoint, before the pairs, is written. -/
theorem zero_not_configured : interpretRawDescriptor zeroBytes 25 3 = some (true, zeroConfig) ∧
    ¬ Configured (fun k => 0x1000 + 0x4000 * k.toUInt64) exampleDevice zeroConfig true := by
  refine ⟨rfl, ?_⟩
  rintro ⟨core', issued, hset, -⟩
  exact Option.some_ne_none _ hset.symm

end Azalea.Usb
