import Azalea.Support.Runs
import Azalea.Usb.EndpointContexts

/-!
# Usb — the enumeration of a device

From the slot of a device to its drivers, `usb::xhci::device_core` goes through the states of `CORE_STATE`:
each command, transfer or message that it waits for is answered by the next step.  The answers come as the
controller and the work queue give them; what they carry is up to the device.  The maximum packet size that
a device announces is an exponent of two, of which the code keeps 16 bits; `device_request` divides by it.

The caller of a request goes on before the answer is handled.  Commands and transfers that fail are left
out: the kernel is stopped then.

* `Stage`: what is awaited in each state.
* `enumeration_in_order`: in every state that is reached, one request is awaited, unless the core has failed
  or is done; each answer leads to the same state, to the next one or to failure, and the kernel is stopped
  only by a packet size of 0 or by endpoints that are not usable.
-/

namespace Azalea.Usb
open GenericCore Azalea.Runs

/-! ### The steps -/

/-- `CREATION_PHASE`. -/
inductive CreationPhase where
  | notStarted
  | discoveryComplete
  | deviceConfigured
  deriving DecidableEq

/-- What a core waits for: a command of the controller, a message for the device factory, a transfer. -/
inductive Request where
  | enableSlot
  | addressDevice
  | createDevice (phase : CreationPhase)
  | transfer
  | evaluateContext
  | configureEndpoints
  deriving DecidableEq

/-- A `device_core`: what it shares with other cores, `current_max_packet_size`,
`max_packet_size_encoded` of the device descriptor, its contexts and rings, whose state is that of `core`,
and the requests that are not answered yet. -/
structure Enumeration where
  core : GenericCore
  maxPacketSize : UInt16
  maxPacketSizeEncoded : UInt8
  device : DeviceCore
  outstanding : List Request

/-- `root_port::get_default_max_packet_size`, by the speed of the port. -/
def defaultMaxPacketSize (portSpeed : Nat) : UInt16 :=
  match portSpeed with
  | 3 => 64
  | 4 | 5 => 512
  | _ => 8

/-- The request that is awaited after a call. -/
def Awaited.requests : Awaited → List Request
  | .nothing => []
  | .transfer => [.transfer]
  | .packetSize => [.evaluateContext]

namespace Enumeration

variable (base : Nat → UInt64) (s : Enumeration) (x : Supplied)

/-- The core in another state, with more requests. -/
def goTo (state : CoreState) (requests : List Request) : Enumeration :=
  { s with
    core := { s.core with currentState := state }
    outstanding := s.outstanding ++ requests }

/-- The core after a call of what it shares with others. -/
def after (done : Handled) : Enumeration :=
  { s with
    core := done.core
    outstanding := s.outstanding ++ done.awaited.requests }

/-- A context in a new `input_context`. -/
def zeroContext : EndpointContext := ⟨0, 0, 0, 0, 0, 0, 0, 0, 0, 0, 0, 0, 0, 0⟩

/-- `device_core::create`; the command ring may be full. -/
def create (core : GenericCore) (accepted : Bool) : Enumeration where
  core := { core with currentState := .createContext, configurations := [] }
  maxPacketSize := 0
  maxPacketSizeEncoded := 0
  device :=
    { addContextFlags := 0
      contexts := fun _ => zeroContext
      transferRings := fun _ _ => none
      ringsMade := 0
      currentState := .createContext }
  outstanding := if accepted then [.enableSlot] else []

/-- The contexts of the endpoints as `handle_slot_enabled` leaves them; what it writes to those of the slot and
of the default control endpoint is left out. -/
def enabledDevice : DeviceCore :=
  { s.device with
    addContextFlags := 3
    contexts := fun _ => zeroContext
    currentState := .enabled }

/-- `handle_slot_enabled`. -/
def handleSlotEnabled (portSpeed : Nat) (accepted : Bool) : Enumeration :=
  if s.core.currentState = .createContext then
    { s with
      maxPacketSize := defaultMaxPacketSize portSpeed
      device := s.enabledDevice }.goTo .enabled (if accepted then [.addressDevice] else [])
  else s.goTo .failed []

/-- `handle_addressed`. -/
def handleAddressed : Enumeration :=
  if s.core.currentState = .enabled then s.goTo .addressed [.createDevice .notStarted]
  else s.goTo .failed []

/-- A call that may end with a `device_request` for `length` bytes: `handle` is the call, with the result of
the request.  One has been made if a transfer is awaited once it succeeds; without a length it is refused,
and its packets are counted with a division. -/
def deviceRequest (length : Nat) (handle : Bool → Option Handled) (accepted : Bool) : Option Handled := do
  let asked ← handle true
  match asked.awaited with
  | .transfer =>
      if length = 0 then handle false
      else if s.maxPacketSize = 0 then none
      else handle accepted
  | _ => some asked

/-- `do_device_discovery`, for a descriptor of 18 bytes. -/
def doDeviceDiscovery (accepted : Bool) : Option Enumeration :=
  (s.deviceRequest 18 (fun result => some (s.core.doDeviceDiscovery result)) accepted).map s.after

/-- `set_max_packet_size_complete`. -/
def setMaxPacketSizeComplete (accepted : Bool) : Option Enumeration :=
  (s.deviceRequest 18 (fun result => some (s.core.setMaxPacketSizeComplete result)) accepted).map s.after

/-- `set_max_packet_size`: whether it succeeds, and the core.  Nothing is asked for if the size is the same. -/
def setMaxPacketSize (newPacketSize : UInt16) (accepted : Bool) : Bool × Enumeration :=
  if newPacketSize ≠ s.maxPacketSize then
    if accepted then
      (true, { s with
        maxPacketSize := newPacketSize
        outstanding := s.outstanding ++ [.evaluateContext] })
    else (false, s)
  else (true, s)

/-- `main_device_descriptor`, as the transfer has filled it. -/
def withDescriptor : Enumeration :=
  { s with
    core := { s.core with numConfigurations := x.numConfigurations }
    maxPacketSizeEncoded := x.maxPacketSizeEncoded }

/-- `got_device_descriptor`, once the descriptor is there. -/
def interpretDescriptor : Option Enumeration :=
  let size := newMaxPacketSize s.maxPacketSizeEncoded
  if size ≠ s.maxPacketSize.toUInt32 then
    let r := s.setMaxPacketSize size.toUInt16 x.accepted
    some (if r.1 then r.2 else r.2.goTo .failed [])
  else
    (s.deviceRequest 9
      (fun result => s.core.gotDeviceDescriptor { x with packetSize := s.maxPacketSize, accepted := result })
      x.accepted).map s.after

/-- `got_device_descriptor`. -/
def gotDeviceDescriptor : Option Enumeration := (s.withDescriptor x).interpretDescriptor x

/-- How many bytes `got_config_descriptor` asks for: the length that it has read from the buffer, if this is
not the one that it noted, or else those of the next descriptor. -/
def nextLength : Nat :=
  match s.core.configurations[s.core.configsRead]? with
  | none => 9
  | some config =>
      if (totalLength (received config.rawDescriptor x.bytes)).map (·.toUInt32) =
        some config.rawDescriptorLength then 9
      else x.released.toNat

/-- `got_config_descriptor`; after the last one, `create_device` is called. -/
def gotConfigDescriptor (fuel : Nat) : Option Enumeration := do
  let done ← s.deviceRequest (s.nextLength x)
    (fun result => s.core.gotConfigDescriptor { x with accepted := result } fuel) x.accepted
  match done.result, done.awaited with
  | true, .nothing => some ((s.after done).goTo done.core.currentState [.createDevice .discoveryComplete])
  | _, _ => some (s.after done)

/-- `configure_device`, with configuration 0; a SET_CONFIGURATION request has no data. -/
def configureDevice (accepted : Bool) : Enumeration :=
  if 0 < s.core.numConfigurations.toNat ∧ accepted = true then s.goTo .settingConfig [.transfer]
  else s.goTo .failed []

/-- The active configuration. -/
def activeConfig : Option InterpretedConfig := do
  let config ← s.core.configurations[0]?
  config.interpreted

/-- `configuration_set`. -/
def configurationSet (accepted : Bool) : Option Enumeration := do
  let config ← s.activeConfig
  let (device, issued) ← s.device.configurationSet base config accepted
  if issued then some ({ s with device := device }.goTo s.core.currentState [.configureEndpoints])
  else some ({ s with device := device }.goTo .failed [])

/-- `endpoints_configured`, which asserts the state. -/
def endpointsConfigured : Option Enumeration :=
  if s.core.currentState = .settingConfig then some (s.goTo .started [.createDevice .deviceConfigured])
  else none

/-- `handle_transfer_complete`. -/
def handleTransferComplete (fuel : Nat) : Option Enumeration :=
  match s.core.currentState with
  | .readingDevDescriptor => s.gotDeviceDescriptor x
  | .readingCfgDescriptors => s.gotConfigDescriptor x fuel
  | .settingConfig => s.configurationSet base x.accepted
  | _ => some s

/-- A request is answered.  The drivers that `create_device` makes at the end leave the core as it is. -/
def answer (portSpeed : Nat) (fuel : Nat) : Request → Option Enumeration
  | .enableSlot => some (s.handleSlotEnabled portSpeed x.accepted)
  | .addressDevice => some s.handleAddressed
  | .createDevice .notStarted => s.doDeviceDiscovery x.accepted
  | .createDevice .discoveryComplete => some (s.configureDevice x.accepted)
  | .createDevice .deviceConfigured => some s
  | .transfer => s.handleTransferComplete base x fuel
  | .evaluateContext => s.setMaxPacketSizeComplete x.accepted
  | .configureEndpoints => s.endpointsConfigured

/-- The `i.1`th request is answered, with what `i.2` carries. -/
def step (portSpeed : Nat) (i : Nat × Supplied × Nat) : Option Enumeration := do
  let r ← s.outstanding[i.1]?
  { s with outstanding := s.outstanding.eraseIdx i.1 }.answer base i.2.1 portSpeed i.2.2 r

/-! ### What is to be shown -/

/-- A transfer that carries descriptors brings what the code needs. -/
def Meets (i : Nat × Supplied × Nat) : Prop :=
  s.outstanding[i.1]? = some .transfer → s.core.Meets { i.2.1 with packetSize := s.maxPacketSize }

/-- What stops the kernel: a packet size of which nothing is left in 16 bits, or endpoints that are not
usable. -/
def Stops : Request → Prop
  | .evaluateContext => 16 ≤ s.maxPacketSizeEncoded.toNat % 32
  | .transfer => s.core.currentState = .settingConfig ∧
      ∀ config, s.activeConfig = some config → ¬ Usable s.device config.endpoints
  | _ => False

end Enumeration

/-- The states in their order. -/
def CoreState.rank : CoreState → Nat
  | .uninitialized => 0
  | .createContext => 1
  | .enabled => 2
  | .addressed => 3
  | .configured => 0
  | .readingDevDescriptor => 4
  | .readingCfgDescriptors => 5
  | .settingConfig => 6
  | .started => 7
  | .failed => 0

/-- The same state, the next one, or failure. -/
def CoreState.Follows (state state' : CoreState) : Prop :=
  state' = .failed ∨ state' = state ∨ state'.rank = state.rank + 1

/-- The packet size is the one that was announced. -/
def CoreState.SizeKnown : CoreState → Prop
  | .readingCfgDescriptors | .settingConfig | .started => True
  | _ => False

/-- One request is awaited, if the core has not failed, is not done and the command ring was not full when a
slot or an address was asked for; from the reading of configurations on the packet size is the announced
one; only what `Stops` says stops the kernel; and each answer leads on. -/
structure InOrder (base : Nat → UInt64) (portSpeed : Nat) (s : Enumeration) : Prop where
  one : s.outstanding.length ≤ 1
  waits : s.outstanding = [] → s.core.currentState = .failed ∨ s.core.currentState = .started ∨
    s.core.currentState = .createContext ∨ s.core.currentState = .enabled
  size : s.core.currentState.SizeKnown → s.maxPacketSize.toNat = 2 ^ (s.maxPacketSizeEncoded.toNat % 32)
  stops : ∀ r x, s.outstanding = [r] → s.Meets (0, x, 0) →
    ((∃ fuel s', s.step base portSpeed (0, x, fuel) = some s') ↔ ¬ s.Stops r)
  follows : ∀ i s', s.Meets i → s.step base portSpeed i = some s' →
    s.core.currentState.Follows s'.core.currentState

open Enumeration

/-! ### What is awaited in each state -/

/-- The configuration was interpreted with success. -/
def Accepted (config : InterpretedConfig) : Prop :=
  ∃ raw n fuel, interpretRawDescriptor raw n fuel = some (true, config)

/-- The configurations before the one that is being read were interpreted with success. -/
def GenericCore.ReadBefore (core : GenericCore) : Prop :=
  ∀ i < core.configsRead, ∃ c config, core.configurations[i]? = some c ∧ c.interpreted = some config ∧
    Accepted config

/-- The invariant: what is awaited in each state, and what is known then. -/
inductive Stage (s : Enumeration) : Prop
  | creating (state : s.core.currentState = .createContext) (fresh : s.core.configurations = [])
      (requests : s.outstanding = [] ∨ s.outstanding = [.enableSlot])
  | enabled (state : s.core.currentState = .enabled) (fresh : s.core.configurations = [])
      (size : s.maxPacketSize ≠ 0) (requests : s.outstanding = [] ∨ s.outstanding = [.addressDevice])
  | addressed (state : s.core.currentState = .addressed) (fresh : s.core.configurations = [])
      (size : s.maxPacketSize ≠ 0) (requests : s.outstanding = [.createDevice .notStarted])
  | readingDev (state : s.core.currentState = .readingDevDescriptor) (fresh : s.core.configurations = [])
      (size : s.maxPacketSize ≠ 0) (requests : s.outstanding = [.transfer])
  | evaluating (state : s.core.currentState = .readingDevDescriptor) (fresh : s.core.configurations = [])
      (size : s.maxPacketSize = (newMaxPacketSize s.maxPacketSizeEncoded).toUInt16)
      (requests : s.outstanding = [.evaluateContext])
  | readingCfg (state : s.core.currentState = .readingCfgDescriptors)
      (size : newMaxPacketSize s.maxPacketSizeEncoded = s.maxPacketSize.toUInt32)
      (reading : Reading s.core .transfer) (before : s.core.ReadBefore) (requests : s.outstanding = [.transfer])
  | discovered (state : s.core.currentState = .readingCfgDescriptors)
      (size : newMaxPacketSize s.maxPacketSizeEncoded = s.maxPacketSize.toUInt32)
      (active : ∃ config, s.activeConfig = some config ∧ Accepted config)
      (requests : s.outstanding = [.createDevice .discoveryComplete])
  | setting (state : s.core.currentState = .settingConfig)
      (size : newMaxPacketSize s.maxPacketSizeEncoded = s.maxPacketSize.toUInt32)
      (active : ∃ config, s.activeConfig = some config ∧ Accepted config)
      (requests : s.outstanding = [.transfer])
  | configuring (state : s.core.currentState = .settingConfig)
      (size : newMaxPacketSize s.maxPacketSizeEncoded = s.maxPacketSize.toUInt32)
      (requests : s.outstanding = [.configureEndpoints])
  | started (state : s.core.currentState = .started)
      (size : newMaxPacketSize s.maxPacketSizeEncoded = s.maxPacketSize.toUInt32)
      (requests : s.outstanding = [] ∨ s.outstanding = [.createDevice .deviceConfigured])
  | failed (state : s.core.currentState = .failed) (requests : s.outstanding = [])

/-- An answer leads to a stage, in the same state, in the next one or in failure. -/
structure Leads (s s' : Enumeration) : Prop where
  stage : Stage s'
  follows : s.core.currentState.Follows s'.core.currentState

section
variable {s s' : Enumeration} {x : Supplied} {core core' : GenericCore} {done : Handled} {accepted result : Bool}
  {handle : Bool → Option Handled} {length fuel portSpeed : Nat} {base : Nat → UInt64} {encoded : UInt8}
  {size : UInt16}

/-! ### Packet sizes -/

theorem toNat_newMaxPacketSize (encoded : UInt8) :
    (newMaxPacketSize encoded).toNat = 2 ^ (encoded.toNat % 32) := by
  have hlt : 2 ^ (encoded.toNat % 32) < 2 ^ 32 :=
    Nat.pow_lt_pow_right Nat.one_lt_two (Nat.mod_lt _ (by decide))
  rw [newMaxPacketSize, UInt32.toNat_shiftLeft, UInt8.toNat_toUInt32, Nat.shiftLeft_eq]
  exact (congrArg (· % 2 ^ 32) (Nat.one_mul _)).trans (Nat.mod_eq_of_lt hlt)

/-- What is left in 16 bits. -/
theorem newMaxPacketSize_toUInt16_eq_zero :
    (newMaxPacketSize encoded).toUInt16 = 0 ↔ 16 ≤ encoded.toNat % 32 := by
  rw [← UInt16.toNat_inj, UInt32.toNat_toUInt16, toNat_newMaxPacketSize]
  constructor
  · intro h
    by_contra hlt
    have hpow : 2 ^ (encoded.toNat % 32) < 2 ^ 16 := Nat.pow_lt_pow_right Nat.one_lt_two (Nat.lt_of_not_le hlt)
    rw [Nat.mod_eq_of_lt hpow] at h
    exact absurd h (Nat.two_pow_pos _).ne'
  · intro h
    exact Nat.mod_eq_zero_of_dvd (Nat.pow_dvd_pow 2 h)

theorem size_of_eq (h : newMaxPacketSize encoded = size.toUInt32) : size.toNat = 2 ^ (encoded.toNat % 32) := by
  rw [← toNat_newMaxPacketSize, h, UInt16.toNat_toUInt32]

theorem size_ne_zero (h : newMaxPacketSize encoded = size.toUInt32) : size ≠ 0 := by
  rintro rfl
  exact absurd (size_of_eq h).symm (Nat.two_pow_pos _).ne'

theorem defaultMaxPacketSize_ne (portSpeed : Nat) : defaultMaxPacketSize portSpeed ≠ 0 := by
  unfold defaultMaxPacketSize
  split <;> decide

/-! ### Requests -/

/-- With a packet size, a request is one with some result. -/
theorem deviceRequest_eq (hsize : s.maxPacketSize ≠ 0) :
    ∃ result, s.deviceRequest length handle accepted = handle result := by
  rw [deviceRequest]
  cases hasked : handle true with
  | none => exact ⟨true, hasked.symm⟩
  | some asked =>
      rw [Option.bind_eq_bind, Option.bind_some]
      cases asked.awaited with
      | transfer =>
          dsimp only
          by_cases hlength : length = 0
          · exact ⟨false, if_pos hlength⟩
          · exact ⟨accepted, by rw [if_neg hlength, if_neg hsize]⟩
      | _ => exact ⟨true, hasked.symm⟩

theorem deviceRequest_conclude (hlength : length ≠ 0) :
    s.deviceRequest length (fun result => some (core.conclude result .transfer)) accepted =
      if s.maxPacketSize = 0 then none else some (core.conclude accepted .transfer) :=
  if_neg hlength

/-- A state with nothing that is awaited, after a call that has failed or waits for a transfer. -/
theorem after_conclude (hnone : s.outstanding = []) :
    (s.after (core.conclude result .transfer)).core.currentState =
        (if result then core.currentState else .failed) ∧
      (s.after (core.conclude result .transfer)).outstanding = if result then [.transfer] else [] := by
  rw [after, hnone]
  cases result <;> exact ⟨rfl, rfl⟩

/-! ### Before the descriptors -/

theorem leads_failed (hnone : s.outstanding = []) (hfailed : s'.core.currentState = .failed)
    (hsame : s'.outstanding = s.outstanding) : Leads s s' :=
  ⟨.failed hfailed (hsame.trans hnone), Or.inl hfailed⟩

theorem handleSlotEnabled_leads (hstate : s.core.currentState = .createContext)
    (hfresh : s.core.configurations = []) (hnone : s.outstanding = []) :
    Leads s (s.handleSlotEnabled portSpeed accepted) := by
  rw [handleSlotEnabled, if_pos hstate]
  refine ⟨.enabled rfl hfresh (defaultMaxPacketSize_ne portSpeed) ?_, Or.inr (Or.inr (by rw [hstate]; rfl))⟩
  rw [goTo, hnone]
  cases accepted with
  | true => exact Or.inr rfl
  | false => exact Or.inl rfl

theorem handleAddressed_leads (hstate : s.core.currentState = .enabled)
    (hfresh : s.core.configurations = []) (hsize : s.maxPacketSize ≠ 0) (hnone : s.outstanding = []) :
    Leads s s.handleAddressed := by
  rw [handleAddressed, if_pos hstate]
  refine ⟨.addressed rfl hfresh hsize ?_, Or.inr (Or.inr (by rw [hstate]; rfl))⟩
  rw [goTo, hnone]
  rfl

/-- The device descriptor is asked for. -/
theorem readDevice_leads (hfresh : s.core.configurations = []) (hsize : s.maxPacketSize ≠ 0)
    (hnone : s.outstanding = [])
    (hrank : s.core.currentState.rank = 3 ∨ s.core.currentState = .readingDevDescriptor) :
    Leads s (s.after ({ s.core with currentState := .readingDevDescriptor }.conclude accepted .transfer)) := by
  obtain ⟨hstate, hrequests⟩ :=
    @after_conclude s { s.core with currentState := .readingDevDescriptor } accepted hnone
  cases accepted with
  | false => exact leads_failed hnone hstate (hrequests.trans hnone.symm)
  | true =>
      refine ⟨.readingDev hstate hfresh hsize hrequests, ?_⟩
      rw [hstate]
      rcases hrank with hrank | hsame
      · exact Or.inr (Or.inr (by rw [hrank]; rfl))
      · exact Or.inr (Or.inl hsame.symm)

/-! ### The device descriptor -/

theorem setMaxPacketSize_leads (hstate : s.core.currentState = .readingDevDescriptor)
    (hfresh : s.core.configurations = []) (hnone : s.outstanding = [])
    (hsize : size = (newMaxPacketSize s.maxPacketSizeEncoded).toUInt16) (hne : size ≠ s.maxPacketSize) :
    Leads s (if (s.setMaxPacketSize size accepted).1 then (s.setMaxPacketSize size accepted).2
      else (s.setMaxPacketSize size accepted).2.goTo .failed []) := by
  rw [setMaxPacketSize, if_pos hne]
  cases accepted with
  | true =>
      refine ⟨.evaluating hstate hfresh hsize ?_, Or.inr (Or.inl rfl)⟩
      exact congrArg (· ++ [Request.evaluateContext]) hnone
  | false => exact leads_failed hnone rfl (List.append_nil _)

/-- The first configuration descriptor is asked for. -/
theorem readConfigs_leads (hstate : s.core.currentState = .readingDevDescriptor)
    (hfresh : s.core.configurations = []) (hnone : s.outstanding = [])
    (hsize : newMaxPacketSize s.maxPacketSizeEncoded = s.maxPacketSize.toUInt32)
    (hencoded : x.maxPacketSizeEncoded = s.maxPacketSizeEncoded) (hsame : x.packetSize = s.maxPacketSize)
    (hrun : s.core.gotDeviceDescriptor x = some done) : Leads s (s.after done) := by
  have hreading : Reading s.core .transfer := by
    refine ⟨?_, ?_, fun hreading => CoreState.noConfusion (hstate.symm.trans hreading)⟩
    · intro c hc
      exact absurd (hfresh ▸ hc : c ∈ []) List.not_mem_nil
    · intro c hc
      exact absurd (hfresh ▸ hc : c ∈ []) List.not_mem_nil
  have hdone := hreading.gotDeviceDescriptor hstate hrun
  rw [GenericCore.gotDeviceDescriptor, hencoded, hsame, if_neg (not_not_intro hsize)] at hrun
  obtain ⟨core', hread, hrun⟩ := Option.bind_eq_some_iff.1 hrun
  obtain rfl := Option.some.inj hrun
  obtain ⟨config, hset, -⟩ := readConfigDescriptor_eq (readConfigDescriptor_some hread)
  obtain rfl := Option.some.inj (hset.symm.trans hread)
  obtain ⟨hdoneState, hrequests⟩ := @after_conclude s _ x.accepted hnone
  cases haccepted : x.accepted with
  | false =>
      rw [haccepted] at hdoneState hrequests
      exact leads_failed hnone hdoneState (hrequests.trans hnone.symm)
  | true =>
      rw [haccepted] at hdone hdoneState hrequests
      refine ⟨.readingCfg hdoneState hsize hdone (fun i hi => absurd hi (Nat.not_lt_zero i)) hrequests, ?_⟩
      rw [hstate, hdoneState]
      exact Or.inr (Or.inr rfl)

/-- A size that is not in use is not in use after its upper half has been cut off, except for 0. -/
theorem toUInt16_ne (hne : size ≠ 0) (hdiffer : newMaxPacketSize encoded ≠ size.toUInt32) :
    (newMaxPacketSize encoded).toUInt16 ≠ size := by
  rintro rfl
  have hlt : ¬ 16 ≤ encoded.toNat % 32 := fun h => hne (newMaxPacketSize_toUInt16_eq_zero.2 h)
  refine hdiffer (UInt32.toNat_inj.1 ?_)
  rw [UInt16.toNat_toUInt32, UInt32.toNat_toUInt16, toNat_newMaxPacketSize]
  exact (Nat.mod_eq_of_lt (Nat.pow_lt_pow_right Nat.one_lt_two (Nat.lt_of_not_le hlt))).symm

theorem interpretDescriptor_leads (hstate : s.core.currentState = .readingDevDescriptor)
    (hfresh : s.core.configurations = []) (hne : s.maxPacketSize ≠ 0) (hnone : s.outstanding = [])
    (hencoded : x.maxPacketSizeEncoded = s.maxPacketSizeEncoded)
    (hrun : s.interpretDescriptor x = some s') : Leads s s' := by
  rw [interpretDescriptor] at hrun
  by_cases hsize : newMaxPacketSize s.maxPacketSizeEncoded = s.maxPacketSize.toUInt32
  · rw [if_neg (not_not_intro hsize)] at hrun
    obtain ⟨done, hrequest, rfl⟩ := Option.map_eq_some_iff.1 hrun
    obtain ⟨result, hresult⟩ := @deviceRequest_eq s x.accepted (fun result => s.core.gotDeviceDescriptor
      { x with packetSize := s.maxPacketSize, accepted := result }) 9 hne
    exact @readConfigs_leads s { x with packetSize := s.maxPacketSize, accepted := result } done hstate hfresh
      hnone hsize hencoded rfl (hresult.symm.trans hrequest)
  · rw [if_pos hsize] at hrun
    rw [← Option.some.inj hrun]
    exact setMaxPacketSize_leads hstate hfresh hnone rfl (toUInt16_ne hne hsize)

theorem interpretDescriptor_returns (hne : s.maxPacketSize ≠ 0)
    (h : newMaxPacketSize s.maxPacketSizeEncoded ≠ s.maxPacketSize.toUInt32 ∨
      0 < s.core.numConfigurations.toNat) (hencoded : x.maxPacketSizeEncoded = s.maxPacketSizeEncoded) :
    ∃ s', s.interpretDescriptor x = some s' := by
  rw [interpretDescriptor]
  by_cases hsize : newMaxPacketSize s.maxPacketSizeEncoded = s.maxPacketSize.toUInt32
  · rw [if_neg (not_not_intro hsize)]
    obtain ⟨result, hresult⟩ := @deviceRequest_eq s x.accepted (fun result => s.core.gotDeviceDescriptor
      { x with packetSize := s.maxPacketSize, accepted := result }) 9 hne
    obtain ⟨done, hdone⟩ := @gotDeviceDescriptor_returns s.core
      { x with packetSize := s.maxPacketSize, accepted := result } (by rw [hencoded]; exact h)
    rw [hresult, hdone]
    exact ⟨_, rfl⟩
  · rw [if_pos hsize]
    exact ⟨_, rfl⟩

theorem gotDeviceDescriptor_leads (hstate : s.core.currentState = .readingDevDescriptor)
    (hfresh : s.core.configurations = []) (hne : s.maxPacketSize ≠ 0) (hnone : s.outstanding = [])
    (hrun : s.gotDeviceDescriptor x = some s') : Leads s s' := by
  obtain ⟨hstage, hfollows⟩ :=
    @interpretDescriptor_leads (s.withDescriptor x) s' x hstate hfresh hne hnone rfl hrun
  exact ⟨hstage, hfollows⟩

/-! ### The configuration descriptors -/

/-- Whether a configuration descriptor is handled to an end does not depend on the next request. -/
theorem gotConfigDescriptor_isSome (result result' : Bool)
    (h : ∃ done, core.gotConfigDescriptor { x with accepted := result } fuel = some done) :
    ∃ done, core.gotConfigDescriptor { x with accepted := result' } fuel = some done := by
  obtain ⟨done, hrun⟩ := h
  rw [GenericCore.gotConfigDescriptor] at hrun ⊢
  obtain ⟨config, hget, hrun⟩ := Option.bind_eq_some_iff.1 hrun
  obtain ⟨total, htotal, hrun⟩ := Option.bind_eq_some_iff.1 hrun
  rw [hget, Option.bind_eq_bind, Option.bind_some]
  dsimp only at htotal hrun ⊢
  rw [htotal, Option.bind_eq_bind, Option.bind_some]
  by_cases hall : config.rawDescriptorLength = total.toUInt32
  · rw [if_pos hall] at hrun ⊢
    obtain ⟨r, hinterpret, hrun⟩ := Option.bind_eq_some_iff.1 hrun
    rw [hinterpret, Option.bind_eq_bind, Option.bind_some]
    rw [interpretedOne] at hrun ⊢
    dsimp only at hrun ⊢
    split at hrun
    · next hgood =>
        rw [if_pos hgood]
        split at hrun
        · next hlast => exact ⟨_, if_pos hlast⟩
        · next hlast =>
            rw [if_neg hlast]
            obtain ⟨core', hread, -⟩ := Option.bind_eq_some_iff.1 hrun
            rw [hread]
            exact ⟨_, rfl⟩
    · next hbad => exact ⟨_, if_neg hbad⟩
  · rw [if_neg hall]
    exact ⟨_, rfl⟩

/-- What a configuration descriptor leads to. -/
inductive ReadOne (done : Handled) : Prop
  | failed (state : done.core.currentState = .failed) (result : done.result = false)
      (awaited : done.awaited = .nothing)
  | next (state : done.core.currentState = .readingCfgDescriptors) (result : done.result = true)
      (awaited : done.awaited = .transfer) (before : done.core.ReadBefore)
  | last (state : done.core.currentState = .readingCfgDescriptors) (result : done.result = true)
      (awaited : done.awaited = .nothing)
      (active : ∃ c config, done.core.configurations[0]? = some c ∧ c.interpreted = some config ∧
        Accepted config)

theorem ReadOne.conclude (hstate : core.currentState = .readingCfgDescriptors) (hbefore : core.ReadBefore)
    (result : Bool) : ReadOne (core.conclude result .transfer) := by
  cases result with
  | true => exact .next hstate rfl rfl hbefore
  | false => exact .failed rfl rfl rfl

/-- The configuration that is being read changes, those before it do not. -/
theorem GenericCore.ReadBefore.setConfig (h : core.ReadBefore) (config : DeviceConfig) :
    (core.setConfig config).ReadBefore := by
  intro i hi
  obtain ⟨c, interpreted, hget, hc⟩ := h i hi
  exact ⟨c, interpreted, (List.getElem?_set_ne (Nat.ne_of_gt hi)).trans hget, hc⟩

theorem interpretedOne_readOne (hstate : core.currentState = .readingCfgDescriptors) (hbefore : core.ReadBefore)
    (hone : result = true → ∃ c config, core.configurations[core.configsRead]? = some c ∧
      c.interpreted = some config ∧ Accepted config)
    (hrun : core.interpretedOne x result = some done) : ReadOne done := by
  rw [interpretedOne] at hrun
  cases result with
  | false =>
      obtain rfl := Option.some.inj hrun
      exact .failed rfl rfl rfl
  | true =>
      have hbefore' : GenericCore.ReadBefore { core with configsRead := core.configsRead + 1 } := by
        intro i hi
        rcases Nat.lt_succ_iff_lt_or_eq.1 hi with hlt | rfl
        · exact hbefore i hlt
        · exact hone rfl
      rw [if_pos rfl] at hrun
      dsimp only at hrun
      split at hrun
      · obtain rfl := Option.some.inj hrun
        exact .last hstate rfl rfl (hbefore' 0 (Nat.succ_pos _))
      · obtain ⟨core', hread, hrun⟩ := Option.bind_eq_some_iff.1 hrun
        obtain ⟨config, hset, -⟩ := readConfigDescriptor_eq (readConfigDescriptor_some hread)
        obtain rfl := Option.some.inj (hset.symm.trans hread)
        obtain rfl := Option.some.inj hrun
        exact @ReadOne.conclude (GenericCore.setConfig { core with configsRead := core.configsRead + 1 } config)
          hstate (hbefore'.setConfig config) x.accepted

theorem gotConfigDescriptor_readOne (hstate : core.currentState = .readingCfgDescriptors)
    (hbefore : core.ReadBefore) (hrun : core.gotConfigDescriptor x fuel = some done) : ReadOne done := by
  obtain ⟨config, total, hget, -, hcases⟩ := gotConfigDescriptor_some hrun
  rcases hcases with ⟨-, r, hinterpret, hone⟩ | ⟨-, rfl⟩
  · refine @interpretedOne_readOne x (core.setConfig _) done r.1 hstate (hbefore.setConfig _)
      (fun hgood => ?_) hone
    have haccepted : Accepted r.2 := ⟨_, _, fuel, hinterpret.trans (by rw [← hgood])⟩
    exact ⟨_, r.2, List.getElem?_set_self (List.getElem?_eq_some_iff.1 hget).1, rfl, haccepted⟩
  · exact @ReadOne.conclude (core.setConfig _) hstate (hbefore.setConfig _) x.accepted

theorem gotConfigDescriptor_leads (hstate : s.core.currentState = .readingCfgDescriptors)
    (hsize : newMaxPacketSize s.maxPacketSizeEncoded = s.maxPacketSize.toUInt32)
    (hreading : Reading s.core .transfer) (hbefore : s.core.ReadBefore) (hnone : s.outstanding = [])
    (hmeets : s.core.Meets x) (hrun : s.gotConfigDescriptor x fuel = some s') : Leads s s' := by
  rw [Enumeration.gotConfigDescriptor] at hrun
  obtain ⟨done, hrequest, hrun⟩ := Option.bind_eq_some_iff.1 hrun
  obtain ⟨result, hresult⟩ := @deviceRequest_eq s x.accepted (fun result =>
    s.core.gotConfigDescriptor { x with accepted := result } fuel) (s.nextLength x) (size_ne_zero hsize)
  have hdone : s.core.gotConfigDescriptor { x with accepted := result } fuel = some done :=
    hresult.symm.trans hrequest
  have hmeets' : s.core.Meets { x with accepted := result } := by
    rw [GenericCore.Meets, hstate] at hmeets ⊢
    exact hmeets
  have hread := hreading.gotConfigDescriptor hstate hmeets' hdone
  have hsame : ∀ t : Enumeration, t.core.currentState = .readingCfgDescriptors →
      s.core.currentState.Follows t.core.currentState := fun t ht =>
    Or.inr (Or.inl (ht.trans hstate.symm))
  cases gotConfigDescriptor_readOne hstate hbefore hdone with
  | failed state hfalse awaited =>
      rw [hfalse, awaited] at hrun
      rw [← Option.some.inj hrun]
      refine leads_failed hnone state ?_
      rw [after, awaited]
      exact List.append_nil _
  | next state htrue awaited before =>
      rw [htrue, awaited] at hrun
      rw [awaited] at hread
      rw [← Option.some.inj hrun]
      refine ⟨.readingCfg state hsize hread before ?_, hsame _ state⟩
      rw [after, awaited, hnone]
      rfl
  | last state htrue awaited active =>
      rw [htrue, awaited] at hrun
      rw [← Option.some.inj hrun]
      obtain ⟨c, config, hget, hinterpreted, haccepted⟩ := active
      refine ⟨.discovered state hsize ⟨config, ?_, haccepted⟩ ?_, hsame _ state⟩
      · have hget' : ((s.after done).goTo done.core.currentState
            [.createDevice .discoveryComplete]).core.configurations[0]? = some c := hget
        rw [activeConfig, hget', Option.bind_eq_bind, Option.bind_some, hinterpreted]
      · rw [goTo, after, awaited, hnone]
        rfl

theorem gotConfigDescriptor_returns (hstate : s.core.currentState = .readingCfgDescriptors)
    (hsize : newMaxPacketSize s.maxPacketSizeEncoded = s.maxPacketSize.toUInt32)
    (hreading : Reading s.core .transfer) (hmeets : s.core.Meets x) :
    ∃ fuel s', s.gotConfigDescriptor x fuel = some s' := by
  obtain ⟨fuel, done, hdone⟩ := hreading.gotConfigDescriptor_returns hstate hmeets
  obtain ⟨result, hresult⟩ := @deviceRequest_eq s x.accepted (fun result =>
    s.core.gotConfigDescriptor { x with accepted := result } fuel) (s.nextLength x) (size_ne_zero hsize)
  obtain ⟨done', hdone'⟩ := gotConfigDescriptor_isSome x.accepted result ⟨done, hdone⟩
  refine ⟨fuel, ?_⟩
  rw [Enumeration.gotConfigDescriptor, hresult, hdone', Option.bind_eq_bind, Option.bind_some]
  split
  · exact ⟨_, rfl⟩
  · exact ⟨_, rfl⟩

/-! ### Setting the configuration -/

theorem configureDevice_leads (hstate : s.core.currentState = .readingCfgDescriptors)
    (hsize : newMaxPacketSize s.maxPacketSizeEncoded = s.maxPacketSize.toUInt32)
    (hactive : ∃ config, s.activeConfig = some config ∧ Accepted config) (hnone : s.outstanding = []) :
    Leads s (s.configureDevice accepted) := by
  rw [configureDevice]
  split
  · refine ⟨.setting rfl hsize hactive ?_, Or.inr (Or.inr (by rw [hstate]; rfl))⟩
    exact congrArg (· ++ [Request.transfer]) hnone
  · exact leads_failed hnone rfl (List.append_nil _)

/-- The contexts are set up just if the endpoints are usable. -/
theorem configurationSet_returns_iff {device : DeviceCore} {config : InterpretedConfig}
    (haccepted : Accepted config) :
    (∃ r, device.configurationSet base config accepted = some r) ↔ Usable device config.endpoints := by
  obtain ⟨raw, n, fuel, hinterpret⟩ := haccepted
  have hready : (∃ r, config.endpoints.foldlM (DeviceCore.configureEndpoint base)
      ({ device with addContextFlags := 1 }, true) = some r) ↔ Usable device config.endpoints :=
    (holds_start device).run_iff.trans ready_iff
  rw [← hready, DeviceCore.configurationSet, configureInterfaces_eq hinterpret]
  constructor
  · rintro ⟨r, hr⟩
    obtain ⟨t, ht, -⟩ := Option.bind_eq_some_iff.1 hr
    exact ⟨t, ht⟩
  · rintro ⟨t, ht⟩
    rw [ht, Option.bind_eq_bind, Option.bind_some]
    split
    · exact ⟨_, rfl⟩
    · exact ⟨_, rfl⟩

theorem configurationSet_leads (hstate : s.core.currentState = .settingConfig)
    (hsize : newMaxPacketSize s.maxPacketSizeEncoded = s.maxPacketSize.toUInt32) (hnone : s.outstanding = [])
    (hrun : s.configurationSet base accepted = some s') : Leads s s' := by
  rw [Enumeration.configurationSet] at hrun
  obtain ⟨config, -, hrun⟩ := Option.bind_eq_some_iff.1 hrun
  obtain ⟨⟨device, issued⟩, -, hrun⟩ := Option.bind_eq_some_iff.1 hrun
  dsimp only at hrun
  split at hrun
  · rw [← Option.some.inj hrun]
    refine ⟨.configuring hstate hsize ?_, Or.inr (Or.inl rfl)⟩
    exact congrArg (· ++ [Request.configureEndpoints]) hnone
  · rw [← Option.some.inj hrun]
    exact leads_failed hnone rfl (List.append_nil _)

theorem configurationSet_returns (hactive : ∃ config, s.activeConfig = some config ∧ Accepted config) :
    (∃ s', s.configurationSet base accepted = some s') ↔
      ¬ ∀ config, s.activeConfig = some config → ¬ Usable s.device config.endpoints := by
  obtain ⟨config, hconfig, haccepted⟩ := hactive
  have hiff : (¬ ∀ config, s.activeConfig = some config → ¬ Usable s.device config.endpoints) ↔
      Usable s.device config.endpoints := by
    rw [not_forall]
    constructor
    · rintro ⟨config', h⟩
      rw [Classical.not_imp, not_not] at h
      rw [Option.some.inj (hconfig.symm.trans h.1)]
      exact h.2
    · exact fun h => ⟨config, fun hnot => hnot hconfig h⟩
  rw [hiff, ← @configurationSet_returns_iff accepted base s.device config haccepted,
    Enumeration.configurationSet, hconfig, Option.bind_eq_bind, Option.bind_some]
  constructor
  · rintro ⟨s', h⟩
    obtain ⟨r, hr, -⟩ := Option.bind_eq_some_iff.1 h
    exact ⟨r, hr⟩
  · rintro ⟨⟨device, issued⟩, hr⟩
    rw [hr, Option.bind_eq_bind, Option.bind_some]
    dsimp only
    split
    · exact ⟨_, rfl⟩
    · exact ⟨_, rfl⟩

theorem endpointsConfigured_leads (hstate : s.core.currentState = .settingConfig)
    (hsize : newMaxPacketSize s.maxPacketSizeEncoded = s.maxPacketSize.toUInt32) (hnone : s.outstanding = [])
    (hrun : s.endpointsConfigured = some s') : Leads s s' := by
  rw [endpointsConfigured, if_pos hstate] at hrun
  rw [← Option.some.inj hrun]
  refine ⟨.started rfl hsize (Or.inr ?_), Or.inr (Or.inr (by rw [hstate]; rfl))⟩
  exact congrArg (· ++ [Request.createDevice .deviceConfigured]) hnone

/-! ### The steps -/

/-- The core when its only request is taken. -/
def Enumeration.taken (s : Enumeration) : Enumeration := { s with outstanding := [] }

theorem step_single {r : Request} {i : Nat × Supplied × Nat} (hone : s.outstanding = [r]) :
    s.step base portSpeed i = some s' ↔ i.1 = 0 ∧ s.taken.answer base i.2.1 portSpeed i.2.2 r = some s' := by
  rw [step, hone, Option.bind_eq_bind]
  obtain ⟨k, x, fuel⟩ := i
  cases k with
  | zero => exact ⟨fun h => ⟨rfl, h⟩, And.right⟩
  | succ k => exact ⟨fun h => (Option.some_ne_none s' h.symm).elim, fun h => absurd h.1 (Nat.succ_ne_zero k)⟩

theorem step_none {i : Nat × Supplied × Nat} (hnone : s.outstanding = []) :
    s.step base portSpeed i ≠ some s' := by
  rw [step, hnone]
  exact (Option.some_ne_none s' ·.symm)

/-- A request for the device descriptor. -/
theorem readDevice_some (hne : s.maxPacketSize ≠ 0) (hfresh : s.core.configurations = [])
    (hnone : s.outstanding = [])
    (hrank : s.core.currentState.rank = 3 ∨ s.core.currentState = .readingDevDescriptor)
    (hrun : (s.deviceRequest 18 (fun result => some
      (GenericCore.conclude { s.core with currentState := .readingDevDescriptor } result .transfer)) accepted).map
        s.after = some s') : Leads s s' := by
  rw [deviceRequest_conclude (by decide), if_neg hne] at hrun
  rw [← Option.some.inj hrun]
  exact readDevice_leads hfresh hne hnone hrank

theorem Stage.answer_leads {r : Request} (hs : Stage s) (hone : s.outstanding = [r])
    (hmeets : r = .transfer → s.core.Meets { x with packetSize := s.maxPacketSize })
    (hrun : s.taken.answer base x portSpeed fuel r = some s') : Leads s.taken s' := by
  cases hs with
  | creating state fresh requests =>
      obtain rfl := List.singleton_inj.1 (hone.symm.trans (requests.resolve_left (by simp [hone])))
      rw [← Option.some.inj hrun]
      exact handleSlotEnabled_leads state fresh rfl
  | enabled state fresh size requests =>
      obtain rfl := List.singleton_inj.1 (hone.symm.trans (requests.resolve_left (by simp [hone])))
      rw [← Option.some.inj hrun]
      exact handleAddressed_leads state fresh size rfl
  | addressed state fresh size requests =>
      obtain rfl := List.singleton_inj.1 (hone.symm.trans requests)
      exact readDevice_some size fresh rfl (Or.inl (congrArg CoreState.rank state)) hrun
  | readingDev state fresh size requests =>
      obtain rfl := List.singleton_inj.1 (hone.symm.trans requests)
      have hgot : s.taken.gotDeviceDescriptor x = some s' := by
        rwa [answer, Enumeration.handleTransferComplete, show s.taken.core.currentState = _ from state] at hrun
      exact gotDeviceDescriptor_leads state fresh size rfl hgot
  | evaluating state fresh size requests =>
      obtain rfl := List.singleton_inj.1 (hone.symm.trans requests)
      by_cases hzero : s.maxPacketSize = 0
      · rw [answer, Enumeration.setMaxPacketSizeComplete] at hrun
        obtain ⟨done, hdone, -⟩ := Option.map_eq_some_iff.1 hrun
        refine absurd (hdone.symm.trans (deviceRequest_conclude (by decide))) ?_
        rw [if_pos (show s.taken.maxPacketSize = 0 from hzero)]
        exact Option.some_ne_none done
      · exact readDevice_some hzero fresh rfl (Or.inr state) hrun
  | readingCfg state size reading before requests =>
      obtain rfl := List.singleton_inj.1 (hone.symm.trans requests)
      have hgot : s.taken.gotConfigDescriptor x fuel = some s' := by
        rwa [answer, Enumeration.handleTransferComplete, show s.taken.core.currentState = _ from state] at hrun
      have hx : s.core.Meets x := by
        have hx := hmeets rfl
        rw [GenericCore.Meets, state] at hx ⊢
        exact hx
      exact @gotConfigDescriptor_leads s.taken s' x fuel state size reading before rfl hx hgot
  | discovered state size active requests =>
      obtain rfl := List.singleton_inj.1 (hone.symm.trans requests)
      rw [← Option.some.inj hrun]
      exact configureDevice_leads state size active rfl
  | setting state size active requests =>
      obtain rfl := List.singleton_inj.1 (hone.symm.trans requests)
      have hset : s.taken.configurationSet base x.accepted = some s' := by
        rwa [answer, Enumeration.handleTransferComplete, show s.taken.core.currentState = _ from state] at hrun
      exact configurationSet_leads state size rfl hset
  | configuring state size requests =>
      obtain rfl := List.singleton_inj.1 (hone.symm.trans requests)
      exact endpointsConfigured_leads state size rfl hrun
  | started state size requests =>
      obtain rfl := List.singleton_inj.1 (hone.symm.trans (requests.resolve_left (by simp [hone])))
      rw [← Option.some.inj hrun]
      exact ⟨.started state size (Or.inl rfl), Or.inr (Or.inl rfl)⟩
  | failed state requests => exact absurd (hone.symm.trans requests) (List.cons_ne_nil r [])

theorem readDevice_returns (hne : s.maxPacketSize ≠ 0) :
    ∃ s', (s.deviceRequest 18 (fun result => some (core.conclude result .transfer)) accepted).map s.after =
      some s' := by
  rw [deviceRequest_conclude (by decide), if_neg hne]
  exact ⟨_, rfl⟩

/-- Outside of the setting of a configuration no transfer stops the kernel. -/
theorem not_stops_transfer (hstate : s.core.currentState ≠ .settingConfig) : ¬ s.Stops .transfer :=
  fun h => hstate h.1

/-- A request is answered, unless what was asked for stops the kernel. -/
theorem Stage.answer_returns {r : Request} (hs : Stage s) (hone : s.outstanding = [r])
    (hmeets : r = .transfer → s.core.Meets { x with packetSize := s.maxPacketSize }) :
    (∃ fuel s', s.taken.answer base x portSpeed fuel r = some s') ↔ ¬ s.Stops r := by
  cases hs with
  | creating state fresh requests =>
      obtain rfl := List.singleton_inj.1 (hone.symm.trans (requests.resolve_left (by simp [hone])))
      exact ⟨fun _ => id, fun _ => ⟨0, _, rfl⟩⟩
  | enabled state fresh size requests =>
      obtain rfl := List.singleton_inj.1 (hone.symm.trans (requests.resolve_left (by simp [hone])))
      exact ⟨fun _ => id, fun _ => ⟨0, _, rfl⟩⟩
  | addressed state fresh size requests =>
      obtain rfl := List.singleton_inj.1 (hone.symm.trans requests)
      exact ⟨fun _ => id, fun _ => ⟨0, readDevice_returns size⟩⟩
  | readingDev state fresh size requests =>
      obtain rfl := List.singleton_inj.1 (hone.symm.trans requests)
      refine ⟨fun _ => not_stops_transfer (by rw [state]; decide), fun _ => ⟨0, ?_⟩⟩
      have hx := hmeets rfl
      rw [GenericCore.Meets, state] at hx
      rw [answer, Enumeration.handleTransferComplete, show s.taken.core.currentState = _ from state]
      exact @interpretDescriptor_returns (s.taken.withDescriptor x) x size hx rfl
  | evaluating state fresh size requests =>
      obtain rfl := List.singleton_inj.1 (hone.symm.trans requests)
      rw [Stops, ← newMaxPacketSize_toUInt16_eq_zero, ← size]
      refine ⟨?_, fun hne => ⟨0, readDevice_returns hne⟩⟩
      rintro ⟨fuel, s', hrun⟩ hzero
      rw [answer, Enumeration.setMaxPacketSizeComplete] at hrun
      obtain ⟨done, hdone, -⟩ := Option.map_eq_some_iff.1 hrun
      have hstopped := hdone.symm.trans (deviceRequest_conclude (by decide))
      rw [if_pos (show s.taken.maxPacketSize = 0 from hzero)] at hstopped
      exact Option.some_ne_none done hstopped
  | readingCfg state size reading before requests =>
      obtain rfl := List.singleton_inj.1 (hone.symm.trans requests)
      refine ⟨fun _ => not_stops_transfer (by rw [state]; decide), fun _ => ?_⟩
      have hx : s.core.Meets x := by
        have hx := hmeets rfl
        rw [GenericCore.Meets, state] at hx ⊢
        exact hx
      obtain ⟨fuel, s', hgot⟩ := @gotConfigDescriptor_returns s.taken x state size reading hx
      refine ⟨fuel, s', ?_⟩
      rwa [answer, Enumeration.handleTransferComplete, show s.taken.core.currentState = _ from state]
  | discovered state size active requests =>
      obtain rfl := List.singleton_inj.1 (hone.symm.trans requests)
      exact ⟨fun _ => id, fun _ => ⟨0, _, rfl⟩⟩
  | setting state size active requests =>
      obtain rfl := List.singleton_inj.1 (hone.symm.trans requests)
      have hset : ∀ fuel, s.taken.answer base x portSpeed fuel .transfer =
          s.taken.configurationSet base x.accepted := by
        intro fuel
        rw [answer, Enumeration.handleTransferComplete, show s.taken.core.currentState = _ from state]
      rw [exists_congr fun fuel => exists_congr fun s' => by rw [hset fuel], exists_const,
        @configurationSet_returns s.taken x.accepted base active]
      exact not_congr (and_iff_right state).symm
  | configuring state size requests =>
      obtain rfl := List.singleton_inj.1 (hone.symm.trans requests)
      exact ⟨fun _ => id, fun _ => ⟨0, _, if_pos state⟩⟩
  | started state size requests =>
      obtain rfl := List.singleton_inj.1 (hone.symm.trans (requests.resolve_left (by simp [hone])))
      exact ⟨fun _ => id, fun _ => ⟨0, _, rfl⟩⟩
  | failed state requests => exact absurd (hone.symm.trans requests) (List.cons_ne_nil r [])

/-- One request at most is awaited, and one is, unless the core is done or has failed or a command was not
accepted. -/
theorem Stage.requests (hs : Stage s) :
    (∃ r, s.outstanding = [r]) ∨ s.outstanding = [] ∧
      (s.core.currentState = .failed ∨ s.core.currentState = .started ∨
        s.core.currentState = .createContext ∨ s.core.currentState = .enabled) := by
  cases hs with
  | creating state fresh requests =>
      exact requests.symm.imp (⟨_, ·⟩) (⟨·, Or.inr (Or.inr (Or.inl state))⟩)
  | enabled state fresh size requests =>
      exact requests.symm.imp (⟨_, ·⟩) (⟨·, Or.inr (Or.inr (Or.inr state))⟩)
  | started state size requests => exact requests.symm.imp (⟨_, ·⟩) (⟨·, Or.inr (Or.inl state)⟩)
  | failed state requests => exact Or.inr ⟨requests, Or.inl state⟩
  | addressed _ _ _ requests | readingDev _ _ _ requests | evaluating _ _ _ requests
  | readingCfg _ _ _ _ requests | discovered _ _ _ requests | setting _ _ _ requests
  | configuring _ _ requests => exact Or.inl ⟨_, requests⟩

theorem Stage.size_known (hs : Stage s) (hknown : s.core.currentState.SizeKnown) :
    newMaxPacketSize s.maxPacketSizeEncoded = s.maxPacketSize.toUInt32 := by
  cases hs with
  | readingCfg _ size _ _ _ | discovered _ size _ _ | setting _ size _ _ | configuring _ size _
  | started _ size _ => exact size
  | creating state _ _ | enabled state _ _ _ | addressed state _ _ _ | readingDev state _ _ _
  | evaluating state _ _ _ | failed state _ =>
      rw [state] at hknown
      exact hknown.elim

theorem Stage.leads {i : Nat × Supplied × Nat} (hs : Stage s) (hmeets : s.Meets i)
    (hrun : s.step base portSpeed i = some s') : Leads s s' := by
  rcases hs.requests with ⟨r, hone⟩ | ⟨hnone, -⟩
  · obtain ⟨hzero, hanswer⟩ := (step_single hone).1 hrun
    have hget : s.outstanding[i.1]? = some r := by rw [hone, hzero]; rfl
    obtain ⟨hstage, hfollows⟩ := hs.answer_leads hone (fun h => hmeets (hget.trans (congrArg some h))) hanswer
    exact ⟨hstage, hfollows⟩
  · exact absurd hrun (step_none hnone)

theorem Stage.inOrder (hs : Stage s) : InOrder base portSpeed s where
  one := by
    rcases hs.requests with ⟨r, hone⟩ | ⟨hnone, -⟩
    · exact hone ▸ Nat.le_refl 1
    · exact hnone ▸ Nat.zero_le 1
  waits hnone := by
    rcases hs.requests with ⟨r, hone⟩ | ⟨-, hstate⟩
    · exact absurd (hone.symm.trans hnone) (List.cons_ne_nil r [])
    · exact hstate
  size hknown := size_of_eq (hs.size_known hknown)
  stops r x hone hmeets := by
    rw [← @hs.answer_returns s x portSpeed base r hone fun h =>
      hmeets (by rw [hone, h]; rfl)]
    constructor
    · rintro ⟨fuel, s', hrun⟩
      exact ⟨fuel, s', ((step_single hone).1 hrun).2⟩
    · rintro ⟨fuel, s', hanswer⟩
      exact ⟨fuel, s', (step_single hone).2 ⟨rfl, hanswer⟩⟩
  follows _ _ hmeets hrun := (hs.leads hmeets hrun).follows

theorem stage_create (core : GenericCore) : Stage (create core accepted) := by
  refine .creating rfl rfl ?_
  cases accepted with
  | true => exact Or.inr rfl
  | false => exact Or.inl rfl

end

end Azalea.Usb
