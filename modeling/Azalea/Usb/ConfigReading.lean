import Azalea.Usb.ConfigDescriptor

/-!
# Usb — reading the configurations of a device

`got_device_descriptor`, `got_config_descriptor` and `interpret_raw_descriptor` of `usb::generic_core`, with
whatever bytes a device sends.  A function of the model returns nothing if the code reads or writes outside
of a buffer or of an array, or does not come to an end.

* `interpretRawDescriptor_returns_iff`: a string is interpreted to an end, inside its buffer, just if it
  can be walked over.
* `handleTransferComplete_safe_iff`: in every state that is reached, handling a completed transfer is safe
  just if what it brings is as the code needs it.
-/

namespace Azalea.Usb

/-! ### Strings that can be walked over -/

/-- Descriptors that are read one after the other, each with all that is read of it inside of the string. -/
def Chain (raw : List UInt8) : Nat → List RawDescriptor → Prop
  | _, [] => True
  | ptr, d :: ds =>
      d = ⟨ptr, raw.drop ptr⟩ ∧ ptr < raw.length ∧ Stands raw d ∧ Chain raw (ptr + d.length.toNat) ds

/-- An interface, while the one before it has not all of its endpoints, or an endpoint for which there is no
place. -/
def Refused (a : Assembly) (d : RawDescriptor) : Prop :=
  (d.type = interfaceType ∧ ∃ i, a.current = some i ∧ ¬ Exact i) ∨
    (d.type = endpointType ∧ ∀ i, a.current = some i → Exact i)

/-- After some descriptors, which are accepted, the string ends, or the header of one stands that is
refused.  There are no more interfaces than `room`, and the offset fits in its 16 bits. -/
structure Walk (raw : List UInt8) (room ptr : Nat) (a : Assembly) (ds : List RawDescriptor) (a' : Assembly) :
    Prop where
  chain : Chain raw ptr ds
  added : a.addAll ds = some a'
  room : a.begun.length + ds.countP (·.isInterface) ≤ room
  short : ptr + bytesOf ds < 65536
  stops : raw.length ≤ ptr + bytesOf ds ∨
    ptr + bytesOf ds + 2 ≤ raw.length ∧ Refused a' ⟨ptr + bytesOf ds, raw.drop (ptr + bytesOf ds)⟩

/-- A configuration descriptor, which has an interface, and descriptors that can be walked over. -/
def Interpretable (raw : List UInt8) : Prop :=
  ∃ desc, ConfigDescriptor.ofBytes raw = some desc ∧ 0 < desc.numInterfaces.toNat ∧
    ∃ ds a, Walk raw desc.numInterfaces.toNat 9 ⟨[], none, []⟩ ds a

section
variable {s s' : Interpreting} {a a' : Assembly} {i : DeviceInterface} {raw : List UInt8}
  {d : RawDescriptor} {ds : List RawDescriptor} {desc : ConfigDescriptor} {n fuel : Nat}

/-! ### Steps that are refused -/

/-- What is changed without a refusal. -/
structure Going (s s' : Interpreting) : Prop where
  result : s'.result = s.result
  room : s'.interfaces.length = s.interfaces.length

theorem beginInterface_going {current : UInt8} (h : s.beginInterface raw current = some s') : Going s s' := by
  rw [Interpreting.beginInterface] at h
  obtain ⟨desc, -, h⟩ := Option.bind_eq_some_iff.1 h
  by_cases hroom : current.toNat < s.interfaces.length
  · rw [← Option.some.inj ((if_pos hroom).symm.trans h)]
    exact ⟨rfl, List.length_set⟩
  · exact absurd ((if_neg hroom).symm.trans h).symm (Option.some_ne_none s')

theorem storeEndpoint_going (h : s.storeEndpoint raw i = some s') : Going s s' := by
  rw [Interpreting.storeEndpoint] at h
  obtain ⟨desc, -, h⟩ := Option.bind_eq_some_iff.1 h
  by_cases hroom : s.currentEndpoint.toNat < i.endpoints.length
  · rw [← Option.some.inj ((if_pos hroom).symm.trans h)]
    exact ⟨rfl, List.length_set⟩
  · exact absurd ((if_neg hroom).symm.trans h).symm (Option.some_ne_none s')

theorem onOther_going (h : s.onOther = some s') : Going s s' := by
  rw [Interpreting.onOther] at h
  by_cases hfound : s.foundAnInterfaceBefore = true
  · rw [if_pos hfound] at h
    obtain ⟨i, -, h⟩ := Option.map_eq_some_iff.1 h
    rw [← h]
    exact ⟨rfl, List.length_set⟩
  · rw [← Option.some.inj ((if_neg hfound).symm.trans h)]
    exact ⟨rfl, rfl⟩

/-- A descriptor is refused without any other effect. -/
theorem onType_cases {type : UInt8} (h : s.onType raw type = some s') :
    s' = { s with result := false } ∨ Going s s' := by
  rw [Interpreting.onType] at h
  by_cases hi : type = interfaceType
  · rw [if_pos hi, Interpreting.onInterface] at h
    by_cases hfound : s.foundAnInterfaceBefore = true
    · rw [if_pos hfound] at h
      obtain ⟨i, -, h⟩ := Option.bind_eq_some_iff.1 h
      by_cases hall : s.currentEndpoint = i.desc.numEndpoints
      · exact Or.inr (beginInterface_going ((if_neg fun hmissing => hmissing hall).symm.trans h))
      · exact Or.inl (Option.some.inj ((if_pos hall).symm.trans h)).symm
    · exact Or.inr (beginInterface_going ((if_neg hfound).symm.trans h))
  · rw [if_neg hi] at h
    by_cases he : type = endpointType
    · rw [if_pos he, Interpreting.onEndpoint] at h
      by_cases hfound : s.foundAnInterfaceBefore = true
      · rw [if_pos hfound] at h
        obtain ⟨i, -, h⟩ := Option.bind_eq_some_iff.1 h
        by_cases hall : s.currentEndpoint = i.desc.numEndpoints
        · exact Or.inl (Option.some.inj ((if_pos hall).symm.trans h)).symm
        · exact Or.inr (storeEndpoint_going ((if_neg hall).symm.trans h))
      · exact Or.inl (Option.some.inj ((if_neg hfound).symm.trans h)).symm
    · exact Or.inr (onOther_going ((if_neg he).symm.trans h))

theorem onType_length {type : UInt8} (h : s.onType raw type = some s') :
    s'.interfaces.length = s.interfaces.length := by
  rcases onType_cases h with h | h
  · rw [h]
  · exact h.room

theorem interfaceType_ne : interfaceType ≠ endpointType := by decide

/-- What the code refuses. -/
theorem Shows.refused (h : Shows s a) (hrun : s.onType raw d.type = some s') (hbad : s'.result = false) :
    Refused a d := by
  have hgood : ¬ s'.result = s.result := by
    rw [hbad, h.result]
    exact Bool.false_ne_true
  rw [Interpreting.onType] at hrun
  by_cases hi : d.type = interfaceType
  · rw [if_pos hi, Interpreting.onInterface] at hrun
    cases hcurrent : a.current with
    | none =>
        exact absurd (beginInterface_going ((if_neg (h.found_none hcurrent)).symm.trans hrun)).result hgood
    | some i =>
        rw [if_pos (h.found_some hcurrent), h.active_eq hcurrent, Option.bind_eq_bind, Option.bind_some]
          at hrun
        refine Or.inl ⟨hi, i, hcurrent, fun hexact => ?_⟩
        rw [if_neg fun hmissing => hmissing ((h.endpoint_eq_iff hcurrent).2 hexact)] at hrun
        exact hgood (beginInterface_going hrun).result
  · rw [if_neg hi] at hrun
    by_cases he : d.type = endpointType
    · rw [if_pos he, Interpreting.onEndpoint] at hrun
      refine Or.inr ⟨he, fun i hcurrent => Decidable.not_not (p := _ = _).1 fun hexact => ?_⟩
      rw [if_pos (h.found_some hcurrent), h.active_eq hcurrent, Option.bind_eq_bind, Option.bind_some]
        at hrun
      rw [if_neg fun hall => hexact ((h.endpoint_eq_iff hcurrent).1 hall)] at hrun
      exact hgood (storeEndpoint_going hrun).result
    · exact absurd (onOther_going ((if_neg he).symm.trans hrun)).result hgood

/-- For what is refused, no more than the header is read. -/
theorem Shows.onType_refused (h : Shows s a) (hrefused : Refused a d) :
    s.onType raw d.type = some { s with result := false } := by
  rw [Interpreting.onType]
  rcases hrefused with ⟨hi, i, hcurrent, hexact⟩ | ⟨he, hexact⟩
  · rw [if_pos hi, Interpreting.onInterface, if_pos (h.found_some hcurrent), h.active_eq hcurrent]
    exact if_pos fun hall => hexact ((h.endpoint_eq_iff hcurrent).1 hall)
  · rw [if_neg (he ▸ interfaceType_ne.symm), if_pos he, Interpreting.onEndpoint]
    cases hcurrent : a.current with
    | none => exact if_neg (h.found_none hcurrent)
    | some i =>
        rw [if_pos (h.found_some hcurrent), h.active_eq hcurrent]
        exact if_pos ((h.endpoint_eq_iff hcurrent).2 (hexact i hcurrent))

/-! ### The header -/

theorem header_inside (hone : s.interpretOne raw = some s') : s.ptr + 2 ≤ raw.length := by
  rw [Interpreting.interpretOne] at hone
  obtain ⟨length, -, hone⟩ := Option.bind_eq_some_iff.1 hone
  obtain ⟨type, htype, -⟩ := Option.bind_eq_some_iff.1 hone
  exact (List.getElem?_eq_some_iff.1 htype).1

/-- The body of the loop, with its header inside. -/
theorem interpretOne_eq (hheader : s.ptr + 2 ≤ raw.length) :
    s.interpretOne raw = (s.onType raw (s.here raw).type).bind fun s₁ => some { s₁ with
      ptr := s₁.ptr + (s.here raw).length.toNat
      rawPtrOffset := s₁.rawPtrOffset + (s.here raw).length.toUInt16 } := by
  have hlength : raw[s.ptr]? = some raw[s.ptr] := List.getElem?_eq_getElem (by omega)
  have htype : raw[s.ptr + 1]? = some raw[s.ptr + 1] := List.getElem?_eq_getElem (by omega)
  rw [Interpreting.interpretOne, hlength, htype, RawDescriptor.type, RawDescriptor.length,
    here_getD htype, here_getD (j := 0) hlength]
  rfl

/-- A step that ends the loop. -/
theorem Shows.step_refused (h : Shows s a) (hone : s.interpretOne raw = some s') (hbad : s'.result = false) :
    Refused a (s.here raw) := by
  rw [interpretOne_eq (header_inside hone)] at hone
  obtain ⟨s₁, hrun, hone⟩ := Option.bind_eq_some_iff.1 hone
  rw [← Option.some.inj hone] at hbad
  exact h.refused hrun hbad

theorem Shows.interpretOne_refused (h : Shows s a) (hheader : s.ptr + 2 ≤ raw.length)
    (hrefused : Refused a (s.here raw)) (hpos : 0 < s.interfaces.length) :
    ∃ s', s.interpretOne raw = some s' ∧ s'.result = false ∧ s'.active.isSome = true := by
  rw [interpretOne_eq hheader, h.onType_refused hrefused]
  exact ⟨_, rfl, rfl, h.active_isSome hpos⟩

/-! ### The loop -/

/-- Over a string that can be walked over, the loop comes to its end. -/
theorem Shows.run_of_walk (h : Shows s a) (hwalk : Walk raw s.interfaces.length s.ptr a ds a')
    (hoffset : s.rawPtrOffset.toNat = s.ptr) (hpos : 0 < s.interfaces.length) :
    ∃ fuel s', s.interpretAll raw raw.length fuel = some s' ∧ s'.active.isSome = true := by
  induction ds generalizing s a with
  | nil =>
      rcases hwalk.stops with hend | ⟨hheader, hrefused⟩
      · have hdone : ¬ (s.rawPtrOffset.toNat < raw.length ∧ s.result = true) := fun hgo => by
          rw [hoffset] at hgo
          exact absurd hgo.1 (Nat.not_lt.2 hend)
        exact ⟨1, s, interpretAll_exit hdone 0, h.active_isSome hpos⟩
      · obtain rfl := Option.some.inj hwalk.added
        obtain ⟨s₁, hone, hbad, hactive⟩ := h.interpretOne_refused hheader hrefused hpos
        have hgo : s.rawPtrOffset.toNat < raw.length ∧ s.result = true := by
          rw [hoffset]
          exact ⟨Nat.lt_of_lt_of_le (Nat.lt_add_of_pos_right Nat.zero_lt_two) hheader, h.result⟩
        have hdone : ¬ (s₁.rawPtrOffset.toNat < raw.length ∧ s₁.result = true) := fun hgo =>
          Bool.false_ne_true (hbad.symm.trans hgo.2)
        exact ⟨2, s₁, (interpretAll_step hgo hone 1).trans (interpretAll_exit hdone 0), hactive⟩
  | cons d ds ih =>
      obtain ⟨hd, hlt, hstands, hchain⟩ := hwalk.chain
      have hadded := hwalk.added
      have hroom := hwalk.room
      have hshort := hwalk.short
      have hstops := hwalk.stops
      rw [addAll_cons] at hadded
      obtain ⟨a₁, hadd, hadded⟩ := Option.bind_eq_some_iff.1 hadded
      rw [List.countP_cons] at hroom
      rw [bytesOf_cons, ← Nat.add_assoc] at hshort hstops
      have hstart : d.start = s.ptr := by rw [hd]
      obtain ⟨s₁, hone, hptr, hnext, hsame, houtcome⟩ := h.interpretOne hstands hstart hpos fun hi => by
        rw [if_pos hi] at hroom
        omega
      rw [hadd] at houtcome
      have hbegun := begun_add hadd
      have hoffset₁ : s₁.rawPtrOffset.toNat = s₁.ptr := by
        rw [hnext, UInt16.toNat_add, UInt8.toNat_toUInt16, hptr, hoffset]
        omega
      obtain ⟨fuel, s', hrun, hactive⟩ := ih houtcome
        ⟨hptr ▸ hchain, hadded, by rw [hbegun, hsame]; omega, hptr ▸ hshort, hptr ▸ hstops⟩ hoffset₁
        (hsame.symm ▸ hpos)
      exact ⟨fuel + 1, s', (interpretAll_step ⟨hoffset ▸ hlt, h.result⟩ hone fuel).trans hrun, hactive⟩

/-- Beyond the end nothing is read. -/
theorem interpretAll_beyond (hptr : raw.length ≤ s.ptr) (hgo : s.rawPtrOffset.toNat < n ∧ s.result = true)
    (fuel : Nat) : s.interpretAll raw n fuel = none := by
  cases fuel with
  | zero => rfl
  | succ fuel =>
      rw [Interpreting.interpretAll, if_pos hgo, Interpreting.interpretOne,
        List.getElem?_eq_none hptr]
      rfl

theorem Shows.begun_le (h : Shows s a) : a.begun.length ≤ s.interfaces.length := by
  obtain ⟨k, hk⟩ := h.interfaces
  rw [hk, List.length_append]
  exact Nat.le_add_right _ _

/-- If the loop comes to its end, the string can be walked over. -/
theorem Shows.walk_of_run (h : Shows s a) (hrun : s.interpretAll raw raw.length fuel = some s')
    (hoffset : s.rawPtrOffset.toNat = s.ptr) (hshort : raw.length < 65536)
    (hpos : 0 < s.interfaces.length) :
    ∃ ds a', Walk raw s.interfaces.length s.ptr a ds a' := by
  induction fuel generalizing s a with
  | zero => exact absurd hrun.symm (Option.some_ne_none s')
  | succ fuel ih =>
      have hptr := s.rawPtrOffset.toNat_lt
      rw [hoffset] at hptr
      by_cases hgo : s.rawPtrOffset.toNat < raw.length ∧ s.result = true
      · rw [Interpreting.interpretAll, if_pos hgo] at hrun
        obtain ⟨s₁, hone, hrun⟩ := Option.bind_eq_some_iff.1 hrun
        cases hok : s₁.result with
        | false =>
            exact ⟨[], a, trivial, rfl, h.begun_le, hptr,
              Or.inr ⟨header_inside hone, h.step_refused hone hok⟩⟩
        | true =>
            obtain ⟨hstands, hptr₁, hnext, hsame, a₁, hadd, hshows⟩ := h.step_back hone hok hpos
            have hlen := (s.here raw).length.toNat_lt
            have hoffset₁ : s₁.rawPtrOffset.toNat = s₁.ptr % 65536 := by
              rw [hnext, UInt16.toNat_add, UInt8.toNat_toUInt16, hptr₁, hoffset]
            rw [hoffset] at hgo
            have hnowrap : s₁.ptr < 65536 := by
              refine Nat.lt_of_not_le fun hwrap => ?_
              rw [interpretAll_beyond (Nat.le_of_lt (Nat.lt_of_lt_of_le hshort hwrap)) ⟨by omega, hok⟩]
                at hrun
              exact Option.some_ne_none s' hrun.symm
            rw [Nat.mod_eq_of_lt hnowrap] at hoffset₁
            obtain ⟨ds, a', hwalk⟩ := ih hshows hrun hoffset₁ (hsame.symm ▸ hpos)
            have hbegun := begun_add hadd
            have hroom := hwalk.room
            refine ⟨s.here raw :: ds, a', ⟨rfl, hgo.1, hstands, hptr₁ ▸ hwalk.chain⟩, ?_, ?_, ?_, ?_⟩
            · rw [addAll_cons, hadd, Option.bind_some, hwalk.added]
            · rw [List.countP_cons]
              omega
            · rw [bytesOf_cons, ← Nat.add_assoc, ← hptr₁]
              exact hwalk.short
            · rw [bytesOf_cons, ← Nat.add_assoc, ← hptr₁]
              exact hwalk.stops
      · refine ⟨[], a, trivial, rfl, h.begun_le, hptr, Or.inl (Nat.le_of_not_lt fun hlt => hgo ?_)⟩
        exact ⟨hoffset.symm ▸ hlt, h.result⟩

/-! ### The function -/

theorem interpretAll_length (h : s.interpretAll raw n fuel = some s') :
    s'.interfaces.length = s.interfaces.length := by
  induction fuel generalizing s with
  | zero => exact absurd h.symm (Option.some_ne_none s')
  | succ fuel ih =>
      rw [Interpreting.interpretAll] at h
      by_cases hgo : s.rawPtrOffset.toNat < n ∧ s.result = true
      · rw [if_pos hgo] at h
        obtain ⟨s₁, hone, h⟩ := Option.bind_eq_some_iff.1 h
        rw [interpretOne_eq (header_inside hone)] at hone
        obtain ⟨s₂, hcase, hone⟩ := Option.bind_eq_some_iff.1 hone
        rw [ih h, ← Option.some.inj hone, ← onType_length hcase]
      · rw [if_neg hgo] at h
        rw [Option.some.inj h]

/-- Without an interface, the check after the loop reads beyond the array. -/
theorem numInterfaces_pos {r : Bool × InterpretedConfig} (h : interpretRawDescriptor raw n fuel = some r) :
    ∃ desc, ConfigDescriptor.ofBytes raw = some desc ∧ 0 < desc.numInterfaces.toNat ∧
      ∃ s', (startInterpreting desc).interpretAll raw n fuel = some s' := by
  rw [interpretRawDescriptor] at h
  obtain ⟨desc, hparsed, h⟩ := Option.bind_eq_some_iff.1 h
  obtain ⟨s', hrun, h⟩ := Option.bind_eq_some_iff.1 h
  obtain ⟨i, hactive, -⟩ := Option.bind_eq_some_iff.1 h
  refine ⟨desc, hparsed, ?_, s', hrun⟩
  have hlength : (startInterpreting desc).interfaces.length = desc.numInterfaces.toNat :=
    List.length_replicate
  rw [← hlength, ← interpretAll_length hrun]
  exact Nat.zero_lt_of_lt (List.getElem?_eq_some_iff.1 hactive).1

/-- A string is interpreted to an end just if it can be walked over. -/
theorem interpretRawDescriptor_returns_iff (hshort : raw.length < 65536) :
    (∃ fuel r, interpretRawDescriptor raw raw.length fuel = some r) ↔ Interpretable raw := by
  constructor
  · rintro ⟨fuel, r, h⟩
    obtain ⟨desc, hparsed, hpos, s', hrun⟩ := numInterfaces_pos h
    have hlength : (startInterpreting desc).interfaces.length = desc.numInterfaces.toNat :=
      List.length_replicate
    rw [← hlength] at hpos
    obtain ⟨ds, a, hwalk⟩ := (shows_start desc).walk_of_run hrun rfl hshort hpos
    rw [hlength] at hpos hwalk
    exact ⟨desc, hparsed, hpos, ds, a, hwalk⟩
  · rintro ⟨desc, hparsed, hpos, ds, a, hwalk⟩
    have hlength : (startInterpreting desc).interfaces.length = desc.numInterfaces.toNat :=
      List.length_replicate
    rw [← hlength] at hpos hwalk
    obtain ⟨fuel, s', hrun, hactive⟩ := (shows_start desc).run_of_walk hwalk rfl hpos
    obtain ⟨i, hi⟩ := Option.isSome_iff_exists.1 hactive
    refine ⟨fuel, (s'.currentEndpoint == i.desc.numEndpoints && s'.result,
      ⟨desc, s'.interfaces, s'.otherDescriptors⟩), ?_⟩
    rw [interpretRawDescriptor, hparsed, Option.bind_eq_bind, Option.bind_some, hrun, Option.bind_eq_bind,
      Option.bind_some, hi]
    rfl

end

/-! ### The core of a device -/

/-- `CORE_STATE`. -/
inductive CoreState where
  | uninitialized
  | createContext
  | enabled
  | addressed
  | configured
  | readingDevDescriptor
  | readingCfgDescriptors
  | settingConfig
  | started
  | failed
  deriving DecidableEq

/-- `device_config`: the buffer, its size as it is noted, and what was interpreted last. -/
structure DeviceConfig where
  rawDescriptor : List UInt8 := []
  rawDescriptorLength : UInt32 := 0
  interpreted : Option InterpretedConfig := none

/-- `generic_core`; of `main_device_descriptor`, the number of configurations. -/
structure GenericCore where
  numConfigurations : UInt8
  configurations : List DeviceConfig
  currentState : CoreState
  configsRead : Nat

/-- What the core waits for. -/
inductive Awaited where
  | nothing
  | transfer
  | packetSize

/-- What comes from outside while a completed transfer is handled: the device descriptor or the bytes that
were transferred, the packet size in use, the bytes in the place of the total length of a buffer that was
released, and whether the next request is accepted. -/
structure Supplied where
  maxPacketSizeEncoded : UInt8
  numConfigurations : UInt8
  bytes : List UInt8
  packetSize : UInt16
  released : UInt16
  accepted : Bool

/-- The core after a call, the result in it, and what is awaited then. -/
structure Handled where
  core : GenericCore
  result : Bool
  awaited : Awaited

namespace GenericCore

variable (core : GenericCore) (x : Supplied)

/-- `if (!result)`: the core has failed. -/
def conclude (result : Bool) (awaited : Awaited) : Handled :=
  if result then ⟨core, true, awaited⟩ else ⟨{ core with currentState := .failed }, false, .nothing⟩

/-- `do_device_discovery`. -/
def doDeviceDiscovery (accepted : Bool) : Handled :=
  conclude { core with currentState := .readingDevDescriptor } accepted .transfer

/-- `set_max_packet_size_complete`. -/
def setMaxPacketSizeComplete (accepted : Bool) : Handled :=
  conclude { core with currentState := .readingDevDescriptor } accepted .transfer

/-- The configuration that is being read, changed. -/
def setConfig (config : DeviceConfig) : GenericCore :=
  { core with configurations := core.configurations.set core.configsRead config }

/-- `read_config_descriptor`, for the configuration that comes next. -/
def readConfigDescriptor : Option GenericCore := do
  let config ← core.configurations[core.configsRead]?
  some (core.setConfig { config with rawDescriptor := List.replicate 9 0, rawDescriptorLength := 9 })

/-- The packet size that the device gives. -/
def newMaxPacketSize (maxPacketSizeEncoded : UInt8) : UInt32 := 1 <<< maxPacketSizeEncoded.toUInt32

/-- `got_device_descriptor`. -/
def gotDeviceDescriptor : Option Handled :=
  if newMaxPacketSize x.maxPacketSizeEncoded ≠ x.packetSize.toUInt32 then
    some (core.conclude x.accepted .packetSize)
  else do
    let core ← readConfigDescriptor { core with
      currentState := .readingCfgDescriptors
      configsRead := 0
      configurations := List.replicate core.numConfigurations.toNat ({} : DeviceConfig) }
    some (core.conclude x.accepted .transfer)

/-- `config_descriptor::total_length` of a buffer. -/
def totalLength (raw : List UInt8) : Option UInt16 := do
  let low ← raw[2]?
  let high ← raw[3]?
  some (wordOf low high)

/-- The buffer after a transfer, which writes no more than the buffer holds. -/
def received (raw bytes : List UInt8) : List UInt8 := bytes.take raw.length ++ raw.drop bytes.length

/-- What follows an interpretation: `create_device` is called after the last configuration. -/
def interpretedOne (result : Bool) : Option Handled :=
  if result then
    let core := { core with configsRead := core.configsRead + 1 }
    if core.configsRead = core.numConfigurations.toNat then some (core.conclude true .nothing)
    else do
      let core ← core.readConfigDescriptor
      some (core.conclude x.accepted .transfer)
  else some (core.conclude false .nothing)

/-- `got_config_descriptor`. -/
def gotConfigDescriptor (fuel : Nat) : Option Handled := do
  let config ← core.configurations[core.configsRead]?
  let raw := received config.rawDescriptor x.bytes
  let total ← totalLength raw
  if config.rawDescriptorLength = total.toUInt32 then do
    let (result, interpreted) ← interpretRawDescriptor raw config.rawDescriptorLength.toNat fuel
    (core.setConfig { config with rawDescriptor := raw, interpreted := some interpreted }).interpretedOne
      x result
  else
    -- The assignment to `raw_descriptor` releases the buffer from which the length is then read again.
    some ((core.setConfig { config with
      rawDescriptor := List.replicate total.toNat 0
      rawDescriptorLength := x.released.toUInt32 }).conclude x.accepted .transfer)

/-- `handle_transfer_complete`, up to the setting of a configuration. -/
def handleTransferComplete (fuel : Nat) : Option Handled :=
  match core.currentState with
  | .readingDevDescriptor => gotDeviceDescriptor { core with numConfigurations := x.numConfigurations } x
  | .readingCfgDescriptors => core.gotConfigDescriptor x fuel
  | _ => some ⟨core, true, .nothing⟩

/-- The noted sizes are those of the buffers. -/
def Sized : Prop :=
  ∀ config ∈ core.configurations, config.rawDescriptorLength.toNat = config.rawDescriptor.length

/-- The transfer is handled inside of all buffers and arrays, to an end in success or failure, and then the
noted sizes are those of the buffers. -/
def Safe : Prop :=
  ∃ fuel done, core.handleTransferComplete x fuel = some done ∧ done.core.Sized ∧
    (done.result = true ∨ done.core.currentState = .failed)

/-- What the code needs: the device has a configuration; a configuration descriptor has its total length,
and if this is its size, it can be walked over; if not, the length is still in the buffer that was
released. -/
def Meets : Prop :=
  match core.currentState with
  | .readingDevDescriptor =>
      newMaxPacketSize x.maxPacketSizeEncoded ≠ x.packetSize.toUInt32 ∨ 0 < x.numConfigurations.toNat
  | .readingCfgDescriptors =>
      ∀ config, core.configurations[core.configsRead]? = some config →
        ∃ total, totalLength (received config.rawDescriptor x.bytes) = some total ∧
          (config.rawDescriptorLength = total.toUInt32 →
            Interpretable (received config.rawDescriptor x.bytes)) ∧
          (config.rawDescriptorLength ≠ total.toUInt32 → x.released = total)
  | _ => True

end GenericCore

open GenericCore

/-- The states that are reached from the discovery of a device by steps that are as the code needs them. -/
inductive Reached : GenericCore → Awaited → Prop where
  | start (core : GenericCore) (accepted : Bool) (h : core.configurations = []) :
      Reached (core.doDeviceDiscovery accepted).core (core.doDeviceDiscovery accepted).awaited
  | packetSize {core : GenericCore} (accepted : Bool) (h : Reached core .packetSize) :
      Reached (core.setMaxPacketSizeComplete accepted).core
        (core.setMaxPacketSizeComplete accepted).awaited
  | transfer {core : GenericCore} {x : Supplied} {fuel : Nat} {done : Handled} (h : Reached core .transfer)
      (hmeets : core.Meets x) (hrun : core.handleTransferComplete x fuel = some done) :
      Reached done.core done.awaited

/-- The invariant. -/
structure Reading (core : GenericCore) (awaited : Awaited) : Prop where
  sized : core.Sized
  short : ∀ config ∈ core.configurations, config.rawDescriptor.length < 65536
  index : core.currentState = .readingCfgDescriptors → awaited = .transfer →
    core.configsRead < core.configurations.length ∧
      core.configurations.length = core.numConfigurations.toNat

section
variable {core core' : GenericCore} {x : Supplied} {done : Handled} {awaited : Awaited} {fuel : Nat}
  {result : Bool} {config : DeviceConfig}

theorem conclude_result (core : GenericCore) (result : Bool) (awaited : Awaited) :
    (core.conclude result awaited).result = true ∨
      (core.conclude result awaited).core.currentState = .failed := by
  cases result with
  | true => exact Or.inl rfl
  | false => exact Or.inr rfl

theorem Reading.conclude (h : Reading core awaited) (result : Bool) :
    Reading (core.conclude result awaited).core (core.conclude result awaited).awaited := by
  cases result with
  | true => exact h
  | false => exact ⟨h.sized, h.short, fun hstate => CoreState.noConfusion hstate⟩

theorem length_received (raw bytes : List UInt8) : (received raw bytes).length = raw.length := by
  rw [received, List.length_append, List.length_take, List.length_drop]
  omega

/-- The configuration that is being read, replaced by one whose buffer has its noted size. -/
theorem setConfig_sized (hsized : core.Sized) (hconfig : config.rawDescriptorLength.toNat =
    config.rawDescriptor.length) : (core.setConfig config).Sized := by
  intro c hc
  rcases List.mem_or_eq_of_mem_set hc with hc | rfl
  · exact hsized c hc
  · exact hconfig

theorem setConfig_short (hshort : ∀ c ∈ core.configurations, c.rawDescriptor.length < 65536)
    (hconfig : config.rawDescriptor.length < 65536) :
    ∀ c ∈ (core.setConfig config).configurations, c.rawDescriptor.length < 65536 := by
  intro c hc
  rcases List.mem_or_eq_of_mem_set hc with hc | rfl
  · exact hshort c hc
  · exact hconfig

theorem length_setConfig (core : GenericCore) (config : DeviceConfig) :
    (core.setConfig config).configurations.length = core.configurations.length := List.length_set

/-- A buffer for the first bytes of the next configuration. -/
theorem readConfigDescriptor_eq (hlt : core.configsRead < core.configurations.length) :
    ∃ config, core.readConfigDescriptor = some (core.setConfig config) ∧
      config.rawDescriptor.length = 9 ∧ config.rawDescriptorLength = 9 := by
  refine ⟨{ core.configurations[core.configsRead] with
    rawDescriptor := List.replicate 9 0, rawDescriptorLength := 9 }, ?_, rfl, rfl⟩
  rw [readConfigDescriptor, List.getElem?_eq_getElem hlt]
  rfl

theorem readConfigDescriptor_some (h : core.readConfigDescriptor = some core') :
    core.configsRead < core.configurations.length := by
  rw [readConfigDescriptor] at h
  obtain ⟨config, hget, -⟩ := Option.bind_eq_some_iff.1 h
  exact (List.getElem?_eq_some_iff.1 hget).1

theorem Reading.next (hsized : core.Sized)
    (hshort : ∀ c ∈ core.configurations, c.rawDescriptor.length < 65536)
    (hlength : core.configurations.length = core.numConfigurations.toNat)
    (hlt : core.configsRead < core.configurations.length) (h : core.readConfigDescriptor = some core') :
    Reading core' .transfer := by
  obtain ⟨config, hread, hsize, hnoted⟩ := readConfigDescriptor_eq hlt
  obtain rfl := Option.some.inj (hread.symm.trans h)
  refine ⟨setConfig_sized hsized (by rw [hnoted, hsize]; rfl), setConfig_short hshort (by omega),
    fun _ _ => ?_⟩
  rw [length_setConfig]
  exact ⟨hlt, hlength⟩

/-! ### The device descriptor -/

theorem gotDeviceDescriptor_some (hrun : core.gotDeviceDescriptor x = some done) :
    newMaxPacketSize x.maxPacketSizeEncoded ≠ x.packetSize.toUInt32 ∨ 0 < core.numConfigurations.toNat := by
  rw [gotDeviceDescriptor] at hrun
  by_cases hsize : newMaxPacketSize x.maxPacketSizeEncoded ≠ x.packetSize.toUInt32
  · exact Or.inl hsize
  · rw [if_neg hsize] at hrun
    obtain ⟨core', hread, -⟩ := Option.bind_eq_some_iff.1 hrun
    have hlt := readConfigDescriptor_some hread
    rw [List.length_replicate] at hlt
    exact Or.inr hlt

theorem gotDeviceDescriptor_returns (h : newMaxPacketSize x.maxPacketSizeEncoded ≠ x.packetSize.toUInt32 ∨
    0 < core.numConfigurations.toNat) : ∃ done, core.gotDeviceDescriptor x = some done := by
  rw [gotDeviceDescriptor]
  by_cases hsize : newMaxPacketSize x.maxPacketSizeEncoded ≠ x.packetSize.toUInt32
  · rw [if_pos hsize]
    exact ⟨_, rfl⟩
  · rw [if_neg hsize]
    obtain ⟨config, hread, -⟩ := @readConfigDescriptor_eq { core with
      currentState := .readingCfgDescriptors
      configsRead := 0
      configurations := List.replicate core.numConfigurations.toNat ({} : DeviceConfig) }
      (by rw [List.length_replicate]; exact h.resolve_left hsize)
    rw [hread]
    exact ⟨_, rfl⟩

theorem Reading.gotDeviceDescriptor (h : Reading core .transfer)
    (hstate : core.currentState = .readingDevDescriptor) (hrun : core.gotDeviceDescriptor x = some done) :
    Reading done.core done.awaited := by
  rw [GenericCore.gotDeviceDescriptor] at hrun
  by_cases hsize : newMaxPacketSize x.maxPacketSizeEncoded ≠ x.packetSize.toUInt32
  · rw [if_pos hsize] at hrun
    obtain rfl := Option.some.inj hrun
    exact Reading.conclude ⟨h.sized, h.short, fun hreading =>
      CoreState.noConfusion (hstate.symm.trans hreading)⟩ x.accepted
  · rw [if_neg hsize] at hrun
    obtain ⟨core', hread, hrun⟩ := Option.bind_eq_some_iff.1 hrun
    obtain rfl := Option.some.inj hrun
    refine Reading.conclude (Reading.next ?_ ?_ List.length_replicate (readConfigDescriptor_some hread) hread) x.accepted
    · intro c hc
      rw [List.eq_of_mem_replicate hc]
      rfl
    · intro c hc
      rw [List.eq_of_mem_replicate hc]
      decide

/-! ### A configuration descriptor -/

theorem interpretedOne_returns (hlt : core.configsRead < core.configurations.length)
    (hlength : core.configurations.length = core.numConfigurations.toNat) (result : Bool) :
    ∃ done, core.interpretedOne x result = some done := by
  rw [interpretedOne]
  cases result with
  | false => exact ⟨_, rfl⟩
  | true =>
      rw [if_pos rfl]
      dsimp only
      by_cases hall : core.configsRead + 1 = core.numConfigurations.toNat
      · rw [if_pos hall]
        exact ⟨_, rfl⟩
      · rw [if_neg hall]
        obtain ⟨config, hread, -⟩ :=
          @readConfigDescriptor_eq { core with configsRead := core.configsRead + 1 } (by dsimp only; omega)
        rw [hread]
        exact ⟨_, rfl⟩

theorem Reading.interpretedOne (h : Reading core .transfer)
    (hlength : core.configurations.length = core.numConfigurations.toNat)
    (hrun : core.interpretedOne x result = some done) : Reading done.core done.awaited := by
  rw [GenericCore.interpretedOne] at hrun
  cases result with
  | false =>
      obtain rfl := Option.some.inj hrun
      exact h.conclude false
  | true =>
      rw [if_pos rfl] at hrun
      dsimp only at hrun
      by_cases hall : core.configsRead + 1 = core.numConfigurations.toNat
      · rw [if_pos hall] at hrun
        obtain rfl := Option.some.inj hrun
        exact ⟨h.sized, h.short, fun _ hawaited => Awaited.noConfusion hawaited⟩
      · rw [if_neg hall] at hrun
        obtain ⟨core', hread, hrun⟩ := Option.bind_eq_some_iff.1 hrun
        obtain rfl := Option.some.inj hrun
        have hnext : Reading core' .transfer := @Reading.next { core with
          configsRead := core.configsRead + 1 } core' h.sized h.short hlength
          (readConfigDescriptor_some hread) hread
        exact hnext.conclude x.accepted

/-- The buffer that the transfer has filled. -/
theorem Reading.buffer (h : Reading core .transfer) (hstate : core.currentState = .readingCfgDescriptors) :
    ∃ config, core.configurations[core.configsRead]? = some config ∧ config ∈ core.configurations ∧
      config.rawDescriptorLength.toNat = (received config.rawDescriptor x.bytes).length ∧
      (received config.rawDescriptor x.bytes).length < 65536 := by
  have hlt := (h.index hstate rfl).1
  have hmem := List.getElem_mem hlt
  refine ⟨_, List.getElem?_eq_getElem hlt, hmem, ?_⟩
  rw [length_received]
  exact ⟨h.sized _ hmem, h.short _ hmem⟩

theorem Reading.gotConfigDescriptor_returns (h : Reading core .transfer)
    (hstate : core.currentState = .readingCfgDescriptors) (hmeets : core.Meets x) :
    ∃ fuel done, core.gotConfigDescriptor x fuel = some done := by
  obtain ⟨config, hget, -, hsize, hshort⟩ := h.buffer (x := x) hstate
  rw [Meets, hstate] at hmeets
  obtain ⟨total, htotal, hinterpretable, -⟩ := hmeets config hget
  by_cases hall : config.rawDescriptorLength = total.toUInt32
  · obtain ⟨fuel, ⟨result, interpreted⟩, hrun⟩ :=
      (interpretRawDescriptor_returns_iff hshort).2 (hinterpretable hall)
    obtain ⟨hlt, hlength⟩ := h.index hstate rfl
    rw [← length_setConfig core { config with
      rawDescriptor := received config.rawDescriptor x.bytes, interpreted := some interpreted }] at hlt hlength
    obtain ⟨done, hdone⟩ := interpretedOne_returns (x := x) hlt hlength result
    refine ⟨fuel, done, ?_⟩
    rw [gotConfigDescriptor, hget, Option.bind_eq_bind, Option.bind_some]
    dsimp only
    rw [htotal, Option.bind_eq_bind, Option.bind_some, if_pos hall, hsize, hrun]
    exact hdone
  · refine ⟨0, (core.setConfig { config with
      rawDescriptor := List.replicate total.toNat 0
      rawDescriptorLength := x.released.toUInt32 }).conclude x.accepted .transfer, ?_⟩
    rw [gotConfigDescriptor, hget, Option.bind_eq_bind, Option.bind_some]
    dsimp only
    rw [htotal, Option.bind_eq_bind, Option.bind_some, if_neg hall]

/-- What a call that comes to its end has met. -/
theorem gotConfigDescriptor_some (hrun : core.gotConfigDescriptor x fuel = some done) :
    ∃ config total, core.configurations[core.configsRead]? = some config ∧
      totalLength (received config.rawDescriptor x.bytes) = some total ∧
      (config.rawDescriptorLength = total.toUInt32 ∧
          (∃ r, interpretRawDescriptor (received config.rawDescriptor x.bytes)
            config.rawDescriptorLength.toNat fuel = some r ∧
            (core.setConfig { config with
              rawDescriptor := received config.rawDescriptor x.bytes
              interpreted := some r.2 }).interpretedOne x r.1 = some done) ∨
        config.rawDescriptorLength ≠ total.toUInt32 ∧
          done = (core.setConfig { config with
            rawDescriptor := List.replicate total.toNat 0
            rawDescriptorLength := x.released.toUInt32 }).conclude x.accepted .transfer) := by
  rw [gotConfigDescriptor] at hrun
  obtain ⟨config, hget, hrun⟩ := Option.bind_eq_some_iff.1 hrun
  obtain ⟨total, htotal, hrun⟩ := Option.bind_eq_some_iff.1 hrun
  refine ⟨config, total, hget, htotal, ?_⟩
  by_cases hall : config.rawDescriptorLength = total.toUInt32
  · rw [if_pos hall] at hrun
    obtain ⟨r, hinterpret, hrun⟩ := Option.bind_eq_some_iff.1 hrun
    exact Or.inl ⟨hall, r, hinterpret, hrun⟩
  · rw [if_neg hall] at hrun
    exact Or.inr ⟨hall, (Option.some.inj hrun).symm⟩

theorem Reading.gotConfigDescriptor (h : Reading core .transfer)
    (hstate : core.currentState = .readingCfgDescriptors) (hmeets : core.Meets x)
    (hrun : core.gotConfigDescriptor x fuel = some done) : Reading done.core done.awaited := by
  obtain ⟨config, total, hget, htotal, hcases⟩ := gotConfigDescriptor_some hrun
  have hmem := List.mem_of_getElem? hget
  have hlength := length_received config.rawDescriptor x.bytes
  obtain ⟨hlt, hall⟩ := h.index hstate rfl
  rcases hcases with ⟨-, r, -, hone⟩ | ⟨hother, rfl⟩
  · refine Reading.interpretedOne ⟨setConfig_sized h.sized ?_, setConfig_short h.short ?_, fun _ _ => ?_⟩
      ((length_setConfig core _).trans hall) hone
    · dsimp only
      rw [hlength]
      exact h.sized config hmem
    · dsimp only
      rw [hlength]
      exact h.short config hmem
    · rw [length_setConfig]
      exact ⟨hlt, hall⟩
  · rw [Meets, hstate] at hmeets
    obtain ⟨total', htotal', -, hreleased⟩ := hmeets config hget
    obtain rfl := Option.some.inj (htotal'.symm.trans htotal)
    refine Reading.conclude ⟨setConfig_sized h.sized ?_, setConfig_short h.short ?_, fun _ _ => ?_⟩ x.accepted
    · dsimp only
      rw [hreleased hother, UInt16.toNat_toUInt32, List.length_replicate]
    · dsimp only
      rw [List.length_replicate]
      exact total'.toNat_lt
    · rw [length_setConfig]
      exact ⟨hlt, hall⟩

/-! ### The main result -/

/-- The changed configuration is among those there are. -/
theorem mem_conclude {old : DeviceConfig} (hget : core.configurations[core.configsRead]? = some old)
    (result : Bool) : config ∈ ((core.setConfig config).conclude result awaited).core.configurations := by
  have hlt := (List.getElem?_eq_some_iff.1 hget).1
  have hset : (core.configurations.set core.configsRead config)[core.configsRead]? = some config :=
    List.getElem?_set_self hlt
  cases result with
  | true => exact List.mem_of_getElem? hset
  | false => exact List.mem_of_getElem? hset

theorem handled_result (hrun : core.handleTransferComplete x fuel = some done) :
    done.result = true ∨ done.core.currentState = .failed := by
  rw [handleTransferComplete] at hrun
  split at hrun
  · rw [gotDeviceDescriptor] at hrun
    by_cases hsize : newMaxPacketSize x.maxPacketSizeEncoded ≠ x.packetSize.toUInt32
    · rw [if_pos hsize] at hrun
      rw [← Option.some.inj hrun]
      exact conclude_result _ _ _
    · rw [if_neg hsize] at hrun
      obtain ⟨core', -, hrun⟩ := Option.bind_eq_some_iff.1 hrun
      rw [← Option.some.inj hrun]
      exact conclude_result _ _ _
  · obtain ⟨config, total, -, -, ⟨-, r, -, hone⟩ | ⟨-, rfl⟩⟩ := gotConfigDescriptor_some hrun
    · rw [interpretedOne] at hone
      split at hone
      · dsimp only at hone
        split at hone
        · rw [← Option.some.inj hone]
          exact conclude_result _ _ _
        · obtain ⟨core', -, hone⟩ := Option.bind_eq_some_iff.1 hone
          rw [← Option.some.inj hone]
          exact conclude_result _ _ _
      · rw [← Option.some.inj hone]
        exact conclude_result _ _ _
    · exact conclude_result _ _ _
  · rw [← Option.some.inj hrun]
    exact Or.inl rfl

theorem Reading.handled (h : Reading core .transfer) (hmeets : core.Meets x)
    (hrun : core.handleTransferComplete x fuel = some done) : Reading done.core done.awaited := by
  rw [handleTransferComplete] at hrun
  split at hrun
  case h_1 hstate =>
    have hnumber : Reading { core with numConfigurations := x.numConfigurations } .transfer :=
      ⟨h.sized, h.short, fun hreading => CoreState.noConfusion (hstate.symm.trans hreading)⟩
    exact hnumber.gotDeviceDescriptor hstate hrun
  case h_2 hstate => exact h.gotConfigDescriptor hstate hmeets hrun
  case h_3 =>
    rw [← Option.some.inj hrun]
    exact ⟨h.sized, h.short, fun _ hawaited => Awaited.noConfusion hawaited⟩

theorem Reached.reading (h : Reached core awaited) : Reading core awaited := by
  induction h with
  | start core accepted hnone =>
      refine Reading.conclude ⟨?_, ?_, fun hstate => CoreState.noConfusion hstate⟩ accepted
      · intro c hc
        exact absurd (hnone ▸ hc : c ∈ []) List.not_mem_nil
      · intro c hc
        exact absurd (hnone ▸ hc : c ∈ []) List.not_mem_nil
  | @packetSize core accepted _ ih =>
      exact @Reading.conclude { core with currentState := .readingDevDescriptor } .transfer
        ⟨ih.sized, ih.short, fun hstate => CoreState.noConfusion hstate⟩ accepted
  | transfer _ hmeets hrun ih => exact ih.handled hmeets hrun

theorem handle_device (hstate : core.currentState = .readingDevDescriptor) (fuel : Nat) :
    core.handleTransferComplete x fuel =
      gotDeviceDescriptor { core with numConfigurations := x.numConfigurations } x := by
  obtain ⟨number, configurations, state, index⟩ := core
  obtain rfl : state = .readingDevDescriptor := hstate
  rfl

theorem Reading.returns (h : Reading core .transfer) (hmeets : core.Meets x) :
    ∃ fuel done, core.handleTransferComplete x fuel = some done := by
  cases hstate : core.currentState with
  | readingDevDescriptor =>
      rw [Meets, hstate] at hmeets
      obtain ⟨done, hdone⟩ :=
        @gotDeviceDescriptor_returns { core with numConfigurations := x.numConfigurations } x hmeets
      exact ⟨0, done, (handle_device hstate 0).trans hdone⟩
  | readingCfgDescriptors =>
      obtain ⟨fuel, done, hdone⟩ := h.gotConfigDescriptor_returns hstate hmeets
      exact ⟨fuel, done, by rw [handleTransferComplete, hstate]; exact hdone⟩
  | _ => exact ⟨0, ⟨core, true, .nothing⟩, by rw [handleTransferComplete, hstate]⟩

theorem Reading.meets (h : Reading core .transfer) (hsafe : core.Safe x) : core.Meets x := by
  obtain ⟨fuel, done, hrun, hsized, -⟩ := hsafe
  rw [Meets]
  cases hstate : core.currentState with
  | readingDevDescriptor =>
      rw [handle_device hstate] at hrun
      exact gotDeviceDescriptor_some hrun
  | readingCfgDescriptors =>
      rw [handleTransferComplete, hstate] at hrun
      intro config hget
      obtain ⟨config₁, hget₁, -, hsize, hshort⟩ := h.buffer (x := x) hstate
      obtain rfl := Option.some.inj (hget₁.symm.trans hget)
      obtain ⟨config₂, total, hget₂, htotal, hcases⟩ := gotConfigDescriptor_some hrun
      obtain rfl := Option.some.inj (hget₂.symm.trans hget)
      refine ⟨total, htotal, fun hall => ?_, fun hother => ?_⟩
      · rcases hcases with ⟨-, r, hinterpret, -⟩ | ⟨hother, -⟩
        · rw [hsize] at hinterpret
          exact (interpretRawDescriptor_returns_iff hshort).1 ⟨fuel, r, hinterpret⟩
        · exact absurd hall hother
      · rcases hcases with ⟨hall, -⟩ | ⟨-, rfl⟩
        · exact absurd hall hother
        · have hnoted := hsized _ (mem_conclude hget x.accepted)
          rw [UInt16.toNat_toUInt32, List.length_replicate] at hnoted
          exact UInt16.toNat_inj.1 hnoted
  | _ => trivial

/-- In every state that is reached, a completed transfer is handled safely just if what it brings is as the
code needs it. -/
theorem handleTransferComplete_safe_iff (h : Reached core .transfer) : core.Safe x ↔ core.Meets x := by
  refine ⟨h.reading.meets, fun hmeets => ?_⟩
  obtain ⟨fuel, done, hrun⟩ := h.reading.returns hmeets
  exact ⟨fuel, done, hrun, (h.reading.handled hmeets hrun).sized, handled_result hrun⟩

end

/-! ### A device -/

/-- What a device with one configuration of 11 bytes sends: its descriptor, and the start of that of its
configuration. -/
def exampleSupplied : Supplied where
  maxPacketSizeEncoded := 3
  numConfigurations := 1
  bytes := [9, 2, 11, 0, 1, 1, 0, 0xa0, 50]
  packetSize := 8
  released := 11
  accepted := true

/-- The first bytes of the configuration are to be read. -/
def exampleCore : GenericCore := ⟨1, [⟨List.replicate 9 0, 9, none⟩], .readingCfgDescriptors, 0⟩

theorem exampleCore_reached : Reached exampleCore .transfer :=
  @Reached.transfer _ exampleSupplied 0 ⟨exampleCore, true, .transfer⟩
    (.start ⟨0, [], .uninitialized, 0⟩ true rfl) (Or.inr (by decide)) rfl

theorem exampleCore_meets : exampleCore.Meets exampleSupplied := by
  intro config hget
  obtain rfl := Option.some.inj hget
  exact ⟨11, rfl, fun hall => absurd hall (by decide), fun _ => rfl⟩

theorem exampleCore_safe : exampleCore.Safe exampleSupplied :=
  (handleTransferComplete_safe_iff exampleCore_reached).2 exampleCore_meets

/-- All of its bytes are to be read. -/
def endlessCore : GenericCore := ⟨1, [⟨List.replicate 11 0, 11, none⟩], .readingCfgDescriptors, 0⟩

/-- The last two are the header of a descriptor of no bytes. -/
def endlessSupplied : Supplied :=
  { exampleSupplied with bytes := [9, 2, 11, 0, 1, 1, 0, 0xa0, 50, 0, 33] }

theorem endless_loop (fuel : Nat) (others : List Nat) :
    Interpreting.interpretAll endlessSupplied.bytes 11 fuel
      ⟨9, 9, 0, 0, false, true, [{}], others⟩ = none := by
  induction fuel generalizing others with
  | zero => rfl
  | succ fuel ih => exact ih (others ++ [9])

/-- The loop over the descriptors does not end. -/
theorem endless_not_safe : Reached endlessCore .transfer ∧ ¬ endlessCore.Safe endlessSupplied := by
  refine ⟨@Reached.transfer _ exampleSupplied 0 ⟨endlessCore, true, .transfer⟩ exampleCore_reached
    exampleCore_meets rfl, ?_⟩
  rintro ⟨fuel, done, hrun, -⟩
  obtain ⟨config, total, hget, htotal, hcases⟩ := gotConfigDescriptor_some hrun
  obtain rfl := Option.some.inj hget
  obtain rfl := Option.some.inj htotal
  rcases hcases with ⟨-, r, hinterpret, -⟩ | ⟨hother, -⟩
  · obtain ⟨s, hloop, -⟩ := Option.bind_eq_some_iff.1 hinterpret
    exact Option.some_ne_none s (hloop.symm.trans (endless_loop fuel []))
  · exact hother rfl

end Azalea.Usb
