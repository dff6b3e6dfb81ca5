import Mathlib.Algebra.Order.Ring.Nat

/-!
# Usb — configuration descriptors

`interpret_raw_descriptor` of `usb::generic_core` (`devices/usb/usb_gen_device_core.cpp`).  A device sends
one string of bytes: the configuration descriptor itself, and then descriptors of interfaces, of their
endpoints and of other things, each of which begins with its length and its type.  A pointer to a
descriptor in this string is its offset.

* `interpretRawDescriptor_iff`: a well-formed string whose configuration descriptor has 9 bytes is
  interpreted with success if and only if every interface descriptor is followed by as many endpoint
  descriptors as it says, and none stands before the first.  What comes out of it are the descriptors,
  grouped under the interface before them.  The loop begins at the ninth byte however long the
  configuration descriptor says that it is, and none that is longer comes out so.
-/

namespace Azalea.Usb

/-! ### The structures -/

/-- Two bytes, the low one first. -/
def wordOf (low high : UInt8) : UInt16 := UInt16.ofNat (low.toNat + 256 * high.toNat)

/-- `config_descriptor`. -/
structure ConfigDescriptor where
  length : UInt8
  descriptorType : UInt8
  totalLength : UInt16
  numInterfaces : UInt8
  configIndexNumber : UInt8
  configStringIdx : UInt8
  attributes : UInt8
  maxPower : UInt8
  deriving DecidableEq

/-- The structure at the start of some bytes, if there are enough. -/
def ConfigDescriptor.ofBytes : List UInt8 → Option ConfigDescriptor
  | l :: t :: total₀ :: total₁ :: n :: index :: string :: attributes :: power :: _ =>
      some ⟨l, t, wordOf total₀ total₁, n, index, string, attributes, power⟩
  | _ => none

/-- `interface_descriptor`. -/
structure InterfaceDescriptor where
  length : UInt8 := 0
  descriptorType : UInt8 := 0
  interfaceNumber : UInt8 := 0
  interfaceAlternateNum : UInt8 := 0
  numEndpoints : UInt8 := 0
  interfaceClass : UInt8 := 0
  interfaceSubclass : UInt8 := 0
  interfaceProtocol : UInt8 := 0
  interfaceStringIdx : UInt8 := 0
  deriving DecidableEq

def InterfaceDescriptor.ofBytes : List UInt8 → Option InterfaceDescriptor
  | l :: t :: number :: alternate :: n :: cls :: subclass :: protocol :: string :: _ =>
      some ⟨l, t, number, alternate, n, cls, subclass, protocol, string⟩
  | _ => none

/-- `endpoint_descriptor`; the attributes are `raw`. -/
structure EndpointDescriptor where
  length : UInt8 := 0
  descriptorType : UInt8 := 0
  endpointAddress : UInt8 := 0
  attributes : UInt8 := 0
  maxPacketSize : UInt16 := 0
  serviceInterval : UInt8 := 0
  deriving DecidableEq

def EndpointDescriptor.ofBytes : List UInt8 → Option EndpointDescriptor
  | l :: t :: address :: attributes :: size₀ :: size₁ :: interval :: _ =>
      some ⟨l, t, address, attributes, wordOf size₀ size₁, interval⟩
  | _ => none

/-- `DESCRIPTOR_TYPES::INTERFACE`. -/
def interfaceType : UInt8 := 4

/-- `DESCRIPTOR_TYPES::ENDPOINT`. -/
def endpointType : UInt8 := 5

/-- `device_interface`. -/
structure DeviceInterface where
  desc : InterfaceDescriptor := {}
  endpoints : List EndpointDescriptor := []
  otherDescriptors : List Nat := []
  deriving DecidableEq

/-- What `interpret_raw_descriptor` sets of a `device_config`. -/
structure InterpretedConfig where
  desc : ConfigDescriptor
  interfaces : List DeviceInterface
  otherDescriptors : List Nat
  deriving DecidableEq

/-! ### The loop -/

/-- The variables of the loop; `ptr` is `raw_ptr`, as an offset. -/
structure Interpreting where
  ptr : Nat
  rawPtrOffset : UInt16
  currentInterface : UInt8
  currentEndpoint : UInt8
  foundAnInterfaceBefore : Bool
  result : Bool
  interfaces : List DeviceInterface
  otherDescriptors : List Nat

namespace Interpreting

variable (raw : List UInt8) (s : Interpreting)

/-- The interface in hand, if its index is in the array. -/
def active : Option DeviceInterface := s.interfaces[s.currentInterface.toNat]?

def setActive (i : DeviceInterface) : Interpreting :=
  { s with interfaces := s.interfaces.set s.currentInterface.toNat i }

/-- The new interface is made current.  Here and below nothing is returned if a byte beyond the buffer is
read or an element outside of an array is used. -/
def beginInterface (current : UInt8) : Option Interpreting := do
  let desc ← InterfaceDescriptor.ofBytes (raw.drop s.ptr)
  if current.toNat < s.interfaces.length then
    some { s with
      foundAnInterfaceBefore := true
      currentInterface := current
      currentEndpoint := 0
      interfaces := s.interfaces.set current.toNat
        { desc := desc, endpoints := List.replicate desc.numEndpoints.toNat {} } }
  else none

/-- `case DESCRIPTOR_TYPES::INTERFACE`. -/
def onInterface : Option Interpreting :=
  if s.foundAnInterfaceBefore then do
    let i ← s.active
    if s.currentEndpoint ≠ i.desc.numEndpoints then some { s with result := false }
    else s.beginInterface raw (s.currentInterface + 1)
  else s.beginInterface raw s.currentInterface

/-- The endpoint is stored in the interface in hand. -/
def storeEndpoint (i : DeviceInterface) : Option Interpreting := do
  let desc ← EndpointDescriptor.ofBytes (raw.drop s.ptr)
  if s.currentEndpoint.toNat < i.endpoints.length then
    some { s.setActive { i with endpoints := i.endpoints.set s.currentEndpoint.toNat desc } with
      currentEndpoint := s.currentEndpoint + 1 }
  else none

/-- `case DESCRIPTOR_TYPES::ENDPOINT`. -/
def onEndpoint : Option Interpreting :=
  if s.foundAnInterfaceBefore then do
    let i ← s.active
    if s.currentEndpoint = i.desc.numEndpoints then some { s with result := false }
    else s.storeEndpoint raw i
  else some { s with result := false }

/-- The default case. -/
def onOther : Option Interpreting :=
  if s.foundAnInterfaceBefore then
    s.active.map fun i => s.setActive { i with otherDescriptors := i.otherDescriptors ++ [s.ptr] }
  else some { s with otherDescriptors := s.otherDescriptors ++ [s.ptr] }

/-- `switch (hdr->descriptor_type)`. -/
def onType (type : UInt8) : Option Interpreting :=
  if type = interfaceType then s.onInterface raw
  else if type = endpointType then s.onEndpoint raw
  else s.onOther

/-- The body of the loop. -/
def interpretOne : Option Interpreting := do
  let length ← raw[s.ptr]?
  let type ← raw[s.ptr + 1]?
  let s ← s.onType raw type
  some { s with ptr := s.ptr + length.toNat, rawPtrOffset := s.rawPtrOffset + length.toUInt16 }

/-- The loop.  Nothing is returned if it does not end with its fuel. -/
def interpretAll (rawDescriptorLength : Nat) : Nat → Interpreting → Option Interpreting
  | 0, _ => none
  | fuel + 1, s =>
      if s.rawPtrOffset.toNat < rawDescriptorLength ∧ s.result = true then do
        let s ← s.interpretOne raw
        interpretAll rawDescriptorLength fuel s
      else some s

end Interpreting

/-- The variables before the loop. -/
def startInterpreting (desc : ConfigDescriptor) : Interpreting where
  ptr := 9
  rawPtrOffset := 9
  currentInterface := 0
  currentEndpoint := 0
  foundAnInterfaceBefore := false
  result := true
  interfaces := List.replicate desc.numInterfaces.toNat {}
  otherDescriptors := []

/-- `interpret_raw_descriptor`: its result, and what it sets. -/
def interpretRawDescriptor (raw : List UInt8) (rawDescriptorLength fuel : Nat) :
    Option (Bool × InterpretedConfig) := do
  let desc ← ConfigDescriptor.ofBytes raw
  let s ← (startInterpreting desc).interpretAll raw rawDescriptorLength fuel
  let i ← s.active
  some (s.currentEndpoint == i.desc.numEndpoints && s.result, ⟨desc, s.interfaces, s.otherDescriptors⟩)

/-! ### The descriptors in the string -/

/-- A descriptor, and where it begins. -/
structure RawDescriptor where
  start : Nat
  bytes : List UInt8

namespace RawDescriptor

def length (d : RawDescriptor) : UInt8 := d.bytes.getD 0 0

def type (d : RawDescriptor) : UInt8 := d.bytes.getD 1 0

def isInterface (d : RawDescriptor) : Bool := d.type == interfaceType

def isEndpoint (d : RawDescriptor) : Bool := d.type == endpointType

def isOther (d : RawDescriptor) : Bool := !d.isInterface && !d.isEndpoint

/-- A whole descriptor: as long as it says, and at least as long as the structure of its type. -/
structure Whole (d : RawDescriptor) : Prop where
  header : 2 ≤ d.bytes.length
  length : d.length.toNat = d.bytes.length
  interface : d.isInterface = true → 9 ≤ d.bytes.length
  endpoint : d.isEndpoint = true → 7 ≤ d.bytes.length

/-- The structure of an interface descriptor. -/
def interfaceDesc (d : RawDescriptor) : InterfaceDescriptor := (InterfaceDescriptor.ofBytes d.bytes).getD {}

/-- The structure of an endpoint descriptor. -/
def endpointDesc (d : RawDescriptor) : EndpointDescriptor := (EndpointDescriptor.ofBytes d.bytes).getD {}

end RawDescriptor

/-- Descriptors that stand one after the other. -/
def placed : Nat → List (List UInt8) → List RawDescriptor
  | _, [] => []
  | start, bytes :: rest => ⟨start, bytes⟩ :: placed (start + bytes.length) rest

/-- The descriptors before the first interface, and each interface with those after it, up to the next. -/
def grouped : List RawDescriptor → List RawDescriptor × List (RawDescriptor × List RawDescriptor)
  | [] => ([], [])
  | d :: ds =>
      if d.isInterface then ([], (d, (grouped ds).1) :: (grouped ds).2)
      else (d :: (grouped ds).1, (grouped ds).2)

/-- The endpoint descriptors among some. -/
def endpointsOf (ds : List RawDescriptor) : List EndpointDescriptor :=
  (ds.filter (·.isEndpoint)).map (·.endpointDesc)

/-- Where those begin that are neither of interfaces nor of endpoints. -/
def othersOf (ds : List RawDescriptor) : List Nat := (ds.filter (·.isOther)).map (·.start)

/-- An interface as its group has it. -/
def interfaceOf (group : RawDescriptor × List RawDescriptor) : DeviceInterface where
  desc := group.1.interfaceDesc
  endpoints := endpointsOf group.2
  otherDescriptors := othersOf group.2

/-- The interface has as many endpoints as it says. -/
def Exact (i : DeviceInterface) : Prop := i.endpoints.length = i.desc.numEndpoints.toNat

/-- A configuration descriptor and the whole descriptors after it: the total length is that of the string,
and there are as many interfaces as it says, at least one. -/
structure WellFormed (raw own : List UInt8) (descriptors : List (List UInt8)) (desc : ConfigDescriptor) :
    Prop where
  bytes : raw = own ++ descriptors.flatten
  parsed : ConfigDescriptor.ofBytes own = some desc
  length : desc.length.toNat = own.length
  total : desc.totalLength.toNat = raw.length
  whole : ∀ d ∈ placed own.length descriptors, d.Whole
  count : (placed own.length descriptors).countP (·.isInterface) = desc.numInterfaces.toNat
  pos : 0 < desc.numInterfaces.toNat

/-- No endpoint stands before the first interface, and each interface has those that it says. -/
def Complete (ds : List RawDescriptor) : Prop :=
  endpointsOf (grouped ds).1 = [] ∧ ∀ group ∈ (grouped ds).2, Exact (interfaceOf group)

/-- The configuration that descriptors give, grouped under the interfaces before them. -/
def configOf (desc : ConfigDescriptor) (ds : List RawDescriptor) : InterpretedConfig where
  desc := desc
  interfaces := (grouped ds).2.map interfaceOf
  otherDescriptors := othersOf (grouped ds).1

/-! ### Putting the descriptors together -/

/-- What has been put together: the interfaces that are complete, the one in hand, and what belongs to the
configuration. -/
structure Assembly where
  finished : List DeviceInterface
  current : Option DeviceInterface
  others : List Nat

namespace Assembly

/-- One more descriptor, unless it is refused. -/
def add (a : Assembly) (d : RawDescriptor) : Option Assembly :=
  if d.isInterface then
    match a.current with
    | none => some { a with current := some { desc := d.interfaceDesc } }
    | some i =>
        if i.endpoints.length = i.desc.numEndpoints.toNat then
          some { a with finished := a.finished ++ [i], current := some { desc := d.interfaceDesc } }
        else none
  else if d.isEndpoint then
    match a.current with
    | none => none
    | some i =>
        if i.endpoints.length = i.desc.numEndpoints.toNat then none
        else some { a with current := some { i with endpoints := i.endpoints ++ [d.endpointDesc] } }
  else
    match a.current with
    | none => some { a with others := a.others ++ [d.start] }
    | some i => some { a with
        current := some { i with otherDescriptors := i.otherDescriptors ++ [d.start] } }

/-- All of them. -/
def addAll (a : Assembly) (ds : List RawDescriptor) : Option Assembly := ds.foldlM add a

/-- The last interface has to be complete, too. -/
def finish (a : Assembly) : Option (List DeviceInterface × List Nat) :=
  match a.current with
  | none => some (a.finished, a.others)
  | some i =>
      if i.endpoints.length = i.desc.numEndpoints.toNat then some (a.finished ++ [i], a.others) else none

end Assembly

/-- An interface with further descriptors. -/
def DeviceInterface.extend (i : DeviceInterface) (ds : List RawDescriptor) : DeviceInterface where
  desc := i.desc
  endpoints := i.endpoints ++ endpointsOf ds
  otherDescriptors := i.otherDescriptors ++ othersOf ds

section
variable {d : RawDescriptor} {ds : List RawDescriptor} {a : Assembly} {i : DeviceInterface}
  {r : List DeviceInterface × List Nat}

theorem isOther_of_not (hi : d.isInterface = false) (he : d.isEndpoint = false) : d.isOther = true := by
  rw [RawDescriptor.isOther, hi, he]
  rfl

theorem endpointsOf_endpoint (he : d.isEndpoint = true) :
    endpointsOf (d :: ds) = d.endpointDesc :: endpointsOf ds := by
  rw [endpointsOf, List.filter_cons_of_pos he, List.map_cons, endpointsOf]

theorem endpointsOf_skip (he : d.isEndpoint = false) : endpointsOf (d :: ds) = endpointsOf ds := by
  rw [endpointsOf, List.filter_cons_of_neg (by rw [he]; decide), endpointsOf]

theorem othersOf_other (ho : d.isOther = true) : othersOf (d :: ds) = d.start :: othersOf ds := by
  rw [othersOf, List.filter_cons_of_pos ho, List.map_cons, othersOf]

theorem othersOf_skip (ho : d.isOther = false) : othersOf (d :: ds) = othersOf ds := by
  rw [othersOf, List.filter_cons_of_neg (by rw [ho]; decide), othersOf]

theorem isOther_of_endpoint (he : d.isEndpoint = true) : d.isOther = false := by
  rw [RawDescriptor.isOther, he, Bool.not_true, Bool.and_false]

theorem addAll_cons : a.addAll (d :: ds) = (a.add d).bind fun a => a.addAll ds := List.foldlM_cons

theorem grouped_interface (hi : d.isInterface = true) :
    grouped (d :: ds) = ([], (d, (grouped ds).1) :: (grouped ds).2) := by
  rw [grouped, if_pos hi]

theorem grouped_member (hi : d.isInterface = false) :
    grouped (d :: ds) = (d :: (grouped ds).1, (grouped ds).2) := by
  rw [grouped, if_neg (by rw [hi]; decide)]

theorem extend_nil : i.extend [] = i := by
  rw [DeviceInterface.extend, endpointsOf, othersOf, List.filter_nil, List.filter_nil, List.map_nil,
    List.map_nil, List.append_nil, List.append_nil]

theorem extend_endpoint (he : d.isEndpoint = true) :
    i.extend (d :: ds) = { i with endpoints := i.endpoints ++ [d.endpointDesc] : DeviceInterface }.extend ds := by
  simp only [DeviceInterface.extend, endpointsOf_endpoint he, othersOf_skip (isOther_of_endpoint he),
    List.append_assoc, List.singleton_append]

theorem extend_other (he : d.isEndpoint = false) (ho : d.isOther = true) :
    i.extend (d :: ds) =
      { i with otherDescriptors := i.otherDescriptors ++ [d.start] : DeviceInterface }.extend ds := by
  simp only [DeviceInterface.extend, endpointsOf_skip he, othersOf_other ho, List.append_assoc,
    List.singleton_append]

/-- With an interface in hand: those before the next one are its own. -/
theorem addAll_current (hcurrent : a.current = some i)
    (hle : i.endpoints.length ≤ i.desc.numEndpoints.toNat) :
    (a.addAll ds).bind Assembly.finish = some r ↔
      (Exact (i.extend (grouped ds).1) ∧ ∀ group ∈ (grouped ds).2, Exact (interfaceOf group)) ∧
        r = (a.finished ++ i.extend (grouped ds).1 :: (grouped ds).2.map interfaceOf, a.others) := by
  induction ds generalizing a i with
  | nil =>
      change a.finish = some r ↔ (Exact (i.extend []) ∧ _) ∧ r = (a.finished ++ [i.extend []], a.others)
      rw [extend_nil, Assembly.finish, hcurrent]
      dsimp only
      by_cases hexact : i.endpoints.length = i.desc.numEndpoints.toNat
      · rw [if_pos hexact, Option.some.injEq]
        exact ⟨fun h => ⟨⟨hexact, fun _ h => absurd h List.not_mem_nil⟩, h.symm⟩, fun h => h.2.symm⟩
      · rw [if_neg hexact]
        exact iff_of_false (fun h => Option.some_ne_none r h.symm) fun h => hexact h.1.1
  | cons d ds ih =>
      rw [addAll_cons]
      by_cases hi : d.isInterface = true
      · rw [grouped_interface hi, extend_nil, Assembly.add, if_pos hi, hcurrent]
        dsimp only
        by_cases hexact : i.endpoints.length = i.desc.numEndpoints.toNat
        · rw [if_pos hexact, Option.bind_some, ih rfl (Nat.zero_le _), List.forall_mem_cons, List.map_cons]
          dsimp only
          rw [List.append_assoc, List.singleton_append]
          exact and_congr_left fun _ => ⟨fun h => ⟨hexact, h⟩, fun h => h.2⟩
        · rw [if_neg hexact]
          exact iff_of_false (fun h => Option.some_ne_none r h.symm) fun h => hexact h.1.1
      · have hi : d.isInterface = false := Bool.eq_false_iff.mpr hi
        rw [grouped_member hi, Assembly.add, if_neg (by rw [hi]; decide), hcurrent]
        dsimp only
        cases he : d.isEndpoint with
        | true =>
            rw [if_pos rfl, extend_endpoint he]
            by_cases hexact : i.endpoints.length = i.desc.numEndpoints.toNat
            · rw [if_pos hexact]
              refine iff_of_false (fun h => Option.some_ne_none r h.symm) fun h => ?_
              have hmore : (i.endpoints ++ [d.endpointDesc] ++ endpointsOf (grouped ds).1).length =
                i.desc.numEndpoints.toNat := h.1.1
              rw [List.length_append, List.length_append, List.length_singleton] at hmore
              omega
            · rw [if_neg hexact, Option.bind_some]
              refine ih rfl ?_
              dsimp only
              rw [List.length_append, List.length_singleton]
              omega
        | false =>
            rw [if_neg Bool.false_ne_true, extend_other he (isOther_of_not hi he), Option.bind_some]
            exact ih rfl hle

/-- Before the first interface. -/
theorem addAll_none (hcurrent : a.current = none) (hfinished : a.finished = []) :
    (a.addAll ds).bind Assembly.finish = some r ↔
      (endpointsOf (grouped ds).1 = [] ∧ ∀ group ∈ (grouped ds).2, Exact (interfaceOf group)) ∧
        r = ((grouped ds).2.map interfaceOf, a.others ++ othersOf (grouped ds).1) := by
  induction ds generalizing a with
  | nil =>
      change a.finish = some r ↔ ([] = [] ∧ _) ∧ r = ([], a.others ++ [])
      rw [Assembly.finish, hcurrent, hfinished, List.append_nil, Option.some.injEq]
      exact ⟨fun h => ⟨⟨rfl, fun _ h => absurd h List.not_mem_nil⟩, h.symm⟩, fun h => h.2.symm⟩
  | cons d ds ih =>
      rw [addAll_cons]
      by_cases hi : d.isInterface = true
      · rw [grouped_interface hi, Assembly.add, if_pos hi, hcurrent]
        dsimp only
        rw [Option.bind_some, addAll_current rfl (Nat.zero_le _), hfinished, List.forall_mem_cons,
          List.map_cons]
        dsimp only
        rw [show othersOf [] = [] from rfl, List.append_nil, List.nil_append]
        exact and_congr_left fun _ => ⟨fun h => ⟨rfl, h⟩, fun h => h.2⟩
      · have hi : d.isInterface = false := Bool.eq_false_iff.mpr hi
        rw [grouped_member hi, Assembly.add, if_neg (by rw [hi]; decide), hcurrent]
        dsimp only
        cases he : d.isEndpoint with
        | true =>
            rw [if_pos rfl, endpointsOf_endpoint he]
            exact iff_of_false (fun h => Option.some_ne_none r h.symm) fun h => List.cons_ne_nil _ _ h.1.1
        | false =>
            rw [if_neg Bool.false_ne_true, endpointsOf_skip he, othersOf_other (isOther_of_not hi he),
              Option.bind_some]
            refine (@ih ⟨a.finished, none, a.others ++ [d.start]⟩ rfl hfinished).trans ?_
            dsimp only
            rw [List.append_assoc, List.singleton_append]

end

/-! ### The loop puts them together -/

/-- An interface in hand, in the array: there is room for the endpoints that are missing. -/
def DeviceInterface.stored (i : DeviceInterface) : DeviceInterface :=
  { i with endpoints := i.endpoints ++
      List.replicate (i.desc.numEndpoints.toNat - i.endpoints.length) {} }

/-- The interfaces that have been begun. -/
def Assembly.begun (a : Assembly) : List DeviceInterface :=
  a.finished ++ (a.current.map DeviceInterface.stored).toList

theorem begun_append (finished : List DeviceInterface) (i : DeviceInterface) (others : List Nat)
    (zs : List DeviceInterface) :
    (Assembly.mk finished (some i) others).begun ++ zs = finished ++ i.stored :: zs :=
  (List.append_cons finished i.stored zs).symm

/-- The variables of the loop are those of the assembly. -/
structure Shows (s : Interpreting) (a : Assembly) : Prop where
  result : s.result = true
  found : s.foundAnInterfaceBefore = a.current.isSome
  others : s.otherDescriptors = a.others
  interfaces : ∃ k, s.interfaces = a.begun ++ List.replicate k ({} : DeviceInterface)
  few : s.interfaces.length < 256
  index : s.currentInterface.toNat = a.finished.length
  fresh : a.current = none → a.finished = [] ∧ s.currentEndpoint = 0
  endpoint : ∀ i, a.current = some i →
    s.currentEndpoint.toNat = i.endpoints.length ∧ i.endpoints.length ≤ i.desc.numEndpoints.toNat

theorem getElem?_middle {α : Type} (xs : List α) (y : α) (zs : List α) :
    (xs ++ y :: zs)[xs.length]? = some y := by
  rw [List.getElem?_append_right (Nat.le_refl _), Nat.sub_self, List.getElem?_cons_zero]

theorem set_middle {α : Type} (xs : List α) (y z : α) (zs : List α) :
    (xs ++ y :: zs).set xs.length z = xs ++ z :: zs := by
  rw [List.set_append_right _ _ (Nat.le_refl _), Nat.sub_self, List.set_cons_zero]

/-- A descriptor stands in the string, with the bytes that are read of it. -/
structure Stands (raw : List UInt8) (d : RawDescriptor) : Prop where
  bytes : ∃ tail, raw.drop d.start = d.bytes ++ tail
  header : 2 ≤ d.bytes.length
  interface : d.isInterface = true → 9 ≤ d.bytes.length
  endpoint : d.isEndpoint = true → 7 ≤ d.bytes.length

theorem ConfigDescriptor.ofBytes_append {xs : List UInt8} {desc : ConfigDescriptor}
    (h : ConfigDescriptor.ofBytes xs = some desc) (tail : List UInt8) :
    9 ≤ xs.length ∧ ConfigDescriptor.ofBytes (xs ++ tail) = some desc := by
  unfold ConfigDescriptor.ofBytes at h
  split at h
  · exact ⟨Nat.le_add_left 9 _, h⟩
  · exact absurd h.symm (Option.some_ne_none desc)

theorem InterfaceDescriptor.ofBytes_some {xs : List UInt8} {desc : InterfaceDescriptor}
    (h : InterfaceDescriptor.ofBytes xs = some desc) : 9 ≤ xs.length ∧ desc.length = xs.getD 0 0 := by
  unfold InterfaceDescriptor.ofBytes at h
  split at h
  · exact ⟨Nat.le_add_left 9 _, (congrArg InterfaceDescriptor.length (Option.some.inj h)).symm⟩
  · exact absurd h.symm (Option.some_ne_none desc)

theorem EndpointDescriptor.ofBytes_some {xs : List UInt8} {desc : EndpointDescriptor}
    (h : EndpointDescriptor.ofBytes xs = some desc) : 7 ≤ xs.length ∧ desc.length = xs.getD 0 0 := by
  unfold EndpointDescriptor.ofBytes at h
  split at h
  · exact ⟨Nat.le_add_left 7 _, (congrArg EndpointDescriptor.length (Option.some.inj h)).symm⟩
  · exact absurd h.symm (Option.some_ne_none desc)

theorem InterfaceDescriptor.ofBytes_append {xs : List UInt8} (h : 9 ≤ xs.length) (tail : List UInt8) :
    InterfaceDescriptor.ofBytes (xs ++ tail) = some ((InterfaceDescriptor.ofBytes xs).getD {}) := by
  rcases xs with _ | ⟨_, _ | ⟨_, _ | ⟨_, _ | ⟨_, _ | ⟨_, _ | ⟨_, _ | ⟨_, _ | ⟨_, _ | ⟨_, _⟩⟩⟩⟩⟩⟩⟩⟩⟩
  case cons.cons.cons.cons.cons.cons.cons.cons.cons => rfl
  all_goals exact absurd h (by simp)

theorem EndpointDescriptor.ofBytes_append {xs : List UInt8} (h : 7 ≤ xs.length) (tail : List UInt8) :
    EndpointDescriptor.ofBytes (xs ++ tail) = some ((EndpointDescriptor.ofBytes xs).getD {}) := by
  rcases xs with _ | ⟨_, _ | ⟨_, _ | ⟨_, _ | ⟨_, _ | ⟨_, _ | ⟨_, _ | ⟨_, _⟩⟩⟩⟩⟩⟩⟩
  case cons.cons.cons.cons.cons.cons.cons => rfl
  all_goals exact absurd h (by simp)

section
variable {s s' : Interpreting} {a a' : Assembly} {i : DeviceInterface} {raw : List UInt8}
  {d : RawDescriptor}

theorem Stands.getElem? (hd : Stands raw d) {j : Nat} (hj : j < 2) :
    raw[d.start + j]? = some (d.bytes.getD j 0) := by
  obtain ⟨tail, htail⟩ := hd.bytes
  have hlt : j < d.bytes.length := Nat.lt_of_lt_of_le hj hd.header
  rw [← List.getElem?_drop, htail, List.getElem?_append_left hlt, List.getD_eq_getElem?_getD,
    List.getElem?_eq_getElem hlt, Option.getD_some]

theorem Stands.interface_eq (hd : Stands raw d) (hi : d.isInterface = true) :
    InterfaceDescriptor.ofBytes (raw.drop d.start) = some d.interfaceDesc := by
  obtain ⟨tail, htail⟩ := hd.bytes
  rw [htail, InterfaceDescriptor.ofBytes_append (hd.interface hi), RawDescriptor.interfaceDesc]

theorem Stands.endpoint_eq (hd : Stands raw d) (he : d.isEndpoint = true) :
    EndpointDescriptor.ofBytes (raw.drop d.start) = some d.endpointDesc := by
  obtain ⟨tail, htail⟩ := hd.bytes
  rw [htail, EndpointDescriptor.ofBytes_append (hd.endpoint he), RawDescriptor.endpointDesc]

/-- The interface in hand, in its place. -/
theorem Shows.split (h : Shows s a) (hcurrent : a.current = some i) :
    ∃ k, s.interfaces = a.finished ++ i.stored :: List.replicate k ({} : DeviceInterface) := by
  obtain ⟨k, hk⟩ := h.interfaces
  refine ⟨k, ?_⟩
  rw [hk, Assembly.begun, hcurrent, Option.map_some, Option.toList_some, List.append_assoc,
    List.singleton_append]

theorem Shows.active_eq (h : Shows s a) (hcurrent : a.current = some i) : s.active = some i.stored := by
  obtain ⟨k, hk⟩ := h.split hcurrent
  rw [Interpreting.active, h.index, hk, getElem?_middle]

/-- The count of endpoints tells whether they are all there. -/
theorem Shows.endpoint_eq_iff (h : Shows s a) (hcurrent : a.current = some i) :
    s.currentEndpoint = i.stored.desc.numEndpoints ↔ i.endpoints.length = i.desc.numEndpoints.toNat := by
  rw [show i.stored.desc = i.desc from rfl, ← UInt8.toNat_inj, (h.endpoint i hcurrent).1]

theorem DeviceInterface.stored_of_exact (h : i.endpoints.length = i.desc.numEndpoints.toNat) :
    i.stored = i := by
  rw [DeviceInterface.stored, h, Nat.sub_self, List.replicate_zero, List.append_nil]

/-- The array with the interface in hand changed. -/
theorem Shows.setActive (h : Shows s a) (hcurrent : a.current = some i) (j : DeviceInterface) :
    ∃ k, (s.setActive j).interfaces = a.finished ++ j :: List.replicate k ({} : DeviceInterface) := by
  obtain ⟨k, hk⟩ := h.split hcurrent
  refine ⟨k, ?_⟩
  rw [Interpreting.setActive, h.index, hk, set_middle]

/-- The array with the next interface begun. -/
theorem Shows.setNext (h : Shows s a) (hroom : a.begun.length < s.interfaces.length) (j : DeviceInterface) :
    ∃ k, s.interfaces.set a.begun.length j = a.begun ++ j :: List.replicate k ({} : DeviceInterface) := by
  obtain ⟨k, hk⟩ := h.interfaces
  rw [hk, List.length_append, List.length_replicate] at hroom
  obtain ⟨k, rfl⟩ := Nat.exists_eq_succ_of_ne_zero (show k ≠ 0 by omega)
  refine ⟨k, ?_⟩
  rw [hk, List.replicate_succ, set_middle]

/-- There is an interface to compare the count with. -/
theorem Shows.active_isSome (h : Shows s a) (hpos : 0 < s.interfaces.length) : s.active.isSome = true := by
  cases hcurrent : a.current with
  | none =>
      rw [Interpreting.active, h.index, (h.fresh hcurrent).1, List.length_nil,
        List.getElem?_eq_getElem hpos, Option.isSome_some]
  | some i => rw [h.active_eq hcurrent, Option.isSome_some]

/-- What a step leaves: it is refused just if the descriptor is. -/
def Outcome (s : Interpreting) : Option Assembly → Prop
  | some a => Shows s a
  | none => s.result = false ∧ s.active.isSome = true

/-- What the cases leave alone. -/
structure Frame (s s' : Interpreting) : Prop where
  ptr : s'.ptr = s.ptr
  offset : s'.rawPtrOffset = s.rawPtrOffset
  room : s'.interfaces.length = s.interfaces.length

theorem Shows.found_none (h : Shows s a) (hcurrent : a.current = none) :
    ¬ s.foundAnInterfaceBefore = true := by
  rw [h.found, hcurrent]
  decide

theorem Shows.found_some (h : Shows s a) (hcurrent : a.current = some i) :
    s.foundAnInterfaceBefore = true := by
  rw [h.found, hcurrent, Option.isSome_some]

/-- The default case. -/
theorem Shows.onOther (h : Shows s a) (hi : d.isInterface = false) (he : d.isEndpoint = false)
    (hstart : d.start = s.ptr) : ∃ s', s.onOther = some s' ∧ Frame s s' ∧ Outcome s' (a.add d) := by
  rw [Assembly.add, hi, he, if_neg Bool.false_ne_true, if_neg Bool.false_ne_true, hstart]
  cases hcurrent : a.current with
  | none =>
      refine ⟨_, if_neg (h.found_none hcurrent), ⟨rfl, rfl, rfl⟩, ?_⟩
      exact ⟨h.result, h.found.trans (by rw [hcurrent]), congrArg (· ++ [s.ptr]) h.others,
        h.interfaces.imp fun k hk => hk.trans (by rw [Assembly.begun, hcurrent]; rfl), h.few, h.index,
        fun _ => h.fresh hcurrent, fun i hi => absurd hi (Option.some_ne_none i).symm⟩
  | some i =>
      have hrun : s.onOther = some (s.setActive
          { i.stored with otherDescriptors := i.otherDescriptors ++ [s.ptr] }) := by
        rw [Interpreting.onOther, if_pos (h.found_some hcurrent), h.active_eq hcurrent]
        rfl
      obtain ⟨k, hk⟩ := h.setActive hcurrent
        { i.stored with otherDescriptors := i.otherDescriptors ++ [s.ptr] }
      refine ⟨_, hrun, ⟨rfl, rfl, List.length_set⟩, h.result, h.found_some hcurrent, h.others, ⟨k, ?_⟩,
        List.length_set.symm ▸ h.few, h.index, fun hnone => absurd hnone (Option.some_ne_none _), fun j hj => ?_⟩
      · rw [hk, begun_append]
        rfl
      · obtain rfl := Option.some.inj hj
        exact h.endpoint i hcurrent

/-- An endpoint takes its place among those of the interface in hand. -/
theorem stored_set (hlt : i.endpoints.length < i.desc.numEndpoints.toNat) (e : EndpointDescriptor) :
    { i.stored with endpoints := i.stored.endpoints.set i.endpoints.length e : DeviceInterface } =
      { i with endpoints := i.endpoints ++ [e] : DeviceInterface }.stored := by
  obtain ⟨k, hk⟩ := Nat.exists_eq_succ_of_ne_zero
    (show i.desc.numEndpoints.toNat - i.endpoints.length ≠ 0 by omega)
  have hk' : i.desc.numEndpoints.toNat - (i.endpoints ++ [e]).length = k := by
    rw [List.length_append, List.length_singleton]
    omega
  simp only [DeviceInterface.stored, hk, hk', List.replicate_succ, set_middle, List.append_assoc,
    List.singleton_append]

/-- There is room for one that is missing. -/
theorem Shows.storeEndpoint (h : Shows s a) (hd : Stands raw d) (he : d.isEndpoint = true)
    (hstart : d.start = s.ptr) (hcurrent : a.current = some i)
    (hlt : i.endpoints.length < i.desc.numEndpoints.toNat) :
    ∃ s', s.storeEndpoint raw i.stored = some s' ∧ Frame s s' ∧
      Shows s' { a with current := some { i with endpoints := i.endpoints ++ [d.endpointDesc] } } := by
  have hcount := (h.endpoint i hcurrent).1
  have hstored : i.endpoints.length < i.stored.endpoints.length := by
    rw [DeviceInterface.stored, List.length_append, List.length_replicate]
    omega
  rw [Interpreting.storeEndpoint, ← hstart, hd.endpoint_eq he, hcount]
  refine ⟨_, if_pos hstored, ⟨hstart ▸ rfl, rfl, List.length_set⟩, h.result, h.found_some hcurrent,
    h.others, ?_, List.length_set.symm ▸ h.few, h.index,
    fun hnone => absurd hnone (Option.some_ne_none _), fun j hj => ?_⟩
  · obtain ⟨k, hk⟩ := h.setActive hcurrent
      { i with endpoints := i.endpoints ++ [d.endpointDesc] : DeviceInterface }.stored
    refine ⟨k, ?_⟩
    dsimp only
    rw [stored_set hlt, hk, begun_append]
  · obtain rfl := Option.some.inj hj
    have hbound := i.desc.numEndpoints.toNat_lt
    dsimp only
    rw [UInt8.toNat_add, hcount, UInt8.toNat_one, List.length_append, List.length_singleton]
    omega

/-- `case DESCRIPTOR_TYPES::ENDPOINT`. -/
theorem Shows.onEndpoint (h : Shows s a) (hd : Stands raw d) (hi : d.isInterface = false)
    (he : d.isEndpoint = true) (hstart : d.start = s.ptr) (hpos : 0 < s.interfaces.length) :
    ∃ s', s.onEndpoint raw = some s' ∧ Frame s s' ∧ Outcome s' (a.add d) := by
  rw [Assembly.add, hi, he, if_neg Bool.false_ne_true, if_pos rfl]
  cases hcurrent : a.current with
  | none =>
      exact ⟨_, if_neg (h.found_none hcurrent), ⟨rfl, rfl, rfl⟩, rfl, h.active_isSome hpos⟩
  | some i =>
      dsimp only
      rw [Interpreting.onEndpoint, if_pos (h.found_some hcurrent), h.active_eq hcurrent]
      by_cases hexact : i.endpoints.length = i.desc.numEndpoints.toNat
      · rw [if_pos hexact]
        exact ⟨_, if_pos ((h.endpoint_eq_iff hcurrent).2 hexact), ⟨rfl, rfl, rfl⟩, rfl,
          h.active_isSome hpos⟩
      · rw [if_neg hexact]
        obtain ⟨s', hrun, hframe, hshows⟩ := h.storeEndpoint hd he hstart hcurrent
          (Nat.lt_of_le_of_ne (h.endpoint i hcurrent).2 hexact)
        exact ⟨s', (if_neg fun hall => hexact ((h.endpoint_eq_iff hcurrent).1 hall)).trans hrun, hframe,
          hshows⟩

/-- A new interface is begun. -/
theorem Shows.beginInterface (h : Shows s a) (hd : Stands raw d) (hi : d.isInterface = true)
    (hstart : d.start = s.ptr) (hroom : a.begun.length < s.interfaces.length) {current : UInt8}
    (hcurrent : current.toNat = a.begun.length) :
    ∃ s', s.beginInterface raw current = some s' ∧ Frame s s' ∧
      Shows s' ⟨a.begun, some { desc := d.interfaceDesc }, a.others⟩ := by
  rw [Interpreting.beginInterface, ← hstart, hd.interface_eq hi]
  refine ⟨_, if_pos (hcurrent ▸ hroom), ⟨hstart ▸ rfl, rfl, List.length_set⟩, h.result, rfl, h.others, ?_,
    List.length_set.symm ▸ h.few, hcurrent, fun hnone => absurd hnone (Option.some_ne_none _),
    fun i hi => ?_⟩
  · obtain ⟨k, hk⟩ := h.setNext hroom
      { desc := d.interfaceDesc, endpoints := List.replicate d.interfaceDesc.numEndpoints.toNat {} }
    refine ⟨k, ?_⟩
    dsimp only
    rw [hcurrent, hk, begun_append]
    rfl
  · obtain rfl := Option.some.inj hi
    exact ⟨rfl, Nat.zero_le _⟩

theorem begun_of_exact (hcurrent : a.current = some i)
    (hexact : i.endpoints.length = i.desc.numEndpoints.toNat) : a.begun = a.finished ++ [i] := by
  rw [Assembly.begun, hcurrent, Option.map_some, Option.toList_some,
    DeviceInterface.stored_of_exact hexact]

theorem Shows.next_eq (h : Shows s a) (hcurrent : a.current = some i) :
    (s.currentInterface + 1).toNat = a.begun.length := by
  obtain ⟨k, hk⟩ := h.split hcurrent
  have hfew := h.few
  rw [hk, List.length_append, List.length_cons] at hfew
  rw [Assembly.begun, hcurrent, Option.map_some, Option.toList_some, List.length_append,
    List.length_singleton, UInt8.toNat_add, h.index, UInt8.toNat_one]
  omega

/-- `case DESCRIPTOR_TYPES::INTERFACE`. -/
theorem Shows.onInterface (h : Shows s a) (hd : Stands raw d) (hi : d.isInterface = true)
    (hstart : d.start = s.ptr) (hroom : a.begun.length < s.interfaces.length) :
    ∃ s', s.onInterface raw = some s' ∧ Frame s s' ∧ Outcome s' (a.add d) := by
  rw [Assembly.add, if_pos hi]
  cases hcurrent : a.current with
  | none =>
      have hbegun : a.begun = a.finished := by
        rw [Assembly.begun, hcurrent, Option.map_none, Option.toList_none, List.append_nil]
      obtain ⟨s', hrun, hframe, hshows⟩ :=
        h.beginInterface hd hi hstart hroom (h.index.trans (congrArg List.length hbegun.symm))
      rw [hbegun] at hshows
      exact ⟨s', (if_neg (h.found_none hcurrent)).trans hrun, hframe, hshows⟩
  | some i =>
      dsimp only
      rw [Interpreting.onInterface, if_pos (h.found_some hcurrent), h.active_eq hcurrent]
      by_cases hexact : i.endpoints.length = i.desc.numEndpoints.toNat
      · obtain ⟨s', hrun, hframe, hshows⟩ :=
          h.beginInterface hd hi hstart hroom (h.next_eq hcurrent)
        rw [begun_of_exact hcurrent hexact] at hshows
        rw [if_pos hexact]
        exact ⟨s', (if_neg fun hmissing => hmissing ((h.endpoint_eq_iff hcurrent).2 hexact)).trans hrun,
          hframe, hshows⟩
      · rw [if_neg hexact]
        exact ⟨_, if_pos fun hall => hexact ((h.endpoint_eq_iff hcurrent).1 hall), ⟨rfl, rfl, rfl⟩, rfl,
          h.active_isSome (Nat.zero_lt_of_lt hroom)⟩

theorem Outcome.moved {o : Option Assembly} (h : Outcome s o) (ptr : Nat) (offset : UInt16) :
    Outcome { s with ptr := ptr, rawPtrOffset := offset } o := by
  cases o with
  | none => exact h
  | some a => exact ⟨h.result, h.found, h.others, h.interfaces, h.few, h.index, h.fresh, h.endpoint⟩

theorem Shows.onType (h : Shows s a) (hd : Stands raw d) (hstart : d.start = s.ptr)
    (hpos : 0 < s.interfaces.length) (hroom : d.isInterface = true → a.begun.length < s.interfaces.length) :
    ∃ s', s.onType raw d.type = some s' ∧ Frame s s' ∧ Outcome s' (a.add d) := by
  rw [Interpreting.onType]
  by_cases hi : d.type = interfaceType
  · rw [if_pos hi]
    have hi : d.isInterface = true := beq_iff_eq.2 hi
    exact h.onInterface hd hi hstart (hroom hi)
  · rw [if_neg hi]
    have hi : d.isInterface = false := beq_eq_false_iff_ne.2 hi
    by_cases he : d.type = endpointType
    · rw [if_pos he]
      exact h.onEndpoint hd hi (beq_iff_eq.2 he) hstart hpos
    · rw [if_neg he]
      exact h.onOther hi (beq_eq_false_iff_ne.2 he) hstart

/-- The body of the loop does with a descriptor what the assembly does with it. -/
theorem Shows.interpretOne (h : Shows s a) (hd : Stands raw d) (hstart : d.start = s.ptr)
    (hpos : 0 < s.interfaces.length) (hroom : d.isInterface = true → a.begun.length < s.interfaces.length) :
    ∃ s', s.interpretOne raw = some s' ∧ s'.ptr = s.ptr + d.length.toNat ∧
      s'.rawPtrOffset = s.rawPtrOffset + d.length.toUInt16 ∧
      s'.interfaces.length = s.interfaces.length ∧ Outcome s' (a.add d) := by
  obtain ⟨s₁, hrun, hframe, houtcome⟩ := h.onType hd hstart hpos hroom
  refine ⟨{ s₁ with
      ptr := s₁.ptr + d.length.toNat
      rawPtrOffset := s₁.rawPtrOffset + d.length.toUInt16 }, ?_,
    congrArg (· + d.length.toNat) hframe.ptr, congrArg (· + d.length.toUInt16) hframe.offset, hframe.room,
    houtcome.moved _ _⟩
  have hlength : raw[d.start]? = some d.length := hd.getElem? (j := 0) (by omega)
  have htype : raw[d.start + 1]? = some d.type := hd.getElem? (by omega)
  rw [Interpreting.interpretOne, ← hstart, hlength, htype]
  dsimp only [Option.bind_eq_bind, Option.bind_some]
  rw [hrun, Option.bind_some]

end

/-! ### Whole strings -/

section
variable {s s' : Interpreting} {a a' : Assembly} {i : DeviceInterface} {raw : List UInt8}
  {d : RawDescriptor} {desc : ConfigDescriptor} {n fuel : Nat}

theorem begun_length : a.begun.length = a.finished.length + if a.current.isSome then 1 else 0 := by
  rw [Assembly.begun, List.length_append]
  cases a.current <;> rfl

/-- An interface descriptor begins one interface more. -/
theorem begun_add (h : a.add d = some a') :
    a'.begun.length = a.begun.length + if d.isInterface then 1 else 0 := by
  rw [begun_length, begun_length]
  rw [Assembly.add] at h
  by_cases hi : d.isInterface = true
  · rw [if_pos hi] at h ⊢
    cases hcurrent : a.current with
    | none =>
        rw [hcurrent] at h
        obtain rfl := Option.some.inj h
        rfl
    | some i =>
        rw [hcurrent] at h
        by_cases hexact : i.endpoints.length = i.desc.numEndpoints.toNat
        · obtain rfl := Option.some.inj ((if_pos hexact).symm.trans h)
          exact congrArg (· + 1) List.length_append
        · exact absurd ((if_neg hexact).symm.trans h) (Option.some_ne_none a').symm
  · rw [if_neg hi] at h ⊢
    by_cases he : d.isEndpoint = true
    · rw [if_pos he] at h
      cases hcurrent : a.current with
      | none =>
          rw [hcurrent] at h
          exact absurd h.symm (Option.some_ne_none a')
      | some i =>
          rw [hcurrent] at h
          by_cases hexact : i.endpoints.length = i.desc.numEndpoints.toNat
          · exact absurd ((if_pos hexact).symm.trans h) (Option.some_ne_none a').symm
          · obtain rfl := Option.some.inj ((if_neg hexact).symm.trans h)
            rfl
    · rw [if_neg he] at h
      cases hcurrent : a.current with
      | none =>
          rw [hcurrent] at h
          obtain rfl := Option.some.inj h
          rfl
      | some i =>
          rw [hcurrent] at h
          obtain rfl := Option.some.inj h
          rfl

theorem interpretAll_exit (h : ¬ (s.rawPtrOffset.toNat < n ∧ s.result = true)) (fuel : Nat) :
    s.interpretAll raw n (fuel + 1) = some s := by
  rw [Interpreting.interpretAll, if_neg h]

theorem interpretAll_step (h : s.rawPtrOffset.toNat < n ∧ s.result = true)
    (hone : s.interpretOne raw = some s') (fuel : Nat) :
    s.interpretAll raw n (fuel + 1) = s'.interpretAll raw n fuel := by
  rw [Interpreting.interpretAll, if_pos h, hone]
  rfl

/-- A whole descriptor at the start of the rest. -/
theorem Whole.stands {start : Nat} {bytes tail : List UInt8} (h : RawDescriptor.Whole ⟨start, bytes⟩)
    (hdrop : raw.drop start = bytes ++ tail) : Stands raw ⟨start, bytes⟩ :=
  ⟨⟨tail, hdrop⟩, h.header, h.interface, h.endpoint⟩

/-- The descriptors of a well-formed string, one by one: nothing is in the way. -/
theorem Shows.interpretAll {ds : List (List UInt8)} (hn : n < 65536) (h : Shows s a)
    (hend : s.ptr + ds.flatten.length = n) (hdrop : raw.drop s.ptr = ds.flatten)
    (hoffset : s.rawPtrOffset.toNat = s.ptr) (hwhole : ∀ d ∈ placed s.ptr ds, d.Whole)
    (hpos : 0 < s.interfaces.length)
    (hroom : a.begun.length + (placed s.ptr ds).countP (·.isInterface) = s.interfaces.length) :
    ∃ s', s.interpretAll raw n (ds.length + 1) = some s' ∧ Outcome s' (a.addAll (placed s.ptr ds)) ∧
      s'.interfaces.length = s.interfaces.length ∧
      ∀ a', a.addAll (placed s.ptr ds) = some a' → s'.interfaces = a'.begun := by
  induction ds generalizing s a with
  | nil =>
      have hdone : ¬ (s.rawPtrOffset.toNat < n ∧ s.result = true) := by
        rw [List.flatten_nil, List.length_nil] at hend
        omega
      refine ⟨s, interpretAll_exit hdone 0, h, rfl, fun a' ha' => ?_⟩
      obtain rfl := Option.some.inj ha'
      obtain ⟨k, hk⟩ := h.interfaces
      rw [hk, List.length_append, List.length_replicate, placed, List.countP_nil] at hroom
      rw [hk, show k = 0 by omega, List.replicate_zero, List.append_nil]
  | cons bytes ds ih =>
      rw [placed] at hwhole hroom ⊢
      obtain ⟨hone, hwhole⟩ := List.forall_mem_cons.1 hwhole
      rw [List.flatten_cons, List.length_append] at hend
      rw [List.countP_cons] at hroom
      have hheader : 2 ≤ bytes.length := hone.header
      have hlength : (RawDescriptor.length ⟨s.ptr, bytes⟩).toNat = bytes.length := hone.length
      have hgo : s.rawPtrOffset.toNat < n ∧ s.result = true := ⟨by omega, h.result⟩
      obtain ⟨s₁, hrun, hptr, hnext, hsame, houtcome⟩ :=
        h.interpretOne (Whole.stands hone hdrop) rfl hpos fun hi => by
          rw [if_pos hi] at hroom
          omega
      rw [addAll_cons, List.length_cons, interpretAll_step hgo hrun]
      cases hadd : a.add ⟨s.ptr, bytes⟩ with
      | none =>
          rw [hadd] at houtcome
          have hdone : ¬ (s₁.rawPtrOffset.toNat < n ∧ s₁.result = true) := fun hgo =>
            Bool.false_ne_true (houtcome.1.symm.trans hgo.2)
          exact ⟨s₁, interpretAll_exit hdone ds.length, houtcome, hsame,
            fun a' ha' => absurd ha'.symm (Option.some_ne_none a')⟩
      | some a₁ =>
          rw [hadd] at houtcome
          rw [hlength] at hptr
          have hbegun := begun_add hadd
          have hoffset₁ : s₁.rawPtrOffset.toNat = s₁.ptr := by
            rw [hnext, UInt16.toNat_add, UInt8.toNat_toUInt16, hlength, hptr, hoffset]
            omega
          have hdrop₁ : raw.drop s₁.ptr = ds.flatten := by
            rw [hptr, ← List.drop_drop, hdrop, List.flatten_cons, List.drop_left]
          rw [Option.bind_some, ← hptr]
          rw [← hptr] at hwhole hroom
          obtain ⟨s', hrun', houtcome', hsame', hall⟩ := ih houtcome (by omega) hdrop₁ hoffset₁ hwhole
            (by omega) (by omega)
          exact ⟨s', hrun', houtcome', hsame'.trans hsame, hall⟩

/-- What is left when all is put together. -/
theorem finish_eq {r : List DeviceInterface × List Nat} (h : a.finish = some r) :
    r = (a.begun, a.others) := by
  rw [Assembly.finish] at h
  rw [Assembly.begun]
  cases hcurrent : a.current with
  | none =>
      rw [hcurrent] at h
      rw [← Option.some.inj h, Option.map_none, Option.toList_none, List.append_nil]
  | some i =>
      rw [hcurrent] at h
      by_cases hexact : i.endpoints.length = i.desc.numEndpoints.toNat
      · rw [← Option.some.inj ((if_pos hexact).symm.trans h), Option.map_some, Option.toList_some,
          DeviceInterface.stored_of_exact hexact]
      · exact absurd ((if_neg hexact).symm.trans h) (Option.some_ne_none r).symm

/-- The check after the loop. -/
theorem Shows.last (h : Shows s a) (hpos : 0 < s.interfaces.length) :
    ∃ i, s.active = some i ∧ (s.currentEndpoint = i.desc.numEndpoints ↔ ∃ r, a.finish = some r) := by
  rw [Assembly.finish]
  cases hcurrent : a.current with
  | none =>
      obtain ⟨hfinished, hcount⟩ := h.fresh hcurrent
      obtain ⟨k, hk⟩ := h.interfaces
      rw [Assembly.begun, hcurrent, hfinished, Option.map_none, Option.toList_none, List.nil_append,
        List.nil_append] at hk
      rw [hk, List.length_replicate] at hpos
      refine ⟨{}, ?_, iff_of_true hcount ⟨_, rfl⟩⟩
      rw [Interpreting.active, h.index, hfinished, List.length_nil, hk, List.getElem?_replicate,
        if_pos hpos]
  | some i =>
      refine ⟨i.stored, h.active_eq hcurrent, (h.endpoint_eq_iff hcurrent).trans ?_⟩
      dsimp only
      by_cases hexact : i.endpoints.length = i.desc.numEndpoints.toNat
      · rw [if_pos hexact]
        exact iff_of_true hexact ⟨_, rfl⟩
      · rw [if_neg hexact]
        exact iff_of_false hexact fun ⟨r, hr⟩ => Option.some_ne_none r hr.symm

/-- The result. -/
theorem interpretRawDescriptor_of_outcome {o : Option Assembly}
    (hparsed : ConfigDescriptor.ofBytes raw = some desc)
    (hrun : (startInterpreting desc).interpretAll raw n fuel = some s') (houtcome : Outcome s' o)
    (hpos : 0 < s'.interfaces.length) :
    ∃ b, interpretRawDescriptor raw n fuel = some (b, ⟨desc, s'.interfaces, s'.otherDescriptors⟩) ∧
      (b = true ↔ ∃ r, o.bind Assembly.finish = some r) := by
  rw [interpretRawDescriptor, hparsed, Option.bind_eq_bind, Option.bind_some, hrun, Option.bind_eq_bind,
    Option.bind_some]
  cases o with
  | none =>
      obtain ⟨i, hi⟩ := Option.isSome_iff_exists.1 houtcome.2
      rw [hi]
      refine ⟨_, rfl, ?_⟩
      rw [houtcome.1, Bool.and_false]
      exact iff_of_false Bool.false_ne_true fun ⟨r, hr⟩ => Option.some_ne_none r hr.symm
  | some a =>
      obtain ⟨i, hi, hlast⟩ := Shows.last houtcome hpos
      rw [hi]
      refine ⟨_, rfl, ?_⟩
      rw [Shows.result houtcome, Bool.and_true, beq_iff_eq]
      exact hlast

theorem shows_start (desc : ConfigDescriptor) : Shows (startInterpreting desc) ⟨[], none, []⟩ where
  result := rfl
  found := rfl
  others := rfl
  interfaces := ⟨desc.numInterfaces.toNat, rfl⟩
  few := by
    rw [startInterpreting, List.length_replicate]
    exact desc.numInterfaces.toNat_lt
  index := rfl
  fresh _ := ⟨rfl, rfl⟩
  endpoint i hi := absurd hi.symm (Option.some_ne_none i)

/-! ### What a run has read -/

theorem beginInterface_some {current : UInt8} (h : s.beginInterface raw current = some s') :
    9 ≤ (raw.drop s.ptr).length ∧ current.toNat < s.interfaces.length := by
  rw [Interpreting.beginInterface] at h
  obtain ⟨desc, hdesc, h⟩ := Option.bind_eq_some_iff.1 h
  refine ⟨(InterfaceDescriptor.ofBytes_some hdesc).1, Decidable.not_not.1 fun hroom => ?_⟩
  exact Option.some_ne_none s' ((if_neg hroom).symm.trans h).symm

theorem storeEndpoint_some (h : s.storeEndpoint raw i = some s') : 7 ≤ (raw.drop s.ptr).length := by
  rw [Interpreting.storeEndpoint] at h
  obtain ⟨desc, hdesc, -⟩ := Option.bind_eq_some_iff.1 h
  exact (EndpointDescriptor.ofBytes_some hdesc).1

theorem Shows.onInterface_some (h : Shows s a) (hrun : s.onInterface raw = some s')
    (hok : s'.result = true) :
    9 ≤ (raw.drop s.ptr).length ∧ a.begun.length < s.interfaces.length := by
  rw [Interpreting.onInterface] at hrun
  cases hcurrent : a.current with
  | none =>
      obtain ⟨hlength, hroom⟩ := beginInterface_some ((if_neg (h.found_none hcurrent)).symm.trans hrun)
      rw [begun_length, hcurrent, Option.isSome_none, if_neg Bool.false_ne_true, ← h.index]
      exact ⟨hlength, hroom⟩
  | some i =>
      rw [if_pos (h.found_some hcurrent), h.active_eq hcurrent, Option.bind_eq_bind, Option.bind_some] at hrun
      by_cases hall : s.currentEndpoint = i.stored.desc.numEndpoints
      · rw [if_neg fun hmissing => hmissing hall] at hrun
        rw [← h.next_eq hcurrent]
        exact beginInterface_some hrun
      · rw [if_pos hall] at hrun
        rw [← Option.some.inj hrun] at hok
        exact absurd hok Bool.false_ne_true

theorem Shows.onEndpoint_some (h : Shows s a) (hrun : s.onEndpoint raw = some s')
    (hok : s'.result = true) : 7 ≤ (raw.drop s.ptr).length := by
  rw [Interpreting.onEndpoint] at hrun
  cases hcurrent : a.current with
  | none =>
      rw [if_neg (h.found_none hcurrent)] at hrun
      rw [← Option.some.inj hrun] at hok
      exact absurd hok Bool.false_ne_true
  | some i =>
      rw [if_pos (h.found_some hcurrent), h.active_eq hcurrent, Option.bind_eq_bind, Option.bind_some] at hrun
      by_cases hall : s.currentEndpoint = i.stored.desc.numEndpoints
      · rw [if_pos hall] at hrun
        rw [← Option.some.inj hrun] at hok
        exact absurd hok Bool.false_ne_true
      · exact storeEndpoint_some ((if_neg hall).symm.trans hrun)

/-- What stands at the pointer, with all that is after it. -/
def Interpreting.here (s : Interpreting) (raw : List UInt8) : RawDescriptor := ⟨s.ptr, raw.drop s.ptr⟩

theorem here_getD {j : Nat} {b : UInt8} (h : raw[s.ptr + j]? = some b) :
    (s.here raw).bytes.getD j 0 = b := by
  rw [Interpreting.here, List.getD_eq_getElem?_getD, List.getElem?_drop, h, Option.getD_some]

/-- A step that goes on has done what the assembly does. -/
theorem Shows.step_back (h : Shows s a) (hone : s.interpretOne raw = some s') (hok : s'.result = true)
    (hpos : 0 < s.interfaces.length) :
    Stands raw (s.here raw) ∧ s'.ptr = s.ptr + (s.here raw).length.toNat ∧
      s'.rawPtrOffset = s.rawPtrOffset + (s.here raw).length.toUInt16 ∧
      s'.interfaces.length = s.interfaces.length ∧
      ∃ a', a.add (s.here raw) = some a' ∧ Shows s' a' := by
  have hrun := hone
  rw [Interpreting.interpretOne] at hrun
  obtain ⟨length, hlength, hrun⟩ := Option.bind_eq_some_iff.1 hrun
  obtain ⟨type, htype, hrun⟩ := Option.bind_eq_some_iff.1 hrun
  obtain ⟨s₁, hcase, hrun⟩ := Option.bind_eq_some_iff.1 hrun
  have hok₁ : s₁.result = true := by
    rw [← Option.some.inj hrun] at hok
    exact hok
  have htype' : (s.here raw).type = type := here_getD htype
  have hheader : 2 ≤ (raw.drop s.ptr).length := by
    have hlt := (List.getElem?_eq_some_iff.1 htype).1
    rw [List.length_drop]
    omega
  rw [← htype', Interpreting.onType] at hcase
  have hinterface : (s.here raw).isInterface = true →
      9 ≤ (raw.drop s.ptr).length ∧ a.begun.length < s.interfaces.length := fun hi =>
    h.onInterface_some ((if_pos (beq_iff_eq.1 hi)).symm.trans hcase) hok₁
  have hendpoint : (s.here raw).isEndpoint = true → 7 ≤ (raw.drop s.ptr).length := fun he => by
    have he : (s.here raw).type = endpointType := beq_iff_eq.1 he
    rw [if_neg (by rw [he]; decide), if_pos he] at hcase
    exact h.onEndpoint_some hcase hok₁
  have hstands : Stands raw (s.here raw) :=
    ⟨⟨[], (List.append_nil _).symm⟩, hheader, fun hi => (hinterface hi).1, hendpoint⟩
  obtain ⟨s₂, hone₂, hptr, hoffset, hsame, houtcome⟩ :=
    h.interpretOne hstands rfl hpos fun hi => (hinterface hi).2
  obtain rfl := Option.some.inj (hone₂.symm.trans hone)
  refine ⟨hstands, hptr, hoffset, hsame, ?_⟩
  cases hadd : a.add (s.here raw) with
  | none =>
      rw [hadd] at houtcome
      exact absurd (houtcome.1.symm.trans hok) Bool.false_ne_true
  | some a' =>
      rw [hadd] at houtcome
      exact ⟨a', rfl, houtcome⟩

/-- The bytes that descriptors say that they have. -/
def bytesOf (ds : List RawDescriptor) : Nat := (ds.map (·.length.toNat)).sum

/-- A run that ends well has put together what it has read. -/
theorem Shows.run_back (h : Shows s a) (hrun : s.interpretAll raw n fuel = some s')
    (hok : s'.result = true) (hpos : 0 < s.interfaces.length)
    (hoffset : s.rawPtrOffset = UInt16.ofNat s.ptr) :
    ∃ ds a', (∀ d ∈ ds, Stands raw d) ∧ a.addAll ds = some a' ∧ Shows s' a' ∧
      s'.interfaces.length = s.interfaces.length ∧
      n ≤ (UInt16.ofNat (s.ptr + bytesOf ds)).toNat := by
  induction fuel generalizing s a with
  | zero => exact absurd hrun.symm (Option.some_ne_none s')
  | succ fuel ih =>
      by_cases hgo : s.rawPtrOffset.toNat < n ∧ s.result = true
      · rw [Interpreting.interpretAll, if_pos hgo] at hrun
        obtain ⟨s₁, hone, hrun⟩ := Option.bind_eq_some_iff.1 hrun
        have hok₁ : s₁.result = true := Decidable.not_not.1 fun hbad => by
          cases fuel with
          | zero => exact Option.some_ne_none s' hrun.symm
          | succ fuel =>
              rw [interpretAll_exit fun hgo => hbad hgo.2] at hrun
              rw [← Option.some.inj hrun] at hok
              exact hbad hok
        obtain ⟨hstands, hptr, hnext, hsame, a₁, hadd, hshows⟩ := h.step_back hone hok₁ hpos
        have hoffset₁ : s₁.rawPtrOffset = UInt16.ofNat s₁.ptr := by
          rw [hnext, hoffset, hptr, UInt16.ofNat_add, UInt16.ofNat_uInt8ToNat]
        obtain ⟨ds, a', hds, hall, hshows', hsame', hend⟩ :=
          ih hshows hrun (hsame.symm ▸ hpos) hoffset₁
        refine ⟨s.here raw :: ds, a', List.forall_mem_cons.2 ⟨hstands, hds⟩, ?_, hshows',
          hsame'.trans hsame, ?_⟩
        · rw [addAll_cons, hadd, Option.bind_some, hall]
        · rw [hptr, Nat.add_assoc] at hend
          exact hend
      · rw [interpretAll_exit hgo] at hrun
        obtain rfl := Option.some.inj hrun
        refine ⟨[], a, fun _ hd => absurd hd List.not_mem_nil, rfl, h, rfl, ?_⟩
        change n ≤ (UInt16.ofNat (s.ptr + 0)).toNat
        rw [Nat.add_zero, ← hoffset]
        exact Nat.le_of_not_lt fun hlt => hgo ⟨hlt, h.result⟩

/-! ### The bytes of a configuration -/

/-- The length byte of another descriptor. -/
def otherBytes (raw : List UInt8) (others : List Nat) : Nat :=
  (others.map fun start => (raw.getD start 0).toNat).sum

def endpointBytes (endpoints : List EndpointDescriptor) : Nat := (endpoints.map (·.length.toNat)).sum

/-- The bytes of an interface and of what is in it. -/
def DeviceInterface.bytes (raw : List UInt8) (i : DeviceInterface) : Nat :=
  i.desc.length.toNat + endpointBytes i.endpoints + otherBytes raw i.otherDescriptors

/-- The bytes of all that is in a configuration. -/
def InterpretedConfig.bytes (raw : List UInt8) (config : InterpretedConfig) : Nat :=
  (config.interfaces.map (·.bytes raw)).sum + otherBytes raw config.otherDescriptors

theorem bytesOf_cons (d : RawDescriptor) (ds : List RawDescriptor) :
    bytesOf (d :: ds) = d.length.toNat + bytesOf ds := List.sum_cons

theorem endpointBytes_cons (e : EndpointDescriptor) (es : List EndpointDescriptor) :
    endpointBytes (e :: es) = e.length.toNat + endpointBytes es := List.sum_cons

theorem otherBytes_cons (o : Nat) (os : List Nat) :
    otherBytes raw (o :: os) = (raw.getD o 0).toNat + otherBytes raw os := List.sum_cons

theorem Stands.interface_length (hd : Stands raw d) (hi : d.isInterface = true) :
    d.interfaceDesc.length = d.length := by
  have hparsed := InterfaceDescriptor.ofBytes_append (hd.interface hi) []
  rw [List.append_nil] at hparsed
  exact (InterfaceDescriptor.ofBytes_some hparsed).2

theorem Stands.endpoint_length (hd : Stands raw d) (he : d.isEndpoint = true) :
    d.endpointDesc.length = d.length := by
  have hparsed := EndpointDescriptor.ofBytes_append (hd.endpoint he) []
  rw [List.append_nil] at hparsed
  exact (EndpointDescriptor.ofBytes_some hparsed).2

theorem Stands.other_length (hd : Stands raw d) : raw.getD d.start 0 = d.length := by
  have hget : raw[d.start]? = some d.length := hd.getElem? (j := 0) (by omega)
  rw [List.getD_eq_getElem?_getD, hget, Option.getD_some]

/-- Grouping loses no byte. -/
theorem bytesOf_grouped {ds : List RawDescriptor} (hds : ∀ d ∈ ds, Stands raw d) :
    bytesOf ds = endpointBytes (endpointsOf (grouped ds).1) + otherBytes raw (othersOf (grouped ds).1) +
      ((grouped ds).2.map fun group => (interfaceOf group).bytes raw).sum := by
  induction ds with
  | nil => rfl
  | cons d ds ih =>
      obtain ⟨hd, hds⟩ := List.forall_mem_cons.1 hds
      rw [bytesOf_cons, ih hds]
      by_cases hi : d.isInterface = true
      · rw [grouped_interface hi, List.map_cons, List.sum_cons, DeviceInterface.bytes, interfaceOf,
          hd.interface_length hi]
        change _ = 0 + 0 + (d.length.toNat + endpointBytes (endpointsOf (grouped ds).1) +
          otherBytes raw (othersOf (grouped ds).1) + _)
        omega
      · have hi : d.isInterface = false := Bool.eq_false_iff.mpr hi
        rw [grouped_member hi]
        cases he : d.isEndpoint with
        | true =>
            dsimp only
            rw [endpointsOf_endpoint he, othersOf_skip (isOther_of_endpoint he), endpointBytes_cons,
              hd.endpoint_length he]
            omega
        | false =>
            dsimp only
            rw [endpointsOf_skip he, othersOf_other (isOther_of_not hi he), otherBytes_cons, hd.other_length]
            omega

/-- Of a complete grouping, the configuration has all bytes. -/
theorem bytesOf_complete {ds : List RawDescriptor} (hds : ∀ d ∈ ds, Stands raw d) (hcomplete : Complete ds) :
    bytesOf ds = (configOf desc ds).bytes raw := by
  rw [bytesOf_grouped hds, hcomplete.1, InterpretedConfig.bytes, configOf, List.map_map]
  change 0 + _ + _ = _
  rw [Nat.zero_add, Nat.add_comm]
  rfl

/-- Whole descriptors that stand one after the other. -/
theorem placed_stands {ds : List (List UInt8)} {start : Nat} (hdrop : raw.drop start = ds.flatten)
    (hwhole : ∀ d ∈ placed start ds, d.Whole) :
    (∀ d ∈ placed start ds, Stands raw d) ∧ bytesOf (placed start ds) = ds.flatten.length := by
  induction ds generalizing start with
  | nil => exact ⟨fun _ hd => absurd hd List.not_mem_nil, rfl⟩
  | cons bytes ds ih =>
      obtain ⟨hone, hwhole⟩ := List.forall_mem_cons.1 hwhole
      have hlength : (RawDescriptor.length ⟨start, bytes⟩).toNat = bytes.length := hone.length
      have hdrop' : raw.drop (start + bytes.length) = ds.flatten := by
        rw [← List.drop_drop, hdrop, List.flatten_cons, List.drop_left]
      obtain ⟨hstands, hbytes⟩ := ih hdrop' hwhole
      refine ⟨List.forall_mem_cons.2 ⟨Whole.stands hone hdrop, hstands⟩, ?_⟩
      rw [placed, bytesOf_cons, hbytes, hlength, List.flatten_cons, List.length_append]

/-! ### The main result -/

/-- The result is whether the descriptors are complete, and with it comes what they give. -/
def Interprets (raw : List UInt8) (desc : ConfigDescriptor) (ds : List RawDescriptor) : Prop :=
  ∃ fuel b config, interpretRawDescriptor raw raw.length fuel = some (b, config) ∧
    (b = true ↔ Complete ds) ∧ (b = true → config = configOf desc ds)

end

section
variable {raw own : List UInt8} {descriptors : List (List UInt8)} {desc : ConfigDescriptor}

theorem WellFormed.drop (h : WellFormed raw own descriptors desc) :
    raw.drop own.length = descriptors.flatten := by
  rw [h.bytes, List.drop_left]

theorem WellFormed.config (h : WellFormed raw own descriptors desc) :
    9 ≤ own.length ∧ ConfigDescriptor.ofBytes raw = some desc := by
  rw [h.bytes]
  exact ConfigDescriptor.ofBytes_append h.parsed descriptors.flatten

theorem WellFormed.short (h : WellFormed raw own descriptors desc) : raw.length < 65536 := by
  rw [← h.total]
  exact desc.totalLength.toNat_lt

theorem WellFormed.length_eq (h : WellFormed raw own descriptors desc) :
    raw.length = own.length + descriptors.flatten.length := by
  rw [h.bytes, List.length_append]

theorem addAll_start {ds : List RawDescriptor} {r : List DeviceInterface × List Nat} :
    (Assembly.addAll ⟨[], none, []⟩ ds).bind Assembly.finish = some r ↔
      Complete ds ∧ r = ((grouped ds).2.map interfaceOf, othersOf (grouped ds).1) := by
  rw [addAll_none rfl rfl, List.nil_append]
  rfl

/-- With 9 bytes, all is as it should be. -/
theorem WellFormed.interprets (h : WellFormed raw own descriptors desc) (hown : own.length = 9) :
    Interprets raw desc (placed own.length descriptors) := by
  have hpos : 0 < (startInterpreting desc).interfaces.length := by
    rw [startInterpreting, List.length_replicate]
    exact h.pos
  have hptr : (startInterpreting desc).ptr = own.length := hown.symm
  have hroom : (Assembly.begun ⟨[], none, []⟩).length +
      (placed (startInterpreting desc).ptr descriptors).countP (·.isInterface) =
        (startInterpreting desc).interfaces.length := by
    rw [startInterpreting, List.length_replicate, ← h.count, hown]
    exact Nat.zero_add _
  obtain ⟨s', hrun, houtcome, hsame, hall⟩ := (shows_start desc).interpretAll h.short
    (by rw [hptr, h.length_eq]) (by rw [hptr, h.drop]) rfl (by rw [hptr]; exact h.whole) hpos hroom
  obtain ⟨b, hresult, hb⟩ :=
    interpretRawDescriptor_of_outcome h.config.2 hrun houtcome (hsame.symm ▸ hpos)
  rw [hptr] at houtcome hall hb
  refine ⟨_, b, _, hresult, hb.trans ⟨fun ⟨r, hr⟩ => (addAll_start.1 hr).1, fun hcomplete =>
    ⟨_, addAll_start.2 ⟨hcomplete, rfl⟩⟩⟩, fun htrue => ?_⟩
  obtain ⟨r, hr⟩ := hb.1 htrue
  obtain ⟨a', hadd, hfinish⟩ := Option.bind_eq_some_iff.1 hr
  have hshows : Outcome s' (some a') := hadd ▸ houtcome
  have heq := (finish_eq hfinish).symm.trans (addAll_start.1 hr).2
  rw [hall a' hadd, Shows.others hshows, configOf, (Prod.mk.inj heq).1, (Prod.mk.inj heq).2]

/-- What comes out of a run with success are the descriptors that it has read, and interfaces that were not
found. -/
theorem read_of_interpreted {n fuel : Nat} {config : InterpretedConfig}
    (hparsed : ConfigDescriptor.ofBytes raw = some desc) (hpos : 0 < desc.numInterfaces.toNat)
    (hrun : interpretRawDescriptor raw n fuel = some (true, config)) :
    ∃ ds k, (∀ d ∈ ds, Stands raw d) ∧ Complete ds ∧
      config.interfaces = (grouped ds).2.map interfaceOf ++ List.replicate k ({} : DeviceInterface) ∧
      config.otherDescriptors = othersOf (grouped ds).1 ∧ config.desc = desc ∧
      config.interfaces.length = desc.numInterfaces.toNat ∧
      n ≤ (UInt16.ofNat (9 + bytesOf ds)).toNat := by
  have hresult := hrun
  rw [interpretRawDescriptor, hparsed, Option.bind_eq_bind, Option.bind_some] at hresult
  obtain ⟨s', hloop, hresult⟩ := Option.bind_eq_some_iff.1 hresult
  obtain ⟨i, -, hresult⟩ := Option.bind_eq_some_iff.1 hresult
  have hboth := (Prod.mk.inj (Option.some.inj hresult)).1
  have hlength : (startInterpreting desc).interfaces.length = desc.numInterfaces.toNat :=
    List.length_replicate
  rw [← hlength] at hpos
  obtain ⟨ds, a', hds, hall, hshows, hsame, hend⟩ :=
    (shows_start desc).run_back hloop (Bool.and_eq_true_iff.1 hboth).2 hpos rfl
  have houtcome : Outcome s' (Assembly.addAll ⟨[], none, []⟩ ds) := by
    rw [hall]
    exact hshows
  obtain ⟨b, hresult', hb⟩ :=
    interpretRawDescriptor_of_outcome hparsed hloop houtcome (hsame.symm ▸ hpos)
  obtain ⟨rfl, rfl⟩ := Prod.mk.inj (Option.some.inj (hrun.symm.trans hresult'))
  obtain ⟨r, hr⟩ := hb.1 rfl
  obtain ⟨hcomplete, hgroups⟩ := addAll_start.1 hr
  rw [hall, Option.bind_some] at hr
  obtain ⟨hbegun, hothers⟩ := Prod.mk.inj ((finish_eq hr).symm.trans hgroups)
  obtain ⟨k, hk⟩ := hshows.interfaces
  exact ⟨ds, k, hds, hcomplete, hk.trans (by rw [hbegun]), hshows.others.trans hothers, rfl,
    hsame.trans hlength, hend⟩

/-- It has, of each byte that was read, just one. -/
theorem bytes_of_interpreted {n fuel : Nat} {config : InterpretedConfig}
    (hparsed : ConfigDescriptor.ofBytes raw = some desc) (hpos : 0 < desc.numInterfaces.toNat)
    (hrun : interpretRawDescriptor raw n fuel = some (true, config)) :
    n ≤ (UInt16.ofNat (9 + config.bytes raw)).toNat := by
  obtain ⟨ds, k, hds, hcomplete, hinterfaces, hothers, -, -, hend⟩ := read_of_interpreted hparsed hpos hrun
  have hgiven : bytesOf ds = (configOf desc ds).bytes raw := bytesOf_complete hds hcomplete
  rw [InterpretedConfig.bytes, configOf] at hgiven
  rw [InterpretedConfig.bytes, hinterfaces, hothers, List.map_append, List.sum_append, List.map_replicate,
    List.sum_replicate_nat, show DeviceInterface.bytes raw {} = 0 from rfl, Nat.mul_zero, Nat.add_zero,
    ← hgiven]
  exact hend

/-- If all is as it should be with complete descriptors, the configuration descriptor has 9 bytes. -/
theorem WellFormed.own_length (h : WellFormed raw own descriptors desc)
    (hcomplete : Complete (placed own.length descriptors))
    (hinterprets : Interprets raw desc (placed own.length descriptors)) : own.length = 9 := by
  obtain ⟨fuel, b, config, hrun, hb, hconfig⟩ := hinterprets
  obtain rfl := hb.2 hcomplete
  have hend := bytes_of_interpreted h.config.2 h.pos hrun
  obtain ⟨hstands, hbytes⟩ := placed_stands h.drop h.whole
  rw [hconfig rfl, ← bytesOf_complete hstands hcomplete, hbytes, UInt16.toNat_ofNat', h.length_eq] at hend
  have hshort := h.short
  have hnine := h.config.1
  rw [h.length_eq] at hshort
  rw [Nat.mod_eq_of_lt (by omega)] at hend
  omega

/-- A well-formed string is interpreted as it should be if its configuration descriptor has 9 bytes; and
if its descriptors are complete, only then. -/
theorem interpretRawDescriptor_iff (h : WellFormed raw own descriptors desc) :
    (own.length = 9 → Interprets raw desc (placed own.length descriptors)) ∧
      (Complete (placed own.length descriptors) →
        (Interprets raw desc (placed own.length descriptors) ↔ own.length = 9)) :=
  ⟨h.interprets, fun hcomplete => ⟨h.own_length hcomplete, h.interprets⟩⟩

end

/-- A configuration with one interface of one endpoint, and another descriptor between them. -/
def exampleDescriptors : List (List UInt8) :=
  [[9, 4, 0, 0, 1, 3, 1, 1, 0], [3, 33, 7], [7, 5, 0x81, 3, 8, 0, 10]]

def exampleOwn : List UInt8 := [9, 2, 28, 0, 1, 1, 0, 0xa0, 50]

theorem example_wellFormed :
    WellFormed (exampleOwn ++ exampleDescriptors.flatten) exampleOwn exampleDescriptors
      ⟨9, 2, 28, 1, 1, 0, 0xa0, 50⟩ where
  bytes := rfl
  parsed := rfl
  length := rfl
  total := rfl
  whole := by
    rintro d (_ | ⟨_, _ | ⟨_, _ | ⟨_, h⟩⟩⟩)
    · exact ⟨by decide, rfl, fun _ => by decide, fun _ => by decide⟩
    · exact ⟨by decide, rfl, fun h => absurd h (by decide), fun h => absurd h (by decide)⟩
    · exact ⟨by decide, rfl, fun h => absurd h (by decide), fun _ => by decide⟩
    · exact absurd h List.not_mem_nil
  count := rfl
  pos := by decide

theorem example_interpreted :
    Interprets (exampleOwn ++ exampleDescriptors.flatten) ⟨9, 2, 28, 1, 1, 0, 0xa0, 50⟩
      (placed 9 exampleDescriptors) :=
  (interpretRawDescriptor_iff example_wellFormed).1 rfl

/-- A configuration descriptor of 11 bytes, of which the last two look like an endpoint, and one interface. -/
def longOwn : List UInt8 := [11, 2, 20, 0, 1, 1, 0, 0xa0, 50, 7, 5]

def longDescriptors : List (List UInt8) := [[9, 4, 0, 0, 0, 3, 1, 1, 0]]

/-- It is refused: an endpoint seems to stand before the interface. -/
theorem long_refused :
    WellFormed (longOwn ++ longDescriptors.flatten) longOwn longDescriptors ⟨11, 2, 20, 1, 1, 0, 0xa0, 50⟩ ∧
      Complete (placed longOwn.length longDescriptors) ∧
        ¬ Interprets (longOwn ++ longDescriptors.flatten) ⟨11, 2, 20, 1, 1, 0, 0xa0, 50⟩
          (placed longOwn.length longDescriptors) := by
  have hcomplete : Complete (placed longOwn.length longDescriptors) :=
    ⟨rfl, List.forall_mem_singleton.2 rfl⟩
  refine ⟨⟨rfl, rfl, rfl, rfl, ?_, rfl, by decide⟩, hcomplete, ?_⟩
  · exact List.forall_mem_singleton.2
      ⟨by decide, rfl, fun _ => by decide, fun h => absurd h (by decide)⟩
  · rintro ⟨fuel, b, config, hrun, hb, -⟩
    obtain rfl := hb.2 hcomplete
    match fuel with
    | 0 => exact Option.some_ne_none _ hrun.symm
    | 1 => exact Option.some_ne_none _ hrun.symm
    | fuel + 2 => exact Bool.false_ne_true (congrArg Prod.fst (Option.some.inj hrun))

end Azalea.Usb
