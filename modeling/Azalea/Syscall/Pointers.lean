import Azalea.Syscall.Cursor
import Azalea.Syscall.Handles

/-!
# Syscall — pointers from user mode

What the system calls access through the pointers they are given.  The calls that read and write are in
`Cursor`, those with a path in `Handles`; here are `syscall_get_object_properties` and
`syscall_enum_children` (`syscall/syscall_handles.cpp`), `syscall_send_message`,
`syscall_receive_message_details` and `syscall_receive_message_body` (`syscall/syscall_mpi.cpp`), and
`syscall_futex_op` (`syscall/syscall_futex.cpp`).  What the calls find in the kernel is an `Environment`.

`pointers_confined_iff`: a call stays in the lower half of the address space in every environment, and
refuses a pointer into the upper half, exactly if the arguments are `Confinable`.  Most calls test the
first byte of a buffer only; `syscall_create_obj_and_handle` and `syscall_futex_op` dereference a pointer
before they test it, `syscall_receive_message_details` tests its pointers and goes on, and
`syscall_send_message` does without options it cannot read (`pointers_not_confined`).
-/

namespace Azalea.Syscall
open Azalea.Syscall.Cursor

/-! ### Properties of objects -/

/-- What the casts of `CONV_TEST` find of a leaf. -/
structure LeafKind where
  isBasicFile : Bool
  isBranch : Bool
  isReadable : Bool
  isWritable : Bool

/-- `proc_status` and `exit_code`. -/
structure ProcStatus where
  procStatus : Nat
  exitCode : BitVec 64

/-- `OPER_STATUS::UNKNOWN`. -/
def operStatusUnknown : Nat := 6

/-- `object_properties`. -/
structure ObjectProperties where
  present : Bool := false
  isLeaf : Bool := false
  readable : Bool := false
  writable : Bool := false
  isFile : Bool := false
  operStatus : Nat := 0
  additionalStatus : BitVec 64 := 0

/-- The bytes of an `object_properties`. -/
def sizeOfObjectProperties : Nat := 24

/-- What is written for an object that exists. -/
def propertiesOf (leaf : Option LeafKind) (proc : Option ProcStatus) : ObjectProperties where
  present := true
  isFile := leaf.any (·.isBasicFile)
  isLeaf := !leaf.any (·.isBranch)
  readable := leaf.any (·.isReadable)
  writable := leaf.any (·.isWritable)
  operStatus := (proc.map (·.procStatus)).getD operStatusUnknown
  additionalStatus := (proc.map (·.exitCode)).getD 0

/-- `path_is_valid`. -/
def pathIsValid (path pathLength : BitVec 64) : Bool :=
  isUmAddress path && path != 0 && pathLength != 0

/-- `syscall_get_object_properties`: the result, what is stored through `props`, and the accesses.
`getChild` is the lookup in the tree, `handled` what the casts find of the object behind the handle. -/
def syscallGetObjectProperties (getChild : Name → ErrCode × Option LeafKind)
    (handled : Option LeafKind × Option ProcStatus) (mem : Memory)
    (handle path pathLength props : BitVec 64) : ErrCode × Option ObjectProperties × List Range :=
  if (handle ≠ 0 ∧ pathIsValid path pathLength = true) ∨
      (handle = 0 ∧ pathIsValid path pathLength = false) then (.invalidParam, none, [])
  else if isUmAddress props = false then (.invalidParam, none, [])
  else
    let found : ErrCode × Option LeafKind × Option ProcStatus :=
      if handle = 0 then
        ((getChild (stringOf mem path pathLength.toNat)).1,
          (getChild (stringOf mem path pathLength.toNat)).2, none)
      else if handled.1.isNone && handled.2.isNone then (.invalidParam, none, none)
      else (.noError, handled)
    let read : List Range := if handle = 0 then [⟨path, pathLength.toNat⟩] else []
    match found.1 with
    | .noError =>
        (.noError, some (propertiesOf found.2.1 found.2.2), read ++ [⟨props, sizeOfObjectProperties⟩])
    | .notFound => (.notFound, some {}, read ++ [⟨props, sizeOfObjectProperties⟩])
    | result => (result, none, read)

/-! ### Children of a branch -/

/-- The eight bytes at `p`, least significant byte first. -/
def load64 (mem : Memory) (p : BitVec 64) : BitVec 64 :=
  BitVec.ofNat 64 ((List.range 8).map fun i => (mem (p + BitVec.ofNat 64 i)).toNat * 256 ^ i).sum

/-- The eight bytes of a value in memory. -/
def bytesOf64 (v : BitVec 64) : List UInt8 :=
  (List.range 8).map fun i => UInt8.ofNat (v.toNat / 256 ^ i)

/-- What the first loop of `syscall_enum_children` works out. -/
structure NameCount where
  bufferUsed : Nat
  numToStore : Nat
  requiredSize : Nat
  couldStoreMore : Bool

/-- One name in the first loop; a name takes a pointer and a zero byte as well. -/
def NameCount.add (storedBufferSize : Nat) (c : NameCount) (n : Name) : NameCount :=
  let bytesThisName := n.length + 8 + 1
  let required := c.requiredSize + bytesThisName
  if c.couldStoreMore && decide (c.bufferUsed + bytesThisName ≤ storedBufferSize) then
    ⟨c.bufferUsed + bytesThisName, c.numToStore + 1, required, true⟩
  else ⟨c.bufferUsed, c.numToStore, required, false⟩

/-- The second loop, from the name `i` on: two entries of the table, the name and its zero byte. -/
def storeNames (ptrTable : BitVec 64) : Nat → BitVec 64 → List Name → List Range
  | _, _, [] => []
  | i, stringCopyPtr, n :: ns =>
      ⟨ptrTable + BitVec.ofNat 64 (8 * i), 8⟩ :: ⟨ptrTable + BitVec.ofNat 64 (8 * (i + 1)), 8⟩ ::
        ⟨stringCopyPtr, n.length⟩ :: ⟨stringCopyPtr + BitVec.ofNat 64 n.length, 1⟩ ::
        storeNames ptrTable (i + 1) (stringCopyPtr + BitVec.ofNat 64 (n.length + 1)) ns

/-- What is stored in `buffer`, and what is stored in `*buffer_size`. -/
def storeChildren (buffer : BitVec 64) (storedBufferSize : Nat) (names : List Name) :
    List Range × Nat :=
  let fits := buffer ≠ 0 ∧ 8 ≤ storedBufferSize
  let count := names.foldl (NameCount.add storedBufferSize) ⟨8, 0, 8, decide fits⟩
  let first : List Range := if fits then [⟨buffer, 8⟩] else []
  let names := names.take count.numToStore
  (first ++ storeNames buffer 0 (buffer + BitVec.ofNat 64 (8 * (count.numToStore + 1))) names,
    count.requiredSize)

/-- What `retrieve_object` finds, for `syscall_enum_children`. -/
inductive EnumTarget where
  | notFound
  /-- A handle that stores no object. -/
  | empty
  | notBranch
  | branch (enumChildren : Name → BitVec 64 → ErrCode × List Name)

/-- `syscall_enum_children`: the result, and the accesses. -/
def syscallEnumChildren (target : EnumTarget) (mem : Memory)
    (startFrom startFromLen maxCount buffer bufferSize : BitVec 64) : ErrCode × List Range :=
  if (isUmAddress startFrom = false ∧ startFrom ≠ 0) ∨ (isUmAddress buffer = false ∧ buffer ≠ 0) ∨
      isUmAddress bufferSize = false ∨ bufferSize = 0 then (.invalidParam, [])
  else
    match target with
    | .notFound => (.notFound, [])
    | .empty => (.notFound, [])
    | .notBranch => (.invalidOp, [])
    | .branch enumChildren =>
        let given := startFrom ≠ 0 ∧ startFromLen ≠ 0
        let startFromS := if given then stringOf mem startFrom startFromLen.toNat else []
        let read : List Range :=
          (if given then [⟨startFrom, startFromLen.toNat⟩] else []) ++ [⟨bufferSize, 8⟩]
        let res := enumChildren startFromS maxCount
        if res.1 = .noError then
          (.noError, read ++ (storeChildren buffer (load64 mem bufferSize).toNat res.2).1 ++ [⟨bufferSize, 8⟩])
        else (res.1, read)

/-! ### Messages and futexes -/

/-- What `syscall_send_message` finds. -/
structure SendTarget where
  thisThread : Bool
  parentProcess : Bool
  /-- Whether there is an object behind the completion semaphore's handle, and whether it is one. -/
  semaphore : BitVec 64 → Option Bool
  /-- Whether the object behind the target's handle takes messages. -/
  isReceiver : BitVec 64 → Bool

/-- `ssm_output`. -/
structure SsmOutput where
  completionSemaphore : BitVec 64 := 0
  outputBuffer : BitVec 64 := 0
  outputBufferLen : BitVec 64 := 0

/-- The bytes of an `ssm_output`. -/
def sizeOfSsmOutput : Nat := 24

/-- The `ssm_output` at `p`. -/
def loadSsmOutput (mem : Memory) (p : BitVec 64) : SsmOutput :=
  ⟨load64 mem p, load64 mem (p + 8), load64 mem (p + 16)⟩

/-- The tests that `syscall_send_message` makes once it has saved the options. -/
def sendRefusal (env : SendTarget) (messageLen messagePtr : BitVec 64) (o : SsmOutput) :
    Option ErrCode :=
  if isUmBuffer messagePtr messageLen = false then some .invalidParam
  else if env.thisThread = false then some .unknown
  else if env.parentProcess = false then some .unknown
  else if o.completionSemaphore ≠ 0 ∧ o.outputBuffer ≠ 0 then some .invalidOp
  else if o.outputBuffer ≠ 0 ∧ o.outputBufferLen = 0 then some .invalidParam
  else if o.outputBufferLen ≠ 0 ∧ o.outputBuffer = 0 then some .invalidParam
  else if o.outputBuffer ≠ 0 ∧ isUmBuffer o.outputBuffer o.outputBufferLen = false then
    some .invalidParam
  else none

/-- `syscall_send_message` once it has saved the options, with `read` accessed so far. -/
def sendWithOptions (env : SendTarget) (msgTarget messageLen messagePtr : BitVec 64) (o : SsmOutput)
    (read : List Range) : ErrCode × List Range :=
  match sendRefusal env messageLen messagePtr o with
  | some result => (result, read)
  | none =>
      if o.completionSemaphore ≠ 0 ∧ env.semaphore o.completionSemaphore = none then (.notFound, read)
      -- an object that is no semaphore: the message is not sent, and there is no error
      else if o.completionSemaphore ≠ 0 ∧ env.semaphore o.completionSemaphore = some false then
        (.noError, read)
      else if env.isReceiver msgTarget then
        (.noError, read ++ (if messageLen ≠ 0 then [⟨messagePtr, messageLen.toNat⟩] else []) ++
          (if o.outputBuffer ≠ 0 then [⟨o.outputBuffer, o.outputBufferLen.toNat⟩] else []))
      else (.invalidOp, read)

/-- `syscall_send_message`: the result, and the accesses. -/
def syscallSendMessage (env : SendTarget) (mem : Memory)
    (msgTarget messageLen messagePtr output : BitVec 64) : ErrCode × List Range :=
  if isUmAddress output = true ∧ output ≠ 0 then
    sendWithOptions env msgTarget messageLen messagePtr (loadSsmOutput mem output)
      [⟨output, sizeOfSsmOutput⟩]
  else sendWithOptions env msgTarget messageLen messagePtr {} []

/-- What the calls that receive messages find: the lengths of the messages in the queue. -/
structure Messaging where
  thisThread : Bool
  parentProcess : Bool
  acceptsMsgs : Bool
  messageQueue : List (BitVec 64)

/-- `syscall_receive_message_details`: a bad pointer sets the result, and the call goes on. -/
def syscallReceiveMessageDetails (env : Messaging) (messageId messageLen : BitVec 64) :
    ErrCode × List Range :=
  let res : ErrCode :=
    if messageId = 0 ∨ messageLen = 0 ∨ isUmAddress messageId = false ∨
      isUmAddress messageLen = false then .invalidParam
    else .noError
  if env.thisThread = false then (.unknown, [])
  else if env.parentProcess = false then (.unknown, [])
  else if env.acceptsMsgs = false then (.syncMsgNotAccepted, [])
  else
    match env.messageQueue with
    | [] => (.syncMsgQueueEmpty, [])
    | _ :: _ => (res, [⟨messageId, 8⟩, ⟨messageLen, 8⟩])

/-- `syscall_receive_message_body`. -/
def syscallReceiveMessageBody (env : Messaging) (messageBuffer bufferSize : BitVec 64) :
    ErrCode × List Range :=
  if messageBuffer = 0 ∨ isUmAddress messageBuffer = false then (.invalidParam, [])
  else if bufferSize = 0 then (.invalidParam, [])
  else if env.thisThread = false then (.unknown, [])
  else if env.parentProcess = false then (.unknown, [])
  else if env.acceptsMsgs = false then (.syncMsgNotAccepted, [])
  else
    match env.messageQueue with
    | [] => (.syncMsgQueueEmpty, [])
    | messageLength :: _ =>
        let restrictingSize := if messageLength < bufferSize then messageLength else bufferSize
        (.noError, if restrictingSize ≠ 0 then [⟨messageBuffer, restrictingSize.toNat⟩] else [])

/-- `FUTEX_OP`, or a value that is none of its members. -/
inductive FutexOp where
  | futexWait
  | futexWake
  | futexRequeue
  | other (value : Nat)

/-- `syscall_futex_op`; `none`: it panics.  `mapped` is whether `mem_get_phys_addr` finds an address, and
`wake` what `futex_wake` answers. -/
def syscallFutexOp (mapped : Bool) (wake : ErrCode) (futex : BitVec 64) (op : FutexOp) :
    Option ErrCode × List Range :=
  let result : ErrCode := if isUmAddress futex = false then .invalidParam else .noError
  let result := if mapped = false then .invalidParam else result
  if result = .noError then
    match op with
    | .futexWait => (some .noError, [⟨futex, 4⟩, ⟨futex, 4⟩])
    | .futexWake => (some wake, [⟨futex, 4⟩])
    | .futexRequeue => (none, [⟨futex, 4⟩])
    | .other _ => (some .invalidOp, [⟨futex, 4⟩])
  else (some result, [⟨futex, 4⟩])

/-! ### Every environment -/

/-- Asked to move `n` bytes, an object touches at most `reach n` bytes of the buffer: these `n` bytes, if it
keeps to its interface.  `fat_file::read_bytes` can read its last sector into the buffer a second time, and
then touches a sector more. -/
def Within {φ : Type*} (reach : Nat → Nat) (obj : Interfaces φ) : Prop :=
  (∀ op ∈ obj.readBytes, ∀ file start length bufferLength count,
    (op file start length bufferLength count).touched ≤ reach length.toNat) ∧
  ∀ op ∈ obj.writeBytes, ∀ held file start length bufferLength count,
    (op held file start length bufferLength count).touched ≤ reach length.toNat

/-- What a call finds in the kernel. -/
structure Environment where
  φ : Type
  τ : Type
  ℓ : Type
  obj : Interfaces φ
  caller : Cursor.Caller φ
  tree : SystemTree τ ℓ
  treeState : τ
  leafKind : ℓ → LeafKind
  handled : Option LeafKind × Option ProcStatus
  enumTarget : EnumTarget
  sendTarget : SendTarget
  messaging : Messaging
  mapped : Bool
  wake : ErrCode

/-- A call with pointers. -/
inductive PointerCall where
  | readHandle (startOffset bytesToRead buffer bufferSize bytesRead : BitVec 64)
  | writeHandle (startOffset bytesToWrite buffer bufferSize bytesWritten : BitVec 64)
  | openHandle (path pathLen handle : BitVec 64) (flags : BitVec 32)
  | createObjAndHandle (path pathLen handle : BitVec 64)
  | getObjectProperties (handle path pathLength props : BitVec 64)
  | enumChildren (startFrom startFromLen maxCount buffer bufferSize : BitVec 64)
  | sendMessage (msgTarget messageLen messagePtr output : BitVec 64)
  | receiveMessageDetails (messageId messageLen : BitVec 64)
  | receiveMessageBody (messageBuffer bufferSize : BitVec 64)
  | futexOp (futex : BitVec 64) (op : FutexOp)

/-- The result of a call, and its accesses. -/
def PointerCall.run (env : Environment) (mem : Memory) : PointerCall → Option ErrCode × List Range
  | .readHandle start len buf size ptr =>
      let r := syscallReadHandle env.obj env.caller start len buf size ptr
        (load64 mem ptr)
      (some r.result, r.accesses)
  | .writeHandle start len buf size ptr =>
      let held := stringOf mem buf size.toNat
      let r := syscallWriteHandle env.obj env.caller held start len buf size ptr
        (load64 mem ptr)
      (some r.result, r.accesses)
  | .openHandle path len handle flags =>
      let r := syscallOpenHandle env.tree env.caller.curThread mem path len handle flags env.treeState
      (some r.result, r.accesses)
  | .createObjAndHandle path len handle =>
      let r := syscallCreateObjAndHandle env.tree mem path len handle env.treeState
      (some r.result, r.accesses)
  | .getObjectProperties handle path len props =>
      let getChild := fun name =>
        ((env.tree.getChild env.treeState name).result,
          some (env.leafKind (env.tree.getChild env.treeState name).leaf))
      let r := syscallGetObjectProperties getChild env.handled mem handle path len props
      (some r.1, r.2.2)
  | .enumChildren startFrom len maxCount buffer size =>
      let r := syscallEnumChildren env.enumTarget mem startFrom len maxCount buffer size
      (some r.1, r.2)
  | .sendMessage target len ptr output =>
      let r := syscallSendMessage env.sendTarget mem target len ptr output
      (some r.1, r.2)
  | .receiveMessageDetails id len =>
      let r := syscallReceiveMessageDetails env.messaging id len
      (some r.1, r.2)
  | .receiveMessageBody buffer size =>
      let r := syscallReceiveMessageBody env.messaging buffer size
      (some r.1, r.2)
  | .futexOp futex op => syscallFutexOp env.mapped env.wake futex op

/-- The pointers a call uses. -/
def PointerCall.pointers : PointerCall → List (BitVec 64)
  | .readHandle _ _ buf _ ptr | .writeHandle _ _ buf _ ptr => [buf, ptr]
  | .openHandle path _ handle _ | .createObjAndHandle path _ handle => [path, handle]
  | .getObjectProperties handle path _ props => if handle = 0 then [path, props] else [props]
  | .enumChildren startFrom _ _ buffer size => [startFrom, buffer, size]
  | .sendMessage _ _ ptr output => [ptr, output]
  | .receiveMessageDetails id len => [id, len]
  | .receiveMessageBody buffer _ => [buffer]
  | .futexOp futex _ => [futex]

/-- Every byte accessed is in the lower half, and a pointer into the upper half is an error. -/
structure PointerCall.Confined (mem : Memory) (env : Environment) (call : PointerCall) : Prop where
  low : ∀ r ∈ (call.run env mem).2, r.Low
  refused : ∀ p ∈ call.pointers, 2 ^ 63 ≤ p.toNat → (call.run env mem).1 ≠ some .noError

/-- The space that names can take up in a buffer of `size` bytes. -/
def enumSpace (size : Nat) : Nat := if 17 ≤ size then size else if 8 ≤ size then 8 else 0

/-- The condition of `syscall_read_handle` and `syscall_write_handle`, on objects within `reach`. -/
def MoveConfinable (reach : Nat → Nat) (length buffer bufferSize countPtr : BitVec 64) : Prop :=
  ¬ (buffer = 0 ∨ isUmAddress buffer = false) ∧ ¬ (countPtr = 0 ∨ isUmAddress countPtr = false) ∧
      bufferSize ≠ 0 →
    Range.Low ⟨buffer, reach (if bufferSize < length then bufferSize else length).toNat⟩ ∧
      Range.Low ⟨countPtr, 8⟩

/-- The condition: what a call may access once it has made its tests is in the lower half. -/
def PointerCall.Confinable (reach : Nat → Nat) (mem : Memory) : PointerCall → Prop
  | .readHandle _ len buf size ptr | .writeHandle _ len buf size ptr => MoveConfinable reach len buf size ptr
  | .openHandle path len handle _ =>
      OpenAccepted path len handle → Range.Low ⟨path, len.toNat⟩ ∧
        Range.Low ⟨path, (cString mem path).length + 1⟩ ∧ Range.Low ⟨handle, 8⟩
  | .createObjAndHandle path len handle =>
      Range.Low ⟨path, len.toNat⟩ ∧ (OpenAccepted path len handle → Range.Low ⟨handle, 8⟩)
  | .getObjectProperties handle path len props =>
      ¬ ((handle ≠ 0 ∧ pathIsValid path len = true) ∨ (handle = 0 ∧ pathIsValid path len = false)) ∧
          isUmAddress props = true →
        (handle = 0 → Range.Low ⟨path, len.toNat⟩) ∧ Range.Low ⟨props, sizeOfObjectProperties⟩
  | .enumChildren startFrom len _ buffer size =>
      ¬ ((isUmAddress startFrom = false ∧ startFrom ≠ 0) ∨ (isUmAddress buffer = false ∧ buffer ≠ 0) ∨
          isUmAddress size = false ∨ size = 0) →
        (startFrom ≠ 0 → Range.Low ⟨startFrom, len.toNat⟩) ∧
          (buffer ≠ 0 → Range.Low ⟨buffer, enumSpace (load64 mem size).toNat⟩) ∧ Range.Low ⟨size, 8⟩
  | .sendMessage _ len ptr output =>
      (isUmAddress output = true → output ≠ 0 → Range.Low ⟨output, sizeOfSsmOutput⟩) ∧
        (isUmAddress output = false → isUmBuffer ptr len = false)
  | .receiveMessageDetails id len => Range.Low ⟨id, 8⟩ ∧ Range.Low ⟨len, 8⟩
  | .receiveMessageBody buffer size =>
      ¬ (buffer = 0 ∨ isUmAddress buffer = false) → Range.Low ⟨buffer, size.toNat⟩
  | .futexOp futex _ => Range.Low ⟨futex, 4⟩

/-- An environment in which every call goes as far as it can. -/
def generous (reach : Nat → Nat) (names : List Name) (messageLength : BitVec 64) : Environment where
  φ := Unit
  τ := Unit
  ℓ := Unit
  obj :=
    { readBytes := some fun _ _ length _ _ => ⟨.noError, (), 0, [], reach length.toNat⟩
      writeBytes := some fun _ _ _ length _ _ => ⟨.noError, (), 0, [], reach length.toNat⟩
      getFileSize := none }
  caller := ⟨true, some ⟨(), 0⟩⟩
  tree :=
    { getChild := fun _ _ => ⟨.noError, (), ()⟩
      createChild := fun _ _ => ⟨.noError, (), ()⟩
      renameChild := fun _ _ _ => (.noError, ())
      deleteChild := fun _ _ => (.noError, ()) }
  treeState := ()
  leafKind := fun _ => ⟨true, false, true, true⟩
  handled := (some ⟨true, false, true, true⟩, none)
  enumTarget := .branch fun _ _ => (.noError, names)
  sendTarget := ⟨true, true, fun _ => some true, fun _ => true⟩
  messaging := ⟨true, true, true, [messageLength]⟩
  mapped := true
  wake := .noError

theorem generous_within (reach : Nat → Nat) (names : List Name) (messageLength : BitVec 64) :
    Within reach (generous reach names messageLength).obj := by
  constructor
  · rintro op ⟨⟩ file start length bufferLength count
    exact Nat.le_refl _
  · rintro op ⟨⟩ held file start length bufferLength count
    exact Nat.le_refl _

variable {reach : Nat → Nat}

section Transfers

variable {φ : Type} {op : Option (TransferOp φ)} {s : Cursor.Caller φ}
  {startOffset length buffer bufferSize countPtr count : BitVec 64}

theorem accepted_of_answer {p : ObjectData φ × Transfer φ}
    (h : answer op s startOffset length buffer bufferSize countPtr count = some p) :
    ¬ (buffer = 0 ∨ isUmAddress buffer = false) ∧ ¬ (countPtr = 0 ∨ isUmAddress countPtr = false) ∧
      bufferSize ≠ 0 := by
  unfold answer at h
  split at h
  next hreach => exact ⟨hreach.1, hreach.2.1, hreach.2.2.1⟩
  next => cases h

/-- A transfer whose buffers are in the lower half stays there, and refuses other pointers. -/
theorem move_confined (s : Cursor.Caller φ) (startOffset count : BitVec 64)
    (h : MoveConfinable reach length buffer bufferSize countPtr)
    (hop : ∀ f ∈ op, ∀ file start len bufferLength count,
      (f file start len bufferLength count).touched ≤ reach len.toNat) :
    let r := moveBytes op s startOffset length buffer bufferSize countPtr count
    (∀ a ∈ r.accesses, a.Low) ∧
      ∀ p ∈ [buffer, countPtr], 2 ^ 63 ≤ p.toNat → some r.result ≠ some .noError := by
  intro r
  cases hans : answer op s startOffset length buffer bufferSize countPtr count with
  | none =>
      obtain ⟨hresult, -, haccesses⟩ := moveBytes_of_no_answer hans
      refine ⟨fun a ha => ?_, fun p _ _ hr => hresult (Option.some.inj hr)⟩
      rw [haccesses] at ha
      cases ha
  | some p =>
      obtain ⟨object, t⟩ := p
      have hacc := accepted_of_answer hans
      obtain ⟨hbuf, hptr⟩ := h hacc
      obtain ⟨f, hf, len, hlen, ht⟩ := op_of_answer hans
      have htouched : t.touched ≤ reach len.toNat := by
        rw [ht]
        exact hop f hf _ _ _ _ _
      refine ⟨fun a ha => ?_, fun q hq hhigh => ?_⟩
      · simp only [r, (moveBytes_of_answer hans).2, List.mem_cons, List.not_mem_nil, or_false] at ha
        rcases ha with rfl | rfl
        · exact hbuf.mono (hlen ▸ htouched)
        · exact hptr
      · -- a pointer into the upper half has been refused
        have hum := isUmAddress_eq_false.mpr hhigh
        simp only [List.mem_cons, List.not_mem_nil, or_false] at hq
        rcases hq with rfl | rfl
        · exact absurd (.inr hum) hacc.1
        · exact absurd (.inr hum) hacc.2.1

/-- An object that touches all of the buffer shows that the buffer has to be in the lower half. -/
theorem moveConfinable_of_low {f : TransferOp φ} {object : ObjectData φ}
    (htouched : ∀ file start len bufferLength count,
      (f file start len bufferLength count).touched = reach len.toNat)
    (h : ∀ a ∈ (moveBytes (some f) ⟨true, some object⟩ startOffset length buffer bufferSize countPtr
      count).accesses, a.Low) : MoveConfinable reach length buffer bufferSize countPtr := by
  rintro ⟨hbuf, hptr, hsize⟩
  have hans : answer (some f) ⟨true, some object⟩ startOffset length buffer bufferSize countPtr count =
      some (object, f object.objectPtr (startOffset + object.seekPosition)
        (if bufferSize < length then bufferSize else length) bufferSize count) := by
    rw [answer, if_pos ⟨hbuf, hptr, hsize, rfl⟩]
    rfl
  rw [(moveBytes_of_answer hans).2] at h
  simp only [List.mem_cons, List.not_mem_nil, or_false, forall_eq_or_imp, forall_eq, htouched] at h
  exact h

end Transfers

section Children

variable {buffer : BitVec 64} {total off len size : Nat}

/-- The bytes that names take up, with their pointers and zero bytes. -/
def nameBytes (ns : List Name) : Nat := (ns.map fun n => n.length + 9).sum

theorem NameCount.add_cases (size : Nat) (c : NameCount) (n : Name) :
    (c.couldStoreMore = true ∧ c.bufferUsed + (n.length + 9) ≤ size ∧
        (c.add size n).numToStore = c.numToStore + 1 ∧
        (c.add size n).bufferUsed = c.bufferUsed + (n.length + 9)) ∨
      ((c.add size n).numToStore = c.numToStore ∧ (c.add size n).couldStoreMore = false) := by
  unfold NameCount.add
  dsimp only
  split
  next hstore =>
    obtain ⟨hmore, hsize⟩ := Bool.and_eq_true_iff.mp hstore
    exact .inl ⟨hmore, of_decide_eq_true hsize, rfl, rfl⟩
  next => exact .inr ⟨rfl, rfl⟩

/-- The first loop counts names that fit, from the first one on. -/
theorem foldl_add_spec (size : Nat) (ns : List Name) : ∀ c : NameCount, ∃ k ≤ ns.length,
    (ns.foldl (NameCount.add size) c).numToStore = c.numToStore + k ∧
      (k ≠ 0 → c.couldStoreMore = true ∧ c.bufferUsed + nameBytes (ns.take k) ≤ size ∧
        9 ≤ nameBytes (ns.take k)) := by
  induction ns with
  | nil => exact fun c => ⟨0, Nat.le_refl _, rfl, fun h => absurd rfl h⟩
  | cons n ns ih =>
      intro c
      obtain ⟨k, hk, hnum, hfit⟩ := ih (c.add size n)
      rw [List.foldl_cons, hnum]
      rcases NameCount.add_cases size c n with ⟨hmore, hsize, hadd, hused⟩ | ⟨hadd, hmore⟩
      · refine ⟨k + 1, Nat.succ_le_succ hk, by omega, fun _ => ⟨hmore, ?_⟩⟩
        simp only [List.take_succ_cons, nameBytes, List.map_cons, List.sum_cons]
        by_cases hzero : k = 0
        · subst hzero
          simpa using hsize
        · have hrest := (hfit hzero).2.1
          rw [nameBytes, hused] at hrest
          omega
      · have hzero : k = 0 := by
          by_contra hk
          rw [(hfit hk).1] at hmore
          cases hmore
        exact ⟨0, Nat.zero_le _, by omega, fun h => absurd rfl h⟩

theorem low_within (hlow : buffer.toNat + total ≤ 2 ^ 63) (h : off + len ≤ total) :
    Range.Low ⟨buffer + BitVec.ofNat 64 off, len⟩ := by
  rw [Range.low_iff, BitVec.toNat_add, BitVec.toNat_ofNat]
  dsimp only
  omega

/-- The second loop stays within the table and the names behind it. -/
theorem storeNames_low (hlow : buffer.toNat + total ≤ 2 ^ 63) (ns : List Name) : ∀ i q,
    8 * (i + ns.length + 1) ≤ total → q + (ns.map fun n => n.length + 1).sum ≤ total →
    ∀ r ∈ storeNames buffer i (buffer + BitVec.ofNat 64 q) ns, r.Low := by
  induction ns with
  | nil => exact fun _ _ _ _ _ hr => absurd hr (by simp [storeNames])
  | cons n ns ih =>
      intro i q htable hnames r hr
      simp only [List.length_cons, List.map_cons, List.sum_cons] at htable hnames
      have hshift (k : Nat) : buffer + BitVec.ofNat 64 q + BitVec.ofNat 64 k =
          buffer + BitVec.ofNat 64 (q + k) := by
        rw [BitVec.add_assoc, ← BitVec.ofNat_add]
      simp only [storeNames, List.mem_cons, hshift] at hr
      rcases hr with rfl | rfl | rfl | rfl | hr
      · exact low_within hlow (by omega)
      · exact low_within hlow (by omega)
      · exact low_within hlow (by omega)
      · exact low_within hlow (by omega)
      · exact ih (i + 1) (q + (n.length + 1)) (by omega) (by omega) r hr

theorem nameBytes_eq (ns : List Name) :
    nameBytes ns = 8 * ns.length + (ns.map fun n => n.length + 1).sum := by
  induction ns with
  | nil => rfl
  | cons n ns ih =>
      simp only [nameBytes, List.map_cons, List.sum_cons, List.length_cons] at ih ⊢
      omega

/-- What `syscall_enum_children` stores takes no more than `enumSpace`. -/
theorem storeChildren_low (names : List Name)
    (h : buffer ≠ 0 → Range.Low ⟨buffer, enumSpace size⟩) :
    ∀ r ∈ (storeChildren buffer size names).1, r.Low := by
  intro r hr
  obtain ⟨k, hk, hnum, hfit⟩ :=
    foldl_add_spec size names ⟨8, 0, 8, decide (buffer ≠ 0 ∧ 8 ≤ size)⟩
  simp only [storeChildren, hnum, Nat.zero_add] at hr
  by_cases hfits : buffer ≠ 0 ∧ 8 ≤ size
  · have hspace : 8 + nameBytes (names.take k) ≤ enumSpace size ∧ enumSpace size ≠ 0 := by
      have hsize := hfits.2
      unfold enumSpace
      by_cases hzero : k = 0
      · simp only [hzero, List.take_zero, nameBytes, List.map_nil, List.sum_nil]
        split <;> omega
      · obtain ⟨-, hused, hbytes⟩ := hfit hzero
        dsimp only at hused
        rw [if_pos (by omega)]
        omega
    have hlow : buffer.toNat + (8 + nameBytes (names.take k)) ≤ 2 ^ 63 := by
      rcases Range.low_iff.mp (h hfits.1) with hzero | hlow
      · exact absurd hzero hspace.2
      · dsimp only at hlow
        omega
    have hbytes := nameBytes_eq (names.take k)
    have hlen : (names.take k).length = k := by rw [List.length_take]; omega
    rw [if_pos hfits] at hr
    rcases List.mem_append.mp hr with hr | hr
    · obtain rfl := List.mem_singleton.mp hr
      exact Range.low_iff.mpr (.inr (by dsimp only; omega))
    · exact storeNames_low hlow _ 0 _ (by omega) (by omega) r hr
  · have hzero : k = 0 := by
      by_contra hk
      exact hfits (of_decide_eq_true (hfit hk).1)
    rw [if_neg hfits, hzero] at hr
    exact absurd hr (by simp [storeNames])

/-- One name that fills the buffer shows that the buffer has to be in the lower half. -/
theorem enumSpace_low (hbuf : buffer ≠ 0) (hum : buffer.toNat < 2 ^ 63)
    (h : ∀ r ∈ (storeChildren buffer size
      (if 17 ≤ size then [List.replicate (size - 17) 0] else [])).1, r.Low) :
    Range.Low ⟨buffer, enumSpace size⟩ := by
  unfold enumSpace
  by_cases hlarge : 17 ≤ size
  · have hfits : buffer ≠ 0 ∧ 8 ≤ size := ⟨hbuf, by omega⟩
    have hname : 8 + (size - 17 + 8 + 1) ≤ size := by omega
    rw [if_pos hlarge]
    simp only [if_pos hlarge, storeChildren, hfits, ne_eq, not_false_eq_true, and_self, decide_true,
      if_true, List.foldl_cons, List.foldl_nil, NameCount.add, List.length_replicate, hname,
      Bool.and_self, List.take_succ_cons, List.take_zero, storeNames, List.mem_append, List.mem_cons,
      List.not_mem_nil, or_false, forall_eq_or_imp, forall_eq, Nat.zero_add] at h
    -- the name starts behind two entries of the table, and its zero byte is the last byte
    obtain ⟨-, -, -, hname, hzero⟩ := h
    rw [Range.low_iff] at hname hzero
    simp only [BitVec.toNat_add, BitVec.toNat_ofNat] at hname hzero
    refine Range.low_iff.mpr (.inr ?_)
    dsimp only
    omega
  · rw [if_neg hlarge]
    split
    next hsize =>
      have hfits : buffer ≠ 0 ∧ 8 ≤ size := ⟨hbuf, hsize⟩
      refine h _ (List.mem_append_left _ ?_)
      rw [if_pos hfits]
      exact List.mem_singleton_self _
    next => exact fun i hi => absurd hi (Nat.not_lt_zero i)

end Children

section Calls

variable {mem : Memory}

theorem openHandle_confinable {path len handle : BitVec 64} {flags : BitVec 32}
    (h : ∀ env : Environment, Within reach env.obj →
      PointerCall.Confined mem env (.openHandle path len handle flags)) :
    PointerCall.Confinable reach mem (.openHandle path len handle flags) := by
  intro hacc
  have hlow := (h (generous reach [] 0) (generous_within _ _ _)).low
  simp only [PointerCall.run, generous, open_accepted _ _ hacc, if_true, List.cons_append,
    List.nil_append, List.mem_cons, List.not_mem_nil, or_false, forall_eq_or_imp, forall_eq] at hlow
  exact hlow

theorem create_accesses {τ ℓ : Type} (T : SystemTree τ ℓ) (t : τ) {path len handle : BitVec 64} :
    ∀ r ∈ (syscallCreateObjAndHandle T mem path len handle t).accesses,
      r = ⟨path, len.toNat⟩ ∨ OpenAccepted path len handle ∧ r = ⟨handle, 8⟩ := by
  intro r hr
  unfold syscallCreateObjAndHandle at hr
  dsimp only at hr
  split at hr
  next => exact .inl (List.mem_singleton.mp hr)
  next hparams =>
    have hacc : OpenAccepted path len handle := by
      unfold OpenAccepted
      tauto
    split at hr
    · rcases List.mem_append.mp hr with hr | hr
      · exact .inl (List.mem_singleton.mp hr)
      · exact .inr ⟨hacc, List.mem_singleton.mp hr⟩
    · exact .inl (List.mem_singleton.mp hr)

theorem create_refused {τ ℓ : Type} (T : SystemTree τ ℓ) (t : τ) {path len handle : BitVec 64}
    (h : ¬ OpenAccepted path len handle) :
    (syscallCreateObjAndHandle T mem path len handle t).result = .invalidParam := by
  have hparams : path = 0 ∨ isUmAddress path = false ∨ len = 0 ∨ handle = 0 ∨
      isUmAddress handle = false := by
    unfold OpenAccepted at h
    tauto
  rw [syscallCreateObjAndHandle, if_pos hparams]

/-- A pointer into the upper half is not accepted. -/
theorem not_openAccepted {path len handle p : BitVec 64} (hp : p ∈ [path, handle])
    (hhigh : 2 ^ 63 ≤ p.toNat) : ¬ OpenAccepted path len handle := by
  have hum := isUmAddress_eq_false.mpr hhigh
  rintro ⟨hpath, hhandle, -⟩
  simp only [List.mem_cons, List.not_mem_nil, or_false] at hp
  rcases hp with rfl | rfl
  · exact hpath (.inr hum)
  · exact hhandle (.inr hum)

theorem openHandle_confined {path len handle : BitVec 64} {flags : BitVec 32}
    (h : PointerCall.Confinable reach mem (.openHandle path len handle flags)) (env : Environment) :
    PointerCall.Confined mem env (.openHandle path len handle flags) := by
  by_cases hacc : OpenAccepted path len handle
  · obtain ⟨hpath, hstring, hhandle⟩ := h hacc
    refine ⟨?_, fun p hp hhigh => absurd hacc (not_openAccepted hp hhigh)⟩
    cases hthread : env.caller.curThread with
    | false => simp [PointerCall.run, hthread, open_no_thread _ _ hacc]
    | true =>
        have hcreate : ∀ t, ∀ r ∈ (syscallCreateObjAndHandle env.tree mem path len handle t).accesses,
            r.Low := by
          intro t r hr
          rcases create_accesses env.tree t r hr with rfl | ⟨-, rfl⟩
          · exact hpath
          · exact hhandle
        simp only [PointerCall.run, hthread, open_accepted _ _ hacc]
        split
        · simp [hpath, hstring, hhandle]
        split
        · intro r hr
          rcases List.mem_append.mp hr with hr | hr
          · simp only [List.mem_cons, List.not_mem_nil, or_false] at hr
            rcases hr with rfl | rfl
            · exact hpath
            · exact hstring
          · exact hcreate _ r hr
        · simp [hpath, hstring]
  · constructor
    · simp [PointerCall.run, open_refused _ _ _ hacc]
    · simp [PointerCall.run, open_refused _ _ _ hacc]

theorem create_confined_iff {path len handle : BitVec 64} :
    (∀ env : Environment, Within reach env.obj →
      PointerCall.Confined mem env (.createObjAndHandle path len handle)) ↔
      PointerCall.Confinable reach mem (.createObjAndHandle path len handle) := by
  constructor
  · intro h
    have hlow := (h (generous reach [] 0) (generous_within _ _ _)).low
    simp only [PointerCall.run, generous, syscallCreateObjAndHandle, if_true] at hlow
    refine ⟨?_, fun hacc => ?_⟩
    · refine hlow _ ?_
      split
      · exact List.mem_singleton_self _
      · exact List.mem_cons_self
    · have hparams : ¬ (path = 0 ∨ isUmAddress path = false ∨ len = 0 ∨ handle = 0 ∨
          isUmAddress handle = false) := by
        unfold OpenAccepted at hacc
        tauto
      rw [if_neg hparams] at hlow
      exact hlow _ (List.mem_append_right _ (List.mem_singleton_self _))
  · rintro ⟨hpath, hhandle⟩ env -
    constructor
    · intro r hr
      rcases create_accesses env.tree env.treeState r hr with rfl | ⟨hacc, rfl⟩
      · exact hpath
      · exact hhandle hacc
    · intro p hp hhigh
      simp [PointerCall.run, create_refused env.tree env.treeState (not_openAccepted hp hhigh)]

theorem properties_confined_iff {handle path len props : BitVec 64} :
    (∀ env : Environment, Within reach env.obj →
      PointerCall.Confined mem env (.getObjectProperties handle path len props)) ↔
      PointerCall.Confinable reach mem (.getObjectProperties handle path len props) := by
  constructor
  · rintro h ⟨hvalid, hprops⟩
    have hlow := (h (generous reach [] 0) (generous_within _ _ _)).low
    have hprops' : ¬ isUmAddress props = false := by simp [hprops]
    simp only [PointerCall.run, generous, syscallGetObjectProperties, if_neg hvalid, if_neg hprops'] at hlow
    by_cases hhandle : handle = 0
    · simp only [if_pos hhandle, List.cons_append, List.nil_append, List.mem_cons, List.not_mem_nil,
        or_false, forall_eq_or_imp, forall_eq] at hlow
      exact ⟨fun _ => hlow.1, hlow.2⟩
    · simp only [if_neg hhandle, Option.isNone_some, Bool.false_and, Bool.false_eq_true, if_false,
        List.nil_append, List.mem_cons, List.not_mem_nil, or_false, forall_eq] at hlow
      exact ⟨fun h => absurd h hhandle, hlow⟩
  · rintro h env -
    by_cases hvalid : (handle ≠ 0 ∧ pathIsValid path len = true) ∨
        (handle = 0 ∧ pathIsValid path len = false)
    · constructor
      · simp only [PointerCall.run, syscallGetObjectProperties, if_pos hvalid]
        exact fun r hr => absurd hr List.not_mem_nil
      · simp only [PointerCall.run, syscallGetObjectProperties, if_pos hvalid]
        exact fun _ _ _ => nofun
    · by_cases hprops : isUmAddress props = false
      · constructor
        · simp only [PointerCall.run, syscallGetObjectProperties, if_neg hvalid, if_pos hprops]
          exact fun r hr => absurd hr List.not_mem_nil
        · simp only [PointerCall.run, syscallGetObjectProperties, if_neg hvalid, if_pos hprops]
          exact fun _ _ _ => nofun
      · obtain ⟨hpath, hlow⟩ := h ⟨hvalid, by simpa using hprops⟩
        have hread : ∀ r ∈ (if handle = 0 then [(⟨path, len.toNat⟩ : Range)] else []), r.Low := by
          intro r hr
          split at hr
          next hzero =>
            obtain rfl := List.mem_singleton.mp hr
            exact hpath hzero
          next => cases hr
        have hboth : ∀ r ∈ (if handle = 0 then [(⟨path, len.toNat⟩ : Range)] else []) ++
            [⟨props, sizeOfObjectProperties⟩], r.Low := by
          intro r hr
          rcases List.mem_append.mp hr with hr | hr
          · exact hread r hr
          · obtain rfl := List.mem_singleton.mp hr
            exact hlow
        constructor
        · simp only [PointerCall.run, syscallGetObjectProperties, if_neg hvalid, if_neg hprops]
          split
          · exact hboth
          · exact hboth
          · exact hread
        · -- the path and `props` are in the lower half
          intro p hp hhigh
          have hum := isUmAddress_eq_false.mpr hhigh
          simp only [PointerCall.pointers] at hp
          split at hp
          next hzero =>
            simp only [List.mem_cons, List.not_mem_nil, or_false] at hp
            rcases hp with rfl | rfl
            · exact absurd (.inr ⟨hzero, by simp [pathIsValid, hum]⟩) hvalid
            · exact absurd hum hprops
          next =>
            obtain rfl := List.mem_singleton.mp hp
            exact absurd hum hprops

theorem enumChildren_confined_iff {startFrom len maxCount buffer size : BitVec 64} :
    (∀ env : Environment, Within reach env.obj →
      PointerCall.Confined mem env (.enumChildren startFrom len maxCount buffer size)) ↔
      PointerCall.Confinable reach mem (.enumChildren startFrom len maxCount buffer size) := by
  constructor
  · intro h hvalid
    have hlow := (h (generous reach (if 17 ≤ (load64 mem size).toNat then
      [List.replicate ((load64 mem size).toNat - 17) 0] else []) 0) (generous_within _ _ _)).low
    simp only [PointerCall.run, generous, syscallEnumChildren, if_neg hvalid, if_true] at hlow
    refine ⟨fun hstart => ?_, fun hbuf => ?_, ?_⟩
    · by_cases hlen : len = 0
      · subst hlen
        exact fun i hi => absurd hi (Nat.not_lt_zero i)
      · refine hlow _ ?_
        simp only [if_pos (show startFrom ≠ 0 ∧ len ≠ 0 from ⟨hstart, hlen⟩)]
        exact List.mem_cons_self
    · have hum : buffer.toNat < 2 ^ 63 := by
        by_contra hhigh
        exact hvalid (.inr (.inl ⟨isUmAddress_eq_false.mpr (Nat.le_of_not_lt hhigh), hbuf⟩))
      refine enumSpace_low hbuf hum fun r hr => hlow r ?_
      exact List.mem_append_left _ (List.mem_append_right _ hr)
    · exact hlow _ (List.mem_append_right _ (List.mem_singleton_self _))
  · rintro h env -
    by_cases hvalid : (isUmAddress startFrom = false ∧ startFrom ≠ 0) ∨
        (isUmAddress buffer = false ∧ buffer ≠ 0) ∨ isUmAddress size = false ∨ size = 0
    · constructor
      · simp only [PointerCall.run, syscallEnumChildren, if_pos hvalid]
        exact fun r hr => absurd hr List.not_mem_nil
      · simp only [PointerCall.run, syscallEnumChildren, if_pos hvalid]
        exact fun _ _ _ => nofun
    · obtain ⟨hstart, hbuf, hsize⟩ := h hvalid
      constructor
      · have hread : ∀ r ∈ (if startFrom ≠ 0 ∧ len ≠ 0 then [(⟨startFrom, len.toNat⟩ : Range)] else []) ++
            [⟨size, 8⟩], r.Low := by
          intro r hr
          rcases List.mem_append.mp hr with hr | hr
          · split at hr
            next hgiven =>
              obtain rfl := List.mem_singleton.mp hr
              exact hstart hgiven.1
            next => cases hr
          · obtain rfl := List.mem_singleton.mp hr
            exact hsize
        simp only [PointerCall.run, syscallEnumChildren, if_neg hvalid]
        split
        · exact fun r hr => absurd hr List.not_mem_nil
        · exact fun r hr => absurd hr List.not_mem_nil
        · exact fun r hr => absurd hr List.not_mem_nil
        next enumChildren _ =>
          by_cases hres : (enumChildren (if startFrom ≠ 0 ∧ len ≠ 0 then
              stringOf mem startFrom len.toNat else []) maxCount).1 = .noError
          · simp only [if_pos hres]
            intro r hr
            rcases List.mem_append.mp hr with hr | hr
            · rcases List.mem_append.mp hr with hr | hr
              · exact hread r hr
              · exact storeChildren_low _ hbuf r hr
            · obtain rfl := List.mem_singleton.mp hr
              exact hsize
          · simp only [if_neg hres]
            exact hread
      · -- a pointer into the upper half is not null, and has been refused
        intro p hp hhigh
        have hum := isUmAddress_eq_false.mpr hhigh
        have hne : p ≠ 0 := by
          rintro rfl
          exact absurd hhigh (by decide)
        simp only [PointerCall.pointers, List.mem_cons, List.not_mem_nil, or_false] at hp
        rcases hp with rfl | rfl | rfl
        · exact absurd (.inl ⟨hum, hne⟩) hvalid
        · exact absurd (.inr (.inl ⟨hum, hne⟩)) hvalid
        · exact absurd (.inr (.inr (.inl hum))) hvalid

theorem details_confined_iff {id len : BitVec 64} :
    (∀ env : Environment, Within reach env.obj →
      PointerCall.Confined mem env (.receiveMessageDetails id len)) ↔
      PointerCall.Confinable reach mem (.receiveMessageDetails id len) := by
  constructor
  · intro h
    have hlow := (h (generous reach [] 0) (generous_within _ _ _)).low
    exact ⟨hlow _ List.mem_cons_self, hlow _ (List.mem_cons_of_mem _ List.mem_cons_self)⟩
  · rintro ⟨hid, hlen⟩ env -
    constructor
    · simp only [PointerCall.run, syscallReceiveMessageDetails]
      split
      · simp
      split
      · simp
      split
      · simp
      split
      · simp
      · simp [hid, hlen]
    · -- both pointers are in the lower half
      intro p hp hhigh
      simp only [PointerCall.pointers, List.mem_cons, List.not_mem_nil, or_false] at hp
      rw [Range.low_iff] at hid hlen
      rcases hp with rfl | rfl
      · dsimp only at hid
        omega
      · dsimp only at hlen
        omega

theorem body_confined_iff {buffer size : BitVec 64} :
    (∀ env : Environment, Within reach env.obj →
      PointerCall.Confined mem env (.receiveMessageBody buffer size)) ↔
      PointerCall.Confinable reach mem (.receiveMessageBody buffer size) := by
  constructor
  · intro h hvalid
    by_cases hsize : size = 0
    · subst hsize
      exact fun i hi => absurd hi (Nat.not_lt_zero i)
    · -- a message as long as the buffer
      have hlow := (h (generous reach [] size) (generous_within _ _ _)).low
      refine hlow _ ?_
      have hlt : ¬ size < size := Nat.lt_irrefl _
      simp only [PointerCall.run, generous, syscallReceiveMessageBody, if_neg hvalid, if_neg hsize,
        Bool.true_eq_false, if_false, if_neg hlt]
      rw [if_pos hsize]
      exact List.mem_singleton_self _
  · rintro h env -
    by_cases hvalid : buffer = 0 ∨ isUmAddress buffer = false
    · constructor
      · simp only [PointerCall.run, syscallReceiveMessageBody, if_pos hvalid]
        exact fun r hr => absurd hr List.not_mem_nil
      · simp only [PointerCall.run, syscallReceiveMessageBody, if_pos hvalid]
        exact fun _ _ _ => nofun
    · have hlow := h hvalid
      constructor
      · simp only [PointerCall.run, syscallReceiveMessageBody, if_neg hvalid]
        split
        · simp
        split
        · simp
        split
        · simp
        split
        · simp
        split
        · simp
        next messageLength _ _ =>
          have hrestrict : (if messageLength < size then messageLength else size).toNat ≤ size.toNat := by
            split
            next hlt => exact Nat.le_of_lt hlt
            next => exact Nat.le_refl _
          revert hrestrict
          generalize (if messageLength < size then messageLength else size) = restrictingSize
          intro hrestrict r hr
          dsimp only at hr
          split at hr
          next =>
            obtain rfl := List.mem_singleton.mp hr
            exact hlow.mono hrestrict
          next => cases hr
      · intro p hp hhigh
        obtain rfl := List.mem_singleton.mp hp
        exact absurd (.inr (isUmAddress_eq_false.mpr hhigh)) hvalid

theorem futex_accesses (mapped : Bool) (wake : ErrCode) (futex : BitVec 64) (op : FutexOp) :
    (∀ r ∈ (syscallFutexOp mapped wake futex op).2, r = ⟨futex, 4⟩) ∧
      ⟨futex, 4⟩ ∈ (syscallFutexOp mapped wake futex op).2 := by
  cases mapped with
  | false => simp [syscallFutexOp]
  | true =>
      cases hum : isUmAddress futex with
      | false => simp [syscallFutexOp, hum]
      | true => cases op <;> simp [syscallFutexOp, hum]

theorem futex_confined_iff {futex : BitVec 64} {op : FutexOp} :
    (∀ env : Environment, Within reach env.obj →
      PointerCall.Confined mem env (.futexOp futex op)) ↔
      PointerCall.Confinable reach mem (.futexOp futex op) := by
  constructor
  · exact fun h => (h (generous reach [] 0) (generous_within _ _ _)).low _ (futex_accesses _ _ futex op).2
  · rintro hlow env -
    constructor
    · intro r hr
      rw [(futex_accesses _ _ futex op).1 r hr]
      exact hlow
    · intro p hp hhigh
      obtain rfl := List.mem_singleton.mp hp
      rw [PointerCall.Confinable, Range.low_iff] at hlow
      dsimp only at hlow
      omega

section Send

variable {env : SendTarget} {target len ptr output : BitVec 64}

/-- A message that is not refused has buffers in the lower half. -/
theorem sendRefusal_eq_none {o : SsmOutput} (h : sendRefusal env len ptr o = none) :
    isUmBuffer ptr len = true ∧
      (o.outputBuffer ≠ 0 → isUmBuffer o.outputBuffer o.outputBufferLen = true) := by
  have hsome {c : Prop} [Decidable c] {e : ErrCode} {rest : Option ErrCode}
      (h : (if c then some e else rest) = none) : ¬ c ∧ rest = none := by
    split at h
    · cases h
    next hc => exact ⟨hc, h⟩
  obtain ⟨hmessage, h⟩ := hsome h
  obtain ⟨-, h⟩ := hsome h
  obtain ⟨-, h⟩ := hsome h
  obtain ⟨-, h⟩ := hsome h
  obtain ⟨-, h⟩ := hsome h
  obtain ⟨-, h⟩ := hsome h
  obtain ⟨houtput, -⟩ := hsome h
  exact ⟨by simpa using hmessage, fun hne => by_contra fun hum => houtput ⟨hne, by simpa using hum⟩⟩

/-- Beyond what it has read, a call that sends accesses buffers that have passed the test. -/
theorem sendWithOptions_accesses (o : SsmOutput) (read : List Range) :
    ∀ r ∈ (sendWithOptions env target len ptr o read).2, r ∈ read ∨
      ∃ base length, isUmBuffer base length = true ∧ r = ⟨base, length.toNat⟩ := by
  intro r hr
  unfold sendWithOptions at hr
  split at hr
  · exact .inl hr
  next hnone =>
    obtain ⟨hmessage, houtput⟩ := sendRefusal_eq_none hnone
    split at hr
    · exact .inl hr
    split at hr
    · exact .inl hr
    split at hr
    · rcases List.mem_append.mp hr with hr | hr
      · rcases List.mem_append.mp hr with hr | hr
        · exact .inl hr
        · split at hr
          · exact .inr ⟨ptr, len, hmessage, List.mem_singleton.mp hr⟩
          · cases hr
      · split at hr
        next hne =>
          exact .inr ⟨o.outputBuffer, o.outputBufferLen, houtput hne, List.mem_singleton.mp hr⟩
        next => cases hr
    · exact .inl hr

theorem read_mem_sendWithOptions (o : SsmOutput) {read : List Range} {r : Range} (hr : r ∈ read) :
    r ∈ (sendWithOptions env target len ptr o read).2 := by
  unfold sendWithOptions
  split
  · exact hr
  split
  · exact hr
  split
  · exact hr
  split
  · exact List.mem_append_left _ (List.mem_append_left _ hr)
  · exact hr

theorem send_accesses : ∀ r ∈ (syscallSendMessage env mem target len ptr output).2,
    (isUmAddress output = true ∧ output ≠ 0 ∧ r = ⟨output, sizeOfSsmOutput⟩) ∨
      ∃ base length, isUmBuffer base length = true ∧ r = ⟨base, length.toNat⟩ := by
  intro r hr
  unfold syscallSendMessage at hr
  split at hr
  next hsaved =>
    rcases sendWithOptions_accesses _ _ r hr with hr | hr
    · exact .inl ⟨hsaved.1, hsaved.2, List.mem_singleton.mp hr⟩
    · exact .inr hr
  next =>
    rcases sendWithOptions_accesses _ _ r hr with hr | hr
    · cases hr
    · exact .inr hr

theorem send_reads_output (hum : isUmAddress output = true) (hne : output ≠ 0) :
    ⟨output, sizeOfSsmOutput⟩ ∈ (syscallSendMessage env mem target len ptr output).2 := by
  rw [syscallSendMessage, if_pos ⟨hum, hne⟩]
  exact read_mem_sendWithOptions _ (List.mem_singleton_self _)

theorem send_refused (h : isUmBuffer ptr len = false) :
    (syscallSendMessage env mem target len ptr output).1 = .invalidParam := by
  have hrefusal (o : SsmOutput) : sendRefusal env len ptr o = some .invalidParam := if_pos h
  unfold syscallSendMessage sendWithOptions
  split <;> rw [hrefusal]

/-- Options that cannot be read are left out. -/
theorem send_without_output (hum : isUmAddress output = false) (hbuf : isUmBuffer ptr len = true) :
    (syscallSendMessage (generous reach [] 0).sendTarget mem target len ptr output).1 = .noError := by
  have hrefusal : sendRefusal (generous reach [] 0).sendTarget len ptr {} = none := by
    rw [sendRefusal, hbuf]
    rfl
  have hsaved : ¬ (isUmAddress output = true ∧ output ≠ 0) := fun h => by rw [hum] at h; cases h.1
  rw [syscallSendMessage, if_neg hsaved, sendWithOptions, hrefusal]
  rfl

end Send

theorem send_confined_iff {target len ptr output : BitVec 64} :
    (∀ env : Environment, Within reach env.obj →
      PointerCall.Confined mem env (.sendMessage target len ptr output)) ↔
      PointerCall.Confinable reach mem (.sendMessage target len ptr output) := by
  constructor
  · intro h
    refine ⟨fun hum hne => (h (generous reach [] 0) (generous_within _ _ _)).low _ (send_reads_output hum hne),
      fun hum => ?_⟩
    by_contra hbuf
    refine (h (generous reach [] 0) (generous_within _ _ _)).refused output (by simp [PointerCall.pointers])
      (isUmAddress_eq_false.mp hum) ?_
    rw [PointerCall.run, send_without_output hum (by simpa using hbuf)]
  · rintro ⟨hread, hbuf⟩ env -
    constructor
    · intro r hr
      rcases send_accesses r hr with ⟨hum, hne, rfl⟩ | ⟨base, length, hlow, rfl⟩
      · exact hread hum hne
      · exact low_of_isUmBuffer hlow
    · intro p hp hhigh
      have hum := isUmAddress_eq_false.mpr hhigh
      have hrefused : isUmBuffer ptr len = false := by
        simp only [PointerCall.pointers, List.mem_cons, List.not_mem_nil, or_false] at hp
        rcases hp with rfl | rfl
        · rw [← Bool.not_eq_true, isUmBuffer_iff]
          omega
        · exact hbuf hum
      simp [PointerCall.run, send_refused hrefused]

end Calls

/-- A call stays in the lower half of the address space, and refuses a pointer into the upper half, in
every environment with objects within a reach exactly if its arguments are confinable. -/
theorem pointers_confined_iff (reach : Nat → Nat) (mem : Memory) (call : PointerCall) :
    (∀ env : Environment, Within reach env.obj → call.Confined mem env) ↔ call.Confinable reach mem := by
  cases call with
  | readHandle start len buf size ptr =>
      constructor
      · exact fun h => moveConfinable_of_low (fun _ _ _ _ _ => rfl)
          (h (generous reach [] 0) (generous_within _ _ _)).low
      · intro h env hwithin
        obtain ⟨hlow, hrefused⟩ := move_confined env.caller start (load64 mem ptr) h hwithin.1
        exact ⟨hlow, hrefused⟩
  | writeHandle start len buf size ptr =>
      constructor
      · exact fun h => moveConfinable_of_low (fun _ _ _ _ _ => rfl)
          (h (generous reach [] 0) (generous_within _ _ _)).low
      · intro h env hwithin
        have hop : ∀ f ∈ env.obj.writeBytes.map fun op => op (stringOf mem buf size.toNat),
            ∀ file start len bufferLength count,
              (f file start len bufferLength count).touched ≤ reach len.toNat := by
          intro f hf
          obtain ⟨op, hmem, rfl⟩ := Option.map_eq_some_iff.mp hf
          exact hwithin.2 op hmem _
        obtain ⟨hlow, hrefused⟩ := move_confined env.caller start (load64 mem ptr) h hop
        exact ⟨hlow, hrefused⟩
  | openHandle path len handle flags => exact ⟨openHandle_confinable, fun h env _ => openHandle_confined h env⟩
  | createObjAndHandle path len handle => exact create_confined_iff
  | getObjectProperties handle path len props => exact properties_confined_iff
  | enumChildren startFrom len maxCount buffer size => exact enumChildren_confined_iff
  | sendMessage target len ptr output => exact send_confined_iff
  | receiveMessageDetails id len => exact details_confined_iff
  | receiveMessageBody buffer size => exact body_confined_iff
  | futexOp futex op => exact futex_confined_iff

/-- A read into a buffer that starts in the lower half and ends in the upper one. -/
theorem pointers_not_confined :
    ¬ (PointerCall.readHandle 0 4096 0x7FFFFFFFFFFFF800 4096 0x1000).Confined (fun _ => 0)
      (generous id [] 0) := by
  intro h
  exact absurd (h.low _ List.mem_cons_self) (by decide +kernel)

end Azalea.Syscall
