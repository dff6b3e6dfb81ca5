import Azalea.Support.Runs
import Azalea.Syscall.Validation

/-!
# Syscall — the file cursor

`syscall_read_handle`, `syscall_write_handle` and `syscall_seek_handle` (`syscall/syscall_rw.cpp`) on
one handle.  The object behind the handle is a parameter: it has a state of any type and as many of the
interfaces `IReadable`, `IWritable` and `IBasicFile` as it likes, and it may leave anything in the count
it is given to fill in.

A reference cursor is a natural number: a transfer moves it by the count the object reports, a call that
fails leaves it alone, and a seek has an exact target.  `cursor_follows_iff`: along a run of calls the
seek position follows the reference exactly as long as every transfer the object refuses leaves a count
of zero, every one it accepts a count that the buffer and the position have room for, and every seek has a
target that is one (`InRange`).  The source adds the count whatever the object answers, and reduces a target
modulo `2 ^ 64` where the comment above it asks for an offset that is not negative
(`cursor_seek_before_start`).
-/

namespace Azalea.Syscall.Cursor
open Azalea.Runs

/-- `SEEK_OFFSET`, or a value that is none of its members. -/
inductive SeekOffset where
  | fromCur
  | fromStart
  | fromEnd
  | other (value : Nat)
  deriving DecidableEq

/-- What `read_bytes` and `write_bytes` leave behind. -/
structure Transfer (φ : Type*) where
  result : ErrCode
  file : φ
  /-- The value of the variable behind `bytes_read` or `bytes_written`. -/
  count : BitVec 64
  /-- The bytes moved. -/
  data : List UInt8
  /-- How many bytes of the buffer the object has touched. -/
  touched : Nat

/-- `read_bytes` or `write_bytes` of an object: `start`, `length`, `buffer_length`, and the value the
count has when it is called. -/
abbrev TransferOp (φ : Type*) :=
  φ → BitVec 64 → BitVec 64 → BitVec 64 → BitVec 64 → Transfer φ

/-- The interfaces an object has. -/
structure Interfaces (φ : Type*) where
  readBytes : Option (TransferOp φ)
  /-- The first argument is what the buffer holds. -/
  writeBytes : Option (List UInt8 → TransferOp φ)
  getFileSize : Option (φ → ErrCode × BitVec 64)

/-- `object_data`. -/
structure ObjectData (φ : Type*) where
  objectPtr : φ
  seekPosition : BitVec 64

/-- The caller of a system call: whether there is a current thread, and what `retrieve_object` finds for
the handle in its process. -/
structure Caller (φ : Type*) where
  curThread : Bool
  object : Option (ObjectData φ)

/-- What `syscall_read_handle` and `syscall_write_handle` leave behind. -/
structure Moved (φ : Type*) where
  result : ErrCode
  caller : Caller φ
  /-- The value behind the pointer to the count. -/
  count : BitVec 64
  data : List UInt8
  /-- What has been accessed through the pointers. -/
  accesses : List Range

variable {φ : Type*}

/-- The body that `syscall_read_handle` and `syscall_write_handle` share; `count` is what the pointer
`countPtr` points to. -/
def moveBytes (op : Option (TransferOp φ)) (s : Caller φ)
    (startOffset length buffer bufferSize countPtr count : BitVec 64) : Moved φ :=
  if buffer = 0 ∨ isUmAddress buffer = false then ⟨.invalidParam, s, count, [], []⟩
  else if countPtr = 0 ∨ isUmAddress countPtr = false then ⟨.invalidParam, s, count, [], []⟩
  else if bufferSize = 0 then ⟨.invalidParam, s, count, [], []⟩
  else if s.curThread = false then ⟨.invalidOp, s, count, [], []⟩
  else
    match s.object with
    | none => ⟨.invalidParam, s, count, [], []⟩
    | some object =>
        match op with
        | none => ⟨.invalidOp, s, count, [], []⟩
        | some op =>
            let length := if bufferSize < length then bufferSize else length
            let t := op object.objectPtr (startOffset + object.seekPosition) length bufferSize count
            -- the count is added whatever the result
            ⟨t.result, { s with object := some ⟨t.file, object.seekPosition + t.count⟩ }, t.count, t.data,
              [⟨buffer, t.touched⟩, ⟨countPtr, 8⟩]⟩

/-- `syscall_read_handle`. -/
def syscallReadHandle (obj : Interfaces φ) (s : Caller φ)
    (startOffset bytesToRead buffer bufferSize bytesRead count : BitVec 64) : Moved φ :=
  moveBytes obj.readBytes s startOffset bytesToRead buffer bufferSize bytesRead count

/-- `syscall_write_handle`, with what the buffer holds. -/
def syscallWriteHandle (obj : Interfaces φ) (s : Caller φ) (held : List UInt8)
    (startOffset bytesToWrite buffer bufferSize bytesWritten count : BitVec 64) : Moved φ :=
  moveBytes (obj.writeBytes.map fun op => op held) s startOffset bytesToWrite buffer bufferSize
    bytesWritten count

/-- What `syscall_seek_handle` leaves behind. -/
structure Sought (φ : Type*) where
  result : ErrCode
  caller : Caller φ
  /-- What it stores through `new_offset`. -/
  newOffset : Option (BitVec 64)

/-- The `switch` of `syscall_seek_handle`. -/
def proposedOffset (size seekPosition offset : BitVec 64) : SeekOffset → Option (BitVec 64)
  | .fromStart => some offset
  | .fromEnd => some (size - offset)
  | .fromCur => some (seekPosition + offset)
  | .other _ => none

/-- `syscall_seek_handle`. -/
def syscallSeekHandle (obj : Interfaces φ) (s : Caller φ) (offset : BitVec 64) (dir : SeekOffset)
    (newOffset : BitVec 64) : Sought φ :=
  if s.curThread = false then ⟨.invalidOp, s, none⟩
  else if isUmAddress newOffset = false ∧ newOffset ≠ 0 then ⟨.invalidParam, s, none⟩
  else
    match s.object with
    | none => ⟨.invalidParam, s, none⟩
    | some object =>
        match obj.getFileSize with
        | none => ⟨.invalidOp, s, none⟩
        | some getFileSize =>
            let (result, size) := getFileSize object.objectPtr
            if result = .noError then
              match proposedOffset size object.seekPosition offset dir with
              | none => ⟨.invalidParam, s, none⟩
              | some proposed =>
                  ⟨.noError, { s with object := some { object with seekPosition := proposed } },
                    if newOffset = 0 then none else some proposed⟩
            else ⟨result, s, none⟩

/-! ### Runs -/

/-- A call on the handle, with the values its pointers point to. -/
inductive CursorCall where
  | read (startOffset bytesToRead buffer bufferSize bytesRead count : BitVec 64)
  | write (held : List UInt8)
      (startOffset bytesToWrite buffer bufferSize bytesWritten count : BitVec 64)
  | seek (offset : BitVec 64) (dir : SeekOffset) (newOffset : BitVec 64)

/-- The caller after a call. -/
def step (obj : Interfaces φ) (s : Caller φ) : CursorCall → Caller φ
  | .read start len buf size ptr count => (syscallReadHandle obj s start len buf size ptr count).caller
  | .write held start len buf size ptr count =>
      (syscallWriteHandle obj s held start len buf size ptr count).caller
  | .seek offset dir newOffset => (syscallSeekHandle obj s offset dir newOffset).caller

/-- The bytes the successful reads of a run return. -/
def readData (obj : Interfaces φ) : Caller φ → List CursorCall → List UInt8
  | _, [] => []
  | s, .read start len buf size ptr count :: calls =>
      let r := syscallReadHandle obj s start len buf size ptr count
      (if r.result = .noError then r.data else []) ++ readData obj r.caller calls
  | s, call :: calls => readData obj (step obj s call) calls

/-! ### The reference cursor -/

/-- Where the cursor is. -/
def Caller.position (s : Caller φ) : Option Nat :=
  s.object.map fun object => object.seekPosition.toNat

/-- The target of a seek that is allowed. -/
def referenceSeek (position size : Nat) (offset : Int) : SeekOffset → Option Nat
  | .fromStart => if 0 ≤ offset then some offset.toNat else none
  | .fromEnd => if 0 ≤ offset ∧ offset ≤ size then some (size - offset).toNat else none
  | .fromCur => if 0 ≤ position + offset then some (position + offset).toNat else none
  | .other _ => none

/-- A transfer moves the cursor by the count it reports, and not at all if it fails. -/
def FollowsMove (s : Caller φ) (bufferSize : BitVec 64) (r : Moved φ) : Prop :=
  if r.result = .noError then
    r.count.toNat ≤ bufferSize.toNat ∧
      r.caller.position = s.position.map (· + r.count.toNat)
  else r.caller.position = s.position

/-- The position and the size that a seek starts from, if the call gets to a file that knows its size. -/
def seekStart (obj : Interfaces φ) (s : Caller φ) (newOffset : BitVec 64) :
    Option (BitVec 64 × BitVec 64) :=
  if s.curThread = true ∧ (isUmAddress newOffset = true ∨ newOffset = 0) then
    s.object.bind fun object => obj.getFileSize.bind fun getFileSize =>
      if (getFileSize object.objectPtr).1 = .noError then
        some (object.seekPosition, (getFileSize object.objectPtr).2)
      else none
  else none

/-- A seek goes to the target of the reference, and fails where that has none. -/
def FollowsSeek (obj : Interfaces φ) (s : Caller φ) (offset : BitVec 64) (dir : SeekOffset)
    (newOffset : BitVec 64) (r : Sought φ) : Prop :=
  match (seekStart obj s newOffset).bind fun p =>
      referenceSeek p.1.toNat p.2.toNat offset.toInt dir with
  | some target =>
      r.result = .noError ∧ r.caller.position = some target ∧
        r.newOffset.map BitVec.toNat = if newOffset = 0 then none else some target
  | none => r.result ≠ .noError ∧ r.caller.position = s.position ∧ r.newOffset = none

/-- One call follows the reference cursor. -/
def Follows (obj : Interfaces φ) (s : Caller φ) : CursorCall → Prop
  | .read start len buf size ptr count =>
      FollowsMove s size (syscallReadHandle obj s start len buf size ptr count)
  | .write held start len buf size ptr count =>
      FollowsMove s size (syscallWriteHandle obj s held start len buf size ptr count)
  | .seek offset dir newOffset =>
      FollowsSeek obj s offset dir newOffset (syscallSeekHandle obj s offset dir newOffset)

/-! ### The condition -/

/-- The object behind the handle, and what it answers, if a transfer gets to it. -/
def answer (op : Option (TransferOp φ)) (s : Caller φ)
    (startOffset length buffer bufferSize countPtr count : BitVec 64) :
    Option (ObjectData φ × Transfer φ) :=
  if ¬ (buffer = 0 ∨ isUmAddress buffer = false) ∧ ¬ (countPtr = 0 ∨ isUmAddress countPtr = false) ∧
      bufferSize ≠ 0 ∧ s.curThread = true then
    s.object.bind fun object => op.map fun op =>
      (object, op object.objectPtr (startOffset + object.seekPosition)
        (if bufferSize < length then bufferSize else length) bufferSize count)
  else none

/-- An object that refuses a transfer leaves a count of zero, and the count of one it accepts is not
more than the buffer has and does not take the cursor past `2 ^ 64`.  `null_file::write_bytes` and
`serial_port::write_bytes` accept a transfer and leave the count alone. -/
def AnswerInRange (bufferSize : BitVec 64) (answer : Option (ObjectData φ × Transfer φ)) : Prop :=
  ∀ p ∈ answer,
    if p.2.result = .noError then
      p.2.count.toNat ≤ bufferSize.toNat ∧ p.1.seekPosition.toNat + p.2.count.toNat < 2 ^ 64
    else p.2.count = 0

/-- The exact target of a seek is one the cursor can have. -/
def TargetInRange (seekPosition size offset : BitVec 64) : SeekOffset → Prop
  | .fromStart => 0 ≤ offset.toInt
  | .fromEnd => 0 ≤ offset.toInt ∧ offset.toInt ≤ size.toNat
  | .fromCur => 0 ≤ seekPosition.toNat + offset.toInt ∧ seekPosition.toNat + offset.toInt < 2 ^ 64
  | .other _ => True

/-- The condition on one call. -/
def InRange (obj : Interfaces φ) (s : Caller φ) : CursorCall → Prop
  | .read start len buf size ptr count =>
      AnswerInRange size (answer obj.readBytes s start len buf size ptr count)
  | .write held start len buf size ptr count =>
      AnswerInRange size (answer (obj.writeBytes.map fun op => op held) s start len buf size ptr count)
  | .seek offset dir newOffset =>
      ∀ p ∈ seekStart obj s newOffset, TargetInRange p.1 p.2 offset dir

/-- A file with contents: a read that succeeds returns the bytes at `start`, as many as it reports, and
does not change the file. -/
def Interfaces.IsPlainFile (obj : Interfaces φ) (content : φ → List UInt8) : Prop :=
  ∀ op ∈ obj.readBytes, ∀ file start length bufferLength count,
    let t := op file start length bufferLength count
    content t.file = content file ∧
      (t.result = .noError → t.data = ((content file).drop start.toNat).take t.count.toNat ∧
        t.data.length = t.count.toNat)

/-- A call that reads on from the cursor. -/
def CursorCall.ReadsOn : CursorCall → Prop
  | .read start _ _ _ _ _ => start = 0
  | _ => False

/-- The reads of the run return consecutive bytes of the file, from where the cursor is. -/
def Consecutive (obj : Interfaces φ) (s : Caller φ) (calls : List CursorCall) : Prop :=
  ∀ content, obj.IsPlainFile content → (∀ call ∈ calls, call.ReadsOn) → ∀ object ∈ s.object,
    readData obj s calls =
      ((content object.objectPtr).drop object.seekPosition.toNat).take (readData obj s calls).length

section Transfers

variable {op : Option (TransferOp φ)} {s : Caller φ}
  {startOffset length buffer bufferSize countPtr count : BitVec 64}

theorem moveBytes_of_answer {object : ObjectData φ} {t : Transfer φ}
    (h : answer op s startOffset length buffer bufferSize countPtr count = some (object, t)) :
    s.object = some object ∧
      moveBytes op s startOffset length buffer bufferSize countPtr count =
        ⟨t.result, { s with object := some ⟨t.file, object.seekPosition + t.count⟩ }, t.count,
          t.data, [⟨buffer, t.touched⟩, ⟨countPtr, 8⟩]⟩ := by
  unfold answer at h
  split at h
  next hreach =>
    obtain ⟨hbuf, hptr, hsize, hthread⟩ := hreach
    obtain ⟨object', hobj, h⟩ := Option.bind_eq_some_iff.mp h
    obtain ⟨f, hf, h⟩ := Option.map_eq_some_iff.mp h
    obtain ⟨rfl, rfl⟩ := Prod.mk.inj h
    refine ⟨hobj, ?_⟩
    simp only [moveBytes, if_neg hbuf, if_neg hptr, if_neg hsize, hthread, Bool.true_eq_false, if_false,
      hobj, hf]
  next => cases h

theorem moveBytes_of_no_answer
    (h : answer op s startOffset length buffer bufferSize countPtr count = none) :
    (moveBytes op s startOffset length buffer bufferSize countPtr count).result ≠ .noError ∧
      (moveBytes op s startOffset length buffer bufferSize countPtr count).caller = s ∧
      (moveBytes op s startOffset length buffer bufferSize countPtr count).accesses = [] := by
  unfold moveBytes
  split
  · exact ⟨nofun, rfl, rfl⟩
  split
  · exact ⟨nofun, rfl, rfl⟩
  split
  · exact ⟨nofun, rfl, rfl⟩
  split
  · exact ⟨nofun, rfl, rfl⟩
  next hbuf hptr hsize hthread =>
    -- the call gets to the handle, so there is no object or it lacks the interface
    have hreach : ¬ (buffer = 0 ∨ isUmAddress buffer = false) ∧
        ¬ (countPtr = 0 ∨ isUmAddress countPtr = false) ∧ bufferSize ≠ 0 ∧ s.curThread = true :=
      ⟨hbuf, hptr, hsize, by simpa using hthread⟩
    rw [answer, if_pos hreach] at h
    split
    · exact ⟨nofun, rfl, rfl⟩
    next object hobj =>
      split
      · exact ⟨nofun, rfl, rfl⟩
      next f => simp [hobj] at h

/-- The answer comes from the object, asked for the bytes at the cursor. -/
theorem op_of_answer {object : ObjectData φ} {t : Transfer φ}
    (h : answer op s startOffset length buffer bufferSize countPtr count = some (object, t)) :
    ∃ f ∈ op, ∃ len, len = (if bufferSize < length then bufferSize else length) ∧
      t = f object.objectPtr (startOffset + object.seekPosition) len bufferSize count := by
  unfold answer at h
  split at h
  next =>
    obtain ⟨object', -, h⟩ := Option.bind_eq_some_iff.mp h
    obtain ⟨f, hf, h⟩ := Option.map_eq_some_iff.mp h
    obtain ⟨rfl, rfl⟩ := Prod.mk.inj h
    exact ⟨f, hf, _, rfl, rfl⟩
  next => cases h

theorem followsMove_iff :
    FollowsMove s bufferSize (moveBytes op s startOffset length buffer bufferSize countPtr count) ↔
      AnswerInRange bufferSize (answer op s startOffset length buffer bufferSize countPtr count) := by
  cases h : answer op s startOffset length buffer bufferSize countPtr count with
  | none =>
      obtain ⟨hresult, hcaller, -⟩ := moveBytes_of_no_answer h
      rw [FollowsMove, if_neg hresult, hcaller]
      exact ⟨fun _ => nofun, fun _ => rfl⟩
  | some p =>
      obtain ⟨object, t⟩ := p
      obtain ⟨hobj, hmove⟩ := moveBytes_of_answer h
      have hsum : (object.seekPosition + t.count).toNat =
          (object.seekPosition.toNat + t.count.toNat) % 2 ^ 64 := BitVec.toNat_add _ _
      have hpos := object.seekPosition.isLt
      have hcount := t.count.isLt
      simp only [FollowsMove, AnswerInRange, hmove, Caller.position, hobj, Option.map_some,
        Option.some.injEq, Option.mem_def, forall_eq']
      by_cases ht : t.result = .noError
      · simp only [ht, if_true, hsum]
        omega
      · have hzero : t.count = 0 ↔ t.count.toNat = 0 := by
          rw [← BitVec.toNat_inj]; rfl
        simp only [ht, if_false, hsum, hzero]
        omega

end Transfers

section Seeks

variable {obj : Interfaces φ} {s : Caller φ} {offset newOffset : BitVec 64} {dir : SeekOffset}

theorem seek_of_start (offset : BitVec 64) (dir : SeekOffset) {position size : BitVec 64}
    (h : seekStart obj s newOffset = some (position, size)) :
    ∃ object, s.object = some object ∧ object.seekPosition = position ∧
      syscallSeekHandle obj s offset dir newOffset =
        match proposedOffset size position offset dir with
        | none => ⟨.invalidParam, s, none⟩
        | some proposed =>
            ⟨.noError, { s with object := some { object with seekPosition := proposed } },
              if newOffset = 0 then none else some proposed⟩ := by
  unfold seekStart at h
  split at h
  next hreach =>
    obtain ⟨hthread, hptr⟩ := hreach
    obtain ⟨object, hobj, h⟩ := Option.bind_eq_some_iff.mp h
    obtain ⟨f, hf, h⟩ := Option.bind_eq_some_iff.mp h
    split at h
    next hresult =>
      obtain ⟨rfl, rfl⟩ := Prod.mk.inj (Option.some.inj h)
      have hptr' : ¬ (isUmAddress newOffset = false ∧ newOffset ≠ 0) := by
        rintro ⟨hum, hne⟩
        rcases hptr with hptr | hptr
        · rw [hum] at hptr; cases hptr
        · exact hne hptr
      refine ⟨object, hobj, rfl, ?_⟩
      simp only [syscallSeekHandle, hthread, if_neg hptr', hobj, hf, hresult, if_true]
      rfl
    next => cases h
  next => cases h

theorem seek_of_no_start (offset : BitVec 64) (dir : SeekOffset)
    (h : seekStart obj s newOffset = none) :
    (syscallSeekHandle obj s offset dir newOffset).result ≠ .noError ∧
      (syscallSeekHandle obj s offset dir newOffset).caller = s ∧
      (syscallSeekHandle obj s offset dir newOffset).newOffset = none := by
  unfold syscallSeekHandle
  split
  · exact ⟨nofun, rfl, rfl⟩
  split
  · exact ⟨nofun, rfl, rfl⟩
  next hthread hptr =>
    have hreach : s.curThread = true ∧ (isUmAddress newOffset = true ∨ newOffset = 0) := by
      refine ⟨by simpa using hthread, ?_⟩
      by_cases hum : isUmAddress newOffset = true
      · exact .inl hum
      · exact .inr (by simpa [hum] using hptr)
    rw [seekStart, if_pos hreach] at h
    split
    · exact ⟨nofun, rfl, rfl⟩
    next object hobj =>
      split
      · exact ⟨nofun, rfl, rfl⟩
      next f hf =>
        have hresult : (f object.objectPtr).1 ≠ .noError := by simpa [hobj, hf] using h
        simp only [if_neg hresult]
        exact ⟨hresult, trivial, trivial⟩

/-- The source computes the target of the reference where that is in range, and only there. -/
theorem targetInRange_iff {position size : BitVec 64} :
    TargetInRange position size offset dir ↔
      (proposedOffset size position offset dir).map BitVec.toNat =
        referenceSeek position.toNat size.toNat offset.toInt dir := by
  have hp := position.isLt
  have hs := size.isLt
  have ho := offset.isLt
  have hint := BitVec.toInt_eq_toNat_cond offset
  cases dir with
  | fromStart =>
      simp only [TargetInRange, proposedOffset, referenceSeek, Option.map_some]
      split at hint <;> split <;> simp <;> omega
  | fromEnd =>
      simp only [TargetInRange, proposedOffset, referenceSeek, Option.map_some, BitVec.toNat_sub]
      split at hint <;> split <;> simp <;> omega
  | fromCur =>
      simp only [TargetInRange, proposedOffset, referenceSeek, Option.map_some, BitVec.toNat_add]
      split at hint <;> split <;> simp <;> omega
  | other => simp [TargetInRange, proposedOffset, referenceSeek]

theorem followsSeek_iff :
    FollowsSeek obj s offset dir newOffset (syscallSeekHandle obj s offset dir newOffset) ↔
      ∀ p ∈ seekStart obj s newOffset, TargetInRange p.1 p.2 offset dir := by
  cases h : seekStart obj s newOffset with
  | none =>
      obtain ⟨hresult, hcaller, hnew⟩ := seek_of_no_start offset dir h
      simp only [FollowsSeek, h, Option.bind_none, hcaller]
      exact ⟨fun _ => nofun, fun _ => ⟨hresult, trivial, hnew⟩⟩
  | some p =>
      obtain ⟨position, size⟩ := p
      obtain ⟨object, hobj, hpos, hseek⟩ := seek_of_start offset dir h
      simp only [Option.mem_def, Option.some.injEq, forall_eq', targetInRange_iff]
      simp only [FollowsSeek, h, Option.bind_some, hseek]
      cases hprop : proposedOffset size position offset dir with
      | none =>
          cases referenceSeek position.toNat size.toNat offset.toInt dir with
          | none => simp
          | some target => simp
      | some proposed =>
          cases referenceSeek position.toNat size.toNat offset.toInt dir with
          | none => simp
          | some target =>
              simp only [Caller.position, Option.map_some, Option.some.injEq, true_and]
              by_cases hnew : newOffset = 0
              · simp [hnew]
              · simp only [if_neg hnew, Option.map_some, Option.some.injEq, and_self]

end Seeks

theorem follows_iff {obj : Interfaces φ} (s : Caller φ) (call : CursorCall) :
    Follows obj s call ↔ InRange obj s call := by
  cases call with
  | read => exact followsMove_iff
  | write => exact followsMove_iff
  | seek => exact followsSeek_iff

/-- Where the cursor follows the reference, a read that only reads on returns the bytes from the
cursor on, and the cursor stands behind them. -/
theorem readData_cons {obj : Interfaces φ} {s : Caller φ} {object : ObjectData φ}
    {content : φ → List UInt8} {start len buf size ptr count : BitVec 64} (hobj : s.object = some object)
    (hzero : start = 0) (hplain : obj.IsPlainFile content)
    (hcall : Follows obj s (.read start len buf size ptr count)) (calls : List CursorCall) :
    ∃ data object', (step obj s (.read start len buf size ptr count)).object = some object' ∧
      content object'.objectPtr = content object.objectPtr ∧
      object'.seekPosition.toNat = object.seekPosition.toNat + data.length ∧
      data = ((content object.objectPtr).drop object.seekPosition.toNat).take data.length ∧
      readData obj s (.read start len buf size ptr count :: calls) =
        data ++ readData obj (step obj s (.read start len buf size ptr count)) calls := by
  simp only [Follows, FollowsMove, syscallReadHandle] at hcall
  cases h : answer obj.readBytes s start len buf size ptr count with
  | none =>
      obtain ⟨hresult, hcaller, -⟩ := moveBytes_of_no_answer h
      refine ⟨[], object, ?_, rfl, by simp, by simp, ?_⟩
      · simpa [step, syscallReadHandle, hcaller] using hobj
      · simp [readData, step, syscallReadHandle, hresult]
  | some p =>
      obtain ⟨object₁, t⟩ := p
      obtain ⟨hobj₁, hmove⟩ := moveBytes_of_answer h
      obtain rfl : object₁ = object := Option.some.inj (hobj₁.symm.trans hobj)
      obtain ⟨f, hf, len', -, ht⟩ := op_of_answer h
      obtain ⟨hcontent, hdata⟩ := hplain f hf object₁.objectPtr (start + object₁.seekPosition) len' size count
      rw [← ht] at hcontent hdata
      simp only [hmove, Caller.position, hobj, Option.map_some, Option.some.injEq] at hcall
      by_cases hresult : t.result = .noError
      · -- the read succeeds: the object has told the truth about its data
        rw [if_pos hresult] at hcall
        obtain ⟨hbytes, hlength⟩ := hdata hresult
        have hstart : start + object₁.seekPosition = object₁.seekPosition := by
          rw [hzero]
          exact BitVec.zero_add _
        rw [hstart] at hbytes
        refine ⟨t.data, ⟨t.file, object₁.seekPosition + t.count⟩, ?_, hcontent, ?_, ?_, ?_⟩
        · simp [step, syscallReadHandle, hmove]
        · rw [hlength, hcall.2]
        · rw [hlength]; exact hbytes
        · simp [readData, step, syscallReadHandle, hmove, hresult]
      · rw [if_neg hresult] at hcall
        refine ⟨[], ⟨t.file, object₁.seekPosition + t.count⟩, ?_, hcontent, ?_, by simp, ?_⟩
        · simp [step, syscallReadHandle, hmove]
        · simpa using hcall
        · simp [readData, step, syscallReadHandle, hmove, hresult]

/-- Reads that follow one another return consecutive bytes. -/
theorem consecutive_of_follows {obj : Interfaces φ} {calls : List CursorCall} : ∀ {s : Caller φ},
    Along (step obj) (Follows obj) s calls → Consecutive obj s calls := by
  induction calls with
  | nil => intro s _ content _ _ object _; simp [readData]
  | cons call calls ih =>
      intro s hfollows content hplain hreads object hobj
      obtain ⟨hcall, hrest⟩ := hfollows
      have hreads' := fun c hc => hreads c (List.mem_cons_of_mem _ hc)
      match call, hreads call (by simp) with
      | .read start len buf size ptr count, hzero =>
          obtain ⟨data, object', hobj', hcontent, hpos, hdata, hread⟩ :=
            readData_cons hobj hzero hplain hcall calls
          have hrec := ih hrest content hplain hreads' object' hobj'
          rw [hcontent, hpos, ← List.drop_drop] at hrec
          rw [hread, List.length_append, List.take_add, ← hdata, List.drop_drop, ← List.drop_drop, ← hrec]

/-- The seek position follows the reference cursor along a run, and the reads of a run that only reads
on return consecutive bytes, exactly if every call of the run is in range. -/
theorem cursor_follows_iff (obj : Interfaces φ) (s : Caller φ) (calls : List CursorCall) :
    (Along (step obj) (Follows obj) s calls ∧ Consecutive obj s calls) ↔
      Along (step obj) (InRange obj) s calls := by
  have hiff : Along (step obj) (Follows obj) s calls ↔ Along (step obj) (InRange obj) s calls :=
    along_congr (I := fun _ => True) (fun s call _ => follows_iff s call)
      (fun _ _ _ _ => trivial) trivial
  rw [← hiff]
  exact ⟨fun h => h.1, fun h => ⟨h, consecutive_of_follows h⟩⟩

/-! ### A file in memory -/

/-- `mem_fs_leaf` (`system_tree/fs/mem/mem_fs.cpp`), as the bytes of its buffer. -/
def memFsLeaf : Interfaces (List UInt8) where
  readBytes := some fun content start length bufferLength _ =>
    if content.length < start.toNat then ⟨.noError, content, 0, [], 0⟩
    else
      let length :=
        if content.length < (start + length).toNat then BitVec.ofNat 64 content.length - start else length
      let length := if bufferLength < length then bufferLength else length
      ⟨.noError, content, length, (content.drop start.toNat).take length.toNat,
        length.toNat⟩
  writeBytes := some fun held content start length bufferLength _ =>
    let length := if bufferLength < length then bufferLength else length
    let grown := content ++ List.replicate ((start + length).toNat - content.length) 0
    -- what `memcpy` writes behind the buffer is not in the file
    let written := grown.take start.toNat ++ held.take length.toNat ++
      grown.drop (start.toNat + length.toNat)
    ⟨.noError, written.take grown.length, length, held.take length.toNat, length.toNat⟩
  getFileSize := some fun content => (.noError, BitVec.ofNat 64 content.length)

instance (bufferSize : BitVec 64) (answer : Option (ObjectData φ × Transfer φ)) :
    Decidable (AnswerInRange bufferSize answer) :=
  match answer with
  | none => .isTrue nofun
  | some p => decidable_of_iff (if p.2.result = .noError then
      p.2.count.toNat ≤ bufferSize.toNat ∧ p.1.seekPosition.toNat + p.2.count.toNat < 2 ^ 64
      else p.2.count = 0)
      (by simp only [AnswerInRange, Option.mem_def, Option.some.injEq, forall_eq'])

instance (seekPosition size offset : BitVec 64) (dir : SeekOffset) :
    Decidable (TargetInRange seekPosition size offset dir) :=
  match dir with
  | .fromStart => inferInstanceAs (Decidable (_ ≤ _))
  | .fromEnd => inferInstanceAs (Decidable (_ ∧ _))
  | .fromCur => inferInstanceAs (Decidable (_ ∧ _))
  | .other _ => .isTrue trivial

instance (obj : Interfaces φ) (s : Caller φ) (call : CursorCall) : Decidable (InRange obj s call) :=
  match call with
  | .read .. => inferInstanceAs (Decidable (AnswerInRange _ _))
  | .write .. => inferInstanceAs (Decidable (AnswerInRange _ _))
  | .seek _ _ newOffset => Option.decidableForallMem (seekStart obj s newOffset)

/-- Two reads, one of which comes to the end of the file, a seek and a write. -/
theorem cursor_follows_memFsLeaf :
    let s : Caller (List UInt8) := ⟨true, some ⟨[1, 2, 3, 4, 5, 6], 0⟩⟩
    let calls : List CursorCall :=
      [.read 0 4 0x1000 4 0x2000 7, .read 0 4 0x1000 4 0x2000 7, .seek 2 .fromEnd 0x3000,
        .write [9] 0 1 0x1000 1 0x2000 7]
    Along (step memFsLeaf) (Follows memFsLeaf) s calls ∧ Consecutive memFsLeaf s calls := by
  exact (cursor_follows_iff _ _ _).mpr
    ⟨by decide +kernel, by decide +kernel, by decide +kernel, by decide +kernel, trivial⟩

/-- A seek to one byte before the start succeeds. -/
theorem cursor_seek_before_start :
    ¬ Along (step memFsLeaf) (Follows memFsLeaf) ⟨true, some ⟨[1, 2, 3], 0⟩⟩
      [.seek (-1) .fromStart 0x3000] := by
  rintro ⟨⟨hresult, -⟩, -⟩
  exact hresult rfl

end Azalea.Syscall.Cursor
