import Azalea.Fat.Structures
import Azalea.Support.Bytes
import Azalea.Support.Runs

/-!
# Pipe — a pipe and its two leaves

`system_tree/fs/pipe/pipe_fs.cpp`: the ring buffer that `pipe_write_leaf::write_bytes` fills and
`pipe_read_leaf::read_bytes` empties.  A pointer is its distance from the start of the buffer.  The
lock lets one call at a time at the pointers; a read that waits gives it up between two looks at
them, so each look is a step of its own.  Messages to the receiver and waking of threads are left
out, as is a leaf whose branch is gone.

* `pipe_fifo_iff`: reads return what writes were given, in order, with every pointer inside the
  buffer, exactly as long as no write passes the end of the buffer.  The two pointers go back to the
  start one byte too late (`rp > buf_start + NORMAL_BUFFER_SIZE`), after the byte behind the buffer
  has been used, and then count modulo 1025 where the lengths count modulo 1024.
-/

namespace Azalea.Pipe
open Azalea.Memory Azalea.Runs Azalea.Fat

/-- `NORMAL_BUFFER_SIZE`. -/
def normalBufferSize : Nat := 1024

/-- `pipe_branch`.  `buffer` is the memory from `_buffer.get()` on: from `NORMAL_BUFFER_SIZE` on it
is not the pipe's. -/
structure PipeBranch where
  buffer : Bytes
  readPtr : Nat
  writePtr : Nat

/-- The constructor; the buffer is not cleared. -/
def PipeBranch.new (buffer : Bytes) : PipeBranch := ⟨buffer, 0, 0⟩

/-- `ptr++`, and back to the start of the buffer behind its end. -/
def advance (ptr : Nat) : Nat := if ptr + 1 > normalBufferSize then 0 else ptr + 1

/-- `avail_length` of a read. -/
def PipeBranch.readable (p : PipeBranch) : Nat :=
  if p.writePtr ≥ p.readPtr then p.writePtr - p.readPtr
  else normalBufferSize + p.writePtr - p.readPtr

/-- `avail_length` of a write. -/
def PipeBranch.writable (p : PipeBranch) : Nat :=
  if p.readPtr > p.writePtr then p.readPtr - p.writePtr
  else normalBufferSize + p.readPtr - p.writePtr

/-- `should_still_sleep`. -/
def PipeBranch.shouldStillSleep (p : PipeBranch) : Bool := p.readable == 0

/-- The bytes a loop has moved, the pointers it has dereferenced for them, and the pipe. -/
structure Moved where
  bytes : List UInt8
  ptrs : List Nat
  branch : PipeBranch

/-- The loop of `read_bytes`. -/
def readLoop : Nat → PipeBranch → Moved
  | 0, p => ⟨[], [], p⟩
  | n + 1, p =>
      let rest := readLoop n { p with readPtr := advance p.readPtr }
      ⟨p.buffer p.readPtr :: rest.bytes, p.readPtr :: rest.ptrs, rest.branch⟩

/-- The loop of `write_bytes`. -/
def writeLoop : List UInt8 → PipeBranch → Moved
  | [], p => ⟨[], [], p⟩
  | b :: bs, p =>
      let rest := writeLoop bs
        { p with
          buffer := fun i => if i = p.writePtr then b else p.buffer i
          writePtr := advance p.writePtr }
      ⟨b :: rest.bytes, p.writePtr :: rest.ptrs, rest.branch⟩

/-- `read_bytes` into a buffer of `bufferLength` bytes, or `nullptr`; it has looked at the pointers
once.  `none`: the leaf blocks, and there are not yet enough bytes. -/
def readBytes (blockOnRead : Bool) (length : Nat) (bufferLength : Option Nat) (p : PipeBranch) :
    Option (ErrCode × Moved) :=
  match bufferLength with
  | none => some (.invalidParam, ⟨[], [], p⟩)
  | some bufferLength =>
      let length := min length bufferLength
      if blockOnRead ∧ p.readable < length then none
      else some (.noError, readLoop (min p.readable length) p)

/-- `write_bytes` from a buffer, or `nullptr`. -/
def writeBytes (length : Nat) (buffer : Option (List UInt8)) (p : PipeBranch) : ErrCode × Moved :=
  match buffer with
  | none => (.invalidParam, ⟨[], [], p⟩)
  | some buffer =>
      (.noError, writeLoop (buffer.take (min length (min buffer.length p.writable))) p)

/-! ### Runs -/

/-- A call on one of the leaves. -/
inductive PipeOp where
  | read (blockOnRead : Bool) (length : Nat) (bufferLength : Option Nat)
  | write (length : Nat) (buffer : Option (List UInt8))

/-- A pipe, with the bytes accepted and returned so far.  No function of the source reads these. -/
structure PipeState where
  branch : PipeBranch
  accepted : List UInt8
  returned : List UInt8

/-- A new pipe. -/
def PipeState.new (buffer : Bytes) : PipeState := ⟨.new buffer, [], []⟩

/-- What a call moves. -/
def PipeState.moved (s : PipeState) : PipeOp → Moved
  | .read block length bufferLength =>
      ((readBytes block length bufferLength s.branch).map (·.2)).getD ⟨[], [], s.branch⟩
  | .write length buffer => (writeBytes length buffer s.branch).2

/-- One call. -/
def PipeState.step (s : PipeState) (op : PipeOp) : PipeState :=
  match op with
  | .read .. => { s with branch := (s.moved op).branch, returned := s.returned ++ (s.moved op).bytes }
  | .write .. => { s with branch := (s.moved op).branch, accepted := s.accepted ++ (s.moved op).bytes }

/-- The bytes that are in a pipe. -/
def PipeState.held (s : PipeState) : Nat := s.accepted.length - s.returned.length

/-- A call does what a pipe is for: bytes come out as they went in, a read finds all that is held, a
write that is cut short has filled the buffer, and no pointer is used outside of it. -/
structure KeepsFifo (s : PipeState) (op : PipeOp) : Prop where
  fifo : (s.step op).returned <+: (s.step op).accepted
  available : s.branch.readable = s.held
  filled : ∀ length buffer, op = .write length (some buffer) →
    (s.moved op).bytes.length < min length buffer.length → (s.step op).held = normalBufferSize
  inside : ∀ ptr ∈ (s.moved op).ptrs, ptr < normalBufferSize

/-- The bytes to write fit between the write pointer and the end of the buffer, or nothing has been
read yet. -/
def Fits (s : PipeState) : PipeOp → Prop
  | .write length (some buffer) =>
      s.branch.readPtr = 0 ∨ s.branch.writePtr + min length buffer.length ≤ normalBufferSize
  | _ => True

/-! ### The loops, before the end of the buffer -/

section
variable {p : PipeBranch} {ptr n : Nat} {bs : List UInt8}

theorem advance_of_lt (h : ptr < normalBufferSize) : advance ptr = ptr + 1 := if_neg (by omega)

/-- A read that ends in the buffer. -/
theorem readLoop_eq (h : p.readPtr + n ≤ normalBufferSize) :
    readLoop n p = ⟨(List.range' p.readPtr n).map p.buffer, List.range' p.readPtr n,
      { p with readPtr := p.readPtr + n }⟩ := by
  induction n generalizing p with
  | zero => rfl
  | succ n ih =>
      have hstep : advance p.readPtr = p.readPtr + 1 := advance_of_lt (by omega)
      rw [readLoop, ih (by simp only [hstep]; omega), List.range'_succ]
      simp only [hstep, List.map_cons, Moved.mk.injEq, PipeBranch.mk.injEq, true_and, and_true]
      omega

/-- A write moves all it is given. -/
theorem writeLoop_bytes : (writeLoop bs p).bytes = bs := by
  induction bs generalizing p with
  | nil => rfl
  | cons b bs ih => rw [writeLoop, ih]

theorem writeLoop_readPtr : (writeLoop bs p).branch.readPtr = p.readPtr := by
  induction bs generalizing p with
  | nil => rfl
  | cons b bs ih => rw [writeLoop, ih]

/-- A write that ends in the buffer. -/
theorem writeLoop_inside (h : p.writePtr + bs.length ≤ normalBufferSize) :
    (writeLoop bs p).ptrs = List.range' p.writePtr bs.length ∧
      (writeLoop bs p).branch.writePtr = p.writePtr + bs.length ∧
      (∀ i < p.writePtr, (writeLoop bs p).branch.buffer i = p.buffer i) ∧
      ∀ i < bs.length, bs[i]? = some ((writeLoop bs p).branch.buffer (p.writePtr + i)) := by
  induction bs generalizing p with
  | nil => exact ⟨rfl, rfl, fun _ _ => rfl, fun i hi => absurd hi (Nat.not_lt_zero i)⟩
  | cons b bs ih =>
      rw [List.length_cons] at h
      have hstep : advance p.writePtr = p.writePtr + 1 := advance_of_lt (by omega)
      obtain ⟨hptrs, hend, hkeep, hput⟩ := ih
        (p := { p with
          buffer := fun i => if i = p.writePtr then b else p.buffer i
          writePtr := advance p.writePtr }) (by simp only [hstep]; omega)
      simp only [hstep] at hptrs hend hkeep hput
      rw [writeLoop]
      simp only [hstep, List.length_cons]
      refine ⟨by rw [hptrs, List.range'_succ], by rw [hend]; omega, fun i hi => ?_, fun i hi => ?_⟩
      · rw [hkeep i (by omega), if_neg (by omega)]
      · cases i with
        | zero => exact (congrArg some ((hkeep p.writePtr (by omega)).trans (if_pos rfl))).symm
        | succ i =>
            rw [List.getElem?_cons_succ, hput i (by omega)]
            exact congrArg some (congrArg _ (by omega))

/-- A write that passes the end uses the byte behind the buffer. -/
theorem writeLoop_outside (h : p.writePtr ≤ normalBufferSize)
    (hend : normalBufferSize < p.writePtr + bs.length) :
    normalBufferSize ∈ (writeLoop bs p).ptrs := by
  induction bs generalizing p with
  | nil => exact absurd hend (by simpa using h)
  | cons b bs ih =>
      rw [writeLoop]
      by_cases heq : p.writePtr = normalBufferSize
      · exact heq ▸ List.mem_cons_self
      · rw [List.length_cons] at hend
        have hstep : advance p.writePtr = p.writePtr + 1 := advance_of_lt (by omega)
        exact List.mem_cons_of_mem _ (ih (by simp only [hstep]; omega) (by simp only [hstep]; omega))

end

/-! ### Before the end of the buffer a pipe is a queue -/

/-- The pointers have not passed the end of the buffer: each counts the bytes that went through
it. -/
structure Straight (s : PipeState) : Prop where
  readPtr : s.branch.readPtr = s.returned.length
  writePtr : s.branch.writePtr = s.accepted.length
  top : s.accepted.length ≤ normalBufferSize
  bytes : ∀ i < s.accepted.length, s.accepted[i]? = some (s.branch.buffer i)
  fifo : s.returned <+: s.accepted

namespace Straight
variable {s : PipeState}

theorem new (buffer : Bytes) : Straight (.new buffer) :=
  ⟨rfl, rfl, Nat.zero_le _, fun i hi => absurd hi (Nat.not_lt_zero i), List.prefix_rfl⟩

theorem readable (h : Straight s) : s.branch.readable = s.held := by
  have hle := h.fifo.length_le
  rw [PipeBranch.readable, PipeState.held, h.readPtr, h.writePtr, if_pos hle]

theorem writable (h : Straight s) : s.branch.writable = normalBufferSize - s.held := by
  have hle := h.fifo.length_le
  have htop := h.top
  rw [PipeBranch.writable, PipeState.held, h.readPtr, h.writePtr, if_neg (by omega)]
  omega

/-- The bytes from the read pointer on are the next ones accepted. -/
theorem next (h : Straight s) {n : Nat} (hn : n ≤ s.held) :
    s.returned ++ (List.range' s.branch.readPtr n).map s.branch.buffer <+: s.accepted := by
  obtain ⟨rest, hrest⟩ := h.fifo
  have hlen := congrArg List.length hrest
  rw [List.length_append] at hlen
  have hheld : s.held = rest.length := by rw [PipeState.held]; omega
  have htake : (List.range' s.branch.readPtr n).map s.branch.buffer = rest.take n := by
    refine List.ext_getElem? fun i => ?_
    rw [List.getElem?_map, List.getElem?_take]
    by_cases hi : i < n
    · have hbyte := h.bytes (s.returned.length + i) (by omega)
      rw [← hrest, List.getElem?_append_right (Nat.le_add_right _ _), Nat.add_sub_cancel_left]
        at hbyte
      rw [if_pos hi, List.getElem?_range' hi, hbyte, h.readPtr, Nat.one_mul]
      rfl
    · rw [if_neg hi, List.getElem?_eq_none (by simpa using Nat.le_of_not_lt hi)]
      rfl
  rw [htake, ← hrest]
  exact List.prefix_append_right_inj _ |>.mpr (List.take_prefix n rest)

/-- A read of bytes that are held. -/
theorem read (h : Straight s) {n : Nat} (hn : n ≤ s.held) :
    (∀ ptr ∈ (readLoop n s.branch).ptrs, ptr < normalBufferSize) ∧
      Straight { s with
        branch := (readLoop n s.branch).branch
        returned := s.returned ++ (readLoop n s.branch).bytes } := by
  have hle := h.fifo.length_le
  have htop := h.top
  have hread := h.readPtr
  rw [PipeState.held] at hn
  rw [readLoop_eq (by omega)]
  refine ⟨fun ptr hptr => ?_, ⟨?_, h.writePtr, h.top, h.bytes, h.next hn⟩⟩
  · rw [List.mem_range'_1] at hptr
    omega
  · simpa using hread

/-- A write of bytes that fit before the end of the buffer. -/
theorem write (h : Straight s) {bs : List UInt8}
    (hfit : s.accepted.length + bs.length ≤ normalBufferSize) :
    (∀ ptr ∈ (writeLoop bs s.branch).ptrs, ptr < normalBufferSize) ∧
      Straight { s with
        branch := (writeLoop bs s.branch).branch
        accepted := s.accepted ++ (writeLoop bs s.branch).bytes } := by
  have hwrite := h.writePtr
  have hin : s.branch.writePtr + bs.length ≤ normalBufferSize := by omega
  obtain ⟨hptrs, hend, hkeep, hput⟩ := writeLoop_inside hin
  rw [writeLoop_bytes]
  refine ⟨fun ptr hptr => ?_, ⟨writeLoop_readPtr.trans h.readPtr, ?_, ?_, fun i hi => ?_,
    h.fifo.trans (List.prefix_append _ _)⟩⟩
  · rw [hptrs, List.mem_range'_1] at hptr
    omega
  · rw [hend, hwrite, List.length_append]
  · rwa [List.length_append]
  · dsimp only at hi ⊢
    by_cases hold : i < s.accepted.length
    · rw [List.getElem?_append_left hold, h.bytes i hold, hkeep i (by omega)]
    · rw [List.length_append] at hi
      rw [List.getElem?_append_right (by omega), hput _ (by omega)]
      exact congrArg some (congrArg _ (by omega))

/-- What a read that does not wait moves. -/
theorem moved_read (h : Straight s) (block : Bool) (length : Nat) (bufferLength : Option Nat) :
    ∃ n ≤ s.held, s.moved (.read block length bufferLength) = readLoop n s.branch := by
  rw [PipeState.moved]
  cases bufferLength with
  | none => exact ⟨0, Nat.zero_le _, rfl⟩
  | some bufferLength =>
      rw [readBytes]
      split
      next => exact ⟨0, Nat.zero_le _, rfl⟩
      next => exact ⟨_, (Nat.min_le_left _ _).trans h.readable.le, rfl⟩

/-- How many bytes a write moves. -/
theorem moved_write (h : Straight s) (length : Nat) (buffer : List UInt8) :
    ∃ bs : List UInt8, s.moved (.write length (some buffer)) = writeLoop bs s.branch ∧
      bs.length = min length (min buffer.length (normalBufferSize - s.held)) :=
  ⟨_, rfl, by rw [List.length_take, h.writable]; omega⟩

/-- A call that fits leaves the pipe so, and does what a pipe is for. -/
theorem step (h : Straight s) {op : PipeOp} (hfit : Fits s op) :
    KeepsFifo s op ∧ Straight (s.step op) := by
  have hle := h.fifo.length_le
  have hread := h.readPtr
  have hwrite := h.writePtr
  cases op with
  | read block length bufferLength =>
      obtain ⟨n, hn, hmoved⟩ := h.moved_read block length bufferLength
      obtain ⟨hin, hstraight⟩ := h.read hn
      rw [← hmoved] at hin hstraight
      exact ⟨⟨hstraight.fifo, h.readable, fun _ _ hop => (by cases hop), hin⟩, hstraight⟩
  | write length buffer =>
      cases buffer with
      | none =>
          have hnone : s.accepted.length + ([] : List UInt8).length ≤ normalBufferSize := h.top
          obtain ⟨hin, hstraight⟩ := h.write hnone
          exact ⟨⟨hstraight.fifo, h.readable, fun _ _ hop => (by cases hop), hin⟩, hstraight⟩
      | some buffer =>
          obtain ⟨bs, hmoved, hlen⟩ := h.moved_write length buffer
          have htop := h.top
          rw [PipeState.held] at hlen
          rw [Fits, hread, hwrite] at hfit
          have hbs : s.accepted.length + bs.length ≤ normalBufferSize := by omega
          obtain ⟨hin, hstraight⟩ := h.write hbs
          have hbytes : (s.moved (.write length (some buffer))).bytes = bs := by
            rw [hmoved, writeLoop_bytes]
          rw [← hmoved] at hin hstraight
          refine ⟨⟨hstraight.fifo, h.readable, fun l b hop hshort => ?_, hin⟩, hstraight⟩
          cases hop
          rw [hbytes] at hshort
          -- cut short although it fits: the buffer is full, and nothing has been read
          rw [PipeState.held, PipeState.step, hbytes, List.length_append]
          dsimp only
          omega

/-- A call that does not fit uses the byte behind the buffer. -/
theorem not_keeps (h : Straight s) {op : PipeOp} (hfit : ¬ Fits s op) : ¬ KeepsFifo s op := by
  intro hk
  cases op with
  | read block length bufferLength => exact hfit trivial
  | write length buffer =>
      cases buffer with
      | none => exact hfit trivial
      | some buffer =>
          obtain ⟨bs, hmoved, hlen⟩ := h.moved_write length buffer
          have hle := h.fifo.length_le
          have htop := h.top
          rw [PipeState.held] at hlen
          rw [Fits, h.readPtr, h.writePtr, not_or] at hfit
          have hout : normalBufferSize ∈ (writeLoop bs s.branch).ptrs :=
            writeLoop_outside (h.writePtr.trans_le htop) (by rw [h.writePtr]; omega)
          exact Nat.lt_irrefl _ (hk.inside _ (hmoved ▸ hout))

end Straight

/-- **A pipe hands bytes on in order, as long as no write passes the end of its buffer.** -/
theorem pipe_fifo_iff (buffer : Bytes) (ops : List PipeOp) :
    Along PipeState.step KeepsFifo (.new buffer) ops ↔
      Along PipeState.step Fits (.new buffer) ops :=
  along_congr
    (fun _ _ h => ⟨fun hk => not_not.mp fun hfit => h.not_keeps hfit hk, fun hfit => (h.step hfit).1⟩)
    (fun _ _ h hfit => (h.step hfit).2) (Straight.new buffer)

/-- The buffer is filled, ten bytes are read and ten more are written, the first of them behind the
buffer. -/
theorem pipe_fifo_fails : ¬ ∀ (buffer : Bytes) (ops : List PipeOp),
    Along PipeState.step KeepsFifo (.new buffer) ops := by
  intro h
  have hrun := h (fun _ => 0) [.write 1024 (some (List.replicate 1024 1)), .read false 10 (some 10),
    .write 10 (some (List.replicate 10 2))]
  exact absurd (hrun.2.2.1.inside 1024 (by decide +kernel)) (by decide)

end Azalea.Pipe
