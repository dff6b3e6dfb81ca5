import Mathlib.Algebra.Order.Ring.Nat

/-!
# Syscall — validation of arguments

The error codes a system call returns (`user_interfaces/error_codes.h`) and the two tests the calls
make of the pointers they are given (`syscall/syscall_validation.cpp`).  Registers are bit vectors of
64 bits; user mode has the addresses below `2 ^ 63`.  A call that dereferences a pointer accesses a
`Range`, and stays in the lower half of the address space if every byte of it is there
(`Range.low_iff`).
-/

namespace Azalea.Syscall

/-- `ERR_CODE`. -/
inductive ErrCode where
  | noError
  | unknown
  | syscallInvalidIdx
  | notFound
  | wrongType
  | alreadyExists
  | invalidName
  | invalidParam
  | invalidOp
  | deviceFailed
  | storageError
  | syncMsgIncomplete
  | syncMsgNotAccepted
  | syncMsgQueueEmpty
  | syncMsgMismatch
  | outOfResource
  | unrecognised
  | transferTooLarge
  | outOfRange
  | timedOut
  deriving Repr, DecidableEq

/-- `syscall_v_is_um_address`: the top bit of the address is clear. -/
def isUmAddress (addr : BitVec 64) : Bool :=
  addr &&& 0x8000000000000000#64 == 0#64

/-- `syscall_v_is_um_buffer`. -/
def isUmBuffer (base length : BitVec 64) : Bool :=
  length &&& 0x8000000000000000#64 == 0#64
    && base &&& 0x8000000000000000#64 == 0#64
    && (base + length) &&& 0x8000000000000000#64 == 0#64

theorem isUmAddress_iff {addr : BitVec 64} : isUmAddress addr = true ↔ addr.toNat < 2 ^ 63 := by
  have hbit : (0x8000000000000000#64 : BitVec 64) = BitVec.twoPow 64 63 := by decide
  rw [isUmAddress, beq_iff_eq, hbit, BitVec.and_twoPow]
  have hmsb := BitVec.msb_eq_decide addr
  rw [BitVec.msb_eq_getLsbD_last] at hmsb
  simp only [Nat.reduceSub] at hmsb
  rw [hmsb]
  simp

theorem isUmAddress_eq_false {addr : BitVec 64} :
    isUmAddress addr = false ↔ 2 ^ 63 ≤ addr.toNat := by
  rw [← Bool.not_eq_true, isUmAddress_iff, Nat.not_lt]

/-- The buffer ends in the lower half too: the sum of two addresses there does not wrap. -/
theorem isUmBuffer_iff {base length : BitVec 64} :
    isUmBuffer base length = true ↔ base.toNat + length.toNat < 2 ^ 63 := by
  have hsplit : isUmBuffer base length = true ↔
      (isUmAddress length = true ∧ isUmAddress base = true) ∧
        isUmAddress (base + length) = true := by
    simp only [isUmBuffer, isUmAddress, Bool.and_eq_true]
  rw [hsplit, isUmAddress_iff, isUmAddress_iff, isUmAddress_iff, BitVec.toNat_add]
  omega

/-- The memory a process can address. -/
abbrev Memory := BitVec 64 → UInt8

/-- `length` bytes from `base` on, which go round at the end of the address space. -/
structure Range where
  base : BitVec 64
  length : Nat
  deriving Repr, DecidableEq

/-- Every byte is in the lower half. -/
def Range.Low (r : Range) : Prop :=
  ∀ i < r.length, (r.base + BitVec.ofNat 64 i).toNat < 2 ^ 63

theorem Range.low_iff {r : Range} : r.Low ↔ r.length = 0 ∨ r.base.toNat + r.length ≤ 2 ^ 63 := by
  have hbase := r.base.isLt
  simp only [Range.Low, BitVec.toNat_add, BitVec.toNat_ofNat]
  refine ⟨fun h => ?_, fun h i hi => by omega⟩
  by_contra hout
  -- the first byte is high, or the byte at `2 ^ 63` is one of the range
  by_cases hfirst : r.base.toNat < 2 ^ 63
  · have := h (2 ^ 63 - r.base.toNat) (by omega)
    omega
  · have := h 0 (by omega)
    omega

theorem Range.Low.mono {base : BitVec 64} {n m : Nat} (h : Range.Low ⟨base, n⟩) (hm : m ≤ n) :
    Range.Low ⟨base, m⟩ := fun i hi => h i (Nat.lt_of_lt_of_le hi hm)

instance (r : Range) : Decidable r.Low := decidable_of_iff _ Range.low_iff.symm

/-- A buffer that passes the test for buffers is in the lower half. -/
theorem low_of_isUmBuffer {base length : BitVec 64} (h : isUmBuffer base length = true) :
    Range.Low ⟨base, length.toNat⟩ :=
  Range.low_iff.mpr (.inr (Nat.le_of_lt (isUmBuffer_iff.mp h)))

end Azalea.Syscall
