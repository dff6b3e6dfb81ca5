import Azalea.Block.Proxy
import Azalea.Support.Runs
import Mathlib.Algebra.Order.Ring.Nat
import Mathlib.Tactic.Ring

/-!
# Block — the RAM disk

`ramdisk_device` (`devices/block/ramdisk/ramdisk.cpp`).  The storage is a function from offsets; the
allocation has the number of bytes the constructor works out, and an access is the offset and the length
of the `memcpy` made.  `Trace` puts the writes accepted so far beside the device, newest first, and
`lastWritten` reads a byte of a block off them.

* `Lawful`: in every state, a request is accepted exactly when its blocks are on the disk and its buffer
  holds them, whether it reads or writes; a read finds what was last written; nothing else is touched.
* `newRamdisk_lawful_iff`: for which geometries that is so.
-/

namespace Azalea.Block
open Azalea.Syscall (ErrCode)

/-- `ramdisk_device`. -/
structure Ramdisk where
  numBlocks : UInt64
  blockSize : UInt64
  storageSize : UInt64
  storage : Option (Nat → UInt8)
  status : DevStatus

/-- The constructor; `contents` is what the memory happens to hold. -/
def newRamdisk (numBlocks blockSize : UInt64) (contents : Nat → UInt8) : Ramdisk :=
  if numBlocks = 0 ∨ blockSize = 0 then
    { numBlocks, blockSize, storageSize := numBlocks * blockSize, storage := none, status := .failed }
  else
    { numBlocks, blockSize, storageSize := numBlocks * blockSize, storage := some contents,
      status := .stopped }

/-- How a request ends: with an error, or with `bytes` copied at an offset of the storage. -/
inductive Copied where
  | refused (e : ErrCode)
  | copied (offset : Nat) (bytes : List UInt8)
  deriving Repr, DecidableEq

/-- `NO_ERROR`. -/
def Copied.accepted : Copied → Bool
  | .refused _ => false
  | .copied _ _ => true

/-- The first `length` bytes from `offset` on. -/
def bytesAt (memory : Nat → UInt8) (offset length : Nat) : List UInt8 :=
  (List.range length).map fun i => memory (offset + i)

/-- `memory` with the first `length` bytes of `data` at `offset`. -/
def copyTo (memory : Nat → UInt8) (offset length : Nat) (data : Nat → UInt8) : Nat → UInt8 :=
  fun x => if offset ≤ x ∧ x < offset + length then data (x - offset) else memory x

namespace Ramdisk

def setDeviceStatus (d : Ramdisk) (new : DevStatus) : Ramdisk :=
  if d.status ≠ .failed then { d with status := new } else d

def start (d : Ramdisk) : Ramdisk := d.setDeviceStatus .ok

def stop (d : Ramdisk) : Ramdisk := d.setDeviceStatus .stopped

def reset (d : Ramdisk) : Ramdisk := d.setDeviceStatus .stopped

/-- `read_blocks`: the bytes are those put in the buffer. -/
def readBlocks (d : Ramdisk) (r : Request) : Copied :=
  let readStart := r.startBlock * d.blockSize
  let readLength := r.numBlocks * d.blockSize
  if d.status ≠ .ok then .refused .deviceFailed
  else match d.storage with
  | none => .refused .deviceFailed
  | some memory =>
      if r.startBlock > d.numBlocks ∨ r.numBlocks > d.numBlocks ∨ r.buffer = 0
          ∨ r.bufferLength < readLength ∨ readStart + readLength > d.numBlocks * d.blockSize then
        .refused .invalidParam
      else .copied readStart.toNat (bytesAt memory readStart.toNat readLength.toNat)

/-- `write_blocks`, from a buffer that holds `data`.  The start of the request is compared with the size
of a block. -/
def writeBlocks (d : Ramdisk) (r : Request) (data : Nat → UInt8) : Copied × Ramdisk :=
  let writeStart := r.startBlock * d.blockSize
  let writeLength := r.numBlocks * d.blockSize
  if d.status ≠ .ok then (.refused .deviceFailed, d)
  else match d.storage with
  | none => (.refused .deviceFailed, d)
  | some memory =>
      if r.startBlock > d.blockSize ∨ r.numBlocks > d.numBlocks ∨ r.buffer = 0
          ∨ r.bufferLength < writeLength ∨ writeStart + writeLength > d.numBlocks * d.blockSize then
        (.refused .invalidParam, d)
      else
        (.copied writeStart.toNat (bytesAt data 0 writeLength.toNat),
          { d with storage := some (copyTo memory writeStart.toNat writeLength.toNat data) })

end Ramdisk

/-- A RAM disk and the writes it has accepted. -/
structure Trace where
  disk : Ramdisk
  log : List (Request × (Nat → UInt8))

/-- A call on a RAM disk. -/
inductive RamAct where
  | start
  | stop
  | reset
  | read (r : Request)
  | write (r : Request) (data : Nat → UInt8)

/-- One call. -/
def Trace.step (t : Trace) : RamAct → Option Trace
  | .start => some { t with disk := t.disk.start }
  | .stop => some { t with disk := t.disk.stop }
  | .reset => some { t with disk := t.disk.reset }
  | .read _ => some t
  | .write r data =>
      some { disk := (t.disk.writeBlocks r data).2
             log := if (t.disk.writeBlocks r data).1.accepted then (r, data) :: t.log else t.log }

/-- Byte `i` of block `b`, as the newest of the writes to that block left it. -/
def lastWritten (blockSize : Nat) : List (Request × (Nat → UInt8)) → Nat → Nat → Option UInt8
  | [], _, _ => none
  | (r, data) :: log, b, i =>
      if r.startBlock.toNat ≤ b ∧ b < r.startBlock.toNat + r.numBlocks.toNat then
        some (data ((b - r.startBlock.toNat) * blockSize + i))
      else lastWritten blockSize log b i

/-- The request is one the disk can serve: its blocks are there, and the buffer holds them. -/
structure Served (numBlocks blockSize : UInt64) (r : Request) : Prop where
  inside : r.Inside numBlocks
  buffer : r.buffer ≠ 0
  room : r.numBlocks.toNat * blockSize.toNat ≤ r.bufferLength.toNat

/-- What is asked of the answers a disk gives, in a state it has got to from `contents`. -/
structure Answers (numBlocks blockSize : UInt64) (contents : Nat → UInt8) (t : Trace) : Prop where
  /-- The same requests are read and written: those the disk can serve, if it runs. -/
  same : ∀ r data, (t.disk.writeBlocks r data).1.accepted = (t.disk.readBlocks r).accepted
  read_iff : ∀ r, (t.disk.readBlocks r).accepted ↔ t.disk.status = .ok ∧ Served numBlocks blockSize r
  /-- A read finds, block by block, what was written last. -/
  found : ∀ r offset bytes, t.disk.readBlocks r = .copied offset bytes →
    bytes = (List.range (r.numBlocks.toNat * blockSize.toNat)).map fun j =>
      (lastWritten blockSize.toNat t.log (r.startBlock.toNat + j / blockSize.toNat)
        (j % blockSize.toNat)).getD (contents (r.startBlock.toNat * blockSize.toNat + j))
  /-- What is copied is inside the disk and the allocation. -/
  bounds : ∀ r data offset bytes, (t.disk.readBlocks r = .copied offset bytes
      ∨ (t.disk.writeBlocks r data).1 = .copied offset bytes) →
    offset + bytes.length ≤ numBlocks.toNat * blockSize.toNat
      ∧ offset + bytes.length ≤ t.disk.storageSize.toNat
  /-- A refused write changes nothing. -/
  refused : ∀ r data, (t.disk.writeBlocks r data).1.accepted = false →
    (t.disk.writeBlocks r data).2 = t.disk

/-- Whatever the memory held and the disk has been through, its answers are right. -/
def Lawful (numBlocks blockSize : UInt64) : Prop :=
  ∀ contents t, Runs.Reach Trace.step Runs.anyInput ⟨newRamdisk numBlocks blockSize contents, []⟩ t →
    Answers numBlocks blockSize contents t

section
variable {d : Ramdisk} {r : Request} {data memory contents : Nat → UInt8} {offset : Nat}
  {bytes : List UInt8} {numBlocks blockSize : UInt64} {t : Trace}

/-- The tests of a request, in words as they are and with the given limit on its start. -/
structure Passes (limit numBlocks blockSize : UInt64) (r : Request) : Prop where
  start : r.startBlock.toNat ≤ limit.toNat
  num : r.numBlocks.toNat ≤ numBlocks.toNat
  buffer : r.buffer ≠ 0
  room : r.numBlocks.toNat * blockSize.toNat % 2 ^ 64 ≤ r.bufferLength.toNat
  last : (r.startBlock.toNat * blockSize.toNat % 2 ^ 64
    + r.numBlocks.toNat * blockSize.toNat % 2 ^ 64) % 2 ^ 64
    ≤ numBlocks.toNat * blockSize.toNat % 2 ^ 64

theorem not_passes_iff {limit : UInt64} : ¬ Passes limit numBlocks blockSize r ↔
    r.startBlock > limit ∨ r.numBlocks > numBlocks ∨ r.buffer = 0
      ∨ r.bufferLength < r.numBlocks * blockSize
      ∨ r.startBlock * blockSize + r.numBlocks * blockSize > numBlocks * blockSize := by
  simp only [gt_iff_lt, UInt64.lt_iff_toNat_lt, UInt64.toNat_add, UInt64.toNat_mul]
  constructor
  · intro h
    by_contra hc
    simp only [not_or, Nat.not_lt] at hc
    exact h ⟨hc.1, hc.2.1, hc.2.2.1, hc.2.2.2.1, hc.2.2.2.2⟩
  · rintro (h | h | h | h | h) hp
    · exact absurd hp.start (Nat.not_le.mpr h)
    · exact absurd hp.num (Nat.not_le.mpr h)
    · exact hp.buffer h
    · exact absurd hp.room (Nat.not_le.mpr h)
    · exact absurd hp.last (Nat.not_le.mpr h)

theorem readBlocks_eq_copied_iff : d.readBlocks r = .copied offset bytes ↔
    d.status = .ok ∧ ∃ memory, d.storage = some memory ∧ Passes d.numBlocks d.numBlocks d.blockSize r
      ∧ offset = (r.startBlock * d.blockSize).toNat
      ∧ bytes = bytesAt memory offset (r.numBlocks * d.blockSize).toNat := by
  simp only [Ramdisk.readBlocks]
  split
  next hs => simp [hs]
  next hs =>
    split
    next hm => simp [hm]
    next memory hm =>
      split
      next hp => simp [hm, not_passes_iff.mpr hp]
      next hp =>
        have hp := not_not.mp (mt not_passes_iff.mp hp)
        simp only [Copied.copied.injEq]
        constructor
        · rintro ⟨rfl, rfl⟩
          exact ⟨not_not.mp hs, memory, hm, hp, rfl, rfl⟩
        · rintro ⟨-, memory', hm', -, rfl, rfl⟩
          cases hm.symm.trans hm'
          exact ⟨rfl, rfl⟩

theorem writeBlocks_eq_copied_iff : (d.writeBlocks r data).1 = .copied offset bytes ↔
    d.status = .ok ∧ d.storage.isSome ∧ Passes d.blockSize d.numBlocks d.blockSize r
      ∧ offset = (r.startBlock * d.blockSize).toNat
      ∧ bytes = bytesAt data 0 (r.numBlocks * d.blockSize).toNat := by
  simp only [Ramdisk.writeBlocks]
  split
  next hs => simp [hs]
  next hs =>
    split
    next hm => simp [hm]
    next memory hm =>
      split
      next hp => simp [not_passes_iff.mpr hp]
      next hp =>
        have hp := not_not.mp (mt not_passes_iff.mp hp)
        simp only [Copied.copied.injEq]
        constructor
        · rintro ⟨rfl, rfl⟩
          exact ⟨not_not.mp hs, by simp [hm], hp, rfl, rfl⟩
        · rintro ⟨-, -, -, rfl, rfl⟩
          exact ⟨rfl, rfl⟩

theorem Copied.accepted_iff {c : Copied} : c.accepted ↔ ∃ offset bytes, c = .copied offset bytes := by
  cases c <;> simp [Copied.accepted]

theorem readBlocks_accepted_iff : (d.readBlocks r).accepted ↔
    d.status = .ok ∧ d.storage.isSome ∧ Passes d.numBlocks d.numBlocks d.blockSize r := by
  simp only [Copied.accepted_iff, readBlocks_eq_copied_iff, Option.isSome_iff_exists]
  constructor
  · rintro ⟨_, _, hs, memory, hm, hp, -, -⟩
    exact ⟨hs, ⟨memory, hm⟩, hp⟩
  · rintro ⟨hs, ⟨memory, hm⟩, hp⟩
    exact ⟨_, _, hs, memory, hm, hp, rfl, rfl⟩

theorem writeBlocks_accepted_iff : (d.writeBlocks r data).1.accepted ↔
    d.status = .ok ∧ d.storage.isSome ∧ Passes d.blockSize d.numBlocks d.blockSize r := by
  simp only [Copied.accepted_iff, writeBlocks_eq_copied_iff]
  constructor
  · rintro ⟨_, _, hs, hm, hp, -, -⟩
    exact ⟨hs, hm, hp⟩
  · rintro ⟨hs, hm, hp⟩
    exact ⟨_, _, hs, hm, hp, rfl, rfl⟩

theorem writeBlocks_refused (h : (d.writeBlocks r data).1.accepted = false) :
    (d.writeBlocks r data).2 = d := by
  unfold Ramdisk.writeBlocks at h ⊢
  split
  · rfl
  next hs =>
    rw [if_neg hs] at h
    cases hm : d.storage with
    | none => rfl
    | some memory =>
        simp only [hm] at h ⊢
        split
        · rfl
        next hp => rw [if_neg hp] at h; cases h

theorem writeBlocks_storage (hm : d.storage = some memory)
    (h : (d.writeBlocks r data).1.accepted) :
    (d.writeBlocks r data).2 = { d with storage := some (copyTo memory (r.startBlock * d.blockSize).toNat
      (r.numBlocks * d.blockSize).toNat data) } := by
  obtain ⟨hs, -, hp⟩ := writeBlocks_accepted_iff.mp h
  have hp' := mt not_passes_iff.mpr (not_not.mpr hp)
  simp only [Ramdisk.writeBlocks, hs, hm, ne_eq, not_true_eq_false, if_false, if_neg hp']

/-- Where no product or sum wraps, the tests say that the disk can serve the request. -/
theorem passes_iff_served {limit : UInt64} (hpos : 0 < blockSize.toNat)
    (hn : numBlocks.toNat ≤ limit.toNat) (hl : limit.toNat ≤ blockSize.toNat)
    (hfit : blockSize.toNat * (blockSize.toNat + numBlocks.toNat) < 2 ^ 64) :
    Passes limit numBlocks blockSize r ↔ Served numBlocks blockSize r := by
  have hk : r.numBlocks.toNat ≤ numBlocks.toNat →
      r.numBlocks.toNat * blockSize.toNat ≤ numBlocks.toNat * blockSize.toNat := Nat.mul_le_mul_right _
  have hs : r.startBlock.toNat ≤ limit.toNat →
      r.startBlock.toNat * blockSize.toNat ≤ blockSize.toNat * blockSize.toNat :=
    fun h => Nat.mul_le_mul_right _ (h.trans hl)
  have hsum : (r.startBlock.toNat + r.numBlocks.toNat) * blockSize.toNat
      ≤ numBlocks.toNat * blockSize.toNat ↔ r.Inside numBlocks :=
    Nat.mul_le_mul_right_iff hpos
  rw [Nat.mul_add, Nat.mul_comm blockSize.toNat numBlocks.toNat] at hfit
  rw [Nat.add_mul] at hsum
  constructor
  · intro hp
    have hs := hs hp.start
    have hk := hk hp.num
    have hroom := hp.room
    have hlast := hp.last
    rw [Nat.mod_eq_of_lt (by omega)] at hroom
    rw [Nat.mod_eq_of_lt (by omega : r.startBlock.toNat * blockSize.toNat < 2 ^ 64),
      Nat.mod_eq_of_lt (by omega : r.numBlocks.toNat * blockSize.toNat < 2 ^ 64),
      Nat.mod_eq_of_lt (by omega), Nat.mod_eq_of_lt (by omega)] at hlast
    exact ⟨hsum.mp hlast, hp.buffer, hroom⟩
  · intro hp
    have hin := hp.inside
    unfold Request.Inside at hin
    have hlast := hsum.mpr hp.inside
    have hroom := hp.room
    have hs := hs (by omega)
    have hk := hk (by omega)
    refine ⟨by omega, by omega, hp.buffer, ?_, ?_⟩
    · rw [Nat.mod_eq_of_lt (by omega)]; exact hroom
    · rw [Nat.mod_eq_of_lt (by omega : r.startBlock.toNat * blockSize.toNat < 2 ^ 64),
        Nat.mod_eq_of_lt (by omega : r.numBlocks.toNat * blockSize.toNat < 2 ^ 64),
        Nat.mod_eq_of_lt (by omega), Nat.mod_eq_of_lt (by omega)]
      exact hlast

/-! ## A disk small enough -/

/-- The device and the writes it has accepted agree, byte by byte. -/
structure InStep (numBlocks blockSize : UInt64) (contents : Nat → UInt8) (t : Trace) : Prop where
  num : t.disk.numBlocks = numBlocks
  size : t.disk.blockSize = blockSize
  total : t.disk.storageSize = numBlocks * blockSize
  holds : ∃ memory, t.disk.storage = some memory ∧ ∀ b i, i < blockSize.toNat →
    memory (b * blockSize.toNat + i)
      = (lastWritten blockSize.toNat t.log b i).getD (contents (b * blockSize.toNat + i))

theorem InStep.setDeviceStatus {new : DevStatus} (h : InStep numBlocks blockSize contents t) :
    InStep numBlocks blockSize contents { t with disk := t.disk.setDeviceStatus new } := by
  unfold Ramdisk.setDeviceStatus
  split
  · exact ⟨h.num, h.size, h.total, h.holds⟩
  · exact h

/-- The words of a served request do not wrap. -/
theorem Served.toNat_mul (h : Served numBlocks blockSize r)
    (hfit : numBlocks.toNat * blockSize.toNat < 2 ^ 64) :
    (r.startBlock * blockSize).toNat = r.startBlock.toNat * blockSize.toNat
      ∧ (r.numBlocks * blockSize).toNat = r.numBlocks.toNat * blockSize.toNat := by
  have hin := Nat.mul_le_mul_right blockSize.toNat h.inside
  rw [Nat.add_mul] at hin
  rw [UInt64.toNat_mul, UInt64.toNat_mul]
  exact ⟨Nat.mod_eq_of_lt (by omega), Nat.mod_eq_of_lt (by omega)⟩

/-- An offset is among those of some blocks as its block is. -/
theorem block_bounds {s k b i size : Nat} (hi : i < size) :
    s * size ≤ b * size + i ∧ b * size + i < s * size + k * size ↔ s ≤ b ∧ b < s + k := by
  rw [← Nat.add_mul]
  constructor
  · rintro ⟨h1, h2⟩
    refine ⟨?_, ?_⟩
    · by_contra hlt
      have := Nat.mul_le_mul_right size (Nat.succ_le_of_lt (Nat.not_le.mp hlt))
      rw [Nat.succ_mul] at this
      omega
    · by_contra hge
      have := Nat.mul_le_mul_right size (Nat.not_lt.mp hge)
      omega
  · rintro ⟨h1, h2⟩
    have := Nat.mul_le_mul_right size h1
    have := Nat.mul_le_mul_right size (Nat.succ_le_of_lt h2)
    rw [Nat.succ_mul] at this
    omega

/-- A write put in the storage and in the log. -/
theorem copyTo_lastWritten {log : List (Request × (Nat → UInt8))} {size b i : Nat} (hi : i < size)
    (h : memory (b * size + i) = (lastWritten size log b i).getD (contents (b * size + i))) :
    copyTo memory (r.startBlock.toNat * size) (r.numBlocks.toNat * size) data (b * size + i)
      = (lastWritten size ((r, data) :: log) b i).getD (contents (b * size + i)) := by
  simp only [copyTo, lastWritten, block_bounds hi]
  split
  next hb =>
    rw [Option.getD_some, Nat.sub_mul]
    congr 1
    have := Nat.mul_le_mul_right size hb.1
    omega
  next => exact h

section
variable (hpos : 0 < blockSize.toNat) (hn : numBlocks.toNat ≤ blockSize.toNat)
  (hfit : blockSize.toNat * (blockSize.toNat + numBlocks.toNat) < 2 ^ 64)
include hpos hn hfit

omit hpos hn in
theorem size_fits : numBlocks.toNat * blockSize.toNat < 2 ^ 64 := by
  rw [Nat.mul_add, Nat.mul_comm blockSize.toNat numBlocks.toNat] at hfit
  exact Nat.lt_of_le_of_lt (Nat.le_add_left _ _) hfit

theorem InStep.read_accepted_iff (h : InStep numBlocks blockSize contents t) :
    (t.disk.readBlocks r).accepted ↔ t.disk.status = .ok ∧ Served numBlocks blockSize r := by
  obtain ⟨memory, hm, -⟩ := h.holds
  rw [readBlocks_accepted_iff, h.num, h.size, passes_iff_served hpos (Nat.le_refl _) hn hfit]
  simp [hm]

theorem InStep.write_accepted_iff (h : InStep numBlocks blockSize contents t) :
    (t.disk.writeBlocks r data).1.accepted ↔ t.disk.status = .ok ∧ Served numBlocks blockSize r := by
  obtain ⟨memory, hm, -⟩ := h.holds
  rw [writeBlocks_accepted_iff, h.num, h.size,
    passes_iff_served hpos hn (Nat.le_refl _) hfit]
  simp [hm]

theorem InStep.write (h : InStep numBlocks blockSize contents t) :
    InStep numBlocks blockSize contents
      { disk := (t.disk.writeBlocks r data).2
        log := if (t.disk.writeBlocks r data).1.accepted then (r, data) :: t.log else t.log } := by
  by_cases ha : (t.disk.writeBlocks r data).1.accepted
  · obtain ⟨memory, hm, hholds⟩ := h.holds
    have hserved := ((h.write_accepted_iff hpos hn hfit).mp ha).2
    obtain ⟨hstart, hlen⟩ := hserved.toNat_mul (size_fits hfit)
    rw [writeBlocks_storage hm ha, if_pos ha]
    refine ⟨h.num, h.size, h.total, _, rfl, fun b i hi => ?_⟩
    rw [h.size, hstart, hlen]
    exact copyTo_lastWritten hi (hholds b i hi)
  · rw [if_neg ha, writeBlocks_refused (Bool.not_eq_true _ ▸ ha)]
    exact h

theorem InStep.step {t' : Trace} {act : RamAct} (h : InStep numBlocks blockSize contents t)
    (hs : t.step act = some t') : InStep numBlocks blockSize contents t' := by
  cases act with
  | start => cases hs; exact h.setDeviceStatus
  | stop => cases hs; exact h.setDeviceStatus
  | reset => cases hs; exact h.setDeviceStatus
  | read r => cases hs; exact h
  | write r data => cases hs; exact h.write hpos hn hfit

/-- In step with its log, a disk gives the right answers. -/
theorem InStep.answers (h : InStep numBlocks blockSize contents t) :
    Answers numBlocks blockSize contents t where
  same r data := by
    rw [Bool.eq_iff_iff, h.write_accepted_iff hpos hn hfit, h.read_accepted_iff hpos hn hfit]
  read_iff r := h.read_accepted_iff hpos hn hfit
  found r offset bytes hr := by
    have hserved := ((h.read_accepted_iff hpos hn hfit).mp (by rw [hr]; rfl)).2
    obtain ⟨hstart, hlen⟩ := hserved.toNat_mul (size_fits hfit)
    obtain ⟨-, memory, hm, -, rfl, rfl⟩ := readBlocks_eq_copied_iff.mp hr
    obtain ⟨memory', hm', hholds⟩ := h.holds
    cases hm.symm.trans hm'
    rw [h.size, hstart, hlen]
    refine List.map_congr_left fun j _ => ?_
    have hj := hholds (r.startBlock.toNat + j / blockSize.toNat) (j % blockSize.toNat)
      (Nat.mod_lt _ hpos)
    rwa [Nat.add_mul, Nat.add_assoc, Nat.mul_comm (j / _), Nat.div_add_mod] at hj
  bounds r data offset bytes hr := by
    have hsize := size_fits hfit
    have hserved : Served numBlocks blockSize r := by
      rcases hr with hr | hr
      · exact ((h.read_accepted_iff hpos hn hfit).mp (by rw [hr]; rfl)).2
      · exact ((h.write_accepted_iff hpos hn hfit).mp (by rw [hr]; rfl)).2
    obtain ⟨hstart, hlen⟩ := hserved.toNat_mul hsize
    have hat : offset + bytes.length
        = r.startBlock.toNat * blockSize.toNat + r.numBlocks.toNat * blockSize.toNat := by
      rw [← hstart, ← hlen, ← h.size]
      rcases hr with hr | hr
      · obtain ⟨-, memory, -, -, rfl, rfl⟩ := readBlocks_eq_copied_iff.mp hr
        simp [bytesAt]
      · obtain ⟨-, -, -, rfl, rfl⟩ := writeBlocks_eq_copied_iff.mp hr
        simp [bytesAt]
    have hin := Nat.mul_le_mul_right blockSize.toNat hserved.inside
    rw [Nat.add_mul, ← hat] at hin
    refine ⟨hin, ?_⟩
    rw [h.total, UInt64.toNat_mul, Nat.mod_eq_of_lt hsize]
    exact hin
  refused r data := writeBlocks_refused

end

theorem newRamdisk_inStep (h : ¬ (numBlocks = 0 ∨ blockSize = 0)) :
    InStep numBlocks blockSize contents ⟨newRamdisk numBlocks blockSize contents, []⟩ := by
  simp only [newRamdisk, if_neg h]
  exact ⟨rfl, rfl, rfl, contents, rfl, fun _ _ _ => rfl⟩

/-! ## A disk without blocks -/

/-- A disk that failed when it was made refuses everything, and stays as it is. -/
theorem answers_of_failed (hs : t.disk.status = .failed) : Answers numBlocks blockSize contents t := by
  have hr : ∀ r offset bytes, t.disk.readBlocks r ≠ .copied offset bytes := by
    intro r offset bytes h
    have := (readBlocks_eq_copied_iff.mp h).1
    simp [hs] at this
  have hw : ∀ r data offset bytes, (t.disk.writeBlocks r data).1 ≠ .copied offset bytes := by
    intro r data offset bytes h
    have := (writeBlocks_eq_copied_iff.mp h).1
    simp [hs] at this
  refine ⟨fun r data => ?_, fun r => ?_, fun r offset bytes h => absurd h (hr r offset bytes),
    fun r data offset bytes h => ?_, fun r data => writeBlocks_refused⟩
  · rw [Bool.eq_iff_iff, writeBlocks_accepted_iff, readBlocks_accepted_iff]
    simp [hs]
  · rw [readBlocks_accepted_iff]
    simp [hs]
  · exact (h.elim (hr r offset bytes) (hw r data offset bytes)).elim

theorem Trace.step_failed {t' : Trace} {act : RamAct} (hs : t.disk.status = .failed)
    (h : t.step act = some t') : t'.disk.status = .failed := by
  have hset : ∀ new, (t.disk.setDeviceStatus new).status = .failed := by
    intro new
    rw [Ramdisk.setDeviceStatus, if_neg (not_not.mpr hs)]
    exact hs
  cases act with
  | start => cases h; exact hset .ok
  | stop => cases h; exact hset .stopped
  | reset => cases h; exact hset .stopped
  | read r => cases h; exact hs
  | write r data =>
      cases h
      have hw : (t.disk.writeBlocks r data).1.accepted = false := by
        rw [← Bool.not_eq_true, writeBlocks_accepted_iff]
        simp [hs]
      simp only [writeBlocks_refused hw, hs]

/-! ## A disk too large -/

/-- A new disk that has been started. -/
def started (numBlocks blockSize : UInt64) (contents : Nat → UInt8) : Ramdisk :=
  { numBlocks, blockSize, storageSize := numBlocks * blockSize, storage := some contents, status := .ok }

theorem started_reach (h : ¬ (numBlocks = 0 ∨ blockSize = 0)) :
    Runs.Reach Trace.step Runs.anyInput ⟨newRamdisk numBlocks blockSize contents, []⟩
      ⟨started numBlocks blockSize contents, []⟩ := by
  refine .step .start .refl trivial ?_
  simp [Trace.step, Ramdisk.start, Ramdisk.setDeviceStatus, newRamdisk, if_neg h, started]

/-- How many blocks, with the whole disk after them, just pass the end of the words. -/
theorem exists_wrapping_start {n size : Nat} (hpos : 0 < size) (hlt : n * size < 2 ^ 64)
    (hge : 2 ^ 64 ≤ size * (size + n)) :
    ∃ s ≤ size, 2 ^ 64 ≤ s * size + n * size ∧ s * size + n * size < 2 ^ 64 + size := by
  have hmod := Nat.mod_lt (2 ^ 64 - n * size + (size - 1)) hpos
  have hdiv := Nat.div_add_mod (2 ^ 64 - n * size + (size - 1)) size
  generalize (2 ^ 64 - n * size + (size - 1)) / size = s at hdiv
  rw [Nat.mul_comm size s] at hdiv
  rw [Nat.mul_add, Nat.mul_comm size n] at hge
  refine ⟨s, ?_, by omega, by omega⟩
  by_contra hs
  have := Nat.mul_le_mul_right size (Nat.succ_le_of_lt (Nat.not_le.mp hs))
  rw [Nat.succ_mul] at this
  omega

theorem geometry_of_answers (hpos : 0 < blockSize.toNat) (hn : 0 < numBlocks.toNat)
    (h : Answers numBlocks blockSize contents ⟨started numBlocks blockSize contents, []⟩) :
    numBlocks.toNat ≤ blockSize.toNat
      ∧ blockSize.toNat * (blockSize.toNat + numBlocks.toNat) < 2 ^ 64 := by
  have hread : ∀ r, Passes numBlocks numBlocks blockSize r → Served numBlocks blockSize r :=
    fun r hp => ((h.read_iff r).mp (readBlocks_accepted_iff.mpr ⟨rfl, rfl, hp⟩)).2
  have hwrite : ∀ r, Passes numBlocks numBlocks blockSize r ↔ Passes blockSize numBlocks blockSize r := by
    intro r
    have hsame := h.same r contents
    rw [Bool.eq_iff_iff, writeBlocks_accepted_iff, readBlocks_accepted_iff] at hsame
    simpa [started] using hsame.symm
  have hmax : (0xffffffffffffffff : UInt64).toNat = 2 ^ 64 - 1 := rfl
  have h0 : (0 : UInt64).toNat = 0 := rfl
  have h1 : (1 : UInt64) ≠ 0 := by decide
  -- a whole disk longer than any buffer would fit in one
  have hlt : numBlocks.toNat * blockSize.toNat < 2 ^ 64 := by
    have hserved := hread ⟨0, numBlocks, 1, 0xffffffffffffffff⟩
      ⟨Nat.zero_le _, Nat.le_refl _, h1, by simp only [hmax]; omega,
        by simp only [h0, Nat.zero_mul, Nat.zero_mod, Nat.zero_add, Nat.mod_mod]; exact Nat.le_refl _⟩
    have := hserved.room
    simp only [hmax] at this
    omega
  -- the end of the disk, as an empty request
  have hle : numBlocks.toNat ≤ blockSize.toNat :=
    ((hwrite ⟨numBlocks, 0, 1, 0⟩).mp
      ⟨Nat.le_refl _, Nat.zero_le _, h1, by simp,
        by simp only [h0, Nat.zero_mul, Nat.zero_mod, Nat.add_zero, Nat.mod_mod]; exact Nat.le_refl _⟩).start
  refine ⟨hle, ?_⟩
  by_contra hge
  obtain ⟨s, hs, hs1, hs2⟩ := exists_wrapping_start hpos hlt (Nat.not_lt.mp hge)
  have hword : (UInt64.ofNat s).toNat = s :=
    UInt64.toNat_ofNat_of_lt' (Nat.lt_of_le_of_lt hs blockSize.toNat_lt)
  have hone : blockSize.toNat ≤ numBlocks.toNat * blockSize.toNat := Nat.le_mul_of_pos_left _ hn
  have hserved := hread ⟨UInt64.ofNat s, numBlocks, 1, 0xffffffffffffffff⟩ <| (hwrite _).mpr
    ⟨by simp only [hword]; exact hs, Nat.le_refl _, h1, by simp only [hmax]; omega,
      by simp only [hword]; rw [← Nat.add_mod]; omega⟩
  have hin := hserved.inside
  simp only [Request.Inside, hword] at hin
  have hzero : s = 0 := by omega
  rw [hzero, Nat.zero_mul] at hs1
  omega

/-- A RAM disk keeps the law if it has no more blocks than a block has bytes, and the largest request
`write_blocks` tests ends within 64 bits; or if there is nothing on it. -/
theorem newRamdisk_lawful_iff (numBlocks blockSize : UInt64) :
    Lawful numBlocks blockSize ↔ numBlocks = 0 ∨ blockSize = 0
      ∨ numBlocks.toNat ≤ blockSize.toNat
        ∧ blockSize.toNat * (blockSize.toNat + numBlocks.toNat) < 2 ^ 64 := by
  have hzero : ∀ x : UInt64, x ≠ 0 → 0 < x.toNat :=
    fun x hx => Nat.pos_of_ne_zero fun h => hx (UInt64.toNat_inj.mp h)
  rw [← or_assoc]
  by_cases hnone : numBlocks = 0 ∨ blockSize = 0
  · refine ⟨fun _ => .inl hnone, fun _ contents t ht => answers_of_failed ?_⟩
    induction ht with
    | refl => simp only [newRamdisk, if_pos hnone]
    | step _ _ _ hs ih => exact Trace.step_failed ih hs
  · obtain ⟨hn, hb⟩ := not_or.mp hnone
    constructor
    · intro h
      exact .inr (geometry_of_answers (hzero _ hb) (hzero _ hn)
        (h (fun _ => 0) _ (started_reach hnone)))
    · intro h contents t ht
      obtain ⟨hle, hfit⟩ := h.resolve_left hnone
      refine InStep.answers (hzero _ hb) hle hfit (ht.invariant (newRamdisk_inStep hnone) ?_)
      exact fun _ _ _ hi _ hs => hi.step (hzero _ hb) hle hfit hs

/-- Ten blocks of two bytes: block 3 can be read and cannot be written. -/
theorem write_refused_on_disk :
    ((newRamdisk 10 2 fun _ => 0).start.readBlocks ⟨3, 1, 4096, 2⟩).accepted = true
    ∧ ((newRamdisk 10 2 fun _ => 0).start.writeBlocks ⟨3, 1, 4096, 2⟩ fun _ => 7).1
      = .refused .invalidParam
    ∧ Request.Inside ⟨3, 1, 4096, 2⟩ 10 ∧ ¬ Lawful 10 2 := by
  refine ⟨by decide, by decide, by decide, fun h => ?_⟩
  have hsame := (h (fun _ => 0) _ (started_reach (by decide))).same ⟨3, 1, 4096, 2⟩ fun _ => 7
  revert hsame
  decide

end

end Azalea.Block
