import Azalea.Block.Proxy
import Azalea.Proc.Mutex

/-!
# Block — ATA transfers

`read_blocks` and `write_blocks` of `ata::generic_device` (`devices/block/ata/ata_device.cpp`) and the
steps of `ata::pci_controller` they are made of (`devices/block/ata/controller/ata_pci_controller.cpp`).
What the steps meet is given: what `klib_synch_mutex_acquire` answers in each of them, the bytes the
status register gives, and the error bit of the bus master's status.  An answer comes with the log of
what happened on the way.  The registers a command is written to and the bytes that are moved are left
out, and `flush_cache`, which reports nothing, has a log of its own.

* `pollWait_eq`: `poll_wait_for_drive_not_busy` assigns to the error flag where it means to test it, so a
  poll fails only for a drive fault.
* `attemptDma_mutex_iff`: the mutex stays locked if a block cannot be queued.
* `transfers_report_iff`: exactly when a failure is reported and the mutex given back.
-/

namespace Azalea.Block.Ata
open Azalea.Syscall (ErrCode)
open Azalea.Proc.Mutexes (SyncAcqResult)

/-! ### The status register -/

def errorFlag (status : BitVec 8) : Bool := status.getLsbD 0
def driveFaultFlag (status : BitVec 8) : Bool := status.getLsbD 5
def busyFlag (status : BitVec 8) : Bool := status.getLsbD 7

/-- What a poll reads, after the dummy reads: the drive is busy for a while, and then it is not. -/
structure Poll where
  busy : List (BitVec 8)
  settled : BitVec 8
  waits : ∀ status ∈ busy, busyFlag status = true
  ends : busyFlag settled = false

/-- The status the loop of `poll_wait_for_drive_not_busy` stops with.  In its condition `error_flag = 0`
is an assignment: once the drive is not busy the flag is cleared, and the loop ends. -/
def pollLoop : List (BitVec 8) → Option (BitVec 8)
  | [] => none
  | status :: reads => if busyFlag status then pollLoop reads else some (status &&& 0xFE)

theorem pollLoop_busy {busy : List (BitVec 8)} (h : ∀ status ∈ busy, busyFlag status = true)
    (reads : List (BitVec 8)) : pollLoop (busy ++ reads) = pollLoop reads := by
  induction busy with
  | nil => rfl
  | cons status busy ih =>
    rw [List.forall_mem_cons] at h
    rw [List.cons_append, pollLoop, if_pos h.1, ih h.2]

namespace Poll

def reads (p : Poll) : List (BitVec 8) := p.busy ++ [p.settled]

theorem pollLoop_reads (p : Poll) : pollLoop p.reads = some (p.settled &&& 0xFE) := by
  rw [reads, pollLoop_busy p.waits, pollLoop, if_neg (by rw [p.ends]; decide)]

theorem stops (p : Poll) : (pollLoop p.reads).isSome = true := by
  rw [p.pollLoop_reads]
  rfl

/-- The drive reports neither an error nor a fault. -/
def Quiet (p : Poll) : Prop := errorFlag p.settled = false ∧ driveFaultFlag p.settled = false

def Fault (p : Poll) : Prop := driveFaultFlag p.settled = true

end Poll

/-- `poll_wait_for_drive_not_busy`. -/
def pollWait (p : Poll) : Bool :=
  let result := (pollLoop p.reads).get p.stops
  !(errorFlag result || driveFaultFlag result)

theorem pollWait_eq (p : Poll) : pollWait p = !driveFaultFlag p.settled := by
  have hcleared : ∀ status : BitVec 8, errorFlag (status &&& 0xFE) = false ∧
      driveFaultFlag (status &&& 0xFE) = driveFaultFlag status := by
    intro status
    constructor
    · simp [errorFlag]
    · simp [driveFaultFlag]
  have hresult : (pollLoop p.reads).get p.stops = p.settled &&& 0xFE :=
    Option.get_of_eq_some _ p.pollLoop_reads
  obtain ⟨herror, hfault⟩ := hcleared p.settled
  simp only [pollWait, hresult, herror, hfault, Bool.false_or]

/-! ### The controller -/

/-- What happens in a transfer. -/
inductive Event where
  /-- `klib_synch_mutex_acquire` on the DMA mutex. -/
  | acquire (mr : SyncAcqResult)
  /-- `klib_synch_mutex_release` on it. -/
  | release
  /-- A step of the controller answers the device. -/
  | answer (ok : Bool)
  /-- The status a poll ends with. -/
  | polled (status : BitVec 8)
  /-- `dma_error` of the bus master, when it has interrupted. -/
  | busMaster (dmaError : Bool)
  deriving DecidableEq

/-- A step that succeeds, a status without error or fault. -/
def Event.Sound : Event → Prop
  | .answer ok => ok = true
  | .polled status => errorFlag status = false ∧ driveFaultFlag status = false
  | .busMaster dmaError => dmaError = false
  | .acquire _ | .release => True

/-- The entries of `transfer_block_details`, up to `num_prd_table_entries`, are the blocks queued: the
address of the buffer and `bytes_to_transfer`. -/
structure PciController where
  dmaTransferIsRead : Bool
  transferBlockDetails : List (UInt64 × UInt16)

/-- `max_prd_table_entries`. -/
def maxPrdTableEntries : Nat := 31

/-- `continue_with_dma_setup`. -/
def continueWithDmaSetup : SyncAcqResult → Bool × List Event
  | .acquired => (false, [.acquire .acquired, .release])
  | .timeout => (false, [.acquire .timeout])
  | .alreadyOwned => (true, [.acquire .alreadyOwned])

/-- `COMMANDS`. -/
inductive Commands where
  | read
  | readExt
  | readExtDma
  | write
  | writeExt
  | writeExtDma
  | readDma
  | writeDma
  | identify
  | flushCache
  | flushCacheExt
  deriving DecidableEq

/-- `command_properties`, as far as they decide what is done. -/
structure CommandProperties where
  readsSectors : Bool
  writesSectors : Bool
  maxSectors : Int
  dmaCommand : Bool

/-- `known_commands`. -/
def knownCommands : Commands → CommandProperties
  | .read => ⟨true, false, 0x100, false⟩
  | .readExt => ⟨true, false, 0x10000, false⟩
  | .readExtDma => ⟨true, false, 0x10000, true⟩
  | .write => ⟨false, true, 0x100, false⟩
  | .writeExt => ⟨false, true, 0x10000, false⟩
  | .writeExtDma => ⟨false, true, 0x10000, true⟩
  | .readDma => ⟨true, false, 0x100, true⟩
  | .writeDma => ⟨false, true, 0x100, true⟩
  | .identify => ⟨true, false, 0x01, false⟩
  | .flushCache => ⟨false, false, 0x00, false⟩
  | .flushCacheExt => ⟨false, false, 0x00, false⟩

/-- What a command meets. -/
structure CommandOutcomes where
  mutex : SyncAcqResult
  identOutput : BitVec 8
  completion : Poll
  dmaError : Bool
  /-- The polls between the parts of a transfer without DMA. -/
  sectors : Nat → Poll

/-- The statuses polled by `pio_read_sectors_to_buffer` at the offsets `is`: every 256 bytes but the first
time, up to a poll that fails, of which the caller is not told. -/
def pioReadLoop (polls : Nat → Poll) : List Nat → List Event
  | [] => []
  | i :: is =>
      if i ≠ 0 ∧ i % (512 / 2) = 0 then
        let p := polls (i / 256 - 1)
        .polled p.settled :: if pollWait p then pioReadLoop polls is else []
      else pioReadLoop polls is

/-- `pio_read_sectors_to_buffer`. -/
def pioReadSectorsToBuffer (sectors : UInt16) (polls : Nat → Poll) : List Event :=
  pioReadLoop polls ((List.range (512 * sectors.toNat / 2)).map (2 * ·))

/-- The loop of `pio_write_sectors_to_drive` over the sectors `is`. -/
def pioWriteLoop (polls : Nat → Poll) : List Nat → Bool × List Event
  | [] => (true, [])
  | i :: is =>
      let p := polls i
      if pollWait p then
        let r := pioWriteLoop polls is
        (r.1, .polled p.settled :: r.2)
      else (false, [.polled p.settled])

/-- `pio_write_sectors_to_drive`. -/
def pioWriteSectorsToDrive (sectors : UInt16) (bufferLength : UInt64) (polls : Nat → Poll) :
    Bool × List Event :=
  if bufferLength.toNat < sectors.toNat * 512 then (false, [])
  else pioWriteLoop polls (List.range sectors.toNat)

namespace PciController

/-- `start_prepare_dma_transfer`. -/
def startPrepareDmaTransfer (c : PciController) (isRead : Bool) (mr : SyncAcqResult) :
    Bool × PciController × List Event :=
  if mr = .acquired then (true, ⟨isRead, []⟩, [.acquire mr]) else (false, c, [.acquire mr])

/-- `queue_dma_transfer_block`. -/
def queueDmaTransferBlock (c : PciController) (buffer : UInt64) (bytesThisBlock : UInt16)
    (mr : SyncAcqResult) : Bool × PciController × List Event :=
  let setup := continueWithDmaSetup mr
  if setup.1 then
    if maxPrdTableEntries ≤ c.transferBlockDetails.length then (false, c, setup.2)
    else
      (true, { c with transferBlockDetails := c.transferBlockDetails ++ [(buffer, bytesThisBlock)] },
        setup.2)
  else (false, c, setup.2)

/-- `dma_transfer_blocks_queued`. -/
def dmaTransferBlocksQueued (mr : SyncAcqResult) : Bool × List Event := continueWithDmaSetup mr

/-- `issue_command`.  For a DMA command the answer of `continue_with_dma_setup` replaces that of the test
of `count`. -/
def issueCommand (c : PciController) (command : Commands) (count : UInt16) (bufferLen : UInt64)
    (o : CommandOutcomes) : Bool × List Event :=
  let props := knownCommands command
  let tooMany := props.maxSectors ≠ -1 ∧
    ((props.maxSectors = 0 ∧ count ≠ 0) ∨ (count.toNat : Int) > props.maxSectors)
  let setup := if props.dmaCommand then continueWithDmaSetup o.mutex else (!decide tooMany, [])
  if setup.1 then
    let present := !(command == .identify && o.identOutput == 0)
    let waited : Bool × List Event :=
      if present then
        (pollWait o.completion,
          .polled o.completion.settled :: if props.dmaCommand then [.busMaster o.dmaError] else [])
      else (false, [])
    let moved : Bool × List Event :=
      if waited.1 && props.readsSectors then
        (true, if c.dmaTransferIsRead then [] else pioReadSectorsToBuffer count o.sectors)
      else if waited.1 && props.writesSectors && !props.dmaCommand then
        pioWriteSectorsToDrive count bufferLen o.sectors
      else (waited.1, [])
    (moved.1, setup.2 ++ waited.2 ++ moved.2 ++ if props.dmaCommand then [.release] else [])
  else (false, setup.2)

end PciController

/-! ### The device -/

structure GenericDevice where
  lba48 : Bool
  numberOfSectors : UInt64
  dmaSupported : Bool
  status : DevStatus

/-- What a transfer meets. -/
structure TransferOutcomes where
  start : SyncAcqResult
  queue : Nat → SyncAcqResult
  blocksQueued : SyncAcqResult
  command : CommandOutcomes
  flush : CommandOutcomes

/-- How a call ends. -/
structure Answer where
  result : ErrCode
  controller : PciController
  steps : List Event := []
  flush : List Event := []

/-- The loop that queues the blocks of a transfer, 128 sectors at a time: the blocks left when it ends.
65536 bytes are passed as 0. -/
def queueBlocks (queue : Nat → SyncAcqResult) (blocksLeft : Nat) (buffer : UInt64) (c : PciController) :
    Nat × PciController × List Event :=
  if blocksLeft = 0 then (0, c, [])
  else
    let blocksThisPart := if blocksLeft > 128 then 128 else blocksLeft
    let queued := c.queueDmaTransferBlock buffer (UInt16.ofNat (blocksThisPart * 512))
      (queue c.transferBlockDetails.length)
    if queued.1 then
      let r := queueBlocks queue (blocksLeft - blocksThisPart)
        (buffer + UInt64.ofNat (blocksThisPart * 512)) queued.2.1
      (r.1, r.2.1, queued.2.2 ++ .answer true :: r.2.2)
    else (blocksLeft, queued.2.1, queued.2.2 ++ [.answer false])
termination_by blocksLeft
decreasing_by split <;> omega

namespace GenericDevice

/-- `flush_cache`. -/
def flushCache (d : GenericDevice) (c : PciController) (o : CommandOutcomes) : List Event :=
  (c.issueCommand (if d.lba48 then .flushCacheExt else .flushCache) 0 0 o).2

/-- A transfer without DMA. -/
def transferPio (d : GenericDevice) (a : Access) (command : Commands) (c : PciController) (r : Request)
    (o : TransferOutcomes) : Answer :=
  let issued := c.issueCommand command r.numBlocks.toUInt16 r.bufferLength o.command
  let steps := issued.2 ++ [.answer issued.1]
  if issued.1 then
    { result := .noError
      controller := c
      steps := steps
      flush := if a = .write then d.flushCache c o.flush else [] }
  else { result := .storageError, controller := c, steps := steps }

/-- `read_blocks_pio`. -/
def readBlocksPio (d : GenericDevice) : PciController → Request → TransferOutcomes → Answer :=
  d.transferPio .read (if d.lba48 then .readExt else .read)

/-- `write_blocks_pio`. -/
def writeBlocksPio (d : GenericDevice) : PciController → Request → TransferOutcomes → Answer :=
  d.transferPio .write (if d.lba48 then .writeExt else .write)

/-- The part of a transfer by DMA before its result is overwritten. -/
def attemptDma (d : GenericDevice) (a : Access) (command : Commands) (c : PciController) (r : Request)
    (o : TransferOutcomes) : Answer :=
  let started := c.startPrepareDmaTransfer (a = .read) o.start
  if started.1 then
    let queued := queueBlocks o.queue r.numBlocks.toNat r.buffer started.2.1
    let set := PciController.dmaTransferBlocksQueued o.blocksQueued
    let steps := started.2.2 ++ [.answer true] ++ queued.2.2 ++ set.2 ++ [.answer set.1]
    if queued.1 = 0 then
      let issued := queued.2.1.issueCommand command r.numBlocks.toUInt16 r.bufferLength o.command
      if issued.1 then
        { result := .noError
          controller := queued.2.1
          steps := steps ++ issued.2 ++ [.answer true]
          flush := if a = .write then d.flushCache queued.2.1 o.flush else [] }
      else
        { result := .storageError
          controller := queued.2.1
          steps := steps ++ issued.2 ++ [.answer false] }
    else { result := .storageError, controller := queued.2.1, steps := steps }
  else
    { result := .storageError, controller := started.2.1, steps := started.2.2 ++ [.answer false] }

/-- A transfer by DMA. -/
def transferDma (d : GenericDevice) (a : Access) (command : Commands) (c : PciController) (r : Request)
    (o : TransferOutcomes) : Answer :=
  if r.numBlocks > 3840 then { result := .transferTooLarge, controller := c }
  -- `result = ERR_CODE::NO_ERROR` stands after the attempt, not in it.
  else { d.attemptDma a command c r o with result := .noError }

/-- `read_blocks_dma`. -/
def readBlocksDma (d : GenericDevice) : PciController → Request → TransferOutcomes → Answer :=
  d.transferDma .read (if d.lba48 then .readExtDma else .readDma)

/-- `write_blocks_dma`. -/
def writeBlocksDma (d : GenericDevice) : PciController → Request → TransferOutcomes → Answer :=
  d.transferDma .write (if d.lba48 then .writeExtDma else .writeDma)

/-- The tests of `read_blocks` and `write_blocks`. -/
def refusal (d : GenericDevice) (r : Request) : Option ErrCode :=
  if r.buffer = 0 then some .invalidParam
  else if r.startBlock > d.numberOfSectors ∨ r.startBlock + r.numBlocks > d.numberOfSectors then
    some .invalidParam
  else if (r.numBlocks > 0x10000 ∧ d.lba48 = true) ∨ r.numBlocks > 0x100 then some .invalidParam
  else if r.numBlocks = 0 then some .invalidParam
  else if r.bufferLength < r.numBlocks * 512 then some .invalidParam
  else if d.status ≠ .ok then some .deviceFailed
  else none

/-- `read_blocks`. -/
def readBlocks (d : GenericDevice) (c : PciController) (r : Request) (o : TransferOutcomes) : Answer :=
  match d.refusal r with
  | some e => { result := e, controller := c }
  | none => if d.dmaSupported then d.readBlocksDma c r o else d.readBlocksPio c r o

/-- `write_blocks`. -/
def writeBlocks (d : GenericDevice) (c : PciController) (r : Request) (o : TransferOutcomes) : Answer :=
  match d.refusal r with
  | some e => { result := e, controller := c }
  | none => if d.dmaSupported then d.writeBlocksDma c r o else d.writeBlocksPio c r o

end GenericDevice

/-- The releases of the DMA mutex and its acquisitions are as many. -/
def MutexReleased (log : List Event) : Prop := log.count .release = log.count (.acquire .acquired)

/-- `NO_ERROR` is returned only if every step succeeds and the drive reports neither error nor fault, and
the mutex is given back. -/
structure Answer.ReportsFailure (x : Answer) : Prop where
  noError : x.result = .noError → ∀ e ∈ x.steps, e.Sound
  mutex : MutexReleased (x.steps ++ x.flush)

/-! ### What the condition says -/

/-- The blocks a transfer is queued in. -/
def Request.parts (r : Request) : Nat := (r.numBlocks.toNat + 127) / 128

/-- Nothing fails in a transfer by DMA. -/
structure DmaSucceeds (r : Request) (o : TransferOutcomes) : Prop where
  start : o.start = .acquired
  queue : ∀ k < Request.parts r, o.queue k = .alreadyOwned
  blocksQueued : o.blocksQueued = .alreadyOwned
  issue : o.command.mutex = .alreadyOwned
  completion : o.command.completion.Quiet
  busMaster : o.command.dmaError = false

/-- A read without DMA: the drive reports a fault when the command completes, or reports nothing, then and
between the sectors (where it is not asked if the last DMA transfer of the controller was a read). -/
def PioReadTold (c : PciController) (r : Request) (o : TransferOutcomes) : Prop :=
  o.command.completion.Fault ∨
    o.command.completion.Quiet ∧
      (c.dmaTransferIsRead = true ∨ ∀ k < 2 * r.numBlocks.toNat - 1, (o.command.sectors k).Quiet)

/-- A write without DMA: the drive reports a fault, or it reports nothing. -/
def PioWriteTold (r : Request) (o : TransferOutcomes) : Prop :=
  o.command.completion.Fault ∨ (∃ k < r.numBlocks.toNat, (o.command.sectors k).Fault) ∨
    o.command.completion.Quiet ∧ ∀ k < r.numBlocks.toNat, (o.command.sectors k).Quiet

namespace GenericDevice

def ReadTold (d : GenericDevice) (c : PciController) (r : Request) (o : TransferOutcomes) : Prop :=
  d.refusal r ≠ none ∨ if d.dmaSupported then DmaSucceeds r o else PioReadTold c r o

def WriteTold (d : GenericDevice) (r : Request) (o : TransferOutcomes) : Prop :=
  d.refusal r ≠ none ∨ if d.dmaSupported then DmaSucceeds r o else PioWriteTold r o

end GenericDevice

/-! ### Logs -/

theorem sound_append {log log' : List Event} :
    (∀ e ∈ log ++ log', e.Sound) ↔ (∀ e ∈ log, e.Sound) ∧ ∀ e ∈ log', e.Sound :=
  List.forall_mem_append

/-- The releases of a log over its acquisitions. -/
def excess (log : List Event) : Int := log.count .release - log.count (.acquire .acquired)

theorem excess_append (log log' : List Event) : excess (log ++ log') = excess log + excess log' := by
  simp only [excess, List.count_append]
  omega

theorem excess_polled (status : BitVec 8) (log : List Event) :
    excess (.polled status :: log) = excess log := by
  simp [excess]

theorem mutexReleased_iff {log : List Event} : MutexReleased log ↔ excess log = 0 := by
  rw [MutexReleased, excess]
  omega

theorem continue_sound (mr : SyncAcqResult) : ∀ e ∈ (continueWithDmaSetup mr).2, e.Sound := by
  cases mr <;> simp [continueWithDmaSetup, Event.Sound]

theorem continue_excess (mr : SyncAcqResult) : excess (continueWithDmaSetup mr).2 = 0 := by
  cases mr <;> rfl

theorem continue_iff {mr : SyncAcqResult} : (continueWithDmaSetup mr).1 = true ↔ mr = .alreadyOwned := by
  cases mr <;> simp [continueWithDmaSetup]

/-! ### Transfers without DMA -/

theorem pollWait_iff {p : Poll} : pollWait p = true ↔ ¬ p.Fault := by
  rw [pollWait_eq, Poll.Fault]
  cases driveFaultFlag p.settled <;> decide

theorem pioReadLoop_sound_iff (polls : Nat → Poll) (is : List Nat) :
    (∀ e ∈ pioReadLoop polls is, e.Sound) ↔
      ∀ i ∈ is, i ≠ 0 → i % 256 = 0 → (polls (i / 256 - 1)).Quiet := by
  induction is with
  | nil => simp [pioReadLoop]
  | cons i is ih =>
    rw [List.forall_mem_cons, pioReadLoop]
    by_cases hpoll : i ≠ 0 ∧ i % (512 / 2) = 0
    · rw [if_pos hpoll, List.forall_mem_cons]
      have hfirst : (i ≠ 0 → i % 256 = 0 → (polls (i / 256 - 1)).Quiet) ↔
          (polls (i / 256 - 1)).Quiet := ⟨fun h => h hpoll.1 hpoll.2, fun h _ _ => h⟩
      rw [hfirst]
      refine and_congr_right fun hquiet => ?_
      -- A poll that finds nothing does not stop the loop.
      have hgoes : pollWait (polls (i / 256 - 1)) = true := by
        rw [pollWait_eq, hquiet.2]
        rfl
      rw [if_pos hgoes, ih]
    · rw [if_neg hpoll, ih]
      refine (and_iff_right ?_).symm
      intro hne hmod
      exact absurd ⟨hne, hmod⟩ hpoll

theorem pioRead_sound_iff (sectors : UInt16) (polls : Nat → Poll) :
    (∀ e ∈ pioReadSectorsToBuffer sectors polls, e.Sound) ↔
      ∀ k < 2 * sectors.toNat - 1, (polls k).Quiet := by
  rw [pioReadSectorsToBuffer, pioReadLoop_sound_iff]
  constructor
  · intro h k hk
    have hmem : 256 * (k + 1) ∈ (List.range (512 * sectors.toNat / 2)).map (2 * ·) :=
      List.mem_map.2 ⟨128 * (k + 1), List.mem_range.2 (by omega), by omega⟩
    have hquiet := h _ hmem (by omega) (by omega)
    rwa [show 256 * (k + 1) / 256 - 1 = k by omega] at hquiet
  · intro h i hi hne hmod
    obtain ⟨j, hj, rfl⟩ := List.mem_map.1 hi
    rw [List.mem_range] at hj
    exact h _ (by omega)

theorem pioReadLoop_excess (polls : Nat → Poll) (is : List Nat) : excess (pioReadLoop polls is) = 0 := by
  have hnone : ∀ e ∈ pioReadLoop polls is, ∃ status, e = .polled status := by
    induction is with
    | nil => simp [pioReadLoop]
    | cons i is ih =>
      rw [pioReadLoop]
      split
      · rw [List.forall_mem_cons]
        refine ⟨⟨_, rfl⟩, ?_⟩
        split
        · exact ih
        · simp
      · exact ih
  have hout : ∀ e : Event, (∀ status, e ≠ .polled status) → (pioReadLoop polls is).count e = 0 := by
    intro e hne
    refine List.count_eq_zero.2 fun hmem => ?_
    obtain ⟨status, rfl⟩ := hnone e hmem
    exact hne status rfl
  rw [excess, hout .release (by simp), hout (.acquire .acquired) (by simp)]
  rfl

theorem pioWriteLoop_iff (polls : Nat → Poll) (is : List Nat) :
    (pioWriteLoop polls is).1 = true ↔ ∀ i ∈ is, ¬ (polls i).Fault := by
  induction is with
  | nil => simp [pioWriteLoop]
  | cons i is ih =>
    rw [List.forall_mem_cons, pioWriteLoop]
    split
    · next h => rw [ih, and_iff_right (pollWait_iff.1 h)]
    · next h => exact iff_of_false Bool.false_ne_true fun hall => h (pollWait_iff.2 hall.1)

theorem pioWriteLoop_sound_iff (polls : Nat → Poll) (is : List Nat)
    (h : (pioWriteLoop polls is).1 = true) :
    (∀ e ∈ (pioWriteLoop polls is).2, e.Sound) ↔ ∀ i ∈ is, (polls i).Quiet := by
  induction is with
  | nil => simp [pioWriteLoop]
  | cons i is ih =>
    rw [List.forall_mem_cons]
    rw [pioWriteLoop] at h ⊢
    split at h
    · next hgoes =>
      rw [if_pos hgoes, List.forall_mem_cons, ih h]
      rfl
    · exact absurd h Bool.false_ne_true

theorem pioWriteLoop_excess (polls : Nat → Poll) (is : List Nat) :
    excess (pioWriteLoop polls is).2 = 0 := by
  induction is with
  | nil => rfl
  | cons i is ih =>
    rw [pioWriteLoop]
    split
    · rw [excess_polled, ih]
    · rfl

namespace PciController

variable {c : PciController} {command : Commands} {count : UInt16} {bufferLen : UInt64} {o : CommandOutcomes}

/-- A command without DMA of at most 256 sectors, if it is one that reads. -/
theorem issueCommand_read (hcommand : command = .read ∨ command = .readExt) (hcount : count.toNat ≤ 256) :
    c.issueCommand command count bufferLen o
      = if pollWait o.completion then
          (true, .polled o.completion.settled ::
            if c.dmaTransferIsRead then [] else pioReadSectorsToBuffer count o.sectors)
        else (false, [.polled o.completion.settled]) := by
  have hfew : ¬ (256 : Int) < count.toNat := by omega
  have hfew' : ¬ (65536 : Int) < count.toNat := by omega
  rcases hcommand with rfl | rfl
  · cases hwait : pollWait o.completion <;> simp [issueCommand, knownCommands, hfew, hwait]
  · cases hwait : pollWait o.completion <;> simp [issueCommand, knownCommands, hfew', hwait]

theorem issueCommand_write (hcommand : command = .write ∨ command = .writeExt)
    (hcount : count.toNat ≤ 256) (hbuffer : count.toNat * 512 ≤ bufferLen.toNat) :
    c.issueCommand command count bufferLen o
      = if pollWait o.completion then
          ((pioWriteLoop o.sectors (List.range count.toNat)).1,
            .polled o.completion.settled :: (pioWriteLoop o.sectors (List.range count.toNat)).2)
        else (false, [.polled o.completion.settled]) := by
  have hfew : ¬ (256 : Int) < count.toNat := by omega
  have hfew' : ¬ (65536 : Int) < count.toNat := by omega
  have hlong : ¬ bufferLen.toNat < count.toNat * 512 := by omega
  rcases hcommand with rfl | rfl
  · cases hwait : pollWait o.completion <;>
      simp [issueCommand, knownCommands, hfew, hwait, pioWriteSectorsToDrive, hlong]
  · cases hwait : pollWait o.completion <;>
      simp [issueCommand, knownCommands, hfew', hwait, pioWriteSectorsToDrive, hlong]

/-- A read or write by DMA, on a controller prepared for it. -/
theorem issueCommand_dma (hdma : (knownCommands command).dmaCommand = true)
    (hread : (knownCommands command).readsSectors = true → c.dmaTransferIsRead = true) :
    c.issueCommand command count bufferLen o
      = if o.mutex = .alreadyOwned then
          (pollWait o.completion, [.acquire .alreadyOwned, .polled o.completion.settled,
            .busMaster o.dmaError, .release])
        else (false, (continueWithDmaSetup o.mutex).2) := by
  cases command <;> simp [knownCommands] at hdma hread <;>
    cases hmutex : o.mutex <;> cases hwait : pollWait o.completion <;>
      simp [issueCommand, knownCommands, continueWithDmaSetup, hmutex, hwait, hread]

/-- A command that neither reads nor writes. -/
theorem issueCommand_flush (hcommand : command = .flushCache ∨ command = .flushCacheExt) :
    c.issueCommand command 0 bufferLen o = (pollWait o.completion, [.polled o.completion.settled]) := by
  rcases hcommand with rfl | rfl <;>
    cases hwait : pollWait o.completion <;> simp [issueCommand, knownCommands, hwait]

theorem queueDmaTransferBlock_eq (buffer : UInt64) (bytes : UInt16) (mr : SyncAcqResult) :
    c.queueDmaTransferBlock buffer bytes mr
      = if mr = .alreadyOwned ∧ c.transferBlockDetails.length < maxPrdTableEntries then
          (true, { c with transferBlockDetails := c.transferBlockDetails ++ [(buffer, bytes)] },
            (continueWithDmaSetup mr).2)
        else (false, c, (continueWithDmaSetup mr).2) := by
  rw [queueDmaTransferBlock]
  by_cases howned : mr = .alreadyOwned
  · rw [if_pos (continue_iff.2 howned)]
    by_cases hroom : c.transferBlockDetails.length < maxPrdTableEntries
    · rw [if_neg (Nat.not_le.2 hroom), if_pos ⟨howned, hroom⟩]
    · rw [if_pos (Nat.not_lt.1 hroom), if_neg fun h => hroom h.2]
  · rw [if_neg fun h => howned (continue_iff.1 h), if_neg fun h => howned h.1]

end PciController

theorem flushCache_excess (d : GenericDevice) (c : PciController) (o : CommandOutcomes) :
    excess (d.flushCache c o) = 0 := by
  have hcommand : (if d.lba48 then Commands.flushCacheExt else .flushCache) = .flushCache ∨
      (if d.lba48 then Commands.flushCacheExt else .flushCache) = .flushCacheExt := by
    cases d.lba48
    · exact .inl rfl
    · exact .inr rfl
  rw [GenericDevice.flushCache, PciController.issueCommand_flush hcommand]
  rfl

/-! ### The blocks of a transfer by DMA -/

section Queue

variable (queue : Nat → SyncAcqResult)

/-- What the loop leaves: all blocks are queued if the mutex is the thread's at every one and the table has
the room, and its log shows a failure otherwise. -/
theorem queueBlocks_spec (blocksLeft : Nat) (buffer : UInt64) (c : PciController) :
    ((queueBlocks queue blocksLeft buffer c).1 = 0 ↔
        ∀ k < (blocksLeft + 127) / 128, queue (c.transferBlockDetails.length + k) = .alreadyOwned ∧
          c.transferBlockDetails.length + k < maxPrdTableEntries) ∧
      ((∀ e ∈ (queueBlocks queue blocksLeft buffer c).2.2, e.Sound) ↔
        (queueBlocks queue blocksLeft buffer c).1 = 0) ∧
      (queueBlocks queue blocksLeft buffer c).2.1.dmaTransferIsRead = c.dmaTransferIsRead ∧
      excess (queueBlocks queue blocksLeft buffer c).2.2 = 0 := by
  induction blocksLeft using Nat.strong_induction_on generalizing buffer c with
  | _ blocksLeft ih =>
    rw [queueBlocks]
    by_cases hzero : blocksLeft = 0
    · subst hzero
      simp [excess]
    rw [if_neg hzero]
    simp only [PciController.queueDmaTransferBlock_eq]
    have hpart : 0 < (if blocksLeft > 128 then 128 else blocksLeft) ∧
        (if blocksLeft > 128 then 128 else blocksLeft) ≤ blocksLeft ∧
        (blocksLeft + 127) / 128
          = (blocksLeft - (if blocksLeft > 128 then 128 else blocksLeft) + 127) / 128 + 1 := by
      split <;> omega
    generalize (if blocksLeft > 128 then 128 else blocksLeft) = part at hpart ⊢
    obtain ⟨hpos, hle, hparts⟩ := hpart
    by_cases hqueued : queue c.transferBlockDetails.length = .alreadyOwned ∧
        c.transferBlockDetails.length < maxPrdTableEntries
    · simp only [if_pos hqueued, if_true]
      obtain ⟨hleft, hsound, hread, hexcess⟩ := ih (blocksLeft - part) (by omega)
        (buffer + UInt64.ofNat (part * 512))
        { c with transferBlockDetails := c.transferBlockDetails ++ [(buffer, UInt16.ofNat (part * 512))] }
      refine ⟨?_, ?_, hread, ?_⟩
      · rw [hleft, hparts]
        simp only [List.length_append, List.length_singleton]
        constructor
        · intro h k hk
          cases k with
          | zero => exact hqueued
          | succ k =>
            have hlater := h k (by omega)
            rwa [show c.transferBlockDetails.length + 1 + k
              = c.transferBlockDetails.length + (k + 1) by omega] at hlater
        · intro h k hk
          have hlater := h (k + 1) (by omega)
          rwa [show c.transferBlockDetails.length + (k + 1)
            = c.transferBlockDetails.length + 1 + k by omega] at hlater
      · rw [sound_append, and_iff_right (continue_sound _), List.forall_mem_cons, ← hsound]
        exact and_iff_right rfl
      · rw [excess_append, continue_excess, zero_add]
        exact (excess_append [.answer true] _).trans (by rw [hexcess]; rfl)
    · simp only [if_neg hqueued, Bool.false_eq_true, if_false]
      refine ⟨?_, ?_, trivial, ?_⟩
      · refine iff_of_false hzero fun h => hqueued ?_
        exact h 0 (by omega)
      · rw [sound_append, List.forall_mem_singleton]
        exact iff_of_false (fun h => Bool.false_ne_true h.2) hzero
      · rw [excess_append, continue_excess]
        rfl

end Queue

/-! ### Transfers by DMA -/

section Dma

variable {d : GenericDevice} {a : Access} {command : Commands} {c : PciController} {r : Request}
  {o : TransferOutcomes}

/-- The steps of a transfer whose preparation has started. -/
theorem attemptDma_steps (hstart : o.start = .acquired) :
    (d.attemptDma a command c r o).steps
      = let queued := queueBlocks o.queue r.numBlocks.toNat r.buffer ⟨a = .read, []⟩
        let set := PciController.dmaTransferBlocksQueued o.blocksQueued
        let issued := queued.2.1.issueCommand command r.numBlocks.toUInt16 r.bufferLength o.command
        [.acquire .acquired, .answer true] ++ queued.2.2 ++ set.2 ++ [.answer set.1]
          ++ if queued.1 = 0 then issued.2 ++ [.answer issued.1] else [] := by
  simp only [GenericDevice.attemptDma, PciController.startPrepareDmaTransfer, hstart, if_true]
  split
  · split
    · next hissued => simp [hissued]
    · next hissued => simp [hissued]
  · simp

theorem attemptDma_refused (hstart : o.start ≠ .acquired) :
    d.attemptDma a command c r o
      = { result := .storageError, controller := c, steps := [.acquire o.start, .answer false] } := by
  simp [GenericDevice.attemptDma, PciController.startPrepareDmaTransfer, hstart]

theorem attemptDma_flush_excess : excess (d.attemptDma a command c r o).flush = 0 := by
  rw [GenericDevice.attemptDma]
  dsimp only
  split_ifs
  · exact flushCache_excess d _ o.flush
  all_goals rfl

/-- A command of `read_blocks_dma` or `write_blocks_dma`. -/
def DmaCommand (a : Access) (command : Commands) : Prop :=
  (knownCommands command).dmaCommand = true ∧
    ((knownCommands command).readsSectors = true → a = .read)

theorem issue_prepared (hcommand : DmaCommand a command) {c' : PciController}
    (hread : c'.dmaTransferIsRead = decide (a = .read)) (count : UInt16) (bufferLen : UInt64) :
    c'.issueCommand command count bufferLen o.command
      = if o.command.mutex = .alreadyOwned then
          (pollWait o.command.completion, [.acquire .alreadyOwned, .polled o.command.completion.settled,
            .busMaster o.command.dmaError, .release])
        else (false, (continueWithDmaSetup o.command.mutex).2) := by
  refine PciController.issueCommand_dma hcommand.1 fun h => ?_
  rw [hread, hcommand.2 h]
  rfl

theorem attemptDma_sound_iff (hcommand : DmaCommand a command) (hfew : r.numBlocks.toNat ≤ 3840) :
    (∀ e ∈ (d.attemptDma a command c r o).steps, e.Sound) ↔ DmaSucceeds r o := by
  by_cases hstart : o.start = .acquired
  swap
  · rw [attemptDma_refused hstart]
    refine iff_of_false (fun h => ?_) fun h => hstart h.start
    exact Bool.false_ne_true (h (.answer false) (by simp))
  rw [attemptDma_steps hstart]
  obtain ⟨hleft, hsound, hread, -⟩ :=
    queueBlocks_spec o.queue r.numBlocks.toNat r.buffer ⟨decide (a = .read), []⟩
  have hissued := issue_prepared (o := o) hcommand hread r.numBlocks.toUInt16 r.bufferLength
  generalize queueBlocks o.queue r.numBlocks.toNat r.buffer ⟨decide (a = .read), []⟩ = queued
    at hleft hsound hissued ⊢
  have hqueue : queued.1 = 0 ↔ ∀ k < Request.parts r, o.queue k = .alreadyOwned := by
    rw [hleft]
    refine forall₂_congr fun k hk => ?_
    rw [List.length_nil, zero_add]
    exact and_iff_left (by rw [maxPrdTableEntries]; omega)
  dsimp only
  rw [sound_append, sound_append, sound_append, sound_append, hsound, List.forall_mem_singleton]
  have hset : (Event.answer (PciController.dmaTransferBlocksQueued o.blocksQueued).1).Sound ↔
      o.blocksQueued = .alreadyOwned := continue_iff
  rw [hset]
  constructor
  · rintro ⟨⟨⟨⟨-, hall⟩, -⟩, hblocks⟩, hissue⟩
    rw [if_pos hall, hissued, sound_append, List.forall_mem_singleton] at hissue
    by_cases hmutex : o.command.mutex = .alreadyOwned
    · rw [if_pos hmutex] at hissue
      have hstatus : (Event.polled o.command.completion.settled).Sound := hissue.1 _ (by simp)
      have hmaster : (Event.busMaster o.command.dmaError).Sound := hissue.1 _ (by simp)
      exact ⟨hstart, hqueue.1 hall, hblocks, hmutex, hstatus, hmaster⟩
    · rw [if_neg hmutex] at hissue
      exact absurd hissue.2 Bool.false_ne_true
  · intro h
    refine ⟨⟨⟨⟨by simp [Event.Sound], hqueue.2 h.queue⟩, continue_sound _⟩, h.blocksQueued⟩, ?_⟩
    rw [if_pos (hqueue.2 h.queue), hissued, if_pos h.issue, sound_append, List.forall_mem_singleton]
    refine ⟨?_, ?_⟩
    · simp only [List.forall_mem_cons]
      exact ⟨trivial, h.completion, h.busMaster, trivial, by simp⟩
    · change pollWait o.command.completion = true
      rw [pollWait_eq, h.completion.2]
      rfl

/-- The mutex that the preparation takes is released by the command, if it gets that far. -/
theorem attemptDma_mutex_iff (hcommand : DmaCommand a command) (hfew : r.numBlocks.toNat ≤ 3840) :
    MutexReleased ((d.attemptDma a command c r o).steps ++ (d.attemptDma a command c r o).flush) ↔
      o.start = .acquired →
        (∀ k < Request.parts r, o.queue k = .alreadyOwned) ∧ o.command.mutex = .alreadyOwned := by
  rw [mutexReleased_iff, excess_append, attemptDma_flush_excess, add_zero]
  by_cases hstart : o.start = .acquired
  swap
  · rw [attemptDma_refused hstart]
    refine iff_of_true ?_ fun h => absurd h hstart
    cases hs : o.start with
    | acquired => exact absurd hs hstart
    | alreadyOwned => rfl
    | timeout => rfl
  rw [attemptDma_steps hstart, imp_iff_right hstart]
  obtain ⟨hleft, -, hread, hexcess⟩ :=
    queueBlocks_spec o.queue r.numBlocks.toNat r.buffer ⟨decide (a = .read), []⟩
  have hissued := issue_prepared (o := o) hcommand hread r.numBlocks.toUInt16 r.bufferLength
  generalize queueBlocks o.queue r.numBlocks.toNat r.buffer ⟨decide (a = .read), []⟩ = queued
    at hleft hexcess hissued ⊢
  have hqueue : queued.1 = 0 ↔ ∀ k < Request.parts r, o.queue k = .alreadyOwned := by
    rw [hleft]
    refine forall₂_congr fun k hk => ?_
    rw [List.length_nil, zero_add]
    exact and_iff_left (by rw [maxPrdTableEntries]; omega)
  have hset : excess (PciController.dmaTransferBlocksQueued o.blocksQueued).2 = 0 :=
    continue_excess o.blocksQueued
  have hanswer : ∀ ok : Bool, excess [.answer ok] = 0 := fun ok => rfl
  have hacquired : excess [.acquire .acquired, .answer true] = -1 := rfl
  simp only [excess_append, hexcess, hset, hanswer, hacquired]
  rw [← hqueue]
  by_cases hall : queued.1 = 0
  · rw [if_pos hall, hissued, excess_append, hanswer]
    by_cases hmutex : o.command.mutex = .alreadyOwned
    · rw [if_pos hmutex]
      exact iff_of_true rfl ⟨hall, hmutex⟩
    · rw [if_neg hmutex, continue_excess]
      exact iff_of_false (by decide) fun h => hmutex h.2
  · rw [if_neg hall]
    exact iff_of_false (by decide) fun h => hall h.1

end Dma

/-! ### The calls -/

section Calls

variable (d : GenericDevice) (c : PciController) (r : Request) (o : TransferOutcomes)

/-- A request that is not refused is small enough for every command. -/
theorem blocks_of_accepted {d : GenericDevice} {r : Request} (h : d.refusal r = none) :
    r.numBlocks.toNat ≤ 256 ∧ r.numBlocks.toNat * 512 ≤ r.bufferLength.toNat := by
  unfold GenericDevice.refusal at h
  split_ifs at h with hbuffer hrange hmany hzero hshort hstatus
  have hfew : r.numBlocks.toNat ≤ 256 := by
    have hle := UInt64.not_lt.1 fun hgt => hmany (.inr hgt)
    simpa using UInt64.le_iff_toNat_le.1 hle
  refine ⟨hfew, ?_⟩
  have hlong := UInt64.le_iff_toNat_le.1 (UInt64.not_lt.1 hshort)
  rw [UInt64.toNat_mul] at hlong
  have hmod : r.numBlocks.toNat * (512 : UInt64).toNat % 2 ^ 64 = r.numBlocks.toNat * 512 := by
    have h512 : (512 : UInt64).toNat = 512 := rfl
    rw [h512]
    omega
  rwa [hmod] at hlong

theorem transferDma_reports_iff {a : Access} {command : Commands} (hcommand : DmaCommand a command)
    (hfew : r.numBlocks.toNat ≤ 256) :
    (d.transferDma a command c r o).ReportsFailure ↔ DmaSucceeds r o := by
  have hsize : ¬ r.numBlocks > 3840 := by
    rw [gt_iff_lt, UInt64.not_lt, UInt64.le_iff_toNat_le]
    exact hfew.trans (by decide)
  have hsound := attemptDma_sound_iff (d := d) (c := c) (o := o) hcommand (hfew.trans (by decide))
  rw [GenericDevice.transferDma, if_neg hsize]
  constructor
  · intro h
    exact hsound.1 (h.noError rfl)
  · intro h
    refine ⟨fun _ => hsound.2 h, (attemptDma_mutex_iff hcommand (hfew.trans (by decide))).2 ?_⟩
    exact fun _ => ⟨h.queue, h.issue⟩

/-- Without DMA the mutex is not used: what counts is the command's log when it succeeds. -/
theorem transferPio_reports_iff {a : Access} {command : Commands}
    (hlog : excess (c.issueCommand command r.numBlocks.toUInt16 r.bufferLength o.command).2 = 0) :
    (d.transferPio a command c r o).ReportsFailure ↔
      ((c.issueCommand command r.numBlocks.toUInt16 r.bufferLength o.command).1 = true →
        ∀ e ∈ (c.issueCommand command r.numBlocks.toUInt16 r.bufferLength o.command).2, e.Sound) := by
  rw [GenericDevice.transferPio]
  generalize c.issueCommand command r.numBlocks.toUInt16 r.bufferLength o.command = issued at hlog ⊢
  have hanswer : ∀ ok : Bool, excess (issued.2 ++ [.answer ok]) = 0 := by
    intro ok
    rw [excess_append, hlog]
    rfl
  by_cases hissued : issued.1 = true
  · simp only [if_pos hissued]
    have hflush : excess (if a = .write then d.flushCache c o.flush else []) = 0 := by
      split
      · exact flushCache_excess d c o.flush
      · rfl
    have hsound : (∀ e ∈ issued.2 ++ [.answer issued.1], e.Sound) ↔ ∀ e ∈ issued.2, e.Sound := by
      rw [sound_append, List.forall_mem_singleton]
      exact and_iff_left hissued
    constructor
    · intro h _
      exact hsound.1 (h.noError rfl)
    · intro h
      refine ⟨fun _ => hsound.2 (h hissued), mutexReleased_iff.2 ?_⟩
      rw [excess_append, hanswer, hflush, add_zero]
  · simp only [if_neg hissued]
    refine iff_of_true ⟨nofun, mutexReleased_iff.2 ?_⟩ fun h => absurd h hissued
    rw [List.append_nil, hanswer]

theorem pioRead_reports_iff {command : Commands} (hcommand : command = .read ∨ command = .readExt)
    (hfew : r.numBlocks.toNat ≤ 256) :
    (d.transferPio .read command c r o).ReportsFailure ↔ PioReadTold c r o := by
  have hcount : r.numBlocks.toUInt16.toNat = r.numBlocks.toNat := by
    rw [UInt64.toNat_toUInt16]
    omega
  have heq := @PciController.issueCommand_read c command r.numBlocks.toUInt16 r.bufferLength o.command
    hcommand (hcount.trans_le hfew)
  have hsectors := pioRead_sound_iff r.numBlocks.toUInt16 o.command.sectors
  rw [hcount] at hsectors
  rw [transferPio_reports_iff, heq, PioReadTold]
  · by_cases hfault : o.command.completion.Fault
    · rw [if_neg fun h => pollWait_iff.1 h hfault]
      exact iff_of_true (fun h => absurd h Bool.false_ne_true) (.inl hfault)
    rw [if_pos (pollWait_iff.2 hfault), or_iff_right hfault, imp_iff_right rfl, List.forall_mem_cons]
    refine and_congr Iff.rfl ?_
    by_cases hread : c.dmaTransferIsRead = true
    · rw [if_pos hread]
      exact iff_of_true (by simp) (.inl hread)
    · rw [if_neg hread, hsectors, or_iff_right hread]
  · rw [heq]
    split
    · rw [excess_polled]
      cases c.dmaTransferIsRead with
      | true => rfl
      | false => exact pioReadLoop_excess _ _
    · rfl

theorem pioWrite_reports_iff {command : Commands} (hcommand : command = .write ∨ command = .writeExt)
    (hfew : r.numBlocks.toNat ≤ 256) (hlong : r.numBlocks.toNat * 512 ≤ r.bufferLength.toNat) :
    (d.transferPio .write command c r o).ReportsFailure ↔ PioWriteTold r o := by
  have hcount : r.numBlocks.toUInt16.toNat = r.numBlocks.toNat := by
    rw [UInt64.toNat_toUInt16]
    omega
  have heq := @PciController.issueCommand_write c command r.numBlocks.toUInt16 r.bufferLength o.command
    hcommand (hcount.trans_le hfew) (by rwa [hcount])
  rw [hcount] at heq
  rw [transferPio_reports_iff, heq, PioWriteTold]
  · by_cases hfault : o.command.completion.Fault
    · rw [if_neg fun h => pollWait_iff.1 h hfault]
      exact iff_of_true (fun h => absurd h Bool.false_ne_true) (.inl hfault)
    rw [if_pos (pollWait_iff.2 hfault), or_iff_right hfault]
    by_cases hsome : ∃ k < r.numBlocks.toNat, (o.command.sectors k).Fault
    · refine iff_of_true (fun h => ?_) (.inl hsome)
      obtain ⟨k, hk, hk'⟩ := hsome
      exact absurd hk' ((pioWriteLoop_iff _ _).1 h k (List.mem_range.2 hk))
    · rw [or_iff_right hsome]
      have hdone : (pioWriteLoop o.command.sectors (List.range r.numBlocks.toNat)).1 = true :=
        (pioWriteLoop_iff _ _).2 fun k hk hk' => hsome ⟨k, List.mem_range.1 hk, hk'⟩
      rw [imp_iff_right hdone, List.forall_mem_cons, pioWriteLoop_sound_iff _ _ hdone]
      refine and_congr Iff.rfl ?_
      simp only [List.mem_range]
  · rw [heq]
    split
    · rw [excess_polled, pioWriteLoop_excess]
    · rfl

theorem refused_reports (e : ErrCode) (he : e ≠ .noError) :
    ({ result := e, controller := c } : Answer).ReportsFailure :=
  ⟨fun h => absurd h he, rfl⟩

theorem refusal_ne_noError {d : GenericDevice} {r : Request} {e : ErrCode} (h : d.refusal r = some e) :
    e ≠ .noError := by
  rintro rfl
  unfold GenericDevice.refusal at h
  split_ifs at h <;> cases h

/-- `result = ERR_CODE::NO_ERROR` after the attempt, `error_flag = 0` in the condition of the poll, a read
that does not tell of its polls: the calls report a failure exactly under `ReadTold` and `WriteTold`. -/
theorem transfers_report_iff :
    ((d.readBlocks c r o).ReportsFailure ↔ d.ReadTold c r o) ∧
      ((d.writeBlocks c r o).ReportsFailure ↔ d.WriteTold r o) := by
  unfold GenericDevice.readBlocks GenericDevice.writeBlocks GenericDevice.ReadTold GenericDevice.WriteTold
  cases hrefusal : d.refusal r with
  | some e =>
    have hreports := refused_reports c e (refusal_ne_noError hrefusal)
    exact ⟨iff_of_true hreports (.inl (by simp)), iff_of_true hreports (.inl (by simp))⟩
  | none =>
    obtain ⟨hfew, hlong⟩ := blocks_of_accepted hrefusal
    have hnone : ¬ (none : Option ErrCode) ≠ none := fun h => h rfl
    rw [or_iff_right hnone, or_iff_right hnone]
    cases d.dmaSupported with
    | true =>
      refine ⟨transferDma_reports_iff d c r o ?_ hfew, transferDma_reports_iff d c r o ?_ hfew⟩
      · cases d.lba48 <;> simp [DmaCommand, knownCommands]
      · cases d.lba48 <;> simp [DmaCommand, knownCommands]
    | false =>
      refine ⟨pioRead_reports_iff d c r o ?_ hfew, pioWrite_reports_iff d c r o ?_ hfew hlong⟩
      · cases d.lba48 <;> simp
      · cases d.lba48 <;> simp

/-- Every step goes well, and the drive completes the command with the error flag set. -/
def erroredRead : TransferOutcomes :=
  let settled : Poll := ⟨[0xD0], 0x51, by decide, by decide⟩
  let command : CommandOutcomes := ⟨.alreadyOwned, 0x51, settled, false, fun _ => settled⟩
  ⟨.acquired, fun _ => .alreadyOwned, .alreadyOwned, command, command⟩

theorem read_hides_error : ¬ (GenericDevice.readBlocks ⟨false, 100, true, .ok⟩ ⟨false, []⟩
    ⟨0, 1, 0x1000, 512⟩ erroredRead).ReportsFailure := by
  intro h
  have hcommand : DmaCommand .read .readDma := ⟨rfl, fun _ => rfl⟩
  have hall := (transferDma_reports_iff ⟨false, 100, true, .ok⟩ ⟨false, []⟩ ⟨0, 1, 0x1000, 512⟩ erroredRead
    hcommand (by decide)).1 h
  exact absurd hall.completion.1 (by decide)

/-- `flush_cache` reports nothing: a write ends the same whatever the flush meets. -/
theorem writeBlocks_flush_unreported (flush : CommandOutcomes) :
    (d.writeBlocks c r { o with flush := flush }).result = (d.writeBlocks c r o).result := by
  unfold GenericDevice.writeBlocks
  cases d.refusal r with
  | some e => rfl
  | none =>
    cases d.dmaSupported with
    | true =>
      simp only [GenericDevice.writeBlocksDma, GenericDevice.transferDma, if_true]
      by_cases hsize : r.numBlocks > 3840
      · rw [if_pos hsize, if_pos hsize]
      · rw [if_neg hsize, if_neg hsize]
    | false =>
      simp only [GenericDevice.writeBlocksPio, GenericDevice.transferPio, Bool.false_eq_true, if_false]
      cases (c.issueCommand (if d.lba48 = true then .writeExt else .write) r.numBlocks.toUInt16
        r.bufferLength o.command).1 <;> rfl

end Calls

end Azalea.Block.Ata
