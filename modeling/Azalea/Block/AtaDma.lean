import Azalea.Block.Ata
import Azalea.Support.Bytes

/-!
# Block — the bytes of a DMA transfer

`queue_dma_transfer_block` and `dma_read_sectors_to_buffers` of `ata::pci_controller`
(`devices/block/ata/controller/ata_pci_controller.cpp`), called by the thread that holds the DMA mutex, and
the loop of `ata::generic_device` that queues the parts of a transfer
(`devices/block/ata/ata_device.cpp`).  A transfer goes through a bounce buffer of one page, in which every
part has 64 kB to itself; between the queueing and the copying back the device goes through the PRD table.

* `dma_transfer_iff`: a write is right if its parts can all be queued.  A read is right if besides all
  parts but the last have 64 kB: the parts are copied back as if they lay one after the other.
* `blockLengths_fit`: such are the parts that `read_blocks_dma` queues.
-/

namespace Azalea.Block.Ata
open Azalea.Memory

/-- The number of bytes a length of 16 bits stands for. -/
def realByteLength (length : UInt16) : Nat := if length = 0 then 65536 else length.toNat

/-- `prd_table_entry`. -/
structure PrdTableEntry where
  regionPhysBaseAddr : UInt32
  byteCount : UInt16
  endOfTable : Bool

/-- `dma_transfer_block_details`. -/
structure DmaTransferBlockDetails where
  buffer : Nat
  bytesToTransfer : UInt16

/-- The part of `pci_controller` that deals with DMA.  The tables are those entries that are in use; the
page at `buffer_virt_addr` is a memory of its own, as the virtual and the physical address of it have the
same offsets. -/
structure DmaController where
  bufferPhysAddr : Nat
  bounce : Bytes
  prdTable : List PrdTableEntry
  transferBlockDetails : List DmaTransferBlockDetails
  dmaTransferIsRead : Bool

namespace DmaController

/-- `start_prepare_dma_transfer`, once the page has been allocated. -/
def startPrepareDmaTransfer (c : DmaController) (isRead : Bool) : DmaController :=
  { c with prdTable := [], transferBlockDetails := [], dmaTransferIsRead := isRead }

/-- `prd_table[num_prd_table_entries - 1].end_of_table = false`, if there is such an entry. -/
def clearLast (table : List PrdTableEntry) : List PrdTableEntry :=
  table.modify (table.length - 1) fun e => { e with endOfTable := false }

/-- `queue_dma_transfer_block`.  Nothing is returned if the address does not fit in 32 bits. -/
def queueDmaTransferBlock (memory : Bytes) (c : DmaController) (buffer : Nat) (bytesThisBlock : UInt16) :
    Option (Bool × DmaController) :=
  let n := c.prdTable.length
  if maxPrdTableEntries ≤ n then some (false, c)
  else
    let entryPhysPtr := c.bufferPhysAddr + 65536 * (n + 1)
    if entryPhysPtr < 2 ^ 32 then
      some (true, { c with
        bounce := if c.dmaTransferIsRead then c.bounce
          else blit c.bounce (65536 * (n + 1)) memory buffer (realByteLength bytesThisBlock)
        prdTable := clearLast c.prdTable ++ [⟨UInt32.ofNat entryPhysPtr, bytesThisBlock, true⟩]
        transferBlockDetails := c.transferBlockDetails ++ [⟨buffer, bytesThisBlock⟩] })
    else none

/-- The loop that queues the parts of a transfer, of the given lengths, up to one that is refused. -/
def queueParts (memory : Bytes) : Nat → List Nat → DmaController → Option (Bool × DmaController)
  | _, [], c => some (true, c)
  | buffer, length :: lengths, c => do
      let (ok, c) ← queueDmaTransferBlock memory c buffer (UInt16.ofNat length)
      if ok then queueParts memory (buffer + length) lengths c else some (false, c)

end DmaController

/-- What the loop of `read_blocks_dma` and `write_blocks_dma` queues: as many bytes at a time. -/
def blockLengths (blocksLeft : Nat) : List Nat :=
  if blocksLeft = 0 then []
  else
    let blocksThisPart := if blocksLeft > 128 then 128 else blocksLeft
    blocksThisPart * 512 :: blockLengths (blocksLeft - blocksThisPart)
termination_by blocksLeft
decreasing_by split <;> omega

/-- The loop of `dma_read_sectors_to_buffers`, with the bounce buffer from an offset on. -/
def copyBack (bounce : Bytes) : List DmaTransferBlockDetails → Nat → Bytes → Bytes
  | [], _, memory => memory
  | details :: rest, offset, memory =>
      let length := realByteLength details.bytesToTransfer
      copyBack bounce rest (offset + length) (blit memory details.buffer bounce offset length)

/-- `dma_read_sectors_to_buffers`. -/
def DmaController.dmaReadSectorsToBuffers (c : DmaController) (memory : Bytes) : Bytes :=
  copyBack c.bounce c.transferBlockDetails 65536 memory

/-! ### The device -/

/-- A device writes its data to the regions of a PRD table. -/
def deviceFills (base : Nat) (data : Bytes) : List PrdTableEntry → Nat → Bytes → Bytes
  | [], _, bounce => bounce
  | e :: table, pos, bounce =>
      let length := realByteLength e.byteCount
      let bounce := blit bounce (e.regionPhysBaseAddr.toNat - base) data pos length
      if e.endOfTable then bounce else deviceFills base data table (pos + length) bounce

/-- A device reads the regions of a PRD table. -/
def deviceReceives (base : Nat) (bounce : Bytes) : List PrdTableEntry → List UInt8
  | [] => []
  | e :: table =>
      (List.range (realByteLength e.byteCount)).map
          (fun k => bounce (e.regionPhysBaseAddr.toNat - base + k)) ++
        if e.endOfTable then [] else deviceReceives base bounce table

/-! ### Transfers -/

/-- The entries of a PRD table are as many as the parts, each with the length of its part and a region for
itself in the page, apart from where the table is. -/
structure TableRight (base : Nat) (lengths : List Nat) (table : List PrdTableEntry) : Prop where
  lengths : table.map (fun e => realByteLength e.byteCount) = lengths
  zero : ∀ e ∈ table, realByteLength e.byteCount = 65536 → e.byteCount = 0
  inPage : ∀ e ∈ table, base + 65536 ≤ e.regionPhysBaseAddr.toNat ∧
    e.regionPhysBaseAddr.toNat + realByteLength e.byteCount ≤ base + 2097152
  apart : table.Pairwise fun e e' =>
    e.regionPhysBaseAddr.toNat + realByteLength e.byteCount ≤ e'.regionPhysBaseAddr.toNat

/-- A read of parts of a buffer: whatever data the device has, the buffer receives it, and nothing else of
the memory changes. -/
def ReadsRight (c : DmaController) (memory : Bytes) (buffer : Nat) (lengths : List Nat) : Prop :=
  ∃ c', (c.startPrepareDmaTransfer true).queueParts memory buffer lengths = some (true, c') ∧
    TableRight c.bufferPhysAddr lengths c'.prdTable ∧
      ∀ data, { c' with bounce := deviceFills c.bufferPhysAddr data c'.prdTable 0 c'.bounce
        }.dmaReadSectorsToBuffers memory = blit memory buffer data 0 lengths.sum

/-- A write: the device receives the bytes of the buffer. -/
def WritesRight (c : DmaController) (memory : Bytes) (buffer : Nat) (lengths : List Nat) : Prop :=
  ∃ c', (c.startPrepareDmaTransfer false).queueParts memory buffer lengths = some (true, c') ∧
    TableRight c.bufferPhysAddr lengths c'.prdTable ∧
      deviceReceives c.bufferPhysAddr c'.bounce c'.prdTable =
        (List.range lengths.sum).map fun k => memory (buffer + k)

/-! ### What is queued -/

/-- The PRD table for the parts from the one with number `i` on. -/
def tableFrom (base : Nat) : Nat → List Nat → List PrdTableEntry
  | _, [] => []
  | i, length :: lengths =>
      ⟨UInt32.ofNat (base + 65536 * (i + 1)), UInt16.ofNat length, lengths.isEmpty⟩ ::
        tableFrom base (i + 1) lengths

/-- The details of consecutive parts of a buffer. -/
def detailsFrom : Nat → List Nat → List DmaTransferBlockDetails
  | _, [] => []
  | buffer, length :: lengths => ⟨buffer, UInt16.ofNat length⟩ :: detailsFrom (buffer + length) lengths

/-- Consecutive parts of a memory, each put at the start of its region. -/
def spread (source : Bytes) : Nat → Nat → List Nat → Bytes → Bytes
  | _, _, [], bounce => bounce
  | i, pos, length :: lengths, bounce =>
      spread source (i + 1) (pos + length) lengths (blit bounce (65536 * (i + 1)) source pos length)

/-- The lengths of parts: a part is neither empty nor longer than 64 kB. -/
def Parts (lengths : List Nat) : Prop := ∀ length ∈ lengths, 0 < length ∧ length ≤ 65536

section
variable {base i pos buffer length : Nat} {lengths : List Nat} {memory data bounce source : Bytes}
  {c c' : DmaController}

theorem Parts.tail (h : Parts (length :: lengths)) : Parts lengths := fun l hl =>
  h l (List.mem_cons_of_mem _ hl)

theorem Parts.realByteLength_head (h : Parts (length :: lengths)) :
    realByteLength (UInt16.ofNat length) = length := by
  obtain ⟨hpos, hle⟩ := h length List.mem_cons_self
  rcases Nat.lt_or_eq_of_le hle with hlt | rfl
  · have hcut : (UInt16.ofNat length).toNat = length := by
      rw [UInt16.toNat_ofNat']
      exact Nat.mod_eq_of_lt hlt
    have hne : UInt16.ofNat length ≠ 0 := fun h0 => by
      rw [h0] at hcut
      exact absurd hcut (by change 0 ≠ length; omega)
    rw [realByteLength, if_neg hne, hcut]
  · rfl

theorem modify_last {α : Type} (f : α → α) (xs : List α) (x : α) :
    (xs ++ [x]).modify xs.length f = xs ++ [f x] := by
  induction xs with
  | nil => rfl
  | cons y ys ih => rw [List.cons_append, List.length_cons, List.modify_succ_cons, ih, List.cons_append]

theorem clearLast_concat {table : List PrdTableEntry} {e : PrdTableEntry} :
    DmaController.clearLast (table ++ [e]) = table ++ [{ e with endOfTable := false }] := by
  rw [DmaController.clearLast, List.length_append, List.length_singleton, Nat.add_sub_cancel, modify_last]

theorem length_clearLast {table : List PrdTableEntry} :
    (DmaController.clearLast table).length = table.length := List.length_modify ..

/-- The controller with one more part. -/
def DmaController.withPart (memory : Bytes) (c : DmaController) (buffer length : Nat) : DmaController :=
  { c with
    bounce := if c.dmaTransferIsRead then c.bounce
      else blit c.bounce (65536 * (c.prdTable.length + 1)) memory buffer length
    prdTable := clearLast c.prdTable ++
      [⟨UInt32.ofNat (c.bufferPhysAddr + 65536 * (c.prdTable.length + 1)), UInt16.ofNat length, true⟩]
    transferBlockDetails := c.transferBlockDetails ++ [⟨buffer, UInt16.ofNat length⟩] }

/-- The controller with all the parts. -/
def DmaController.withParts (memory : Bytes) (c : DmaController) (buffer : Nat) (lengths : List Nat) :
    DmaController :=
  { c with
    bounce := if c.dmaTransferIsRead then c.bounce
      else spread memory c.prdTable.length buffer lengths c.bounce
    prdTable := clearLast c.prdTable ++ tableFrom c.bufferPhysAddr c.prdTable.length lengths
    transferBlockDetails := c.transferBlockDetails ++ detailsFrom buffer lengths }

theorem withPart_length : (c.withPart memory buffer length).prdTable.length = c.prdTable.length + 1 := by
  rw [DmaController.withPart, List.length_append, length_clearLast, List.length_singleton]

theorem withParts_cons {next : Nat} {rest : List Nat} :
    (c.withPart memory buffer length).withParts memory (buffer + length) (next :: rest) =
      c.withParts memory buffer (length :: next :: rest) := by
  rw [DmaController.withParts, withPart_length]
  simp only [DmaController.withPart, clearLast_concat, List.append_assoc, DmaController.withParts]
  rcases c with ⟨base, bounce, table, details, isRead⟩
  cases isRead <;> rfl

/-- A part for which there is room is queued. -/
theorem queueDmaTransferBlock_eq (hlen : realByteLength (UInt16.ofNat length) = length)
    (hroom : c.prdTable.length < 31) (hbase : c.bufferPhysAddr + 2097152 ≤ 2 ^ 32) :
    c.queueDmaTransferBlock memory buffer (UInt16.ofNat length) =
      some (true, c.withPart memory buffer length) := by
  have hlt : ¬ maxPrdTableEntries ≤ c.prdTable.length := by rw [maxPrdTableEntries]; omega
  rw [DmaController.queueDmaTransferBlock, if_neg hlt, if_pos (by omega), hlen]
  rfl

/-- Parts for which there is room are all queued. -/
theorem queueParts_eq (hparts : Parts lengths) (hroom : c.prdTable.length + lengths.length ≤ 31)
    (hbase : c.bufferPhysAddr + 2097152 ≤ 2 ^ 32) (hne : lengths ≠ []) :
    c.queueParts memory buffer lengths = some (true, c.withParts memory buffer lengths) := by
  induction lengths generalizing buffer c with
  | nil => exact absurd rfl hne
  | cons length lengths ih =>
      rw [List.length_cons] at hroom
      rw [DmaController.queueParts,
        queueDmaTransferBlock_eq hparts.realByteLength_head (by omega) hbase, Option.bind_eq_bind,
        Option.bind_some]
      dsimp only
      rw [if_pos rfl]
      cases lengths with
      | nil => rfl
      | cons next rest =>
          have hroom' : (c.withPart memory buffer length).prdTable.length + (next :: rest).length ≤ 31 := by
            rw [withPart_length]
            omega
          rw [@ih (buffer + length) _ hparts.tail hroom' hbase (List.cons_ne_nil _ _), withParts_cons]

/-- Where there is no room for all of them, one is refused. -/
theorem queueParts_refused (hparts : Parts lengths) (hroom : 31 < c.prdTable.length + lengths.length)
    (hfull : c.prdTable.length ≤ 31) (hbase : c.bufferPhysAddr + 2097152 ≤ 2 ^ 32) :
    ∃ c', c.queueParts memory buffer lengths = some (false, c') := by
  induction lengths generalizing buffer c with
  | nil => exact absurd hroom (Nat.not_lt.mpr hfull)
  | cons length lengths ih =>
      rw [List.length_cons] at hroom
      rw [DmaController.queueParts]
      rcases Nat.lt_or_eq_of_le hfull with hlt | heq
      · rw [queueDmaTransferBlock_eq hparts.realByteLength_head hlt hbase]
        exact @ih (buffer + length) (c.withPart memory buffer length) hparts.tail
          (by rw [withPart_length]; omega) (by rw [withPart_length]; omega) hbase
      · rw [DmaController.queueDmaTransferBlock, if_pos (by rw [heq]; decide)]
        exact ⟨c, rfl⟩

/-! ### The table -/

theorem region_toNat (hbase : base + 2097152 ≤ 2 ^ 32) (hi : i ≤ 30) :
    (UInt32.ofNat (base + 65536 * (i + 1))).toNat = base + 65536 * (i + 1) := by
  rw [UInt32.toNat_ofNat']
  exact Nat.mod_eq_of_lt (by omega)

theorem mem_tableFrom {e : PrdTableEntry} (hbase : base + 2097152 ≤ 2 ^ 32)
    (hroom : i + lengths.length ≤ 31) (he : e ∈ tableFrom base i lengths) :
    ∃ j, i ≤ j ∧ j ≤ 30 ∧ e.regionPhysBaseAddr.toNat = base + 65536 * (j + 1) := by
  induction lengths generalizing i with
  | nil => cases he
  | cons length lengths ih =>
      rw [List.length_cons] at hroom
      rcases List.mem_cons.mp he with rfl | he
      · exact ⟨i, Nat.le_refl i, by omega, region_toNat hbase (by omega)⟩
      · obtain ⟨j, hj, hle, hregion⟩ := ih (by omega) he
        exact ⟨j, by omega, hle, hregion⟩

theorem realByteLength_le (n : UInt16) : realByteLength n ≤ 65536 := by
  unfold realByteLength
  split
  · exact Nat.le_refl _
  · exact Nat.le_of_lt n.toNat_lt

theorem realByteLength_eq_max {n : UInt16} (h : realByteLength n = 65536) : n = 0 := by
  unfold realByteLength at h
  split at h
  next hzero => exact hzero
  next => exact absurd h (Nat.ne_of_lt n.toNat_lt)

theorem tableFrom_apart (hbase : base + 2097152 ≤ 2 ^ 32) (hroom : i + lengths.length ≤ 31) :
    (tableFrom base i lengths).Pairwise fun e e' =>
      e.regionPhysBaseAddr.toNat + realByteLength e.byteCount ≤ e'.regionPhysBaseAddr.toNat := by
  induction lengths generalizing i with
  | nil => exact .nil
  | cons length lengths ih =>
      rw [List.length_cons] at hroom
      refine List.pairwise_cons.mpr ⟨fun e' he' => ?_, ih (by omega)⟩
      obtain ⟨j, hj, -, hregion⟩ := mem_tableFrom hbase (by omega) he'
      have hle := realByteLength_le (UInt16.ofNat length)
      rw [region_toNat hbase (by omega), hregion]
      dsimp only
      omega

theorem tableFrom_lengths (hparts : Parts lengths) :
    (tableFrom base i lengths).map (fun e => realByteLength e.byteCount) = lengths := by
  induction lengths generalizing i with
  | nil => rfl
  | cons length lengths ih => rw [tableFrom, List.map_cons, hparts.realByteLength_head, ih hparts.tail]

theorem tableFrom_right (hparts : Parts lengths) (hbase : base + 2097152 ≤ 2 ^ 32)
    (hroom : lengths.length ≤ 31) : TableRight base lengths (tableFrom base 0 lengths) := by
  refine ⟨tableFrom_lengths hparts, fun e _ => realByteLength_eq_max, fun e he => ?_,
    tableFrom_apart hbase (by omega)⟩
  obtain ⟨j, -, hj, hregion⟩ := mem_tableFrom hbase (by omega) he
  have hle := realByteLength_le e.byteCount
  rw [hregion]
  omega

/-! ### The data -/

/-- Below the first region nothing changes. -/
theorem spread_below {x : Nat} (hx : x < 65536 * (i + 1)) :
    spread source i pos lengths bounce x = bounce x := by
  induction lengths generalizing i pos bounce with
  | nil => rfl
  | cons length lengths ih =>
      rw [spread, ih (by omega)]
      exact blit_of_not_mem (by omega)

/-- A part is at the start of its region. -/
theorem spread_head {k : Nat} (hle : length ≤ 65536) (hk : k < length) :
    spread source i pos (length :: lengths) bounce (65536 * (i + 1) + k) = source (pos + k) := by
  rw [spread, spread_below (by omega), blit_of_mem hk]

theorem deviceFills_eq (hparts : Parts lengths) (hbase : base + 2097152 ≤ 2 ^ 32)
    (hroom : i + lengths.length ≤ 31) :
    deviceFills base data (tableFrom base i lengths) pos bounce = spread data i pos lengths bounce := by
  induction lengths generalizing i pos bounce with
  | nil => rfl
  | cons length lengths ih =>
      rw [List.length_cons] at hroom
      rw [tableFrom, deviceFills, spread]
      dsimp only
      rw [region_toNat hbase (by omega), Nat.add_sub_cancel_left, hparts.realByteLength_head,
        ih hparts.tail (by omega)]
      cases lengths <;> rfl

theorem deviceReceives_eq (hparts : Parts lengths) (hbase : base + 2097152 ≤ 2 ^ 32)
    (hroom : i + lengths.length ≤ 31) :
    deviceReceives base (spread memory i buffer lengths bounce) (tableFrom base i lengths) =
      (List.range lengths.sum).map fun k => memory (buffer + k) := by
  induction lengths generalizing i buffer bounce with
  | nil => rfl
  | cons length lengths ih =>
      rw [List.length_cons] at hroom
      have hle := (hparts length List.mem_cons_self).2
      have hregion : (UInt32.ofNat (base + 65536 * (i + 1))).toNat - base = 65536 * (i + 1) := by
        rw [region_toNat hbase (by omega), Nat.add_sub_cancel_left]
      have hhead : (List.range length).map (fun k =>
          spread memory i buffer (length :: lengths) bounce (65536 * (i + 1) + k)) =
          (List.range length).map fun k => memory (buffer + k) :=
        List.map_congr_left fun k hk => spread_head hle (List.mem_range.mp hk)
      rw [tableFrom, deviceReceives]
      dsimp only
      rw [hparts.realByteLength_head, hregion, hhead, List.sum_cons, List.range_add, List.map_append,
        List.map_map, spread, ih hparts.tail (by omega)]
      simp only [Function.comp_def, Nat.add_assoc]
      cases lengths <;> rfl

/-- Two copies that follow each other. -/
theorem blit_append {memory source : Bytes} {d p m n : Nat} :
    blit (blit memory d source p m) (d + m) source (p + m) n = blit memory d source p (m + n) := by
  funext x
  unfold blit
  by_cases hlow : d ≤ x ∧ x < d + m
  · rw [if_neg (by omega), if_pos hlow, if_pos (by omega)]
  · rw [if_neg hlow]
    by_cases hhigh : d + m ≤ x ∧ x < d + m + n
    · rw [if_pos hhigh, if_pos (by omega)]
      congr 1
      omega
    · rw [if_neg hhigh, if_neg (by omega)]

/-- What is copied is what is there. -/
theorem blit_congr {memory source source' : Bytes} {d p p' n : Nat}
    (h : ∀ k < n, source (p + k) = source' (p' + k)) :
    blit memory d source p n = blit memory d source' p' n := by
  funext x
  unfold blit
  split
  next hin => exact h (x - d) (by omega)
  next => rfl

/-- Parts of 64 kB are copied back from where the device has put them. -/
theorem copyBack_eq (hparts : Parts lengths) (hfull : ∀ length ∈ lengths.dropLast, length = 65536) :
    copyBack (spread data i pos lengths bounce) (detailsFrom buffer lengths) (65536 * (i + 1)) memory =
      blit memory buffer data pos lengths.sum := by
  induction lengths generalizing i pos buffer bounce memory with
  | nil => exact blit_zero.symm
  | cons length lengths ih =>
      have hle := (hparts length List.mem_cons_self).2
      rw [detailsFrom, copyBack]
      dsimp only
      rw [hparts.realByteLength_head, @blit_congr memory _ data buffer _ pos length fun k hk => spread_head hle hk]
      cases lengths with
      | nil => rfl
      | cons next rest =>
          have hlength : length = 65536 := hfull length List.mem_cons_self
          have hnext : 65536 * (i + 1) + length = 65536 * (i + 1 + 1) := by omega
          rw [spread, hnext, ih hparts.tail fun l hl => hfull l (List.mem_cons_of_mem _ hl), blit_append]
          rfl

/-- The memory below the buffer is not written. -/
theorem copyBack_below {offset x : Nat} (hx : x < buffer) :
    copyBack bounce (detailsFrom buffer lengths) offset memory x = memory x := by
  induction lengths generalizing buffer offset memory with
  | nil => rfl
  | cons length lengths ih =>
      rw [detailsFrom, copyBack, ih (by omega)]
      dsimp only
      exact blit_of_not_mem (by omega)

/-- After a part that is shorter, what is copied back as the first byte of the next one has been in the
bounce buffer before. -/
theorem copyBack_stale (hparts : Parts lengths) (hshort : ¬ ∀ length ∈ lengths.dropLast, length = 65536) :
    ∃ k < lengths.sum, ∃ x, 65536 * (i + 1) ≤ x ∧ ∀ data pos bounce buffer memory,
      copyBack (spread data i pos lengths bounce) (detailsFrom buffer lengths) (65536 * (i + 1)) memory
        (buffer + k) = bounce x := by
  induction lengths generalizing i with
  | nil => exact absurd (fun _ h => absurd h List.not_mem_nil) hshort
  | cons length lengths ih =>
      cases lengths with
      | nil => exact absurd (fun _ h => absurd h List.not_mem_nil) hshort
      | cons next rest =>
          obtain ⟨hpos, hle⟩ := hparts length List.mem_cons_self
          obtain ⟨hnext, -⟩ := hparts.tail next List.mem_cons_self
          by_cases hfull : length = 65536
          · have htail : ¬ ∀ l ∈ (next :: rest).dropLast, l = 65536 := fun h =>
              hshort (List.forall_mem_cons.mpr ⟨hfull, h⟩)
            obtain ⟨k, hk, x, hx, hstale⟩ := @ih (i + 1) hparts.tail htail
            refine ⟨length + k, by rw [List.sum_cons]; omega, x, by omega, ?_⟩
            intro data pos bounce buffer memory
            have hoffset : 65536 * (i + 1) + length = 65536 * (i + 1 + 1) := by omega
            rw [detailsFrom, copyBack, spread, hparts.realByteLength_head, ← Nat.add_assoc]
            dsimp only
            rw [hoffset, hstale]
            exact blit_of_not_mem (by omega)
          · refine ⟨length, by rw [List.sum_cons, List.sum_cons]; omega, 65536 * (i + 1) + length,
              Nat.le_add_right _ _, ?_⟩
            intro data pos bounce buffer memory
            rw [detailsFrom, copyBack, detailsFrom, copyBack, spread, hparts.realByteLength_head,
              hparts.tail.realByteLength_head]
            dsimp only
            rw [copyBack_below (by omega)]
            have hfirst : ∀ (m source : Bytes) (d p : Nat), blit m d source p next d = source p := by
              intro m source d p
              exact blit_of_mem (i := 0) hnext
            rw [hfirst, spread_below (by omega)]
            exact blit_of_not_mem (by omega)

/-! ### Transfers -/

/-- What is queued for a transfer, if there is room for its parts. -/
theorem queueParts_start {isRead : Bool} (hparts : Parts lengths) (hroom : lengths.length ≤ 31)
    (hbase : c.bufferPhysAddr + 2097152 ≤ 2 ^ 32) :
    ∃ c', (c.startPrepareDmaTransfer isRead).queueParts memory buffer lengths = some (true, c') ∧
      c'.bounce = (if isRead then c.bounce else spread memory 0 buffer lengths c.bounce) ∧
      c'.prdTable = tableFrom c.bufferPhysAddr 0 lengths ∧
      c'.transferBlockDetails = detailsFrom buffer lengths := by
  by_cases hne : lengths = []
  · subst hne
    refine ⟨_, rfl, ?_, rfl, rfl⟩
    cases isRead <;> rfl
  · refine ⟨_, queueParts_eq hparts ?_ hbase hne, ?_, rfl, rfl⟩
    · rw [DmaController.startPrepareDmaTransfer, List.length_nil, Nat.zero_add]
      exact hroom
    · cases isRead <;> rfl

/-- If there is none, they are not all queued. -/
theorem room_of_queueParts {isRead : Bool} (hparts : Parts lengths)
    (hbase : c.bufferPhysAddr + 2097152 ≤ 2 ^ 32)
    (h : (c.startPrepareDmaTransfer isRead).queueParts memory buffer lengths = some (true, c')) :
    lengths.length ≤ 31 := by
  refine Nat.le_of_not_lt fun hmore => ?_
  obtain ⟨c'', h'⟩ := @queueParts_refused buffer lengths memory (c.startPrepareDmaTransfer isRead) hparts
    (by rw [DmaController.startPrepareDmaTransfer, List.length_nil, Nat.zero_add]; exact hmore)
    (Nat.zero_le 31) hbase
  rw [h] at h'
  cases h'

theorem writesRight_iff (hparts : Parts lengths) (hbase : c.bufferPhysAddr + 2097152 ≤ 2 ^ 32) :
    WritesRight c memory buffer lengths ↔ lengths.length ≤ 31 := by
  constructor
  · rintro ⟨c', h, -⟩
    exact room_of_queueParts hparts hbase h
  · intro hroom
    obtain ⟨c', h, hbounce, htable, -⟩ :=
      @queueParts_start buffer lengths memory c false hparts hroom hbase
    refine ⟨c', h, htable ▸ tableFrom_right hparts hbase hroom, ?_⟩
    rw [hbounce, htable, if_neg (by decide), deviceReceives_eq hparts hbase (by omega)]

theorem readsRight_iff (hparts : Parts lengths) (hbase : c.bufferPhysAddr + 2097152 ≤ 2 ^ 32) :
    ReadsRight c memory buffer lengths ↔
      lengths.length ≤ 31 ∧ ∀ length ∈ lengths.dropLast, length = 65536 := by
  constructor
  · rintro ⟨c', h, -, hreads⟩
    have hroom := room_of_queueParts hparts hbase h
    refine ⟨hroom, Classical.byContradiction fun hshort => ?_⟩
    obtain ⟨c'', h', hbounce, htable, hdetails⟩ :=
      @queueParts_start buffer lengths memory c true hparts hroom hbase
    obtain ⟨-, rfl⟩ := Prod.mk.inj (Option.some.inj (h.symm.trans h'))
    obtain ⟨k, hk, x, -, hstale⟩ := @copyBack_stale 0 lengths hparts hshort
    -- The device has something else than the bounce buffer had.
    have hread := congrFun (hreads fun _ => c.bounce x + 1) (buffer + k)
    rw [DmaController.dmaReadSectorsToBuffers, htable, hdetails, hbounce, if_pos rfl,
      deviceFills_eq hparts hbase (by omega), hstale, blit_of_mem hk] at hread
    exact absurd hread (by simp)
  · rintro ⟨hroom, hfull⟩
    obtain ⟨c', h, hbounce, htable, hdetails⟩ :=
      @queueParts_start buffer lengths memory c true hparts hroom hbase
    refine ⟨c', h, htable ▸ tableFrom_right hparts hbase hroom, fun data => ?_⟩
    rw [DmaController.dmaReadSectorsToBuffers, htable, hdetails, hbounce, if_pos rfl,
      deviceFills_eq hparts hbase (by omega)]
    exact copyBack_eq hparts hfull

end

/-! ### The parts of the driver -/

theorem blockLengths_succ {n : Nat} (hn : 0 < n) :
    blockLengths n = min n 128 * 512 :: blockLengths (n - min n 128) := by
  rw [blockLengths, if_neg (by omega)]
  split
  next h => rw [Nat.min_eq_right (by omega)]
  next h => rw [Nat.min_eq_left (by omega)]

/-- The parts that are queued for so many blocks are the blocks, and all but the last have 64 kB. -/
theorem blockLengths_fit (n : Nat) : Parts (blockLengths n) ∧ (blockLengths n).sum = 512 * n ∧
    (blockLengths n).length * 128 < n + 128 ∧ ∀ length ∈ (blockLengths n).dropLast, length = 65536 := by
  induction n using Nat.strong_induction_on with
  | _ n ih =>
      rcases Nat.eq_zero_or_pos n with rfl | hn
      · rw [blockLengths, if_pos rfl]
        exact ⟨fun _ h => absurd h List.not_mem_nil, rfl, by decide, fun _ h => absurd h List.not_mem_nil⟩
      · obtain ⟨hparts, hsum, hlength, hfull⟩ := ih (n - min n 128) (by omega)
        rw [blockLengths_succ hn, List.sum_cons, List.length_cons, hsum]
        refine ⟨List.forall_mem_cons.mpr ⟨by omega, hparts⟩, by omega, by omega, ?_⟩
        by_cases hlast : n ≤ 128
        · have hdone : blockLengths (n - min n 128) = [] := by
            rw [Nat.min_eq_left hlast, Nat.sub_self, blockLengths, if_pos rfl]
          rw [hdone]
          exact fun _ h => absurd h List.not_mem_nil
        · have hrest : blockLengths (n - min n 128) ≠ [] := by
            rw [blockLengths_succ (by omega)]
            exact List.cons_ne_nil _ _
          rw [List.dropLast_cons_of_ne_nil hrest]
          exact List.forall_mem_cons.mpr ⟨by omega, hfull⟩

/-- **A transfer by DMA**, through a page below 4 GB, of parts that are neither empty nor longer than 64 kB:
a write is right if and only if there are at most 31 parts.  A read is right if and only if besides all
parts but the last have 64 kB, as those have that the driver queues for any number of blocks it admits. -/
theorem dma_transfer_iff (c : DmaController) (memory : Bytes) (buffer : Nat)
    (hbase : c.bufferPhysAddr + 2097152 ≤ 2 ^ 32) :
    (∀ lengths, Parts lengths →
      (WritesRight c memory buffer lengths ↔ lengths.length ≤ 31) ∧
      (ReadsRight c memory buffer lengths ↔
        lengths.length ≤ 31 ∧ ∀ length ∈ lengths.dropLast, length = 65536)) ∧
    ∀ n ≤ 3840, (blockLengths n).sum = 512 * n ∧ WritesRight c memory buffer (blockLengths n) ∧
      ReadsRight c memory buffer (blockLengths n) := by
  refine ⟨fun lengths hparts => ⟨writesRight_iff hparts hbase, readsRight_iff hparts hbase⟩, ?_⟩
  intro n hn
  obtain ⟨hparts, hsum, hlength, hfull⟩ := blockLengths_fit n
  have hroom : (blockLengths n).length ≤ 31 := by omega
  exact ⟨hsum, (writesRight_iff hparts hbase).mpr hroom, (readsRight_iff hparts hbase).mpr ⟨hroom, hfull⟩⟩

/-- A controller with its page at 4 MB, which is all zero. -/
def idleController : DmaController := ⟨0x400000, fun _ => 0, [], [], false⟩

theorem dma_transfer_blocks : ReadsRight idleController (fun _ => 0) 0 (blockLengths 200) :=
  ((dma_transfer_iff idleController (fun _ => 0) 0 (by decide)).2 200 (by decide)).2.2

/-- Two blocks queued one by one: the second is not received. -/
theorem dma_transfer_fails : Parts [512, 512] ∧ ¬ ReadsRight idleController (fun _ => 0) 0 [512, 512] := by
  have hparts : Parts [512, 512] := by unfold Parts; decide
  exact ⟨hparts, fun h => absurd (((readsRight_iff hparts (by decide)).mp h).2 512 (by decide)) (by decide)⟩

end Azalea.Block.Ata
