import Azalea.Support.Bytes
import Azalea.Syscall.Validation

/-!
# User — loading an ELF file

The loader of libazalea (`user/libs/libazalea/processes/elf.cpp`).  It reads the headers of a file, and each
segment into memory of its own, which it then maps in the new process.  What the system calls answer is given:
for each a code, and for a read how many bytes it is ready to give.  `syscall_map_memory` refuses pages that are
mapped already.

* `loadElfFile_eq_noError_iff`: when the loader reports success.
* `loadsRight_iff`: the new process then has all segments, if and only if the read of each was complete, which
  the loader does not make sure of, and each takes less than 4 GB.
-/

namespace Azalea.User.Elf
open Azalea.Memory
open Azalea.Syscall (ErrCode)

/-! ### The file -/

/-- The fields of `elf64_file_header` that are read. -/
structure FileHeader where
  ident : Nat → UInt8
  type : UInt16
  version : UInt32
  entryAddr : UInt64
  progHdrsOff : UInt64
  fileHeaderSize : UInt16
  progHdrEntrySize : UInt16
  numProgHdrs : UInt16

/-- The file header at the start of a file. -/
def fileHeader (file : Bytes) : FileHeader where
  ident := file
  type := UInt16.ofNat (load file 16 2)
  version := UInt32.ofNat (load file 20 4)
  entryAddr := UInt64.ofNat (load file 24 8)
  progHdrsOff := UInt64.ofNat (load file 32 8)
  fileHeaderSize := UInt16.ofNat (load file 52 2)
  progHdrEntrySize := UInt16.ofNat (load file 54 2)
  numProgHdrs := UInt16.ofNat (load file 56 2)

/-- The fields of `elf64_program_header` that are read. -/
structure ProgramHeader where
  type : UInt32
  fileOffset : UInt64
  reqVirtAddr : UInt64
  reqPhysAddr : UInt64
  sizeInFile : UInt64
  sizeInMem : UInt64

/-- `prog_header_offset`. -/
def progHeaderOffset (header : FileHeader) (index : Nat) : UInt64 :=
  header.progHdrsOff + UInt64.ofNat (index * header.progHdrEntrySize.toNat)

/-- A program header of a file. -/
def programHeader (file : Bytes) (index : Nat) : ProgramHeader :=
  let offset := (progHeaderOffset (fileHeader file) index).toNat
  { type := UInt32.ofNat (load file offset 4)
    fileOffset := UInt64.ofNat (load file (offset + 8) 8)
    reqVirtAddr := UInt64.ofNat (load file (offset + 16) 8)
    reqPhysAddr := UInt64.ofNat (load file (offset + 24) 8)
    sizeInFile := UInt64.ofNat (load file (offset + 32) 8)
    sizeInMem := UInt64.ofNat (load file (offset + 40) 8) }

/-! ### The system calls -/

/-- A read: its code, and the number of bytes that can be had. -/
structure ReadResult where
  code : ErrCode
  available : Nat

/-- The bytes that are read: no more than are asked for, or than there is room for. -/
def ReadResult.bytesRead (r : ReadResult) (bytesToRead bufferSize : UInt64) : Nat :=
  min r.available (min bytesToRead.toNat bufferSize.toNat)

/-- The calls for a program header. -/
structure HeaderResults where
  seek : ErrCode
  read : ReadResult

/-- The calls for a segment, and what is in the memory that is allocated. -/
structure SegmentResults where
  allocate : ErrCode
  contents : Bytes
  seek : ErrCode
  read : ReadResult
  map : ErrCode
  release : ErrCode

/-- What all system calls answer, those of the loop by the index of the program header. -/
structure Results where
  seek : ErrCode
  read : ReadResult
  dataLen : ErrCode
  elfFileSize : UInt64
  header : Nat → HeaderResults
  segment : Nat → SegmentResults

/-- The memory of the new process: its pages, by number, that are mapped. -/
abbrev Child := Nat → Option Bytes

/-- `MEM_PAGE_SIZE`. -/
def pageSize : Nat := 2097152

/-- `count` pages from a page on are mapped to a block of memory. -/
def Child.mapPages (child : Child) (first count : Nat) (block : Bytes) : Child := fun p =>
  if first ≤ p ∧ p < first + count then some fun k => block ((p - first) * pageSize + k) else child p

/-- None of these pages is mapped. -/
def Child.Free (child : Child) (first count : Nat) : Prop := ∀ i < count, child (first + i) = none

instance (child : Child) (first count : Nat) : Decidable (child.Free first count) :=
  inferInstanceAs (Decidable (∀ i < count, child (first + i) = none))

/-- The byte at an address. -/
def Child.byte (child : Child) (a : Nat) : Option UInt8 := (child (a / pageSize)).map fun page => page (a % pageSize)

/-! ### The source -/

/-- `proc_read_elf_file_header`. -/
def readFileHeader (r : Results) (file : Bytes) : ErrCode :=
  let header := fileHeader file
  if r.seek ≠ .noError then r.seek
  else if r.read.code ≠ .noError ∨ r.read.bytesRead 64 64 ≠ 64 then .unrecognised
  else if r.dataLen ≠ .noError then r.dataLen
  else if ¬ (header.ident 0 = 0x7F ∧ header.ident 1 = 69 ∧ header.ident 2 = 76 ∧ header.ident 3 = 70) ∨
      header.ident 4 ≠ 2 ∨ header.ident 5 ≠ 1 ∨ header.ident 6 ≠ 1 ∨ header.type ≠ 2 ∨ header.version ≠ 1 ∨
      ¬ (header.progHdrsOff > 0 ∧ header.progHdrsOff < r.elfFileSize - 56) ∨ header.numProgHdrs = 0 ∨
      header.entryAddr ≥ 0x8000000000000000 ∨ header.fileHeaderSize < 64 ∨ header.progHdrEntrySize < 56 then
    .unrecognised
  else .noError

/-- `proc_read_elf_prog_header`. -/
def readProgHeader (r : HeaderResults) : ErrCode :=
  if r.seek ≠ .noError then r.seek
  else if r.read.code ≠ .noError then r.read.code
  else if r.read.bytesRead 56 56 ≠ 56 then .unrecognised
  else .noError

/-- `page_start_addr`. -/
def pageStartAddr (hdr : ProgramHeader) : UInt64 := hdr.reqVirtAddr - hdr.reqVirtAddr % 2097152

/-- `offset`. -/
def pageOffset (hdr : ProgramHeader) : UInt64 := hdr.reqVirtAddr % 2097152

/-- `pages_reqd`, which has 32 bits. -/
def pagesReqd (hdr : ProgramHeader) : UInt32 :=
  ((hdr.reqVirtAddr + hdr.sizeInMem - pageStartAddr hdr) / 2097152 + 1).toUInt32

/-- `pages_reqd * MEM_PAGE_SIZE`, which has 32 bits, too. -/
def mapLength (hdr : ProgramHeader) : UInt64 := (pagesReqd hdr * 2097152).toUInt64

/-- `bytes_written`. -/
def bytesWritten (r : SegmentResults) (hdr : ProgramHeader) : Nat :=
  r.read.bytesRead hdr.sizeInFile (mapLength hdr - pageOffset hdr)

/-- The memory that is allocated, after `memset` and the read. -/
def segmentBlock (r : SegmentResults) (file : Bytes) (hdr : ProgramHeader) : Bytes :=
  blit (blit r.contents (pageOffset hdr).toNat (fun _ => 0) 0 hdr.sizeInMem.toNat) (pageOffset hdr).toNat file
    hdr.fileOffset.toNat (bytesWritten r hdr)

/-- So many bytes from the offset on are in the memory that is allocated. -/
def Fits (hdr : ProgramHeader) (length : Nat) : Prop :=
  (pageOffset hdr).toNat + length ≤ (pagesReqd hdr).toNat * pageSize

instance (hdr : ProgramHeader) (length : Nat) : Decidable (Fits hdr length) :=
  inferInstanceAs (Decidable (_ ≤ _))

/-- `syscall_map_memory`. -/
def mapMemory (code : ErrCode) (hdr : ProgramHeader) (block : Bytes) (child : Child) : ErrCode × Child :=
  let first := (pageStartAddr hdr).toNat / pageSize
  let count := (mapLength hdr).toNat / pageSize
  if code ≠ .noError then (code, child)
  else if child.Free first count then (.noError, child.mapPages first count block)
  else (.invalidOp, child)

/-- `proc_load_elf_load_segment`.  What it finds about `req_phys_addr` and about a short read is overwritten by
the result of the next call.  Nothing is returned if something outside of the memory is written. -/
def loadSegment (r : SegmentResults) (file : Bytes) (hdr : ProgramHeader) (child : Child) :
    Option (ErrCode × Child) :=
  if r.allocate ≠ .noError then some (r.allocate, child)
  else if ¬ Fits hdr hdr.sizeInMem.toNat then none
  else if r.seek ≠ .noError then some (r.seek, child)
  else if r.read.code ≠ .noError then some (r.read.code, child)
  else if ¬ Fits hdr (bytesWritten r hdr) then none
  else
    let mapped := mapMemory r.map hdr (segmentBlock r file hdr) child
    if mapped.1 ≠ .noError then some mapped
    else if r.release ≠ .noError then
      some (if r.release = .notFound then .invalidOp else r.release, mapped.2)
    else some (.noError, mapped.2)

/-- The loop of `load_elf_file_in_process`, for so many more program headers. -/
def loadSections (r : Results) (file : Bytes) : Nat → Nat → Child → Option (ErrCode × Child)
  | 0, _, child => some (.noError, child)
  | n + 1, i, child =>
      if readProgHeader (r.header i) ≠ .noError then some (readProgHeader (r.header i), child)
      else if (programHeader file i).type = 1 then
        (loadSegment (r.segment i) file (programHeader file i) child).bind fun loaded =>
          if loaded.1 ≠ .noError then some loaded else loadSections r file n (i + 1) loaded.2
      else loadSections r file n (i + 1) child

/-- `load_elf_file_in_process`. -/
def loadElfFile (r : Results) (file : Bytes) (child : Child) : Option (ErrCode × Child) :=
  if readFileHeader r file ≠ .noError then some (readFileHeader r file, child)
  else loadSections r file (fileHeader file).numProgHdrs.toNat 0 child

/-! ### What is expected -/

/-- The bytes of a segment: those of the file, and then zeroes. -/
def segmentByte (file : Bytes) (hdr : ProgramHeader) (k : Nat) : UInt8 :=
  if k < hdr.sizeInFile.toNat then file (hdr.fileOffset.toNat + k) else 0

/-- A segment was read completely, the pages that were mapped are all that it needs, and the new process has its
bytes. -/
structure SegmentRight (r : SegmentResults) (file : Bytes) (hdr : ProgramHeader) (child : Child) : Prop where
  read : r.read.code = .noError ∧ bytesWritten r hdr = hdr.sizeInFile.toNat
  mapped : ∀ k < hdr.sizeInMem.toNat,
    (hdr.reqVirtAddr.toNat + k) / pageSize < (pageStartAddr hdr).toNat / pageSize + (mapLength hdr).toNat / pageSize
  bytes : ∀ k < max hdr.sizeInFile.toNat hdr.sizeInMem.toNat,
    child.byte (hdr.reqVirtAddr.toNat + k) = some (segmentByte file hdr k)

/-- Success is reported only if every header was read completely, and every segment that is to be loaded is in the
memory of the new process. -/
def LoadsRight (r : Results) (file : Bytes) (child : Child) : Prop :=
  ∀ child', loadElfFile r file child = some (.noError, child') →
    (r.read.code = .noError ∧ r.read.bytesRead 64 64 = 64) ∧
    ∀ i < (fileHeader file).numProgHdrs.toNat,
      ((r.header i).read.code = .noError ∧ (r.header i).read.bytesRead 56 56 = 56) ∧
      ((programHeader file i).type = 1 → SegmentRight (r.segment i) file (programHeader file i) child')

/-! ### Success -/

/-- The pages of a segment: the first, and how many are mapped. -/
def firstPage (hdr : ProgramHeader) : Nat := (pageStartAddr hdr).toNat / pageSize

def pageCount (hdr : ProgramHeader) : Nat := (mapLength hdr).toNat / pageSize

/-- All calls for a segment are successful, and what is written fits. -/
structure SegmentSucceeds (r : SegmentResults) (hdr : ProgramHeader) (child : Child) : Prop where
  allocate : r.allocate = .noError
  zeroed : Fits hdr hdr.sizeInMem.toNat
  seek : r.seek = .noError
  read : r.read.code = .noError
  fits : Fits hdr (bytesWritten r hdr)
  map : r.map = .noError
  free : child.Free (firstPage hdr) (pageCount hdr)
  release : r.release = .noError

section
variable {r : Results} {file : Bytes} {child child' : Child} {hdr : ProgramHeader} {s : SegmentResults}

/-- A call that fails ends the function. -/
theorem stop_iff {code : ErrCode} {rest : Option (ErrCode × Child)} :
    (if code ≠ .noError then some (code, child) else rest) = some (.noError, child') ↔
      code = .noError ∧ rest = some (.noError, child') := by
  by_cases hcode : code = .noError
  · rw [if_neg (not_not.mpr hcode), and_iff_right hcode]
  · rw [if_pos hcode]
    exact iff_of_false (fun h => hcode (Prod.mk.inj (Option.some.inj h)).1) fun h => hcode h.1

theorem guard_iff {P : Prop} [Decidable P] {α : Type} {rest : Option α} {x : α} :
    (if ¬ P then none else rest) = some x ↔ P ∧ rest = some x := by
  by_cases hP : P
  · rw [if_neg (not_not.mpr hP), and_iff_right hP]
  · rw [if_pos hP]
    exact iff_of_false (fun h => Option.some_ne_none x h.symm) fun h => hP h.1

theorem mapMemory_eq_noError_iff {code : ErrCode} {block : Bytes} :
    (mapMemory code hdr block child).1 = .noError ↔
      code = .noError ∧ child.Free (firstPage hdr) (pageCount hdr) := by
  rw [mapMemory, firstPage, pageCount]
  by_cases hcode : code = .noError
  · rw [if_neg (not_not.mpr hcode), and_iff_right hcode]
    split
    next hfree => exact iff_of_true rfl hfree
    next hfree => exact iff_of_false (fun h => nomatch h) hfree
  · rw [if_pos hcode]
    exact iff_of_false hcode fun h => hcode h.1

theorem mapMemory_child {code : ErrCode} {block : Bytes}
    (h : (mapMemory code hdr block child).1 = .noError) :
    (mapMemory code hdr block child).2 = child.mapPages (firstPage hdr) (pageCount hdr) block := by
  obtain ⟨hcode, hfree⟩ := mapMemory_eq_noError_iff.mp h
  rw [mapMemory, if_neg (not_not.mpr hcode)]
  exact congrArg Prod.snd (if_pos hfree)

/-- When a segment is loaded. -/
theorem loadSegment_eq_noError_iff : loadSegment s file hdr child = some (.noError, child') ↔
    SegmentSucceeds s hdr child ∧
      child' = child.mapPages (firstPage hdr) (pageCount hdr) (segmentBlock s file hdr) := by
  rw [loadSegment, stop_iff, guard_iff, stop_iff, stop_iff, guard_iff]
  dsimp only
  by_cases hmapped : (mapMemory s.map hdr (segmentBlock s file hdr) child).1 = .noError
  · obtain ⟨hmap, hfree⟩ := mapMemory_eq_noError_iff.mp hmapped
    rw [if_neg (not_not.mpr hmapped), mapMemory_child hmapped]
    constructor
    · rintro ⟨hallocate, hzeroed, hseek, hread, hfits, hrest⟩
      split at hrest
      next hne =>
        have hcode := (Prod.mk.inj (Option.some.inj hrest)).1
        split at hcode
        next => cases hcode
        next => exact absurd hcode hne
      next hrelease =>
        exact ⟨⟨hallocate, hzeroed, hseek, hread, hfits, hmap, hfree, not_not.mp hrelease⟩,
          (Prod.mk.inj (Option.some.inj hrest)).2.symm⟩
    · rintro ⟨h, rfl⟩
      exact ⟨h.allocate, h.zeroed, h.seek, h.read, h.fits, if_neg (not_not.mpr h.release)⟩
  · rw [if_pos hmapped]
    refine iff_of_false (fun h => hmapped ?_) fun h => hmapped ?_
    · exact congrArg Prod.fst (Option.some.inj h.2.2.2.2.2)
    · exact mapMemory_eq_noError_iff.mpr ⟨h.1.map, h.1.free⟩

/-- A segment that is loaded is followed by the next program header. -/
theorem bind_loadSegment_iff {rest : Child → Option (ErrCode × Child)} :
    ((loadSegment s file hdr child).bind fun loaded =>
        if loaded.1 ≠ .noError then some loaded else rest loaded.2) = some (.noError, child') ↔
      SegmentSucceeds s hdr child ∧ rest (child.mapPages (firstPage hdr) (pageCount hdr)
        (segmentBlock s file hdr)) = some (.noError, child') := by
  rw [Option.bind_eq_some_iff]
  constructor
  · rintro ⟨⟨code, child₁⟩, hsegment, hrest⟩
    obtain ⟨rfl, hrest⟩ := stop_iff.mp hrest
    obtain ⟨hsucceeds, rfl⟩ := loadSegment_eq_noError_iff.mp hsegment
    exact ⟨hsucceeds, hrest⟩
  · rintro ⟨hsucceeds, hrest⟩
    exact ⟨_, loadSegment_eq_noError_iff.mpr ⟨hsucceeds, rfl⟩, stop_iff.mpr ⟨rfl, hrest⟩⟩

/-- What a program header makes of the memory. -/
def afterSection (r : Results) (file : Bytes) (i : Nat) (child : Child) : Child :=
  let hdr := programHeader file i
  if hdr.type = 1 then
    child.mapPages (firstPage hdr) (pageCount hdr) (segmentBlock (r.segment i) file hdr)
  else child

/-- What `n` program headers from the `i`-th on make of it. -/
def afterSections (r : Results) (file : Bytes) : Nat → Nat → Child → Child
  | 0, _, child => child
  | n + 1, i, child => afterSections r file n (i + 1) (afterSection r file i child)

/-- All calls for `n` program headers from the `i`-th on are successful. -/
def SectionsSucceed (r : Results) (file : Bytes) : Nat → Nat → Child → Prop
  | 0, _, _ => True
  | n + 1, i, child =>
      (readProgHeader (r.header i) = .noError ∧
        ((programHeader file i).type = 1 → SegmentSucceeds (r.segment i) (programHeader file i) child)) ∧
      SectionsSucceed r file n (i + 1) (afterSection r file i child)

/-- When the loop gets to its end. -/
theorem loadSections_eq_noError_iff (n i : Nat) (child : Child) :
    loadSections r file n i child = some (.noError, child') ↔
      SectionsSucceed r file n i child ∧ child' = afterSections r file n i child := by
  induction n generalizing i child with
  | zero =>
      rw [loadSections, SectionsSucceed, afterSections, true_and, Option.some.injEq, Prod.mk.injEq,
        and_iff_right rfl, eq_comm]
  | succ n ih =>
      rw [loadSections, SectionsSucceed, afterSections, stop_iff]
      by_cases htype : (programHeader file i).type = 1
      · have hafter : afterSection r file i child = child.mapPages (firstPage (programHeader file i))
            (pageCount (programHeader file i)) (segmentBlock (r.segment i) file (programHeader file i)) :=
          if_pos htype
        rw [if_pos htype, bind_loadSegment_iff, ih, hafter, forall_prop_of_true htype, and_assoc, and_assoc]
      · have hafter : afterSection r file i child = child := if_neg htype
        rw [if_neg htype, ih, hafter, forall_prop_of_false htype, and_true, and_assoc]

/-- Every call is successful that the loader makes. -/
def Succeeds (r : Results) (file : Bytes) (child : Child) : Prop :=
  readFileHeader r file = .noError ∧ SectionsSucceed r file (fileHeader file).numProgHdrs.toNat 0 child

/-- **Success.**  It is reported if and only if every call is successful. -/
theorem loadElfFile_eq_noError_iff : loadElfFile r file child = some (.noError, child') ↔
    Succeeds r file child ∧ child' = afterSections r file (fileHeader file).numProgHdrs.toNat 0 child := by
  rw [loadElfFile, stop_iff, loadSections_eq_noError_iff, Succeeds, and_assoc]

/-! ### The memory afterwards -/

/-- What is mapped stays as it is. -/
theorem mapPages_kept {first count p : Nat} {block page : Bytes} (hfree : child.Free first count)
    (hp : child p = some page) : child.mapPages first count block p = some page := by
  refine (if_neg fun hin => ?_).trans hp
  have hnone := hfree (p - first) (by omega)
  rw [Nat.add_sub_cancel' hin.1, hp] at hnone
  exact Option.some_ne_none page hnone

theorem afterSections_kept {p : Nat} {page : Bytes} :
    ∀ {n i : Nat} {child : Child}, SectionsSucceed r file n i child → child p = some page →
      afterSections r file n i child p = some page
  | 0, _, _, _, hp => hp
  | n + 1, i, child, h, hp => by
      rw [afterSections]
      refine afterSections_kept h.2 ?_
      rw [afterSection]
      split
      next htype => exact mapPages_kept (h.1.2 htype).free hp
      next => exact hp

/-- Each segment is mapped when it is its turn, and nothing of it is lost afterwards. -/
theorem afterSections_mapped {p j : Nat} :
    ∀ {n i : Nat} {child : Child}, SectionsSucceed r file n i child → i ≤ j → j < i + n →
      (programHeader file j).type = 1 → firstPage (programHeader file j) ≤ p →
      p < firstPage (programHeader file j) + pageCount (programHeader file j) →
      afterSections r file n i child p = some fun k =>
        segmentBlock (r.segment j) file (programHeader file j)
          ((p - firstPage (programHeader file j)) * pageSize + k)
  | 0, i, _, _, hij, hj, _, _, _ => absurd hj (Nat.not_lt.mpr hij)
  | n + 1, i, child, h, hij, hj, htype, hfirst, hlast => by
      rw [afterSections]
      rcases Nat.lt_or_eq_of_le hij with hlt | rfl
      · exact afterSections_mapped h.2 hlt (by omega) htype hfirst hlast
      · refine afterSections_kept h.2 ?_
        rw [afterSection]
        exact (congrFun (if_pos htype) p).trans (if_pos ⟨hfirst, hlast⟩)

/-- The calls for a program header in the middle. -/
theorem SectionsSucceed.at {j : Nat} : ∀ {n i : Nat} {child : Child}, SectionsSucceed r file n i child →
    i ≤ j → j < i + n → readProgHeader (r.header j) = .noError ∧
      ((programHeader file j).type = 1 → ∃ child, SegmentSucceeds (r.segment j) (programHeader file j) child)
  | 0, i, _, _, hij, hj => absurd hj (Nat.not_lt.mpr hij)
  | n + 1, i, child, h, hij, hj => by
      rcases Nat.lt_or_eq_of_le hij with hlt | rfl
      · exact h.2.at hlt (by omega)
      · exact ⟨h.1.1, fun htype => ⟨child, h.1.2 htype⟩⟩

/-! ### Pages -/

theorem pageOffset_toNat : (pageOffset hdr).toNat = hdr.reqVirtAddr.toNat % pageSize := UInt64.toNat_mod ..

theorem pageStartAddr_toNat :
    (pageStartAddr hdr).toNat = hdr.reqVirtAddr.toNat - hdr.reqVirtAddr.toNat % pageSize := by
  have hmod : (hdr.reqVirtAddr % 2097152).toNat = hdr.reqVirtAddr.toNat % pageSize := UInt64.toNat_mod ..
  rw [pageStartAddr, UInt64.toNat_sub_of_le _ _ ?_, hmod]
  rw [UInt64.le_iff_toNat_le, hmod]
  exact Nat.mod_le _ _

theorem firstPage_eq : firstPage hdr = hdr.reqVirtAddr.toNat / pageSize := by
  rw [firstPage, pageStartAddr_toNat, pageSize]
  omega

/-- In 32 bits, the length is that of the pages modulo 4 GB. -/
theorem pageCount_eq : pageCount hdr = (pagesReqd hdr).toNat % 2048 := by
  have h : (mapLength hdr).toNat = (pagesReqd hdr).toNat * 2097152 % 2 ^ 32 := by
    rw [mapLength, UInt32.toNat_toUInt64, UInt32.toNat_mul]
    rfl
  rw [pageCount, h, pageSize]
  omega

/-- If `memset` stays within the memory, the number of pages is what it should be. -/
theorem pagesReqd_of_fits (h : Fits hdr hdr.sizeInMem.toNat) :
    (pagesReqd hdr).toNat = (hdr.reqVirtAddr.toNat % pageSize + hdr.sizeInMem.toNat) / pageSize + 1 := by
  have hpages := (pagesReqd hdr).toNat_lt
  have heq : (pagesReqd hdr).toNat =
      ((hdr.reqVirtAddr.toNat % pageSize + hdr.sizeInMem.toNat) % 2 ^ 64 / pageSize + 1) % 2 ^ 32 := by
    have hsub : (hdr.reqVirtAddr + hdr.sizeInMem - pageStartAddr hdr).toNat =
        (hdr.reqVirtAddr.toNat % pageSize + hdr.sizeInMem.toNat) % 2 ^ 64 := by
      rw [UInt64.toNat_sub, UInt64.toNat_add, pageStartAddr_toNat, pageSize]
      have := hdr.reqVirtAddr.toNat_lt
      omega
    have hdiv : ((hdr.reqVirtAddr + hdr.sizeInMem - pageStartAddr hdr) / 2097152).toNat =
        (hdr.reqVirtAddr.toNat % pageSize + hdr.sizeInMem.toNat) % 2 ^ 64 / pageSize := by
      rw [UInt64.toNat_div, hsub]
      rfl
    rw [pagesReqd, UInt64.toNat_toUInt32, UInt64.toNat_add, hdiv]
    simp only [UInt64.reduceToNat, pageSize]
    omega
  rw [Fits, pageOffset_toNat] at h
  rw [pageSize] at *
  omega

/-! ### The segments -/

theorem readFileHeader_complete (h : readFileHeader r file = .noError) :
    r.read.code = .noError ∧ r.read.bytesRead 64 64 = 64 := by
  unfold readFileHeader at h
  dsimp only at h
  split at h
  next hne => exact absurd h hne
  next =>
    split at h
    next => cases h
    next hcomplete =>
      rw [not_or, not_not, not_not] at hcomplete
      exact hcomplete

theorem readProgHeader_complete {h : HeaderResults} (hread : readProgHeader h = .noError) :
    h.read.code = .noError ∧ h.read.bytesRead 56 56 = 56 := by
  unfold readProgHeader at hread
  split at hread
  next hne => exact absurd hread hne
  next =>
    split at hread
    next hne => exact absurd hread hne
    next hcode =>
      split at hread
      next => cases hread
      next hcomplete => exact ⟨not_not.mp hcode, not_not.mp hcomplete⟩

/-- The pages that a segment touches. -/
def segmentPages (hdr : ProgramHeader) : Nat :=
  (hdr.reqVirtAddr.toNat % pageSize + hdr.sizeInMem.toNat) / pageSize + 1

/-- All pages of a segment are mapped if and only if there are not too many for 32 bits. -/
theorem mapped_iff (hfits : Fits hdr hdr.sizeInMem.toNat) :
    (∀ k < hdr.sizeInMem.toNat, (hdr.reqVirtAddr.toNat + k) / pageSize < firstPage hdr + pageCount hdr) ↔
      segmentPages hdr < 2048 := by
  rw [firstPage_eq, pageCount_eq, pagesReqd_of_fits hfits, ← segmentPages]
  have hpages : segmentPages hdr =
      (hdr.reqVirtAddr.toNat % pageSize + hdr.sizeInMem.toNat) / pageSize + 1 := rfl
  rw [pageSize] at *
  generalize segmentPages hdr = pages at *
  constructor
  · intro h
    by_contra hmany
    have hlast := h (hdr.sizeInMem.toNat - 1) (by omega)
    omega
  · intro hsmall k hk
    rw [Nat.mod_eq_of_lt hsmall]
    omega

/-- The byte of a segment in the memory that is allocated. -/
theorem segmentBlock_at {k : Nat} (hcomplete : bytesWritten s hdr = hdr.sizeInFile.toNat)
    (hk : k < max hdr.sizeInFile.toNat hdr.sizeInMem.toNat) :
    segmentBlock s file hdr ((pageOffset hdr).toNat + k) = segmentByte file hdr k := by
  rw [segmentBlock, hcomplete, segmentByte]
  split
  next hlt => exact blit_of_mem hlt
  next hge =>
    have hmem : k < hdr.sizeInMem.toNat := (lt_max_iff.mp hk).resolve_left hge
    rw [blit_of_not_mem (by omega)]
    exact blit_of_mem hmem

/-- A segment that was read completely and mapped as a whole is right, as long as it stays mapped. -/
theorem segmentRight_of_mapped (h : SegmentSucceeds s hdr child)
    (hcomplete : bytesWritten s hdr = hdr.sizeInFile.toNat) (hsmall : segmentPages hdr < 2048)
    (hmapped : ∀ p, firstPage hdr ≤ p → p < firstPage hdr + pageCount hdr →
      child' p = some fun k => segmentBlock s file hdr ((p - firstPage hdr) * pageSize + k)) :
    SegmentRight s file hdr child' where
  read := ⟨h.read, hcomplete⟩
  mapped := (mapped_iff h.zeroed).mpr hsmall
  bytes := by
    intro k hk
    have hcount : pageCount hdr = segmentPages hdr := by
      rw [pageCount_eq, pagesReqd_of_fits h.zeroed]
      exact Nat.mod_eq_of_lt hsmall
    have hin : (hdr.reqVirtAddr.toNat + k) / pageSize < firstPage hdr + pageCount hdr := by
      rcases lt_max_iff.mp hk with hfile | hmem
      · have hfits := h.fits
        rw [Fits, hcomplete, pageOffset_toNat, pagesReqd_of_fits h.zeroed, ← segmentPages, ← hcount] at hfits
        rw [firstPage_eq]
        rw [pageSize] at *
        omega
      · exact (mapped_iff h.zeroed).mpr hsmall k hmem
    have hfirst : firstPage hdr ≤ (hdr.reqVirtAddr.toNat + k) / pageSize := by
      rw [firstPage_eq]
      exact Nat.div_le_div_right (Nat.le_add_right _ _)
    have hoffset : ((hdr.reqVirtAddr.toNat + k) / pageSize - firstPage hdr) * pageSize +
        (hdr.reqVirtAddr.toNat + k) % pageSize = (pageOffset hdr).toNat + k := by
      rw [firstPage_eq, pageOffset_toNat, pageSize]
      omega
    rw [Child.byte, hmapped _ hfirst hin]
    exact congrArg some ((congrArg _ hoffset).trans (segmentBlock_at hcomplete hk))

end

/-- **Loading.**  For whatever the system calls answer, success means what it should if and only if, in case
every call is successful, the read of each segment gave all its bytes and each touches less than 2048 pages. -/
theorem loadsRight_iff (r : Results) (file : Bytes) (child : Child) : LoadsRight r file child ↔
    (Succeeds r file child → ∀ i < (fileHeader file).numProgHdrs.toNat, (programHeader file i).type = 1 →
      bytesWritten (r.segment i) (programHeader file i) = (programHeader file i).sizeInFile.toNat ∧
      segmentPages (programHeader file i) < 2048) := by
  constructor
  · intro h hsucceeds i hi htype
    obtain ⟨-, hsections⟩ := h _ (loadElfFile_eq_noError_iff.mpr ⟨hsucceeds, rfl⟩)
    obtain ⟨child₁, hsegment⟩ := (hsucceeds.2.at (Nat.zero_le i) (by omega)).2 htype
    have hright := (hsections i hi).2 htype
    exact ⟨hright.read.2, (mapped_iff hsegment.zeroed).mp hright.mapped⟩
  · intro h child' hload
    obtain ⟨hsucceeds, rfl⟩ := loadElfFile_eq_noError_iff.mp hload
    refine ⟨readFileHeader_complete hsucceeds.1, fun i hi => ?_⟩
    obtain ⟨hheader, hsegment⟩ := hsucceeds.2.at (Nat.zero_le i) (by omega)
    refine ⟨readProgHeader_complete hheader, fun htype => ?_⟩
    obtain ⟨hcomplete, hsmall⟩ := h hsucceeds i hi htype
    obtain ⟨child₁, hsegment⟩ := hsegment htype
    exact segmentRight_of_mapped hsegment hcomplete hsmall fun p hfirst hlast =>
      afterSections_mapped hsucceeds.2 (Nat.zero_le i) (by omega) htype hfirst hlast

/-- A file with one program header, of a segment with four bytes. -/
def smallFile : Bytes := fun i =>
  ([0x7F, 69, 76, 70, 2, 1, 1, 0, 0, 0, 0, 0, 0, 0, 0, 0, 2, 0, 62, 0, 1, 0, 0, 0, 0, 0, 64, 0, 0, 0, 0, 0,
    64, 0, 0, 0, 0, 0, 0, 0, 0, 0, 0, 0, 0, 0, 0, 0, 0, 0, 0, 0, 64, 0, 56, 0, 1, 0, 0, 0, 0, 0, 0, 0,
    1, 0, 0, 0, 0, 0, 0, 0, 120, 0, 0, 0, 0, 0, 0, 0, 0, 0, 64, 0, 0, 0, 0, 0, 0, 0, 0, 0, 0, 0, 0, 0,
    4, 0, 0, 0, 0, 0, 0, 0, 4, 0, 0, 0, 0, 0, 0, 0, 0, 0, 0, 0, 0, 0, 0, 0, 1, 2, 3, 4] : List UInt8).getD i 0

/-- All calls are successful; the read of the segment gives so many bytes. -/
def answers (available : Nat) : Results where
  seek := .noError
  read := ⟨.noError, 64⟩
  dataLen := .noError
  elfFileSize := 124
  header := fun _ => ⟨.noError, ⟨.noError, 56⟩⟩
  segment := fun _ => ⟨.noError, fun _ => 0, .noError, ⟨.noError, available⟩, .noError, .noError⟩

/-- Two of the four bytes are read, and success is reported. -/
theorem short_read_not_right : ¬ LoadsRight (answers 2) smallFile fun _ => none := by
  intro h
  have hload : ((loadElfFile (answers 2) smallFile fun _ => none).map Prod.fst) = some .noError := by
    decide +kernel
  obtain ⟨⟨code, child'⟩, hload, rfl⟩ := Option.map_eq_some_iff.mp hload
  have hright := ((h child' hload).2 0 (by decide)).2 (by decide)
  exact absurd hright.read.2 (by decide)

end Azalea.User.Elf
