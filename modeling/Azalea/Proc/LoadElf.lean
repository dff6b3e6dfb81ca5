import Azalea.Mem.PageBytes
import Azalea.Support.Patches
import Azalea.Syscall.MemoryRuns

/-!
# Proc — loading a program, and what its pages held before

The loop of `proc_load_elf_file` (`system_tree/process/process_elf.cpp`) over the program headers.  It takes
pages for the segments of a program and writes to them through a window in the kernel's half, on page tables
that are in the same memory (`loadCalls`); where it writes over none of them, it does so on address spaces
and the bytes of the other pages (`load_simulate`).

* `recycled_pages_alike`: two runs that differ in the contents of pages without tables, and for which empty
  pages become tables, map the same pages.  They agree on every byte of a loaded segment; any other byte they
  agree on too, or it holds what it held before in both.
-/

namespace Azalea.Proc
open Azalea.Mem Azalea.Memory Azalea.Patches Azalea.Programs Azalea.Syscall Azalea.Tiling Function VmmRangeData

/-- What a process reads at an address of user memory, where the bytes of physical memory are `ram`. -/
def readByte (process : Nat) (a : UInt64) (s : MemState Mapping) (ram : Bytes) : Option UInt8 :=
  if a.toNat < 2 ^ 47 then
    (s.spaces.paging.translate process a.toBitVec).map fun p => ram (p.toNat + a.toNat % 2097152)
  else none

/-- The bytes of physical memory. -/
abbrev bytesOf (s : MemState Mapping) : Bytes := s.spaces.bytes

/-! ### What the loader does with memory -/

/-- `memcpy` and `memset`, in one page. -/
inductive WriteCall : Type → Type where
  | write (context : Nat) (a : UInt64) (n : Nat) (src : Bytes) : WriteCall Unit

/-- A call on memory, or a write to it. -/
inductive LoadCall (β : Type) : Type where
  | mem (o : MemCall β)
  | write (o : WriteCall β)

/-- One write. -/
def WriteCall.exec {β : Type} : WriteCall β → MemState Mapping → Option (β × MemState Mapping)
  | .write c a n src, s => (s.spaces.write c a n src).map fun spaces => ((), { s with spaces := spaces })

/-- A call or a write. -/
def LoadCall.exec {β : Type} : LoadCall β → MemState Mapping → Option (β × MemState Mapping)
  | .mem o, s => tableCalls.exec o s
  | .write o, s => o.exec s

/-- On page tables. -/
def loadCalls : Handler LoadCall (MemState Mapping) := ⟨LoadCall.exec⟩

/-- A call takes empty pages for tables. -/
def LoadCall.TakesEmpty {β : Type} : LoadCall β → MemState Mapping → Prop
  | .mem o, s => s.TakesEmpty o
  | .write _, _ => True

instance (β : Type) (o : LoadCall β) (s : MemState Mapping) : Decidable (o.TakesEmpty s) :=
  match o with
  | .mem o => inferInstanceAs (Decidable (s.TakesEmpty o))
  | .write _ => isTrue trivial

/-- A program over calls on memory. -/
def onMemory {α : Type} (p : Prog MemCall α) : Prog LoadCall α := p.lift LoadCall.mem

def write (context : Nat) (a : UInt64) (n : Nat) (src : Bytes) : Prog LoadCall Unit :=
  .op (.write (.write context a n src))

/-! ### The segments -/

/-- The fields of `elf64_program_header` that are read. -/
structure Elf64ProgramHeader where
  type : UInt32
  fileOffset : UInt64
  reqVirtAddr : UInt64
  reqPhysAddr : UInt64
  sizeInFile : UInt64
  sizeInMem : UInt64

/-- The program headers, and the memory from `load_buffer` on, which holds the file. -/
structure ElfImage where
  progHeaders : List Elf64ProgramHeader
  loadBuffer : UInt64 → UInt8

/-- A page of the kernel's range, to write through.  The last one is where the kernel looks at page tables. -/
abbrev KernelPage :=
  { a : UInt64 // 0xFFFFFFFF00000000 ≤ a.toNat ∧ a.toNat < 0xFFFFFFFFFFE00000 ∧ a.toNat % 2097152 = 0 }

/-- `offset`, `bytes_written` and `bytes_to_zero`. -/
structure SegmentVars where
  offset : UInt64
  bytesWritten : UInt64
  bytesToZero : UInt64

/-- `copy_length`. -/
def copyLength (copyEndAddr thisPage offset : UInt64) : UInt64 :=
  let copyLength := memPageSize - offset
  if thisPage + offset + copyLength > copyEndAddr then copyEndAddr - thisPage - offset else copyLength

/-- `bytes_now`. -/
def zeroLength (v : SegmentVars) : UInt64 :=
  let bytesNow := memPageSize - v.offset
  if bytesNow > v.bytesToZero then v.bytesToZero else bytesNow

/-- The bytes of the file from `bytes_written` on. -/
def fileBytes (image : ElfImage) (h : Elf64ProgramHeader) (v : SegmentVars) : Bytes := fun i =>
  image.loadBuffer (h.fileOffset + v.bytesWritten + UInt64.ofNat i)

/-- The bytes of the file are copied to a page.  A length that passes the end of the window faults. -/
def copyData (image : ElfImage) (window : KernelPage) (current : Nat) (h : Elf64ProgramHeader)
    (thisPage : UInt64) (v : SegmentVars) : Prog LoadCall SegmentVars :=
  if v.bytesWritten < h.sizeInFile then do
    let length := copyLength (h.reqVirtAddr + h.sizeInFile) thisPage v.offset
    write current (window.val + v.offset) length.toNat (fileBytes image h v)
    pure { v with bytesWritten := v.bytesWritten + length, offset := v.offset + length }
  else pure v

/-- There is still something to be zeroed on the page. -/
def Zeroes (h : Elf64ProgramHeader) (v : SegmentVars) : Prop :=
  v.bytesWritten ≥ h.sizeInFile ∧ v.bytesToZero ≠ 0 ∧ v.offset < memPageSize

instance (h : Elf64ProgramHeader) (v : SegmentVars) : Decidable (Zeroes h v) :=
  inferInstanceAs (Decidable (_ ∧ _ ∧ _))

/-- What is left of the page is filled with zeroes. -/
def fillZeroes (window : KernelPage) (current : Nat) (h : Elf64ProgramHeader) (v : SegmentVars) :
    Prog LoadCall SegmentVars :=
  if Zeroes h v then do
    write current (window.val + v.offset) (zeroLength v).toNat fun _ => 0
    pure { v with bytesToZero := v.bytesToZero - zeroLength v }
  else pure v

/-- The physical page of a page of the new process, which may be a new one. -/
def backingFor (process : Nat) (thisPage : UInt64) : Prog MemCall Nat := do
  let backingAddr ← mapping (.getPhysAddr thisPage process)
  if backingAddr = 0 then do
    let backingAddr ← mapping .allocatePhysicalPage
    vmm (.allocateSpecific process thisPage 1)
    mapping (.mapPage backingAddr thisPage process)
    pure backingAddr
  else pure backingAddr

/-- One page of a segment. -/
def loadPage (image : ElfImage) (window : KernelPage) (current process : Nat) (h : Elf64ProgramHeader)
    (thisPage : UInt64) (v : SegmentVars) : Prog LoadCall SegmentVars := do
  let backingAddr ← onMemory (backingFor process thisPage)
  onMemory (mapping (.mapPage backingAddr window.val current))
  let v ← copyData image window current h thisPage v
  let v ← fillZeroes window current h v
  onMemory (mapping (.unmapPage window.val current false))
  pure { v with offset := 0 }

/-- The loop over the pages of a segment.  It has an end unless `this_page` wraps around. -/
def loadPages (image : ElfImage) (window : KernelPage) (current process : Nat) (h : Elf64ProgramHeader) :
    Nat → UInt64 → SegmentVars → Prog LoadCall Unit
  | 0, _, _ => .fail
  | fuel + 1, thisPage, v =>
      if thisPage < h.reqVirtAddr + h.sizeInMem then do
        let v ← loadPage image window current process h thisPage v
        loadPages image window current process h fuel (thisPage + memPageSize) v
      else pure ()

/-- The first page of a segment, and where it starts in it. -/
def firstVars (h : Elf64ProgramHeader) : SegmentVars :=
  ⟨h.reqVirtAddr % memPageSize, 0, if h.sizeInMem > h.sizeInFile then h.sizeInMem - h.sizeInFile else 0⟩

/-- One segment. -/
def loadSegment (image : ElfImage) (window : KernelPage) (current process fuel : Nat)
    (h : Elf64ProgramHeader) : Prog LoadCall Unit :=
  if h.type = 1 then
    if h.reqPhysAddr < 0x8000000000000000 then
      loadPages image window current process h fuel (h.reqVirtAddr - h.reqVirtAddr % memPageSize) (firstVars h)
    else .fail
  else pure ()

/-- `proc_load_elf_file`, from the point on where the new process has been made. -/
def procLoadElfFile (image : ElfImage) (window : KernelPage) (current process fuel : Nat) :
    List Elf64ProgramHeader → Prog LoadCall Unit
  | [] => pure ()
  | h :: progHeaders => do
      loadSegment image window current process fuel h
      procLoadElfFile image window current process fuel progHeaders

/-! ### On address spaces -/

/-- One write. -/
def WriteCall.execPages {β : Type} : WriteCall β → MemState Spaces × Bytes →
    Option (β × MemState Spaces × Bytes)
  | .write c a n src, t =>
      (Spaces.write c a n src (t.1.spaces, t.2)).map fun r => ((), (⟨r.1, t.1.ranges⟩, r.2))

/-- A call or a write, on address spaces and on the bytes of the pages that hold no table. -/
def LoadCall.execPages {β : Type} : LoadCall β → MemState Spaces × Bytes →
    Option (β × MemState Spaces × Bytes)
  | .mem o, t => (spaceCalls.beside Bytes).exec o t
  | .write o, t => o.execPages t

def pageCalls : Handler LoadCall (MemState Spaces × Bytes) := ⟨LoadCall.execPages⟩

def WriteCall.Safe {β : Type} : WriteCall β → MemState Spaces → Prop
  | .write c a _ _, t => slotKey c a ≠ windowKey ∧
      ∀ p, t.spaces.frames (slotKey c a) = some p → p % sizeOfPage = 0

/-- A call is one on which tables and address spaces agree, and a write is to a whole page. -/
def LoadCall.Safe {β : Type} : LoadCall β → MemState Spaces → Prop
  | .mem o, t => t.Safe o
  | .write o, t => o.Safe t

def WriteCall.Apart {β : Type} : WriteCall β → MemState Spaces → Prop
  | .write c a _ _, t => ∀ p, t.spaces.frames (slotKey c a) = some p → t.spaces.HoldsNoTable (p / sizeOfPage)

/-- A write is to a page that holds no table. -/
def LoadCall.Apart {β : Type} : LoadCall β → MemState Spaces → Prop
  | .mem _, _ => True
  | .write o, t => o.Apart t

/-- It is one that writes over no table, and on which tables and address spaces agree. -/
def LoadCall.Agrees {β : Type} (o : LoadCall β) (t : MemState Spaces × Bytes) : Prop := o.Safe t.1 ∧ o.Apart t.1

/-- The tables stand for the address spaces, and these are the bytes of the other pages. -/
def Holds (s : MemState Mapping) (t : MemState Spaces × Bytes) : Prop := s.Views t.1 ∧ s.spaces.Shows t.2

/-- The calls on memory change no byte of a page that holds no table afterwards. -/
theorem memCalls_show : Simulates tableCalls (spaceCalls.beside Bytes) Holds MemState.TakesEmpty
    fun o t => t.1.Safe o := by
  rintro β o s ⟨_, ram⟩ ⟨⟨hok, rfl⟩, hshows⟩ hempty hsafe
  cases o with
  | spaces o =>
      have hstep := calls_show o s.spaces (s.spaces.view, ram) ⟨⟨hok, rfl⟩, hshows⟩ hempty hsafe
      rw [Handler.beside_exec] at hstep ⊢
      change Agree _ ((Mapping.calls.exec o s.spaces).map _)
        (((Spaces.calls.exec o s.spaces.view).map _).map _)
      generalize Mapping.calls.exec o s.spaces = x, Spaces.calls.exec o s.spaces.view = y at hstep
      cases y with
      | none => cases hstep; exact .none
      | some r =>
          cases hstep with
          | some hr => exact .some ⟨hr.1, ⟨hr.2.1.1, congrArg (MemState.mk · s.ranges) hr.2.1.2⟩, hr.2.2⟩
  | ranges o =>
      rw [Handler.beside_exec]
      change Agree _ ((o.exec s.ranges).map _) (((o.exec s.ranges).map _).map _)
      cases o.exec s.ranges with
      | none => exact .none
      | some r => exact .some ⟨rfl, ⟨hok, rfl⟩, hshows⟩

/-- **The loader** does on page tables what it does on address spaces, as long as it writes over no table. -/
theorem load_simulate : Simulates loadCalls pageCalls Holds LoadCall.TakesEmpty LoadCall.Agrees := by
  rintro β (o | ⟨c, a, n, src⟩) s t hR hempty ⟨hsafe, hapart⟩
  · have hmem : t.1.Safe o := hsafe
    exact memCalls_show o s t hR hempty hmem
  · obtain ⟨t, ram⟩ := t
    obtain ⟨⟨hok, rfl⟩, hshows⟩ := hR
    have hwrite := @Mapping.Ok.write s.spaces c n a ram src hok hshows hsafe.1 hsafe.2 hapart
    change Agree _ ((s.spaces.write c a n src).map _)
      ((Spaces.write c a n src (s.spaces.view, ram)).map _)
    generalize s.spaces.write c a n src = x, Spaces.write c a n src (s.spaces.view, ram) = y at hwrite
    cases hwrite with
    | none => exact .none
    | some hr => exact .some ⟨rfl, ⟨hr.1.1, congrArg (MemState.mk · s.ranges) hr.1.2⟩, hr.2⟩

/-- A run on address spaces: its result and what is mapped afterwards, and the bytes. -/
def runPages {α : Type} (p : Prog LoadCall α) (t : MemState Spaces) (ram : Bytes) :
    Option ((α × MemState Spaces) × Bytes) :=
  (p.run pageCalls (t, ram)).map fun r => ((r.1, r.2.1), r.2.2)

section
variable {α β : Type} {t t' : MemState Spaces} {ram ram' : Bytes} {a : α}

theorem runPages_pure (a : α) : runPages (pure a) t ram = some ((a, t), ram) := rfl

theorem runPages_fail : runPages (.fail : Prog LoadCall α) t ram = none := rfl

theorem runPages_bind (p : Prog LoadCall α) (f : α → Prog LoadCall β) :
    runPages (p >>= f) t ram = (runPages p t ram).bind fun r => runPages (f r.1.1) r.1.2 r.2 := by
  rw [runPages, runPages, Prog.run_bind]
  cases p.run pageCalls (t, ram) <;> rfl

theorem runPages_eq_some {p : Prog LoadCall α} :
    runPages p t ram = some ((a, t'), ram') ↔ p.run pageCalls (t, ram) = some (a, (t', ram')) := by
  rw [runPages, Option.map_eq_some_iff]
  constructor
  · rintro ⟨⟨b, u, r⟩, hr, heq⟩
    obtain ⟨hpair, rfl⟩ := Prod.mk.inj heq
    obtain ⟨rfl, rfl⟩ := Prod.mk.inj hpair
    exact hr
  · exact fun hr => ⟨_, hr, rfl⟩

end

/-! ### What is written to a page -/

/-- What `copyData` writes to a physical page. -/
def copyBytes (image : ElfImage) (h : Elf64ProgramHeader) (thisPage : UInt64) (backingAddr : Nat)
    (v : SegmentVars) (ram : Bytes) : Option (SegmentVars × Bytes) :=
  if v.bytesWritten < h.sizeInFile then
    let length := copyLength (h.reqVirtAddr + h.sizeInFile) thisPage v.offset
    if v.offset.toNat + length.toNat ≤ 2097152 then
      some ({ v with bytesWritten := v.bytesWritten + length, offset := v.offset + length },
        blit ram (backingAddr + v.offset.toNat) (fileBytes image h v) 0 length.toNat)
    else none
  else some (v, ram)

/-- What `fillZeroes` does. -/
def zeroBytes (h : Elf64ProgramHeader) (backingAddr : Nat) (v : SegmentVars) (ram : Bytes) :
    SegmentVars × Bytes :=
  if Zeroes h v then
    ({ v with bytesToZero := v.bytesToZero - zeroLength v },
      blit ram (backingAddr + v.offset.toNat) (fun _ => 0) 0 (zeroLength v).toNat)
  else (v, ram)

/-- The window is mapped to a page and unmapped again. -/
def throughWindow (window : KernelPage) (current backingAddr : Nat) : Prog MemCall Unit := do
  mapping (.mapPage backingAddr window.val current)
  mapping (.unmapPage window.val current false)

/-- What the memory manager does for a page. -/
def takePage (window : KernelPage) (current process : Nat) (thisPage : UInt64) : Prog MemCall Nat := do
  let backingAddr ← backingFor process thisPage
  throughWindow window current backingAddr
  pure backingAddr

section
variable {α : Type} {image : ElfImage} {window : KernelPage} {current process p b : Nat}
  {h : Elf64ProgramHeader} {thisPage o a : UInt64} {v : SegmentVars} {t t' : MemState Spaces} {ram : Bytes}

theorem run_onMemory (p : Prog MemCall α) (t : MemState Spaces) (ram : Bytes) :
    (onMemory p).run pageCalls (t, ram) = (p.run spaceCalls t).map fun r => (r.1, (r.2, ram)) := by
  have hlift : (onMemory p).run pageCalls (t, ram) = p.run (spaceCalls.beside Bytes) (t, ram) :=
    Prog.run_lift (f := LoadCall.mem) (fun _ _ => rfl) p (t, ram)
  exact hlift.trans (Prog.run_beside p t ram)

theorem slotKey_of_page {a b : UInt64} {c : Nat} (h : a.toNat / 2097152 = b.toNat / 2097152) :
    slotKey c a = slotKey c b := by
  have hslot : slot a = slot b := by
    unfold slot
    rw [h]
  rw [slotKey, slotKey, hslot]

/-- An address in the window. -/
theorem window_add (ho : o.toNat < 2097152) : slotKey current (window.val + o) = slotKey current window.val ∧
    (window.val + o).toNat % 2097152 = o.toNat := by
  obtain ⟨-, hlt, haligned⟩ := window.property
  have hsum : (window.val + o).toNat = window.val.toNat + o.toNat := by
    rw [UInt64.toNat_add]
    omega
  exact ⟨slotKey_of_page (by omega), by omega⟩

theorem window_ne : slotKey current window.val ≠ windowKey := by
  intro heq
  obtain ⟨hge, hlt, haligned⟩ := window.property
  have hslot : slot window.val = 2 ^ 27 - 1 := congrArg Prod.snd heq
  unfold slot at hslot
  omega

/-- A write through the window, when it is mapped. -/
theorem run_write {n : Nat} {src : Bytes} (hframe : t.spaces.frames (slotKey current window.val) = some b)
    (ho : o.toNat < 2097152) : (write current (window.val + o) n src).run pageCalls (t, ram) =
      if o.toNat + n ≤ 2097152 then some ((), (t, blit ram (b + o.toNat) src 0 n)) else none := by
  obtain ⟨hslot, hmod⟩ := @window_add window current o ho
  rw [write, Prog.run_op]
  change (Spaces.write _ _ _ _ _).map _ = _
  rw [Spaces.write, hslot, hmod, hframe]
  split <;> rfl

theorem copyData_run (hframe : t.spaces.frames (slotKey current window.val) = some b)
    (ho : v.offset.toNat < 2097152) : (copyData image window current h thisPage v).run pageCalls (t, ram) =
      (copyBytes image h thisPage b v ram).map fun r => (r.1, (t, r.2)) := by
  rw [copyData, copyBytes]
  split
  · rw [Prog.run_bind, run_write hframe ho]
    dsimp only
    split <;> rfl
  · rfl

theorem fillZeroes_run (hframe : t.spaces.frames (slotKey current window.val) = some b) :
    (fillZeroes window current h v).run pageCalls (t, ram) =
      some ((zeroBytes h b v ram).1, (t, (zeroBytes h b v ram).2)) := by
  rw [fillZeroes, zeroBytes]
  split
  next hzero =>
    have ho : v.offset.toNat < 2097152 := UInt64.lt_iff_toNat_lt.mp hzero.2.2
    have hsub : (memPageSize - v.offset).toNat = 2097152 - v.offset.toNat := by
      rw [UInt64.toNat_sub_of_le _ _ (UInt64.le_iff_toNat_le.mpr (Nat.le_of_lt ho))]
      rfl
    have hle : v.offset.toNat + (zeroLength v).toNat ≤ 2097152 := by
      rw [zeroLength]
      split
      next hlt =>
        rw [gt_iff_lt, UInt64.lt_iff_toNat_lt, hsub] at hlt
        omega
      next => omega
    rw [Prog.run_bind, run_write hframe ho, if_pos hle]
    rfl
  next => rfl

/-- **One page** is taken, and written to. -/
theorem loadPage_run (ho : v.offset.toNat < 2097152) :
    runPages (loadPage image window current process h thisPage v) t ram =
      ((takePage window current process thisPage).run spaceCalls t).bind fun r =>
        (copyBytes image h thisPage r.1 v ram).map fun w =>
          (({ (zeroBytes h r.1 w.1 w.2).1 with offset := 0 }, r.2), (zeroBytes h r.1 w.1 w.2).2) := by
  simp only [runPages, loadPage, takePage, throughWindow, Prog.run_bind]
  rw [run_onMemory]
  cases (backingFor process thisPage).run spaceCalls t with
  | none => rfl
  | some r =>
      obtain ⟨b, t₁⟩ := r
      simp only [Option.map_some, Option.bind_some]
      rw [run_onMemory]
      cases hmap : (mapping (.mapPage b window.val current)).run spaceCalls t₁ with
      | none => rfl
      | some r =>
          obtain ⟨⟨⟩, t₂⟩ := r
          have hframe : t₂.spaces.frames (slotKey current window.val) = some b := by
            obtain ⟨-, s₁, -, rfl⟩ := run_mapPage.mp hmap
            exact update_self ..
          simp only [Option.map_some, Option.bind_some, copyData_run hframe ho]
          cases hcopy : copyBytes image h thisPage b v ram with
          | none =>
              cases (mapping (.unmapPage window.val current false)).run spaceCalls t₂ with
              | none => rfl
              | some r =>
                  simp only [Option.map_none, Option.bind_none, Option.bind_some, Prog.run_pure, hcopy]
          | some w =>
              simp only [Option.map_some, Option.bind_some, fillZeroes_run hframe, run_onMemory]
              cases (mapping (.unmapPage window.val current false)).run spaceCalls t₂ with
              | none => rfl
              | some r => simp only [Option.map_some, Option.bind_some, Prog.run_pure, hcopy]

end

/-! ### The pages that are taken -/

section
variable {window : KernelPage} {current process p b c n : Nat} {thisPage a : UInt64} {t t' : MemState Spaces}

/-- The page that is mapped holds no table, and those that are held are other ones. -/
theorem backsPage_held (h : t.Ok) (hb : t.BacksPage c a b t') : (∃ n, t'.spaces.Held b n) ∧
    ∀ p n, t.spaces.Held p n → t'.spaces.Held p n ∧ p ≠ b := by
  obtain ⟨phys, s₁, hphys, -, hs₁, rfl⟩ := hb
  have htakes := (Spaces.takeTables_takes (h.order.allocate hphys).1 hs₁).1
  obtain ⟨n, hheld, -⟩ := h.order.allocate_held hphys
  refine ⟨⟨n, (hheld.takes htakes).congr rfl rfl⟩, fun p m hp => ?_⟩
  obtain ⟨hp', hne⟩ := hp.allocate h.order hphys
  exact ⟨(hp'.takes htakes).congr rfl rfl, hne⟩

/-- The page is there already, or it is reserved and backed. -/
theorem run_backingFor : (backingFor process thisPage).run spaceCalls t = some (b, t') ↔
    (b = t.spaces.getPhysAddr thisPage process ∧ b ≠ 0 ∧ t' = t) ∨
      (t.spaces.getPhysAddr thisPage process = 0 ∧ ∃ ranges,
        memVmmAllocateSpecificRange thisPage 1 (t.ranges process) = some ranges ∧
          (t.withRanges process ranges).BacksPage process thisPage b t') := by
  rw [backingFor, Prog.run_bind, run_getPhysAddr, Option.bind_some, Prog.run_ite]
  dsimp only
  split
  next hzero =>
    rw [Prog.run_bind, Option.bind_eq_some_iff]
    constructor
    · rintro ⟨⟨q, t₁⟩, hpage, hrest⟩
      obtain ⟨phys, hphys, rfl⟩ := run_allocatePhysicalPage.mp hpage
      rw [Prog.run_bind] at hrest
      obtain ⟨⟨⟨⟩, t₂⟩, hreserve, hrest⟩ := Option.bind_eq_some_iff.mp hrest
      obtain ⟨ranges, hr, rfl⟩ := run_allocateSpecific.mp hreserve
      rw [Prog.run_bind] at hrest
      obtain ⟨⟨⟨⟩, t₃⟩, hmapped, heq⟩ := Option.bind_eq_some_iff.mp hrest
      obtain ⟨rfl, rfl⟩ := Prod.mk.inj (Option.some.inj heq)
      obtain ⟨hmap, s₁, hs₁, rfl⟩ := run_mapPage.mp hmapped
      exact .inr ⟨hzero, ranges, hr, phys, s₁, hphys, hmap, hs₁, rfl⟩
    · rintro (⟨rfl, hne, -⟩ | ⟨-, ranges, hr, phys, s₁, hphys, hmap, hs₁, rfl⟩)
      · exact absurd hzero hne
      · refine ⟨_, run_allocatePhysicalPage.mpr ⟨phys, hphys, rfl⟩, ?_⟩
        rw [Prog.run_bind]
        refine Option.bind_eq_some_iff.mpr ⟨_, run_allocateSpecific.mpr ⟨ranges, hr, rfl⟩, ?_⟩
        rw [Prog.run_bind]
        exact Option.bind_eq_some_iff.mpr ⟨_, run_mapPage.mpr ⟨hmap, s₁, hs₁, rfl⟩, rfl⟩
  next hne =>
    rw [Prog.run_pure, Option.some.injEq, Prod.mk.injEq, eq_comm, eq_comm (a := t)]
    exact ⟨fun ⟨hb, ht⟩ => .inl ⟨hb, hb ▸ hne, ht⟩, fun hor => hor.elim (fun h => ⟨h.1, h.2.2⟩)
      fun h => absurd h.1 hne⟩

/-- The window leaves its tables behind, and the counters. -/
structure Through (key : Nat × Nat) (t t' : MemState Spaces) : Prop where
  ranges : t'.ranges = t.ranges
  frames : t'.spaces.frames = t.spaces.frames
  tables : ∃ s₁, t.spaces.takeTables key = some s₁ ∧ t'.spaces.tables = s₁.tables ∧ t'.spaces.pool = s₁.pool

/-- **The window** is there for a page if it is free and its tables can be had. -/
theorem run_throughWindow : (∃ t', (throughWindow window current b).run spaceCalls t = some ((), t')) ↔
    t.spaces.Mappable b window.val current ∧
      ∃ s₁, t.spaces.takeTables (slotKey current window.val) = some s₁ := by
  constructor
  · rintro ⟨t', ht'⟩
    rw [throughWindow, Prog.run_bind] at ht'
    obtain ⟨⟨⟨⟩, t₁⟩, hmapped, -⟩ := Option.bind_eq_some_iff.mp ht'
    obtain ⟨hmap, s₁, hs₁, -⟩ := run_mapPage.mp hmapped
    exact ⟨hmap, s₁, hs₁⟩
  · rintro ⟨hmap, s₁, hs₁⟩
    have hframe : (s₁.withPage b window.val current).getPhysAddr window.val current = b := by
      rw [Spaces.getPhysAddr_page hmap.aligned, Spaces.withPage_frames, update_self]
      rfl
    have hunmap : ∃ s₂, (s₁.withPage b window.val current).unmapPage window.val current false = some s₂ := by
      rw [Spaces.unmapPage, hframe]
      split
      · rw [Spaces.releaseUse, if_neg (not_not.mpr hmap.whole)]
        exact ⟨_, if_neg fun h => Bool.false_ne_true h.2⟩
      · exact ⟨_, rfl⟩
    obtain ⟨s₂, hs₂⟩ := hunmap
    refine ⟨⟨s₂, t.ranges⟩, ?_⟩
    rw [throughWindow, Prog.run_bind, run_mapPage.mpr ⟨hmap, s₁, hs₁, rfl⟩, Option.bind_some, run_mapping]
    change Option.map _ (Option.map _ (Spaces.unmapPage _ _ _ _)) = _
    rw [hs₂]
    rfl

/-- The physical page is not given back. -/
theorem unmapPage_keeps {s s' : Spaces} (hs : s.unmapPage a c false = some s') :
    s'.frames = update s.frames (slotKey c a) none ∧ s'.tables = s.tables ∧ s'.pool = s.pool := by
  rw [Spaces.unmapPage] at hs
  split at hs
  next =>
    rw [Spaces.releaseUse] at hs
    split at hs
    next => cases hs
    next =>
      simp only [Bool.false_eq_true, and_false, if_false, Option.some.injEq] at hs
      subst hs
      exact ⟨rfl, rfl, rfl⟩
  next =>
    obtain rfl := Option.some.inj hs
    exact ⟨rfl, rfl, rfl⟩

theorem throughWindow_spec (h : t.Ok) (hs : (throughWindow window current b).run spaceCalls t = some ((), t')) :
    Through (slotKey current window.val) t t' := by
  rw [throughWindow, Prog.run_bind] at hs
  obtain ⟨⟨⟨⟩, t₁⟩, hmapped, hunmapped⟩ := Option.bind_eq_some_iff.mp hs
  obtain ⟨hmap, s₁, hs₁, rfl⟩ := run_mapPage.mp hmapped
  rw [run_mapping] at hunmapped
  obtain ⟨⟨⟨⟩, s₂⟩, hexec, heq⟩ := Option.map_eq_some_iff.mp hunmapped
  obtain ⟨-, rfl⟩ := Prod.mk.inj heq
  obtain ⟨s₃, hs₃, heq⟩ := Option.map_eq_some_iff.mp hexec
  obtain ⟨-, rfl⟩ := Prod.mk.inj heq
  obtain ⟨hframes, htables, hpool⟩ := unmapPage_keeps hs₃
  refine ⟨rfl, ?_, s₁, hs₁, htables, hpool⟩
  dsimp only
  rw [hframes, Spaces.withPage_frames, update_idem, (Spaces.takeTables_takes h.order hs₁).1.frames, ← hmap.free,
    update_eq_self]

theorem run_takePage : (takePage window current process thisPage).run spaceCalls t = some (b, t') ↔
    ∃ t₁, (backingFor process thisPage).run spaceCalls t = some (b, t₁) ∧
      (throughWindow window current b).run spaceCalls t₁ = some ((), t') := by
  rw [takePage, Prog.run_bind, Option.bind_eq_some_iff]
  constructor
  · rintro ⟨⟨q, t₁⟩, hbacking, hrest⟩
    rw [Prog.run_bind] at hrest
    obtain ⟨⟨⟨⟩, t₂⟩, hwindow, heq⟩ := Option.bind_eq_some_iff.mp hrest
    obtain ⟨rfl, rfl⟩ := Prod.mk.inj (Option.some.inj heq)
    exact ⟨t₁, hbacking, hwindow⟩
  · rintro ⟨t₁, hbacking, hwindow⟩
    refine ⟨_, hbacking, ?_⟩
    rw [Prog.run_bind, hwindow]
    rfl

theorem Through.ok {key : Nat × Nat} (hthrough : Through key t t') (h : t.Ok) : t'.Ok := by
  obtain ⟨s₁, hs₁, htables, hpool⟩ := hthrough.tables
  refine ⟨fun c' => ?_, fun key' q hq => ?_, (Spaces.takeTables_takes h.order hs₁).1.order.congr htables hpool⟩
  · rw [hthrough.ranges]
    exact h.ranges c'
  · rw [hthrough.frames] at hq
    exact h.whole key' q hq

theorem Through.held {key : Nat × Nat} (hthrough : Through key t t') (h : t.Ok) (hp : t.spaces.Held p n) :
    t'.spaces.Held p n := by
  obtain ⟨s₁, hs₁, htables, hpool⟩ := hthrough.tables
  exact (hp.takes (Spaces.takeTables_takes h.order hs₁).1).congr htables hpool

end

/-! ### The pages of a process -/

/-- What is mapped in user memory stays as it is. -/
def KeepsPages (t t' : MemState Spaces) : Prop :=
  ∀ key p, UserSlot key → t.spaces.frames key = some p → t'.spaces.frames key = some p

/-- The physical pages in the user memory of a process are in use, and hold no tables. -/
structure UserPages (process : Nat) (t : MemState Spaces) : Prop where
  ok : t.Ok
  held : ∀ k p, k < 2 ^ 26 → t.spaces.frames (process, k) = some p → ∃ n, t.spaces.Held p n

/-- The process has its physical pages for itself and each of them once, as a new process does. -/
structure PrivatePages (process : Nat) (t : MemState Spaces) : Prop extends UserPages process t where
  inj : ∀ j k p, j < 2 ^ 26 → k < 2 ^ 26 → t.spaces.frames (process, j) = some p →
    t.spaces.frames (process, k) = some p → j = k

section
variable {window : KernelPage} {current process p b c n : Nat} {thisPage a : UInt64}
  {t t₁ t' t'' : MemState Spaces}

theorem KeepsPages.refl (t : MemState Spaces) : KeepsPages t t := fun _ _ _ hp => hp

theorem KeepsPages.trans (h : KeepsPages t t') (h' : KeepsPages t' t'') : KeepsPages t t'' :=
  fun key p hkey hp => h' key p hkey (h key p hkey hp)

theorem slotKey_user (process : Nat) {a : UInt64} (hlow : a.toNat < 2 ^ 47) :
    slotKey process a = (process, a.toNat / 2097152) ∧ a.toNat / 2097152 < 2 ^ 26 :=
  ⟨slotKey_low hlow, by omega⟩

/-- What is different when a page has its backing: nothing, or it is mapped and was not. -/
structure Backing (process : Nat) (thisPage : UInt64) (b : Nat) (t t₁ : MemState Spaces) : Prop where
  ok : t₁.Ok
  mapped : t₁.spaces.frames (slotKey process thisPage) = some b
  cases : t₁ = t ∨ t₁.spaces.frames = update t.spaces.frames (slotKey process thisPage) (some b) ∧
    t.spaces.frames (slotKey process thisPage) = none ∧ (∃ n, t₁.spaces.Held b n) ∧
    ∀ p n, t.spaces.Held p n → t₁.spaces.Held p n ∧ p ≠ b

theorem backingFor_spec (h : t.Ok) (haligned : thisPage.toNat % 2097152 = 0)
    (hs : (backingFor process thisPage).run spaceCalls t = some (b, t₁)) : Backing process thisPage b t t₁ := by
  rcases run_backingFor.mp hs with ⟨hb, hne, rfl⟩ | ⟨-, ranges, hr, hback⟩
  · refine ⟨h, ?_, .inl rfl⟩
    rw [Spaces.getPhysAddr_page haligned] at hb
    cases hframe : t₁.spaces.frames (slotKey process thisPage) with
    | none => exact absurd (by rw [hb, hframe]; rfl) hne
    | some p => rw [hb, hframe]; rfl
  · have hok := h.withRanges (c := process) (reserve_page (h.ranges process) hr).1
    obtain ⟨q, rfl, -, hbacked⟩ := hok.backed hback
    obtain ⟨hnew, hold⟩ := backsPage_held hok hback
    have hframes := hbacked.frames
    exact ⟨hbacked.ok, by rw [hframes, update_self], .inr ⟨hframes, hbacked.unmapped, hnew, hold⟩⟩

theorem Backing.keeps (h : Backing process thisPage b t t₁) : KeepsPages t t₁ := by
  rcases h.cases with rfl | ⟨hframes, hnone, -⟩
  · exact .refl _
  · intro key p _ hp
    rw [hframes, update_of_ne, hp]
    rintro rfl
    rw [hnone] at hp
    cases hp

theorem Backing.user (h : Backing process thisPage b t t₁) (huser : UserPages process t)
    (hlow : thisPage.toNat < 2 ^ 47) : UserPages process t₁ := by
  refine ⟨h.ok, fun k p hk hp => ?_⟩
  rcases h.cases with rfl | ⟨hframes, -, hnew, hold⟩
  · exact huser.held k p hk hp
  · rw [hframes, (slotKey_user process hlow).1, update_apply] at hp
    split at hp
    · exact Option.some.inj hp ▸ hnew
    · obtain ⟨n, hn⟩ := huser.held k p hk hp
      exact ⟨n, (hold p n hn).1⟩

/-- A page that is free is nobody's. -/
theorem Backing.private (h : Backing process thisPage b t t₁) (hprivate : PrivatePages process t)
    (hlow : thisPage.toNat < 2 ^ 47) : PrivatePages process t₁ := by
  refine ⟨h.user hprivate.toUserPages hlow, fun j k p hj hk hpj hpk => ?_⟩
  rcases h.cases with rfl | ⟨hframes, -, -, hold⟩
  · exact hprivate.inj j k p hj hk hpj hpk
  · have hne : ∀ k p, k < 2 ^ 26 → t.spaces.frames (process, k) = some p → p ≠ b := by
      intro k p hk hp
      obtain ⟨n, hn⟩ := hprivate.held k p hk hp
      exact (hold p n hn).2
    rw [hframes, (slotKey_user process hlow).1, update_apply] at hpj hpk
    split at hpj <;> split at hpk
    next hj' hk' => exact congrArg Prod.snd (hj'.trans hk'.symm)
    next => exact absurd (Option.some.inj hpj).symm (hne k p hk hpk)
    next => exact absurd (Option.some.inj hpk).symm (hne j p hj hpj)
    next => exact hprivate.inj j k p hj hk hpj hpk

/-- The window is not in user memory. -/
theorem Through.user {key : Nat × Nat} (h : Through key t t') (huser : UserPages process t) :
    UserPages process t' := by
  refine ⟨h.ok huser.ok, fun k p hk hp => ?_⟩
  rw [h.frames] at hp
  obtain ⟨n, hn⟩ := huser.held k p hk hp
  exact ⟨n, h.held huser.ok hn⟩

/-- What taking a page leaves as it is. -/
structure Takes (process : Nat) (thisPage : UInt64) (b : Nat) (t t' : MemState Spaces) : Prop where
  user : UserPages process t'
  priv : PrivatePages process t → PrivatePages process t'
  keeps : KeepsPages t t'
  mapped : t'.spaces.frames (process, thisPage.toNat / 2097152) = some b

/-- **A page is taken.** -/
theorem takePage_spec (h : UserPages process t) (haligned : thisPage.toNat % 2097152 = 0)
    (hlow : thisPage.toNat < 2 ^ 47)
    (hs : (takePage window current process thisPage).run spaceCalls t = some (b, t')) :
    Takes process thisPage b t t' := by
  obtain ⟨t₁, hbacking, hwindow⟩ := run_takePage.mp hs
  have hback := backingFor_spec h.ok haligned hbacking
  have hthrough := throughWindow_spec hback.ok hwindow
  have huser := hback.user h hlow
  refine ⟨hthrough.user huser, fun hprivate => ⟨hthrough.user huser, ?_⟩, hback.keeps.trans fun _ _ _ hp => ?_, ?_⟩
  · rw [hthrough.frames]
    exact (hback.private hprivate hlow).inj
  · rw [hthrough.frames]
    exact hp
  · rw [hthrough.frames, ← (slotKey_user process hlow).1]
    exact hback.mapped

end

/-! ### The loader writes over no table -/

section
variable {α : Type} {image : ElfImage} {window : KernelPage} {current process fuel b : Nat}
  {h : Elf64ProgramHeader} {thisPage o a : UInt64} {v : SegmentVars} {t t' : MemState Spaces} {ram : Bytes}

theorem along_onMemory {p : Prog MemCall α} : (onMemory p).Along pageCalls LoadCall.Agrees (t, ram) ↔
    p.Along spaceCalls MemState.Safe t := by
  have hlift : (onMemory p).Along pageCalls LoadCall.Agrees (t, ram) ↔
      p.Along (spaceCalls.beside Bytes) (fun o t => MemState.Safe o t.1) (t, ram) :=
    @Prog.along_lift _ _ _ _ LoadCall.mem (spaceCalls.beside Bytes) pageCalls (fun o t => MemState.Safe o t.1)
      LoadCall.Agrees (fun _ _ => rfl) (fun _ _ => and_iff_left trivial) p (t, ram)
  exact hlift.trans (Prog.along_beside p t ram)

/-- What is mapped to a page of the process is a page of memory. -/
theorem backingFor_safe (h : t.Ok) (haligned : thisPage.toNat % 2097152 = 0) :
    (backingFor process thisPage).Along spaceCalls MemState.Safe t ∧
      ∀ b t₁, (backingFor process thisPage).run spaceCalls t = some (b, t₁) → t₁.spaces.Known b := by
  constructor
  · rw [backingFor, Prog.along_bind, along_mapping]
    refine ⟨trivial, fun b t₁ hrun => ?_⟩
    rw [run_getPhysAddr] at hrun
    obtain ⟨-, rfl⟩ := Prod.mk.inj (Option.some.inj hrun)
    split
    · rw [Prog.along_bind, along_mapping]
      refine ⟨trivial, fun p t₁ htaken => ?_⟩
      obtain ⟨phys, hphys, rfl⟩ := run_allocatePhysicalPage.mp htaken
      rw [Prog.along_bind]
      refine ⟨along_vmm _, fun _ t₁ hreserve => ?_⟩
      obtain ⟨ranges, -, rfl⟩ := run_allocateSpecific.mp hreserve
      rw [Prog.along_bind, along_mapping]
      exact ⟨known_allocated h hphys, fun _ _ _ => Prog.along_pure _⟩
    · exact Prog.along_pure _
  · exact fun b t₁ hs => .inr ⟨_, (backingFor_spec h haligned hs).mapped⟩

/-- A write in the window, when it is mapped to a page that holds no table. -/
theorem write_agrees {n : Nat} {src : Bytes} (hok : t.Ok) (hheld : ∃ n, t.spaces.Held b n)
    (hframe : t.spaces.frames (slotKey current window.val) = some b) (ho : o.toNat < 2097152) :
    (write current (window.val + o) n src).Along pageCalls LoadCall.Agrees (t, ram) := by
  rw [write, Prog.along_op]
  have hslot := (@window_add window current o ho).1
  refine ⟨⟨hslot ▸ window_ne, fun p hp => hok.whole _ p hp⟩, fun p hp => ?_⟩
  change t.spaces.frames (slotKey current (window.val + o)) = some p at hp
  rw [hslot, hframe] at hp
  obtain ⟨n, hn⟩ := hheld
  rw [← Option.some.inj hp, hn.held.div]
  exact hn.noTable

theorem copyData_agrees (hok : t.Ok) (hheld : ∃ n, t.spaces.Held b n)
    (hframe : t.spaces.frames (slotKey current window.val) = some b) (ho : v.offset.toNat < 2097152) :
    (copyData image window current h thisPage v).Along pageCalls LoadCall.Agrees (t, ram) := by
  rw [copyData]
  split
  · exact (Prog.along_bind ..).mpr ⟨write_agrees hok hheld hframe ho, fun _ _ _ => Prog.along_pure _⟩
  · exact Prog.along_pure _

theorem fillZeroes_agrees (hok : t.Ok) (hheld : ∃ n, t.spaces.Held b n)
    (hframe : t.spaces.frames (slotKey current window.val) = some b) :
    (fillZeroes window current h v).Along pageCalls LoadCall.Agrees (t, ram) := by
  rw [fillZeroes]
  split
  next hzero =>
    exact (Prog.along_bind ..).mpr
      ⟨write_agrees hok hheld hframe (UInt64.lt_iff_toNat_lt.mp hzero.2.2), fun _ _ _ => Prog.along_pure _⟩
  next => exact Prog.along_pure _

/-- **One page** of user memory is loaded on page tables as it is on address spaces. -/
theorem loadPage_agrees (hpages : UserPages process t) (haligned : thisPage.toNat % 2097152 = 0)
    (hlow : thisPage.toNat < 2 ^ 47) (ho : v.offset.toNat < 2097152) :
    (loadPage image window current process h thisPage v).Along pageCalls LoadCall.Agrees (t, ram) := by
  obtain ⟨hsafe, hknown⟩ := @backingFor_safe process thisPage t hpages.ok haligned
  rw [loadPage, Prog.along_bind]
  refine ⟨along_onMemory.mpr hsafe, fun b r hrun => ?_⟩
  rw [run_onMemory] at hrun
  obtain ⟨⟨b', t₁⟩, hbacking, heq⟩ := Option.map_eq_some_iff.mp hrun
  obtain ⟨rfl, rfl⟩ := Prod.mk.inj heq
  have hback := backingFor_spec hpages.ok haligned hbacking
  have huser := hback.user hpages hlow
  obtain ⟨hkey, hk⟩ := slotKey_user process hlow
  obtain ⟨n, hheld⟩ := huser.held _ _ hk (hkey ▸ hback.mapped)
  rw [Prog.along_bind]
  refine ⟨along_onMemory.mpr ((along_mapping _).mpr (hknown _ _ hbacking)), fun _ r hrun => ?_⟩
  rw [run_onMemory] at hrun
  obtain ⟨⟨⟨⟩, t₂⟩, hmapped, heq⟩ := Option.map_eq_some_iff.mp hrun
  obtain ⟨-, rfl⟩ := Prod.mk.inj heq
  obtain ⟨hmap, s₁, hs₁, rfl⟩ := run_mapPage.mp hmapped
  have htakes := (Spaces.takeTables_takes hback.ok.order hs₁).1
  have hok : MemState.Ok ⟨s₁.withPage b' window.val current, t₁.ranges⟩ := by
    have hpage := (hback.ok.takes htakes).withPage (c := current) (a := window.val) hmap.whole
      (hback.ok.ranges current)
    rwa [MemState.withPage, update_eq_self] at hpage
  have hheld₂ : ∃ n, (s₁.withPage b' window.val current).Held b' n := ⟨n, (hheld.takes htakes).congr rfl rfl⟩
  have hframe : (s₁.withPage b' window.val current).frames (slotKey current window.val) = some b' :=
    update_self ..
  rw [Prog.along_bind]
  refine ⟨copyData_agrees hok hheld₂ hframe ho, fun w r hrun => ?_⟩
  rw [copyData_run hframe ho] at hrun
  obtain ⟨⟨w', ram'⟩, -, heq⟩ := Option.map_eq_some_iff.mp hrun
  obtain ⟨rfl, rfl⟩ := Prod.mk.inj heq
  rw [Prog.along_bind]
  refine ⟨fillZeroes_agrees hok hheld₂ hframe, fun z r hrun => ?_⟩
  rw [fillZeroes_run hframe] at hrun
  obtain ⟨rfl, rfl⟩ := Prod.mk.inj (Option.some.inj hrun)
  rw [Prog.along_bind]
  exact ⟨along_onMemory.mpr ((along_mapping _).mpr ⟨window_ne, fun hallow => absurd hallow Bool.false_ne_true⟩),
    fun _ _ _ => Prog.along_pure _⟩

/-- The page that is loaded has been taken. -/
theorem loadPage_takes {v' : SegmentVars} {ram' : Bytes} (ho : v.offset.toNat < 2097152)
    (hs : runPages (loadPage image window current process h thisPage v) t ram = some ((v', t'), ram')) :
    ∃ b, (takePage window current process thisPage).run spaceCalls t = some (b, t') ∧ v'.offset = 0 := by
  rw [loadPage_run ho] at hs
  obtain ⟨⟨b, t₁⟩, htake, hs⟩ := Option.bind_eq_some_iff.mp hs
  obtain ⟨w, -, heq⟩ := Option.map_eq_some_iff.mp hs
  obtain ⟨hpair, -⟩ := Prod.mk.inj heq
  obtain ⟨rfl, rfl⟩ := Prod.mk.inj hpair
  exact ⟨b, htake, rfl⟩

/-- A segment that ends in user memory. -/
def Elf64ProgramHeader.Low (h : Elf64ProgramHeader) : Prop :=
  h.type = 1 → (h.reqVirtAddr + h.sizeInMem).toNat ≤ 2 ^ 47

theorem loadPages_agrees (hend : (h.reqVirtAddr + h.sizeInMem).toNat ≤ 2 ^ 47)
    (haligned : thisPage.toNat % 2097152 = 0) (ho : v.offset.toNat < 2097152) (hpages : UserPages process t) :
    (loadPages image window current process h fuel thisPage v).Along pageCalls LoadCall.Agrees (t, ram) ∧
      ∀ t' ram', runPages (loadPages image window current process h fuel thisPage v) t ram =
        some (((), t'), ram') → UserPages process t' := by
  induction fuel generalizing thisPage v t ram with
  | zero => exact ⟨trivial, fun _ _ hs => by cases hs⟩
  | succ fuel ih =>
      rw [loadPages]
      split
      next hlt =>
        rw [UInt64.lt_iff_toNat_lt] at hlt
        have hlow : thisPage.toNat < 2 ^ 47 := by omega
        have hnext : ∀ v' t' ram', runPages (loadPage image window current process h thisPage v) t ram =
            some ((v', t'), ram') → v'.offset.toNat < 2097152 ∧ UserPages process t' := by
          intro v' t' ram' hs
          obtain ⟨b, htake, hzero⟩ := loadPage_takes ho hs
          exact ⟨hzero ▸ Nat.succ_pos _, (takePage_spec hpages haligned hlow htake).user⟩
        rw [Prog.along_bind, runPages_bind]
        refine ⟨⟨loadPage_agrees hpages haligned hlow ho, fun v' r hrun => ?_⟩, fun t' ram' hs => ?_⟩
        · obtain ⟨ho', hpages'⟩ := hnext _ _ _ (runPages_eq_some.mpr hrun)
          exact (ih (add_memPageSize_aligned haligned) ho' hpages').1
        · obtain ⟨⟨⟨v', t₁⟩, ram₁⟩, hpage, hrest⟩ := Option.bind_eq_some_iff.mp hs
          obtain ⟨ho', hpages'⟩ := hnext _ _ _ hpage
          exact (ih (add_memPageSize_aligned haligned) ho' hpages').2 _ _ hrest
      next =>
        refine ⟨Prog.along_pure _, fun t' ram' hs => ?_⟩
        obtain rfl := congrArg (fun r => r.1.2) (Option.some.inj hs)
        exact hpages

theorem firstPage_toNat (h : Elf64ProgramHeader) : (h.reqVirtAddr - h.reqVirtAddr % memPageSize).toNat =
    h.reqVirtAddr.toNat - h.reqVirtAddr.toNat % 2097152 := by
  have hmod : (h.reqVirtAddr % memPageSize).toNat = h.reqVirtAddr.toNat % 2097152 := rfl
  rw [UInt64.toNat_sub_of_le _ _ (UInt64.le_iff_toNat_le.mpr (hmod ▸ Nat.mod_le _ _)), hmod]

theorem firstPage_aligned (h : Elf64ProgramHeader) :
    (h.reqVirtAddr - h.reqVirtAddr % memPageSize).toNat % 2097152 = 0 := by
  rw [firstPage_toNat]
  omega

theorem firstVars_offset (h : Elf64ProgramHeader) : (firstVars h).offset.toNat < 2097152 :=
  Nat.mod_lt h.reqVirtAddr.toNat (by decide : 0 < 2097152)

theorem loadSegment_agrees (hlow : h.Low) (hpages : UserPages process t) :
    (loadSegment image window current process fuel h).Along pageCalls LoadCall.Agrees (t, ram) ∧
      ∀ t' ram', runPages (loadSegment image window current process fuel h) t ram = some (((), t'), ram') →
        UserPages process t' := by
  rw [loadSegment]
  split
  next htype =>
    split
    · exact loadPages_agrees (hlow htype) (firstPage_aligned h) (firstVars_offset h) hpages
    · exact ⟨trivial, fun _ _ hs => by cases hs⟩
  next =>
    refine ⟨Prog.along_pure _, fun t' ram' hs => ?_⟩
    obtain rfl := congrArg (fun r => r.1.2) (Option.some.inj hs)
    exact hpages

/-- **The loader** works on page tables as it does on address spaces, when the segments are in user memory. -/
theorem procLoadElfFile_agrees {progHeaders : List Elf64ProgramHeader} (hlow : ∀ h ∈ progHeaders, h.Low)
    (hpages : UserPages process t) :
    (procLoadElfFile image window current process fuel progHeaders).Along pageCalls LoadCall.Agrees (t, ram) := by
  induction progHeaders generalizing t ram with
  | nil => exact Prog.along_pure _
  | cons h progHeaders ih =>
      obtain ⟨hfirst, hrest⟩ := List.forall_mem_cons.mp hlow
      obtain ⟨halong, huser⟩ := loadSegment_agrees hfirst hpages
      rw [procLoadElfFile, Prog.along_bind]
      exact ⟨halong, fun _ r hrun => ih hrest (huser _ _ (runPages_eq_some.mpr hrun))⟩

end

end Azalea.Proc
