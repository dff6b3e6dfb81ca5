import Azalea.Syscall.MemoryRuns

/-!
# Proc — stacks of threads

`proc_allocate_stack` of `processor/x64/proc_stacks-x64.cpp`, and `task_int_create_exec_context` of
`processor/x64/task_manager-x64.cpp`, which gives a new thread its stacks.  A stack of user mode is one page.
The page tables are searched for it, from page 120 down by two pages; then it is reserved in the range list of
the process.  An `ASSERT` that fails and a search that does not end are failures.

* `stacks_iff`: after any run of memory calls and of these, the next call gives a stack, as it should, exactly
  if the search ends above page 0, at a page of no allocated range, and there is memory for it and its tables.
-/

namespace Azalea.Proc.Stacks
open Azalea.Mem Azalea.Programs Azalea.Syscall Azalea.Runs Azalea.Tiling Azalea.Bitmaps Function VmmRangeData

/-! ### The functions -/

/-- What the functions read of a `task_process`. -/
structure TaskProcess where
  context : Nat
  kernelMode : Bool
  pml4PhysAddr : UInt64

/-- `task_x64_saved_stack`. -/
structure SavedStack where
  fxState : List UInt8
  r15 : UInt64
  r14 : UInt64
  r13 : UInt64
  r12 : UInt64
  r11 : UInt64
  r10 : UInt64
  r9 : UInt64
  r8 : UInt64
  rbp : UInt64
  rdi : UInt64
  rsi : UInt64
  rdx : UInt64
  rcx : UInt64
  rbx : UInt64
  rax : UInt64
  procRip : UInt64
  procCs : UInt64
  procRflags : UInt64
  procRsp : UInt64
  procSs : UInt64

/-- `task_x64_exec_context`, but for `user_mode_stack`, which is not set here. -/
structure ExecContext where
  cr3Value : UInt64
  syscallStack : UInt64
  ownerThread : UInt64
  savedStack : SavedStack
  fsBase : UInt64
  gsBase : UInt64
  origSyscallStack : UInt64

/-- The ranges of the kernel, and the contexts on the heap. -/
structure KernelData where
  ranges : List VmmRangeData
  contexts : List ExecContext

/-- `DEF_USER_MODE_STACK_PAGE`. -/
def defUserModeStackPage : UInt64 := 0x0F000000

/-- The steps of two pages until the slots of the tables come again. -/
def slotSteps : Nat := 2 ^ 26

/-- The loop that looks for a page that is not mapped.  When it has found none in `slotSteps` steps it does
not end (`findStackPage_none`). -/
def findStackPage (context : Nat) : Nat → UInt64 → Prog MemCall UInt64
  | 0, _ => .fail
  | n + 1, stackAddr => do
      let physAddr ← mapping (.getPhysAddr stackAddr context)
      if physAddr ≠ 0 then findStackPage context n (stackAddr - memPageSize * 2) else pure stackAddr

/-- The first branch of `proc_allocate_stack`: the middle one of three pages. -/
def allocateKernelStack (proc : Option TaskProcess) (k : KernelData) : Prog MemCall (UInt64 × KernelData) :=
  match proc with
  | some _ => .fail
  | none => do
      let r ← .ofOption (memAllocateVirtualRange 3 k.ranges)
      let newStack := r.1 + memPageSize
      let physicalBacking ← mapping .allocatePhysicalPage
      mapping (.mapPage physicalBacking newStack 0)
      pure (newStack, { k with ranges := r.2 })

/-- The second branch. -/
def allocateUserStack (proc : Option TaskProcess) (k : KernelData) : Prog MemCall (UInt64 × KernelData) :=
  match proc with
  | none => .fail
  | some proc =>
      if proc.kernelMode then .fail
      else do
        let stackAddr ← findStackPage proc.context slotSteps defUserModeStackPage
        vmm (.allocateSpecific proc.context stackAddr 1)
        let physicalBacking ← mapping .allocatePhysicalPage
        mapping (.mapPage physicalBacking stackAddr proc.context)
        pure (stackAddr, k)

/-- `proc_allocate_stack`. -/
def procAllocateStack (kernelMode : Bool) (proc : Option TaskProcess) (k : KernelData) :
    Prog MemCall (UInt64 × KernelData) := do
  let r ← (if kernelMode then allocateKernelStack proc k else allocateUserStack proc k)
  let newStack := r.1 + memPageSize - 16
  if newStack &&& 0x0F = 0 then pure (newStack, r.2) else .fail

/-- A stack for the thread, or the one that is provided. -/
def stackOrProvided (stackPtr : UInt64) (kernelMode : Bool) (proc : Option TaskProcess) (k : KernelData) :
    Prog MemCall (UInt64 × KernelData) :=
  if stackPtr = 0 then procAllocateStack kernelMode proc k else pure (stackPtr, k)

/-- The arguments of `task_int_create_exec_context`; zero is `nullptr`. -/
structure ContextArgs where
  entryPoint : UInt64
  newThread : UInt64
  parentProcess : TaskProcess
  param : UInt64
  stackPtr : UInt64

/-- The context of a thread, but for what depends on its mode. -/
def ContextArgs.easyParts (args : ContextArgs) (syscallStack : UInt64) : ExecContext where
  cr3Value := args.parentProcess.pml4PhysAddr
  syscallStack := syscallStack
  ownerThread := args.newThread
  savedStack :=
    { fxState := List.replicate 512 0
      r15 := 0, r14 := 0, r13 := 0, r12 := 0, r11 := 0, r10 := 0, r9 := 0, r8 := 0, rbp := 0
      rdi := args.param, rsi := 0, rdx := 0, rcx := 0, rbx := 0, rax := 0
      procRip := args.entryPoint, procCs := 0, procRflags := 0, procRsp := 0, procSs := 0 }
  fsBase := 0
  gsBase := 0
  origSyscallStack := syscallStack

/-- The context with what depends on the mode. -/
def ExecContext.inMode (c : ExecContext) (rflags cs ss rsp : UInt64) : ExecContext :=
  { c with
    savedStack :=
      { c.savedStack with procRflags := rflags, procCs := cs, procSs := ss, procRsp := rsp } }

/-- `task_int_create_exec_context`.  Without a stack for user mode it deletes the new context, but not the
stack for system calls that it has allocated before. -/
def taskIntCreateExecContext (args : ContextArgs) (k : KernelData) :
    Prog MemCall (Option ExecContext × KernelData) := do
  let r ← procAllocateStack true none k
  let newContext := args.easyParts r.1
  let proc := args.parentProcess
  if proc.kernelMode then do
    let r ← stackOrProvided args.stackPtr true none r.2
    let newContext := newContext.inMode 0x200202 0x08 0x10 (r.1 - 8)
    pure (some newContext, { r.2 with contexts := newContext :: r.2.contexts })
  else do
    let r ← stackOrProvided args.stackPtr false (some proc) r.2
    if r.1 = 0 then pure (none, r.2)
    else
      let newContext := newContext.inMode 0x203202 (0x18 + 3) (0x20 + 3) (r.1 - 8)
      pure (some newContext, { r.2 with contexts := newContext :: r.2.contexts })

/-! ### The search -/

/-- The pages that the loop looks at. -/
def stackAddr (i : Nat) : UInt64 := defUserModeStackPage - UInt64.ofNat (i * 4194304)

/-- The number of such a page, as long as it is one of user memory. -/
def stackPage (i : Nat) : Nat := 120 - 2 * i

section
variable {s s' : MemState Spaces} {c i n : Nat} {a b : UInt64}

theorem stackAddr_succ : stackAddr (i + 1) = stackAddr i - memPageSize * 2 := by
  rw [← UInt64.toNat_inj]
  simp only [stackAddr, defUserModeStackPage, memPageSize, UInt64.toNat_sub, UInt64.toNat_mul,
    UInt64.toNat_ofNat', UInt64.reduceToNat]
  omega

theorem stackAddr_low (hi : i ≤ 60) : (stackAddr i).toNat = stackPage i * 2097152 := by
  simp only [stackAddr, stackPage, defUserModeStackPage, UInt64.toNat_sub, UInt64.toNat_ofNat',
    UInt64.reduceToNat]
  omega

/-- Below page 0 the search goes on in the upper half. -/
theorem stackAddr_high (hi : 60 < i) (hlt : i < slotSteps) : 2 ^ 46 ≤ (stackAddr i).toNat := by
  rw [slotSteps] at hlt
  simp only [stackAddr, defUserModeStackPage, UInt64.toNat_sub, UInt64.toNat_ofNat', UInt64.reduceToNat]
  omega

theorem stackAddr_aligned : (stackAddr i).toNat % 2097152 = 0 := by
  simp only [stackAddr, defUserModeStackPage, UInt64.toNat_sub, UInt64.toNat_ofNat', UInt64.reduceToNat]
  omega

theorem slotKey_stackAddr (hi : i ≤ 60) : slotKey c (stackAddr i) = (c, stackPage i) := by
  have htoNat := stackAddr_low hi
  have hpage : stackPage i ≤ 120 := Nat.sub_le ..
  rw [slotKey_low (by omega), htoNat, Nat.mul_div_cancel _ (by decide)]

/-- The loop ends at the first page that is not mapped. -/
theorem findStackPage_from (k : Nat) :
    (findStackPage c n (stackAddr k)).run spaceCalls s = some (b, s') ↔ s' = s ∧
      ∃ i < n, b = stackAddr (k + i) ∧ (∀ j < i, s.spaces.getPhysAddr (stackAddr (k + j)) c ≠ 0) ∧
        s.spaces.getPhysAddr b c = 0 := by
  induction n generalizing k with
  | zero =>
      refine ⟨fun h => (by cases h), ?_⟩
      rintro ⟨-, i, hi, -⟩
      exact absurd hi (Nat.not_lt_zero i)
  | succ n ih =>
      rw [findStackPage, ← stackAddr_succ, Prog.run_bind, run_getPhysAddr, Option.bind_some, Prog.run_ite]
      constructor
      · intro h
        split at h
        next hne =>
          obtain ⟨rfl, i, hi, hb, hbefore, hzero⟩ := (ih (k + 1)).mp h
          refine ⟨rfl, i + 1, Nat.succ_lt_succ hi, ?_, ?_, hzero⟩
          · rw [hb, Nat.add_right_comm, Nat.add_assoc]
          · rintro (_ | j) hj
            · exact hne
            · have := hbefore j (Nat.lt_of_succ_lt_succ hj)
              rwa [Nat.add_right_comm, Nat.add_assoc] at this
        next hzero =>
          obtain ⟨rfl, rfl⟩ := Prod.mk.inj (Option.some.inj h)
          exact ⟨rfl, 0, Nat.succ_pos n, rfl, fun _ hj => absurd hj (Nat.not_lt_zero _), not_not.mp hzero⟩
      · rintro ⟨rfl, i, hi, rfl, hbefore, hzero⟩
        cases i with
        | zero => exact if_neg (not_not.mpr hzero)
        | succ i =>
            rw [if_pos (by simpa using hbefore 0 (Nat.succ_pos i))]
            refine (ih (k + 1)).mpr ⟨rfl, i, Nat.lt_of_succ_lt_succ hi, ?_, fun j hj => ?_, hzero⟩
            · rw [Nat.add_right_comm, Nat.add_assoc]
            · have := hbefore (j + 1) (Nat.succ_lt_succ hj)
              rwa [Nat.add_right_comm, Nat.add_assoc]

theorem findStackPage_eq_some :
    (findStackPage c n defUserModeStackPage).run spaceCalls s = some (b, s') ↔ s' = s ∧
      ∃ i < n, b = stackAddr i ∧ (∀ j < i, s.spaces.getPhysAddr (stackAddr j) c ≠ 0) ∧
        s.spaces.getPhysAddr b c = 0 := by
  have h := @findStackPage_from s s' c n b 0
  simp only [Nat.zero_add] at h
  exact h

theorem findStackPage_safe (s : MemState Spaces) (a : UInt64) :
    (findStackPage c n a).Along spaceCalls MemState.Safe s := by
  induction n generalizing a s with
  | zero => trivial
  | succ n ih =>
      rw [findStackPage, Prog.along_bind, along_mapping]
      refine ⟨trivial, fun physAddr s' _ => ?_⟩
      split
      · exact ih s' _
      · exact Prog.along_pure _

end

/-! ### A stack of user mode -/

/-- The search ends at a page where nothing is mapped. -/
structure EndsAt (spaces : Spaces) (c i : Nat) : Prop where
  before : ∀ j < i, spaces.getPhysAddr (stackAddr j) c ≠ 0
  free : spaces.frames (c, stackPage i) = none

/-- There is room for a stack of the process: the search ends above page 0, at a page that no allocated range
covers, and memory is left for the page and its tables, when so much has been taken for something else. -/
def HasRoom (s : MemState Spaces) (c used : Nat) : Prop :=
  ∃ i < 60, EndsAt s.spaces c i ∧ ¬ s.InRange c (stackPage i) ∧
    used + 512 + s.spaces.missing (c, stackPage i) ≤ s.spaces.pool.room

/-- A stack pointer is a multiple of 16. -/
theorem stackTop_mask {a : UInt64} (ha : a.toNat % 2097152 = 0) :
    (a + memPageSize - 16) &&& 0x0F = 0 := by
  have hmod : (a + memPageSize - 16).toNat % 2 ^ 4 = 0 := by
    simp only [memPageSize, UInt64.toNat_sub, UInt64.toNat_add, UInt64.reduceToNat]
    omega
  rw [← UInt64.toNat_inj, UInt64.toNat_and]
  exact (Nat.and_two_pow_sub_one_eq_mod _ 4).trans hmod

section
variable {s s' : MemState Spaces} {k k' : KernelData} {proc : TaskProcess} {c i p used : Nat} {a : UInt64}

theorem EndsAt.getPhysAddr {spaces : Spaces} (h : EndsAt spaces c i) (hi : i ≤ 60) :
    spaces.getPhysAddr (stackAddr i) c = 0 := by
  rw [Spaces.getPhysAddr_page stackAddr_aligned, slotKey_stackAddr hi, h.free]
  rfl

/-- The pointer is that of the top of the page. -/
theorem procAllocateStack_eq_some {kernelMode : Bool} {proc : Option TaskProcess} :
    (procAllocateStack kernelMode proc k).run spaceCalls s = some ((a, k'), s') ↔
      ∃ b, (if kernelMode then allocateKernelStack proc k else allocateUserStack proc k).run spaceCalls s =
          some ((b, k'), s') ∧ a = b + memPageSize - 16 ∧ a &&& 0x0F = 0 := by
  rw [procAllocateStack, Prog.run_bind, Option.bind_eq_some_iff]
  constructor
  · rintro ⟨⟨⟨b, k₁⟩, s₁⟩, halloc, hs⟩
    dsimp only at hs
    split at hs
    next hmask =>
      obtain ⟨heq, rfl⟩ := Prod.mk.inj (Option.some.inj hs)
      obtain ⟨rfl, rfl⟩ := Prod.mk.inj heq
      exact ⟨b, halloc, rfl, hmask⟩
    next => cases hs
  · rintro ⟨b, halloc, rfl, hmask⟩
    refine ⟨((b, k'), s'), halloc, ?_⟩
    dsimp only
    rw [if_pos hmask]
    rfl

/-- A physical page is handed out, and mapped. -/
theorem run_backsPage {β : Type} {f : Prog MemCall β} {b : β} (t : MemState Spaces) :
    (do let physicalBacking ← mapping .allocatePhysicalPage
        mapping (.mapPage physicalBacking a c)
        f : Prog MemCall β).run spaceCalls t = some (b, s') ↔
      ∃ p t', t.BacksPage c a p t' ∧ f.run spaceCalls t' = some (b, s') := by
  rw [Prog.run_bind, Option.bind_eq_some_iff]
  constructor
  · rintro ⟨⟨p, t₁⟩, hpage, hrest⟩
    obtain ⟨phys, hphys, rfl⟩ := run_allocatePhysicalPage.mp hpage
    rw [Prog.run_bind, Option.bind_eq_some_iff] at hrest
    obtain ⟨⟨⟨⟩, t'⟩, hmapped, hrest⟩ := hrest
    obtain ⟨hmap, s₁, hs₁, rfl⟩ := run_mapPage.mp hmapped
    exact ⟨p, _, ⟨phys, s₁, hphys, hmap, hs₁, rfl⟩, hrest⟩
  · rintro ⟨p, t', ⟨phys, s₁, hphys, hmap, hs₁, rfl⟩, hrest⟩
    refine ⟨_, run_allocatePhysicalPage.mpr ⟨phys, hphys, rfl⟩, ?_⟩
    rw [Prog.run_bind, Option.bind_eq_some_iff]
    exact ⟨_, run_mapPage.mpr ⟨hmap, s₁, hs₁, rfl⟩, hrest⟩

theorem backsPage_safe {β : Type} {f : Prog MemCall β} (h : s.Ok)
    (hf : ∀ t, f.Along spaceCalls MemState.Safe t) :
    (do let physicalBacking ← mapping .allocatePhysicalPage
        mapping (.mapPage physicalBacking a c)
        f : Prog MemCall β).Along spaceCalls MemState.Safe s := by
  rw [Prog.along_bind, along_mapping]
  refine ⟨trivial, fun p t hpage => ?_⟩
  obtain ⟨phys, hphys, rfl⟩ := run_allocatePhysicalPage.mp hpage
  rw [Prog.along_bind, along_mapping]
  exact ⟨known_allocated h hphys, fun _ t _ => hf t⟩

/-- What a call for a stack of user mode does. -/
theorem procAllocateStack_user (h : s.Ok) (hproc : proc.kernelMode = false) :
    (procAllocateStack false (some proc) k).run spaceCalls s = some ((a, k'), s') ↔
      ∃ i ≤ 60, EndsAt s.spaces proc.context i ∧ ∃ ranges p,
        memVmmAllocateSpecificRange (stackAddr i) 1 (s.ranges proc.context) = some ranges ∧
        (s.withRanges proc.context ranges).BacksPage proc.context (stackAddr i) p s' ∧
        a = stackAddr i + memPageSize - 16 ∧ k' = k := by
  constructor
  · intro hs
    obtain ⟨b, halloc, rfl, -⟩ := procAllocateStack_eq_some.mp hs
    rw [if_neg (by decide), allocateUserStack] at halloc
    simp only [hproc, Bool.false_eq_true, if_false, Prog.run_bind _ _ s, Option.bind_eq_some_iff] at halloc
    obtain ⟨⟨addr, s₁⟩, hfind, halloc⟩ := halloc
    obtain ⟨rfl, i, hlt, rfl, hbefore, -⟩ := findStackPage_eq_some.mp hfind
    rw [Prog.run_bind] at halloc
    obtain ⟨⟨⟨⟩, s₂⟩, hreserve, halloc⟩ := Option.bind_eq_some_iff.mp halloc
    obtain ⟨ranges, hranges, rfl⟩ := run_allocateSpecific.mp hreserve
    obtain ⟨p, t, hb, hend⟩ := (run_backsPage _).mp halloc
    obtain ⟨hpair, rfl⟩ := Prod.mk.inj (Option.some.inj hend)
    obtain ⟨rfl, rfl⟩ := Prod.mk.inj hpair
    -- there are no ranges above user memory
    have hlow := (reserve_page (h.ranges _) hranges).2.2
    have hi : i ≤ 60 := by
      by_contra hi
      exact absurd (stackAddr_high (not_le.mp hi) hlt) (not_le.mpr hlow)
    have hfree := (h.withRanges (reserve_page (h.ranges _) hranges).1).backed hb
    obtain ⟨q, -, -, hbacked⟩ := hfree
    have hfree := hbacked.unmapped
    rw [slotKey_stackAddr hi] at hfree
    exact ⟨i, hi, ⟨hbefore, hfree⟩, ranges, p, hranges, hb, rfl, rfl⟩
  · rintro ⟨i, hi, hends, ranges, p, hranges, hb, rfl, rfl⟩
    have hfind : (findStackPage proc.context slotSteps defUserModeStackPage).run spaceCalls s =
        some (stackAddr i, s) :=
      findStackPage_eq_some.mpr ⟨rfl, i, Nat.lt_of_le_of_lt hi (by decide), rfl, hends.before,
        hends.getPhysAddr hi⟩
    refine procAllocateStack_eq_some.mpr ⟨stackAddr i, ?_, rfl, stackTop_mask stackAddr_aligned⟩
    rw [if_neg (by decide), allocateUserStack]
    simp only [hproc, Bool.false_eq_true, if_false]
    rw [Prog.run_bind, hfind, Option.bind_some, Prog.run_bind,
      run_allocateSpecific.mpr ⟨ranges, hranges, rfl⟩, Option.bind_some]
    exact (run_backsPage _).mpr ⟨p, s', hb, rfl⟩

theorem userRoot_page : userRoot.page = 0 ∧ userRoot.page + userRoot.pages = 2 ^ 25 := by decide

/-- With room, a stack is found. -/
theorem HasRoom.allocates (hroom : HasRoom s proc.context 0) (h : s.Ok) (hproc : proc.kernelMode = false) :
    ∃ i < 60, EndsAt s.spaces proc.context i ∧ ¬ s.InRange proc.context (stackPage i) ∧
      ∃ ranges p s', memVmmAllocateSpecificRange (stackAddr i) 1 (s.ranges proc.context) = some ranges ∧
        (s.withRanges proc.context ranges).BacksPage proc.context (stackAddr i) p s' ∧
        (procAllocateStack false (some proc) k).run spaceCalls s =
          some ((stackAddr i + memPageSize - 16, k), s') := by
  obtain ⟨i, hi, hends, hfree, hroom⟩ := hroom
  have hpage : (stackAddr i).toNat / 2097152 = stackPage i := by
    rw [stackAddr_low hi.le, Nat.mul_div_cancel _ (by decide)]
  have hbound : stackPage i < userRoot.page + userRoot.pages := by
    rw [userRoot_page.2, stackPage]
    omega
  obtain ⟨ranges, hranges⟩ := VmmInv.reserves (a := stackAddr i) (h.ranges proc.context)
    (Nat.dvd_of_mod_eq_zero stackAddr_aligned) (by rw [userRoot_page.1]; exact Nat.zero_le _)
    (by rw [hpage]; exact hbound)
    (by rw [hpage]; exact fun r hr hra hcovers => hfree ⟨r, hr, hra, hcovers⟩)
  have hok := h.withRanges (c := proc.context) (reserve_page (h.ranges _) hranges).1
  have hlow := (reserve_page (h.ranges _) hranges).2.2
  have hkey := slotKey_stackAddr (c := proc.context) hi.le
  obtain ⟨p, s', hb⟩ := (hok.backs_iff (c := proc.context) (a := stackAddr i) (by omega)).mpr
    ⟨stackAddr_aligned, hkey ▸ hends.free, by
      rw [hkey]
      change 512 + s.spaces.missing _ ≤ s.spaces.pool.room
      omega⟩
  exact ⟨i, hi, hends, hfree, ranges, p, s', hranges, hb, (procAllocateStack_user h hproc).mpr
    ⟨i, hi.le, hends, ranges, p, hranges, hb, rfl, rfl⟩⟩

end

/-! ### A stack of kernel mode -/

/-- What the kernel's stack needs: a range of the kernel, whose middle is not mapped, and memory for the page
and its tables. -/
structure KernelFits (k : KernelData) (s : MemState Spaces) (start : UInt64) : Prop where
  granted : ∃ ranges, memAllocateVirtualRange 3 k.ranges = some (start, ranges)
  unmapped : s.spaces.frames (slotKey 0 (start + memPageSize)) = none
  kernel : s.spaces.tables (ptrPlace (slotKey 0 (start + memPageSize))) ≠ none
  room : 512 + s.spaces.missing (slotKey 0 (start + memPageSize)) ≤ s.spaces.pool.room

/-- What has changed when the kernel has a stack more: nothing of user memory, but so much less is free. -/
structure KernelStack (k k' : KernelData) (s s' : MemState Spaces) (start : UInt64) : Prop where
  ok : s'.Ok
  kernel : VmmInv kernelRoot k'.ranges
  ranges : s'.ranges = s.ranges
  user : ∀ c k, k < 2 ^ 26 → s'.spaces.frames (c, k) = s.spaces.frames (c, k)
  missing : ∀ c k, k < 2 ^ 26 → s'.spaces.missing (c, k) = s.spaces.missing (c, k)
  taken : s'.spaces.pool.room + 512 + s.spaces.missing (slotKey 0 (start + memPageSize)) = s.spaces.pool.room

section
variable {s s' : MemState Spaces} {k k' : KernelData} {c i used : Nat} {a start : UInt64}
  {ranges : List VmmRangeData}

/-- The middle of a range of the kernel is a page of the last table. -/
theorem kernelStack_slot (h : VmmInv kernelRoot k.ranges)
    (ha : memAllocateVirtualRange 3 k.ranges = some (start, ranges)) :
    VmmInv kernelRoot ranges ∧ (start + memPageSize).toNat % 2097152 = 0 ∧
      2 ^ 63 ≤ (start + memPageSize).toNat ∧ 2 ^ 26 ≤ (slotKey c (start + memPageSize)).2 := by
  obtain ⟨hinv, g, hg, -, hga, hpages, -⟩ := grant_spec h ha
  have hbounds := hinv.tiles.bounds g hg
  have hstart : start.toNat = g.page * 2097152 := hga ▸ (hinv.wf g hg).start_eq
  have hpages : 3 ≤ g.pages := hpages
  have hlo : kernelRoot.page = 2 ^ 43 - 2048 := by decide
  have hhi : kernelRoot.page + kernelRoot.pages = 2 ^ 43 := by decide
  have htoNat : (start + memPageSize).toNat = (g.page + 1) * 2097152 := by
    simp only [memPageSize, UInt64.toNat_add, UInt64.reduceToNat]
    omega
  refine ⟨hinv, by omega, by omega, ?_⟩
  show 2 ^ 26 ≤ slot (start + memPageSize)
  rw [slot, htoNat]
  omega

/-- What a call for a stack of kernel mode does. -/
theorem allocateKernelStack_eq_some : (allocateKernelStack none k).run spaceCalls s = some ((a, k'), s') ↔
    ∃ start ranges p, memAllocateVirtualRange 3 k.ranges = some (start, ranges) ∧
      s.BacksPage 0 (start + memPageSize) p s' ∧ a = start + memPageSize ∧
      k' = { k with ranges := ranges } := by
  rw [allocateKernelStack, Prog.run_bind, Prog.run_ofOption]
  constructor
  · intro hs
    obtain ⟨⟨r, s₁⟩, hr, hs⟩ := Option.bind_eq_some_iff.mp hs
    obtain ⟨⟨start, ranges⟩, hranges, heq⟩ := Option.map_eq_some_iff.mp hr
    obtain ⟨rfl, rfl⟩ := Prod.mk.inj heq
    obtain ⟨p, t, hb, hend⟩ := (run_backsPage _).mp hs
    obtain ⟨hpair, rfl⟩ := Prod.mk.inj (Option.some.inj hend)
    obtain ⟨rfl, rfl⟩ := Prod.mk.inj hpair
    exact ⟨start, ranges, p, hranges, hb, rfl, rfl⟩
  · rintro ⟨start, ranges, p, hranges, hb, rfl, rfl⟩
    rw [hranges]
    exact (run_backsPage s).mpr ⟨p, s', hb, rfl⟩

/-- The kernel has a stack more exactly if it fits. -/
theorem procAllocateStack_kernel (h : s.Ok) (hk : VmmInv kernelRoot k.ranges) :
    (∃ a k' s', (procAllocateStack true none k).run spaceCalls s = some ((a, k'), s')) ↔
      ∃ start, KernelFits k s start := by
  constructor
  · rintro ⟨a, k', s', hs⟩
    obtain ⟨b, halloc, -⟩ := procAllocateStack_eq_some.mp hs
    obtain ⟨start, ranges, p, hranges, hb, -⟩ := allocateKernelStack_eq_some.mp halloc
    obtain ⟨-, -, hhigh, -⟩ := kernelStack_slot (c := 0) hk hranges
    obtain ⟨-, hfree, hkernel, hroom⟩ := h.backsPage_iff.mp ⟨p, s', hb⟩
    exact ⟨start, ⟨ranges, hranges⟩, hfree, hkernel hhigh, hroom⟩
  · rintro ⟨start, ⟨ranges, hranges⟩, hfree, hkernel, hroom⟩
    obtain ⟨-, haligned, -, -⟩ := kernelStack_slot (c := 0) hk hranges
    obtain ⟨p, s', hb⟩ := h.backsPage_iff.mpr ⟨haligned, hfree, fun _ => hkernel, hroom⟩
    exact ⟨_, _, s', procAllocateStack_eq_some.mpr ⟨start + memPageSize,
      allocateKernelStack_eq_some.mpr ⟨start, ranges, p, hranges, hb, rfl, rfl⟩, rfl, stackTop_mask haligned⟩⟩

/-- Tables of the kernel are none of user memory. -/
theorem missing_of_kernel {spaces spaces' : Spaces} {key : Nat × Nat} {u : Nat}
    (hs : spaces.takeTables key = some spaces') (hkey : 2 ^ 26 ≤ key.2) (hu : u < 2 ^ 26) :
    spaces'.missing (c, u) = spaces.missing (c, u) := by
  obtain ⟨-, -, hothers⟩ := Spaces.takeTables_tables hs
  have hptr : spaces'.tables (ptrPlace (c, u)) = spaces.tables (ptrPlace (c, u)) := by
    refine hothers _ (fun heq => ?_) (dirPlace_ne_ptrPlace _ _).symm
    rw [ptrPlace, ptrPlace, Place.pageDirPtrTable.injEq] at heq
    omega
  have hdir : spaces'.tables (dirPlace (c, u)) = spaces.tables (dirPlace (c, u)) := by
    refine hothers _ (dirPlace_ne_ptrPlace _ _) fun heq => ?_
    rw [dirPlace, dirPlace, Place.pageDir.injEq] at heq
    omega
  rw [Spaces.missing, Spaces.missing, hptr, hdir]

theorem KernelStack.of_allocates (h : s.Ok) (hk : VmmInv kernelRoot k.ranges)
    (hs : (procAllocateStack true none k).run spaceCalls s = some ((a, k'), s')) :
    ∃ start, KernelFits k s start ∧ KernelStack k k' s s' start := by
  obtain ⟨b, halloc, -⟩ := procAllocateStack_eq_some.mp hs
  obtain ⟨start, ranges, p, hranges, hb, -, rfl⟩ := allocateKernelStack_eq_some.mp halloc
  obtain ⟨hinv, -, hhigh, hslot⟩ := kernelStack_slot (c := 0) hk hranges
  obtain ⟨-, hfree, hkernel, hroom⟩ := h.backsPage_iff.mp ⟨p, s', hb⟩
  obtain ⟨q, -, -, hbacked⟩ := h.backed hb
  refine ⟨start, ⟨⟨ranges, hranges⟩, hfree, hkernel hhigh, hroom⟩, hbacked.ok, hinv, hbacked.ranges,
    fun c u hu => ?_, fun c u hu => ?_, hbacked.room⟩
  · rw [hbacked.frames]
    refine update_of_ne ?_ ..
    rintro heq
    rw [← heq] at hslot
    exact absurd hu (not_lt.mpr hslot)
  · obtain ⟨phys, s₁, -, -, hs₁, rfl⟩ := hb
    have hsame := missing_of_kernel (c := c) hs₁ hslot hu
    exact hsame

/-- A stack of the kernel leaves the search as it is, and so much less memory. -/
theorem KernelStack.hasRoom (h : KernelStack k k' s s' start) : HasRoom s' c used ↔
    HasRoom s c (used + 512 + s.spaces.missing (slotKey 0 (start + memPageSize))) := by
  have hpage : ∀ i, stackPage i < 2 ^ 26 := fun i => Nat.lt_of_le_of_lt (Nat.sub_le ..) (by decide)
  have haddr : ∀ j ≤ 60, s'.spaces.getPhysAddr (stackAddr j) c = s.spaces.getPhysAddr (stackAddr j) c := by
    intro j hj
    rw [Spaces.getPhysAddr_page stackAddr_aligned, Spaces.getPhysAddr_page stackAddr_aligned,
      slotKey_stackAddr hj, h.user c _ (hpage j)]
  have hends : ∀ i < 60, EndsAt s'.spaces c i ↔ EndsAt s.spaces c i := by
    intro i hi
    constructor
    · rintro ⟨hb, hf⟩
      exact ⟨fun j hj => haddr j (by omega) ▸ hb j hj, h.user c _ (hpage i) ▸ hf⟩
    · rintro ⟨hb, hf⟩
      exact ⟨fun j hj => (haddr j (by omega)).symm ▸ hb j hj, (h.user c _ (hpage i)).symm ▸ hf⟩
  have htaken := h.taken
  refine exists_congr fun i => and_congr_right fun hi => and_congr (hends i hi) (and_congr ?_ ?_)
  · rw [MemState.InRange, MemState.InRange, h.ranges]
  · rw [h.missing c _ (hpage i)]
    omega

end

/-! ### Runs -/

/-- The stack of user mode in a new context. -/
def stackOf (args : ContextArgs) : Option ExecContext → List (Nat × UInt64)
  | some c =>
      if args.parentProcess.kernelMode = false ∧ args.stackPtr = 0 then
        [(args.parentProcess.context, c.savedStack.procRsp + 8)]
      else []
  | none => []

/-- What can be called: a memory call of a process, one for a stack of user mode, and for a new context. -/
inductive StackAct where
  | call (act : MemAct)
  | stack (proc : TaskProcess)
  | context (args : ContextArgs)

/-- The call, with the stack pointers that it gives. -/
def StackAct.prog (k : KernelData) : StackAct → Prog MemCall (KernelData × List (Nat × UInt64))
  | .call act => do
      let _ ← act.prog
      pure (k, [])
  | .stack proc => do
      let r ← procAllocateStack false (some proc) k
      pure (r.2, [(proc.context, r.1)])
  | .context args => do
      let r ← taskIntCreateExecContext args k
      pure (r.2, stackOf args r.1)

/-- A call is made, or a process stores a word in its memory. -/
inductive StackInput where
  | act (act : StackAct)
  | store (process : Nat) (a : UInt64) (word : BitVec 64)

/-- The memory, and the stack pointers that processes have been given. -/
structure StackRun where
  mem : MemState Mapping
  kernel : KernelData
  given : List (Nat × UInt64)

/-- One step. -/
def StackRun.step (r : StackRun) : StackInput → Option StackRun
  | .act act => ((act.prog r.kernel).run tableCalls r.mem).map fun s => ⟨s.2, s.1.1, s.1.2 ++ r.given⟩
  | .store process a word =>
      (r.mem.spaces.store process a word).map fun spaces => { r with mem := { r.mem with spaces := spaces } }

/-- The pages that a step takes for tables are empty; and it gives back, or stores to, none with tables in
it. -/
def StackRun.Fits (r : StackRun) : StackInput → Prop
  | .act act => (act.prog r.kernel).Along tableCalls MemState.TakesEmpty r.mem ∧
      (act.prog r.kernel).Along spaceCalls MemState.Safe r.mem.view
  | .store process a _ => r.mem.spaces.StoreOk process a

/-- The page of a stack pointer. -/
def pageOf (a : UInt64) : Nat := a.toNat / 2097152

/-- The stack is a page of user memory other than page 0, which was neither mapped nor in an allocated range
and now is both; no other stack is in a page next to it. -/
structure NewStack (given : List (Nat × UInt64)) (s : MemState Spaces) (c : Nat) (a : UInt64)
    (s' : MemState Spaces) : Prop where
  page : 0 < pageOf a ∧ pageOf a < 2 ^ 26
  unmapped : s.spaces.frames (c, pageOf a) = none
  unreserved : ¬ s.InRange c (pageOf a)
  mapped : (s'.spaces.frames (c, pageOf a)).isSome
  reserved : s'.InRange c (pageOf a)
  apart : ∀ b, (c, b) ∈ given → pageOf b ≠ pageOf a + 1 ∧ pageOf b + 1 ≠ pageOf a

/-- The call returns a null stack and has changed nothing, or returns a new stack. -/
def StackRun.Gives (r : StackRun) (proc : TaskProcess) : Prop :=
  ∃ a k s', (procAllocateStack false (some proc) r.kernel).run tableCalls r.mem = some ((a, k), s') ∧
    (a = 0 ∧ k = r.kernel ∧ s'.view = r.mem.view ∨ NewStack r.given r.mem.view proc.context a s'.view)

/-- A new context, once it has its stack for system calls, is given a stack; or there is none to be found, and
the call returns null and keeps nothing. -/
def StackRun.GivesContext (r : StackRun) (args : ContextArgs) : Prop :=
  ∀ kernelStack k s, (procAllocateStack true none r.kernel).run tableCalls r.mem = some ((kernelStack, k), s) →
    StackRun.Gives ⟨s, k, r.given⟩ args.parentProcess ∧
      ((¬ ∃ a k' s', (procAllocateStack false (some args.parentProcess) k).run tableCalls s =
          some ((a, k'), s') ∧ a ≠ 0) →
        ∃ s', (taskIntCreateExecContext args r.kernel).run tableCalls r.mem = some ((none, r.kernel), s') ∧
          s'.view = r.mem.view)

/-- What the next call should do. -/
def StackRun.Good (r : StackRun) : StackAct → Prop
  | .call _ => True
  | .stack proc => proc.kernelMode = false → r.Gives proc
  | .context args => args.parentProcess.kernelMode = false → args.stackPtr = 0 → r.GivesContext args

/-- The condition: there is room for the stack, and for the kernel's before it. -/
def StackRun.Room (r : StackRun) : StackAct → Prop
  | .call _ => True
  | .stack proc => proc.kernelMode = false → HasRoom r.mem.view proc.context 0
  | .context args => args.parentProcess.kernelMode = false → args.stackPtr = 0 →
      ∀ start, KernelFits r.kernel r.mem.view start → HasRoom r.mem.view args.parentProcess.context
        (512 + r.mem.view.spaces.missing (slotKey 0 (start + memPageSize)))

/-- Each structure by itself is in order, and stacks are in even pages. -/
structure StackRun.Inv (r : StackRun) : Prop where
  tables : r.mem.spaces.Ok
  ok : r.mem.view.Ok
  kernel : VmmInv kernelRoot r.kernel.ranges
  even : ∀ s ∈ r.given, pageOf s.2 % 2 = 0

section
variable {s s' t : MemState Spaces} {k k' : KernelData} {proc : TaskProcess} {args : ContextArgs} {act : StackAct}
  {a : UInt64} {c i p : Nat} {given : List (Nat × UInt64)} {ranges : List VmmRangeData}

theorem pageOf_stack (hi : i ≤ 60) : pageOf (stackAddr i + memPageSize - 16) = stackPage i := by
  have hlow := stackAddr_low hi
  have hpage : stackPage i ≤ 120 := Nat.sub_le ..
  simp only [pageOf, memPageSize, UInt64.toNat_sub, UInt64.toNat_add, UInt64.reduceToNat]
  omega

theorem stackPage_even : stackPage i % 2 = 0 := by
  rw [stackPage]
  omega

/-- What a stack of user mode leaves. -/
theorem procAllocateStack_keeps (h : s.Ok) (hproc : proc.kernelMode = false)
    (hs : (procAllocateStack false (some proc) k).run spaceCalls s = some ((a, k'), s')) :
    s'.Ok ∧ k' = k ∧ pageOf a % 2 = 0 := by
  obtain ⟨i, hi, -, ranges, p, hranges, hb, rfl, rfl⟩ := (procAllocateStack_user h hproc).mp hs
  obtain ⟨q, -, -, hbacked⟩ := (h.withRanges (reserve_page (h.ranges _) hranges).1).backed hb
  exact ⟨hbacked.ok, rfl, by rw [pageOf_stack hi]; exact stackPage_even⟩

theorem procAllocateStack_mode
    (hs : (procAllocateStack false (some proc) k).run spaceCalls s = some ((a, k'), s')) :
    proc.kernelMode = false := by
  obtain ⟨b, halloc, -⟩ := procAllocateStack_eq_some.mp hs
  rw [if_neg (by decide), allocateUserStack] at halloc
  split at halloc
  next => cases halloc
  next hmode => exact Bool.eq_false_iff.mpr hmode

/-- A stack pointer that is given is not null. -/
theorem procAllocateStack_ne_zero (h : s.Ok)
    (hs : (procAllocateStack false (some proc) k).run spaceCalls s = some ((a, k'), s')) : a ≠ 0 := by
  obtain ⟨i, hi, -, -, -, -, -, rfl, -⟩ := (procAllocateStack_user h (procAllocateStack_mode hs)).mp hs
  have hlow := stackAddr_low hi
  have hpage : stackPage i ≤ 120 := Nat.sub_le ..
  intro hzero
  have htoNat := congrArg UInt64.toNat hzero
  simp only [memPageSize, UInt64.toNat_sub, UInt64.toNat_add, UInt64.reduceToNat] at htoNat
  omega

/-- The calls for a stack map pages that have been handed out. -/
theorem procAllocateStack_safe {kernelMode : Bool} {proc : Option TaskProcess} (h : s.Ok) :
    (procAllocateStack kernelMode proc k).Along spaceCalls MemState.Safe s := by
  rw [procAllocateStack, Prog.along_bind]
  constructor
  · split
    · unfold allocateKernelStack
      split
      · trivial
      · refine (Prog.along_bind ..).mpr ⟨Prog.along_ofOption _, fun r t hr => ?_⟩
        rw [Prog.run_ofOption] at hr
        obtain ⟨r', -, heq⟩ := Option.map_eq_some_iff.mp hr
        obtain ⟨rfl, rfl⟩ := Prod.mk.inj heq
        exact backsPage_safe h fun _ => Prog.along_pure _
    · unfold allocateUserStack
      split
      · trivial
      · split
        · trivial
        · refine (Prog.along_bind ..).mpr ⟨findStackPage_safe s _, fun addr t hfind => ?_⟩
          obtain ⟨rfl, -⟩ := findStackPage_eq_some.mp hfind
          refine (Prog.along_bind ..).mpr ⟨along_vmm _, fun _ t hreserve => ?_⟩
          obtain ⟨ranges, hranges, rfl⟩ := run_allocateSpecific.mp hreserve
          exact backsPage_safe (h.withRanges (reserve_page (h.ranges _) hranges).1) fun _ => Prog.along_pure _
  · intro r t _
    dsimp only
    split
    · exact Prog.along_pure _
    · trivial

/-- A new stack is given exactly if there is room. -/
theorem newStack_iff (h : s.Ok) (heven : ∀ s ∈ given, pageOf s.2 % 2 = 0) (hproc : proc.kernelMode = false) :
    (∃ a k' s', (procAllocateStack false (some proc) k).run spaceCalls s = some ((a, k'), s') ∧
      NewStack given s proc.context a s') ↔ HasRoom s proc.context 0 := by
  constructor
  · rintro ⟨a, k', s', hs, hnew⟩
    obtain ⟨i, hi, hends, ranges, p, hranges, hb, rfl, -⟩ := (procAllocateStack_user h hproc).mp hs
    have hpage := hnew.page.1
    have hfree := hnew.unreserved
    rw [pageOf_stack hi] at hpage hfree
    have hlow := (reserve_page (h.ranges _) hranges).2.2
    have hok := h.withRanges (c := proc.context) (reserve_page (h.ranges _) hranges).1
    have hroom := ((hok.backs_iff (by omega)).mp ⟨p, s', hb⟩).2.2
    rw [slotKey_stackAddr hi] at hroom
    refine ⟨i, ?_, hends, hfree, ?_⟩
    · rw [stackPage] at hpage
      omega
    · rw [Nat.zero_add]
      exact hroom
  · intro hroom
    obtain ⟨i, hi, hends, hfree, ranges, p, s', hranges, hb, hs⟩ := hroom.allocates (k := k) h hproc
    refine ⟨_, k, s', hs, ?_⟩
    have hpage := pageOf_stack hi.le
    have hkey := slotKey_stackAddr (c := proc.context) hi.le
    have hnumber : (stackAddr i).toNat / 2097152 = stackPage i := by
      rw [stackAddr_low hi.le, Nat.mul_div_cancel _ (by decide)]
    obtain ⟨-, hmem, -⟩ := reserve_free (h.ranges proc.context) hranges
      (by rw [hnumber]; exact fun r' hr' hra hcovers => hfree ⟨r', hr', hra, hcovers⟩)
    obtain ⟨q, -, -, hbacked⟩ := (h.withRanges (reserve_page (h.ranges _) hranges).1).backed hb
    refine ⟨?_, hpage ▸ hends.free, hpage ▸ hfree, ?_, ⟨⟨stackAddr i, 1, true⟩, ?_, rfl, ?_⟩, fun b hb => ?_⟩
    · rw [hpage, stackPage]
      omega
    · rw [hpage, hbacked.frames, hkey, update_self]
      rfl
    · rw [hbacked.ranges, MemState.withRanges_ranges, update_self]
      exact hmem
    · rw [covers_page, hpage, hnumber]
    · -- stacks are two pages apart
      have hodd := heven _ hb
      have hodd' := stackPage_even (i := i)
      rw [hpage]
      dsimp only at hodd
      omega

end

section
variable {s s' : MemState Spaces} {k k' : KernelData} {args : ContextArgs} {act : StackAct} {a : UInt64}

/-- The ways a context can be made: it has a stack of the kernel, and then one more of the kernel, the one
it is told to use, or one of user mode. -/
theorem taskIntCreateExecContext_cases {result : Option ExecContext}
    (hs : (taskIntCreateExecContext args k).run spaceCalls s = some ((result, k'), s')) :
    ∃ kernelStack k₁ s₁, (procAllocateStack true none k).run spaceCalls s = some ((kernelStack, k₁), s₁) ∧
      ((∃ k₂, k'.ranges = k₂.ranges ∧ stackOf args result = [] ∧
          (s' = s₁ ∧ k₂ = k₁ ∨ ∃ a, (procAllocateStack true none k₁).run spaceCalls s₁ = some ((a, k₂), s'))) ∨
        ∃ a k₂, (procAllocateStack false (some args.parentProcess) k₁).run spaceCalls s₁ =
            some ((a, k₂), s') ∧ k'.ranges = k₂.ranges ∧
          (stackOf args result = [] ∨ stackOf args result = [(args.parentProcess.context, a)])) := by
  rw [taskIntCreateExecContext, Prog.run_bind] at hs
  obtain ⟨⟨⟨kernelStack, k₁⟩, s₁⟩, hkernel, hs⟩ := Option.bind_eq_some_iff.mp hs
  refine ⟨kernelStack, k₁, s₁, hkernel, ?_⟩
  dsimp only at hs
  split at hs
  next hmode =>
    rw [Prog.run_bind] at hs
    obtain ⟨⟨⟨stackLong, k₂⟩, s₂⟩, hstack, hs⟩ := Option.bind_eq_some_iff.mp hs
    obtain ⟨hpair, rfl⟩ := Prod.mk.inj (Option.some.inj hs)
    obtain ⟨rfl, rfl⟩ := Prod.mk.inj hpair
    have hnone : stackOf args (some ((args.easyParts kernelStack).inMode 0x200202 0x08 0x10
        (stackLong - 8))) = [] := if_neg fun h => by rw [hmode] at h; cases h.1
    refine .inl ⟨k₂, rfl, hnone, ?_⟩
    rw [stackOrProvided] at hstack
    split at hstack
    next => exact .inr ⟨stackLong, hstack⟩
    next =>
      obtain ⟨hpair', rfl⟩ := Prod.mk.inj (Option.some.inj hstack)
      exact .inl ⟨rfl, (Prod.mk.inj hpair').2.symm⟩
  next hmode =>
    rw [Prog.run_bind] at hs
    obtain ⟨⟨⟨stackLong, k₂⟩, s₂⟩, hstack, hs⟩ := Option.bind_eq_some_iff.mp hs
    dsimp only at hs
    rw [stackOrProvided] at hstack
    split at hstack
    next hptr =>
      refine .inr ⟨stackLong, k₂, ?_⟩
      split at hs
      next =>
        obtain ⟨hpair, rfl⟩ := Prod.mk.inj (Option.some.inj hs)
        obtain ⟨rfl, rfl⟩ := Prod.mk.inj hpair
        exact ⟨hstack, rfl, .inl rfl⟩
      next =>
        obtain ⟨hpair, rfl⟩ := Prod.mk.inj (Option.some.inj hs)
        obtain ⟨rfl, rfl⟩ := Prod.mk.inj hpair
        refine ⟨hstack, rfl, .inr ?_⟩
        have hrsp : stackLong - 8 + 8 = stackLong := by simp
        exact (if_pos ⟨Bool.eq_false_iff.mpr hmode, hptr⟩).trans
          (congrArg (fun a => [(args.parentProcess.context, a)]) hrsp)
    next hptr =>
      obtain ⟨hpair, rfl⟩ := Prod.mk.inj (Option.some.inj hstack)
      obtain ⟨rfl, rfl⟩ := Prod.mk.inj hpair
      rw [if_neg hptr] at hs
      obtain ⟨hpair', rfl⟩ := Prod.mk.inj (Option.some.inj hs)
      obtain ⟨rfl, rfl⟩ := Prod.mk.inj hpair'
      exact .inl ⟨k₁, rfl, if_neg fun h => hptr h.2, .inl ⟨rfl, rfl⟩⟩

/-- What a call keeps. -/
theorem StackAct.keeps {given : List (Nat × UInt64)} (h : s.Ok) (hk : VmmInv kernelRoot k.ranges)
    (hsafe : (act.prog k).Along spaceCalls MemState.Safe s)
    (hs : (act.prog k).run spaceCalls s = some ((k', given), s')) :
    s'.Ok ∧ VmmInv kernelRoot k'.ranges ∧ ∀ g ∈ given, pageOf g.2 % 2 = 0 := by
  cases act with
  | call act =>
      rw [StackAct.prog, Prog.along_bind] at hsafe
      rw [StackAct.prog, Prog.run_bind] at hs
      obtain ⟨⟨result, s₁⟩, hcall, heq⟩ := Option.bind_eq_some_iff.mp hs
      obtain ⟨hpair, rfl⟩ := Prod.mk.inj (Option.some.inj heq)
      obtain ⟨rfl, rfl⟩ := Prod.mk.inj hpair
      exact ⟨h.call hsafe.1 hcall, hk, fun _ hg => absurd hg List.not_mem_nil⟩
  | stack proc =>
      rw [StackAct.prog, Prog.run_bind] at hs
      obtain ⟨⟨⟨a, k₁⟩, s₁⟩, hstack, heq⟩ := Option.bind_eq_some_iff.mp hs
      obtain ⟨hpair, rfl⟩ := Prod.mk.inj (Option.some.inj heq)
      obtain ⟨rfl, rfl⟩ := Prod.mk.inj hpair
      obtain ⟨hok, rfl, heven⟩ := procAllocateStack_keeps h (procAllocateStack_mode hstack) hstack
      refine ⟨hok, hk, fun g hg => ?_⟩
      rw [List.mem_singleton.mp hg]
      exact heven
  | context args =>
      rw [StackAct.prog, Prog.run_bind] at hs
      obtain ⟨⟨⟨result, k₁⟩, s₁⟩, hcontext, heq⟩ := Option.bind_eq_some_iff.mp hs
      obtain ⟨hpair, rfl⟩ := Prod.mk.inj (Option.some.inj heq)
      obtain ⟨rfl, rfl⟩ := Prod.mk.inj hpair
      obtain ⟨kernelStack, k₂, s₂, hkernel, hcases⟩ := taskIntCreateExecContext_cases hcontext
      obtain ⟨_, -, hone⟩ := KernelStack.of_allocates h hk hkernel
      rcases hcases with ⟨k₃, hranges, hnone, ⟨rfl, rfl⟩ | ⟨a, ha⟩⟩ | ⟨a, k₃, ha, hranges, hstack⟩
      · rw [hnone, hranges]
        exact ⟨hone.ok, hone.kernel, fun _ hg => absurd hg List.not_mem_nil⟩
      · obtain ⟨_, -, htwo⟩ := KernelStack.of_allocates hone.ok hone.kernel ha
        rw [hnone, hranges]
        exact ⟨htwo.ok, htwo.kernel, fun _ hg => absurd hg List.not_mem_nil⟩
      · obtain ⟨hok, rfl, heven⟩ := procAllocateStack_keeps hone.ok (procAllocateStack_mode ha) ha
        rw [hranges]
        refine ⟨hok, hone.kernel, fun g hg => ?_⟩
        rcases hstack with hstack | hstack
        · rw [hstack] at hg
          cases hg
        · rw [hstack] at hg
          rw [List.mem_singleton.mp hg]
          exact heven

end

section
variable {r r' : StackRun} {proc : TaskProcess} {args : ContextArgs} {act : StackAct}

/-- **Every step keeps the invariant.** -/
theorem StackRun.Inv.step {input : StackInput} (h : r.Inv) (hfits : r.Fits input) (hs : r.step input = some r') :
    r'.Inv := by
  cases input with
  | act act =>
      obtain ⟨⟨⟨k, given⟩, s⟩, hcall, rfl⟩ := Option.map_eq_some_iff.mp hs
      obtain ⟨htables, hview⟩ := view_run h.tables hfits.1 hfits.2 hcall
      obtain ⟨hok, hk, heven⟩ := StackAct.keeps h.ok h.kernel hfits.2 hview
      refine ⟨htables, hok, hk, fun g hg => ?_⟩
      rcases List.mem_append.mp hg with hg | hg
      · exact heven g hg
      · exact h.even g hg
  | store process a word =>
      obtain ⟨spaces, hstore, rfl⟩ := Option.map_eq_some_iff.mp hs
      obtain ⟨htables, hview⟩ := h.tables.store hfits hstore
      have hsame : MemState.view { r.mem with spaces := spaces } = r.mem.view :=
        congrArg (MemState.mk · r.mem.ranges) hview
      exact ⟨htables, hsame ▸ h.ok, h.kernel, h.even⟩

/-- A stack is given exactly if there is room. -/
theorem gives_iff (h : r.Inv) (hproc : proc.kernelMode = false)
    (hempty : (procAllocateStack false (some proc) r.kernel).Along tableCalls MemState.TakesEmpty r.mem) :
    r.Gives proc ↔ HasRoom r.mem.view proc.context 0 := by
  rw [← newStack_iff (k := r.kernel) h.ok h.even hproc]
  have hsafe : (procAllocateStack false (some proc) r.kernel).Along spaceCalls MemState.Safe r.mem.view :=
    procAllocateStack_safe h.ok
  constructor
  · rintro ⟨a, k, s', hs, hcases⟩
    obtain ⟨-, hview⟩ := view_run h.tables hempty hsafe hs
    rcases hcases with ⟨rfl, -⟩ | hnew
    · exact absurd rfl (procAllocateStack_ne_zero h.ok hview)
    · exact ⟨a, k, s'.view, hview, hnew⟩
  · rintro ⟨a, k, t, ht, hnew⟩
    obtain ⟨s', hs', -, rfl⟩ := tables_run h.tables hempty hsafe ht
    exact ⟨a, k, s', hs', .inr hnew⟩

/-- A context is made exactly if there is room for a stack beside the kernel's. -/
theorem givesContext_iff (h : r.Inv) (hmode : args.parentProcess.kernelMode = false) (hptr : args.stackPtr = 0)
    (hempty : (taskIntCreateExecContext args r.kernel).Along tableCalls MemState.TakesEmpty r.mem) :
    r.GivesContext args ↔ ∀ start, KernelFits r.kernel r.mem.view start →
      HasRoom r.mem.view args.parentProcess.context
        (512 + r.mem.view.spaces.missing (slotKey 0 (start + memPageSize))) := by
  have hsafe : (procAllocateStack true none r.kernel).Along spaceCalls MemState.Safe r.mem.view :=
    procAllocateStack_safe h.ok
  rw [taskIntCreateExecContext, Prog.along_bind] at hempty
  obtain ⟨hempty₁, hempty₂⟩ := hempty
  -- once the kernel has its stack, a stack is given if there is room besides
  have hafter : ∀ kernelStack k s,
      (procAllocateStack true none r.kernel).run tableCalls r.mem = some ((kernelStack, k), s) →
        (∀ b k' s', (procAllocateStack false (some args.parentProcess) k).run tableCalls s =
          some ((b, k'), s') → b ≠ 0) ∧ ∃ start, KernelFits r.kernel r.mem.view start ∧
          (StackRun.Gives ⟨s, k, r.given⟩ args.parentProcess ↔ HasRoom r.mem.view args.parentProcess.context
            (512 + r.mem.view.spaces.missing (slotKey 0 (start + memPageSize)))) := by
    intro kernelStack k s hs
    obtain ⟨htables, hview⟩ := view_run h.tables hempty₁ hsafe hs
    obtain ⟨start, hfits, hkernel⟩ := KernelStack.of_allocates h.ok h.kernel hview
    have hinv : StackRun.Inv ⟨s, k, r.given⟩ := ⟨htables, hkernel.ok, hkernel.kernel, h.even⟩
    have hrest := hempty₂ (kernelStack, k) s hs
    dsimp only at hrest
    rw [if_neg (by rw [hmode]; decide), Prog.along_bind, stackOrProvided, if_pos hptr] at hrest
    have hroom : HasRoom s.view args.parentProcess.context 0 ↔ HasRoom r.mem.view args.parentProcess.context
        (0 + 512 + r.mem.view.spaces.missing (slotKey 0 (start + memPageSize))) := hkernel.hasRoom
    rw [Nat.zero_add] at hroom
    refine ⟨fun b k' s' hb => ?_, start, hfits, (gives_iff hinv hmode hrest.1).trans hroom⟩
    exact procAllocateStack_ne_zero hkernel.ok (view_run htables hrest.1 (procAllocateStack_safe hkernel.ok) hb).2
  constructor
  · rintro hgives start hfits
    obtain ⟨kernelStack, k, t, ht⟩ := (procAllocateStack_kernel h.ok h.kernel).mpr ⟨start, hfits⟩
    obtain ⟨s, hs, -, -⟩ := tables_run h.tables hempty₁ hsafe ht
    obtain ⟨-, start', hfits', hiff⟩ := hafter kernelStack k s hs
    obtain ⟨ranges, hranges⟩ := hfits.granted
    obtain ⟨ranges', hranges'⟩ := hfits'.granted
    obtain ⟨rfl, -⟩ := Prod.mk.inj (Option.some.inj (hranges.symm.trans hranges'))
    exact hiff.mp (hgives kernelStack k s hs).1
  · intro hroom kernelStack k s hs
    obtain ⟨hne, start, hfits, hiff⟩ := hafter kernelStack k s hs
    have hgives := hiff.mpr (hroom start hfits)
    refine ⟨hgives, fun hnone => ?_⟩
    obtain ⟨b, k', s', hb, -⟩ := hgives
    exact absurd ⟨b, k', s', hb, hne b k' s' hb⟩ hnone

/-- **Stacks are given exactly if there is room**, after any run of memory calls and of calls for stacks in
which empty pages become tables. -/
theorem stacks_iff {r₀ r : StackRun} {act : StackAct} (h₀ : r₀.Inv)
    (h : Reach StackRun.step StackRun.Fits r₀ r)
    (hempty : (act.prog r.kernel).Along tableCalls MemState.TakesEmpty r.mem) : r.Good act ↔ r.Room act := by
  have hinv : r.Inv := h.invariant (I := StackRun.Inv) h₀ fun _ _ _ hi hfits hs => hi.step hfits hs
  cases act with
  | call act => exact Iff.rfl
  | stack proc =>
      exact forall_congr' fun hmode => gives_iff hinv hmode ((Prog.along_bind ..).mp hempty).1
  | context args =>
      exact forall_congr' fun hmode => forall_congr' fun hptr =>
        givesContext_iff hinv hmode hptr ((Prog.along_bind ..).mp hempty).1

end

/-- A user process. -/
def userProcess : TaskProcess := ⟨1, false, 0x400000⟩

/-- A computer that has started. -/
def bootRun : StackRun := ⟨bootMemory, ⟨[kernelRoot.range], []⟩, []⟩

theorem bootRun_inv : bootRun.Inv :=
  ⟨bootMapping_ok, bootMemory_ok, vmmInv_root kernelRoot, fun _ hs => absurd hs List.not_mem_nil⟩

/-- The first stack of a process is in page 120. -/
theorem stacks_first : bootRun.Good (.stack userProcess) := by
  have hempty : (StackAct.prog bootRun.kernel (.stack userProcess)).Along tableCalls MemState.TakesEmpty
      bootRun.mem := by decide +kernel
  refine (stacks_iff bootRun_inv .refl hempty).mpr fun _ =>
    ⟨0, by decide, ⟨fun _ hj => absurd hj (Nat.not_lt_zero _), bootMapping_frames (by decide)⟩, ?_, ?_⟩
  · rintro ⟨r, hr, hra, -⟩
    rw [List.mem_singleton.mp hr] at hra
    cases hra
  · decide +kernel

/-- A process gives its stack back: the page is not mapped any more, and its range stays allocated.  The next
call for a stack fails. -/
theorem stacks_released : ¬ ∀ (r₀ r : StackRun) (act : StackAct), r₀.Inv →
    Reach StackRun.step anyInput r₀ r → r.Good act := by
  intro hall
  have hrun : (run StackRun.step anyInput bootRun
      [.act (.stack userProcess), .act (.call (.release 1 0x0F000000))]).map
        (fun r => ((procAllocateStack false (some userProcess) r.kernel).run tableCalls r.mem).isNone) =
          some true := by
    decide +kernel
  obtain ⟨r, hr, hnone⟩ := Option.map_eq_some_iff.mp hrun
  have hgood := hall bootRun r (.stack userProcess) bootRun_inv (Reach.refl.run hr)
  obtain ⟨a, k, s', hs, -⟩ := hgood rfl
  rw [hs] at hnone
  cases hnone

end Azalea.Proc.Stacks
