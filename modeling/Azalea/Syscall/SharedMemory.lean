import Azalea.Syscall.Memory

/-!
# Syscall — memory that is shared

What `syscall_map_memory` has done when it returns.

* `mapMemory_shares_iff`: a mapping that completes shares the pages of the originating process exactly if
  all of them were mapped there, below the top of user memory.
-/

namespace Azalea.Syscall
open Azalea.Mem Azalea.Programs Function

/-- The page is mapped user memory of the process. -/
def MemState.InUse (s : MemState Spaces) (context : Nat) (a : UInt64) : Prop :=
  a.toNat < 2 ^ 47 ∧ (s.spaces.frames (slotKey context a)).isSome

/-- The call is accepted, and the pages can be reserved and mapped in the receiving process. -/
structure Completes (caller : Caller) (args : MapArgs) (s : MemState Spaces) (receiving originating : Nat) :
    Prop where
  valid : ¬ args.invalid
  target : caller.find args.procMappingIn = some receiving
  source : caller.find args.procAlreadyIn = some originating
  unmapped : ∀ i < args.pages, s.spaces.frames (slotKey receiving (pageAt args.mapAddr i)) = none
  reserves : (reserve args.pages args.mapAddr (s.ranges receiving)).isSome
  tables : s.spaces.tablesNeeded (pageKeys receiving args.pages args.mapAddr) ≤ s.spaces.pool.room

/-- A call that returns `NO_ERROR` has put the pages that backed the range of the originating process
behind the range of the receiving one, and has changed no other page; a call that fails has changed
nothing. -/
def Shared (curThread : Option Caller) (args : MapArgs) (s : MemState Spaces) (result : ErrCode)
    (s' : MemState Spaces) : Prop :=
  (result = .noError → ∃ caller receiving originating, curThread = some caller ∧
    caller.find args.procMappingIn = some receiving ∧
    caller.find args.procAlreadyIn = some originating ∧
    (∀ i < args.pages, s.InUse originating (pageAt args.extantAddr i) ∧
      s'.spaces.frames (slotKey receiving (pageAt args.mapAddr i)) =
        s.spaces.frames (slotKey originating (pageAt args.extantAddr i))) ∧
    ∀ key, (∀ i < args.pages, key ≠ slotKey receiving (pageAt args.mapAddr i)) →
      s'.spaces.frames key = s.spaces.frames key) ∧
  (result ≠ .noError → s' = s)

/-- What the tables stand for, after a call. -/
def Shares (curThread : Option Caller) (args : MapArgs) (s : MemState Mapping) : Prop :=
  ∀ result s', (mapMemory curThread args).run tableCalls s = some (result, s') →
    Shared curThread args s.view result s'.view

/-- The pages that a call which completes is to share are mapped in the originating process. -/
def SourcesMapped (curThread : Option Caller) (args : MapArgs) (s : MemState Spaces) : Prop :=
  ∀ caller receiving originating, curThread = some caller → Completes caller args s receiving originating →
    ∀ i < args.pages, s.InUse originating (pageAt args.extantAddr i)

section
variable {curThread : Option Caller} {args : MapArgs} {s s' : MemState Spaces} {result : ErrCode}

theorem MapArgs.aligned (h : ¬ args.invalid) :
    args.mapAddr.toNat % 2097152 = 0 ∧ args.extantAddr.toNat % 2097152 = 0 := by
  simp only [MapArgs.invalid, not_or, not_not] at h
  obtain ⟨-, -, -, -, -, hmap, hextant⟩ := h
  exact ⟨congrArg UInt64.toNat hmap, congrArg UInt64.toNat hextant⟩

theorem mapMemory_safe (curThread : Option Caller) (args : MapArgs) (s : MemState Spaces) :
    (mapMemory curThread args).Along spaceCalls MemState.Safe s := by
  unfold mapMemory
  split
  · exact Prog.along_pure _
  next hvalid =>
    split
    · exact Prog.along_pure _
    · split
      · refine (Prog.along_bind ..).mpr ⟨lookForMapped_safe .., fun found t _ => ?_⟩
        split
        · exact Prog.along_pure _
        · exact (Prog.along_bind ..).mpr
            ⟨sharePages_safe t (MapArgs.aligned hvalid).2, fun _ _ _ => Prog.along_pure _⟩
      · exact Prog.along_pure _

/-- The two ways a call can end. -/
theorem mapMemory_cases (h : (mapMemory curThread args).run spaceCalls s = some (result, s')) :
    (result ≠ .noError ∧ s' = s) ∨
      (result = .noError ∧ ∃ caller receiving originating, curThread = some caller ∧ ¬ args.invalid ∧
        caller.find args.procMappingIn = some receiving ∧
        caller.find args.procAlreadyIn = some originating ∧
        (sharePages receiving originating args.pages args.extantAddr args.mapAddr).run spaceCalls s =
          some ((), s')) := by
  have hfail : ∀ {e : ErrCode}, e ≠ .noError → (pure e : Prog MemCall ErrCode).run spaceCalls s =
      some (result, s') → result ≠ .noError ∧ s' = s := by
    intro e he heq
    obtain ⟨rfl, rfl⟩ := Prod.mk.inj (Option.some.inj heq)
    exact ⟨he, rfl⟩
  unfold mapMemory at h
  split at h
  next => exact .inl (hfail (by decide) h)
  next hvalid =>
    split at h
    next => exact .inl (hfail (by decide) h)
    next caller =>
      split at h
      next receiving originating hreceiving horiginating =>
        rw [Prog.run_bind, lookForMapped_run, Option.bind_some] at h
        split at h
        next => exact .inl (hfail (by decide) h)
        next =>
          rw [Prog.run_bind] at h
          obtain ⟨⟨⟨⟩, s₁⟩, hs₁, heq⟩ := Option.bind_eq_some_iff.mp h
          obtain ⟨rfl, rfl⟩ := Prod.mk.inj (Option.some.inj heq)
          exact .inr ⟨rfl, caller, receiving, originating, rfl, hvalid, hreceiving, horiginating, hs₁⟩
      next => exact .inl (hfail (by decide) h)

theorem Completes.mapMemory {caller : Caller} {receiving originating : Nat} (h : s.Ok)
    (hc : Completes caller args s receiving originating) :
    ∃ s', (Syscall.mapMemory (some caller) args).run spaceCalls s = some (.noError, s') := by
  obtain ⟨hmap, hextant⟩ := MapArgs.aligned hc.valid
  obtain ⟨ranges, hranges⟩ := Option.isSome_iff_exists.mp hc.reserves
  obtain ⟨s', hs'⟩ : ∃ s', (sharePages receiving originating args.pages args.extantAddr args.mapAddr).run
      spaceCalls s = some ((), s') :=
    (sharePages_isSome h hextant).mpr ⟨hc.reserves, hc.unmapped, hc.tables⟩
  have hnone : anyMapped s.spaces receiving args.pages args.mapAddr = false :=
    anyMapped_eq_false.mpr fun i hi => by
      rw [Spaces.getPhysAddr_page ((reserve_pages (h.ranges receiving) hranges).2 i hi).1,
        hc.unmapped i hi]
      rfl
  refine ⟨s', ?_⟩
  unfold Syscall.mapMemory
  rw [if_neg hc.valid]
  simp only [hc.target, hc.source, Prog.run_bind, lookForMapped_run, hnone, hs', Option.bind_some,
    Bool.or_false, Bool.false_eq_true, if_false, Prog.run_pure]

/-- **A call shares memory**, on address spaces, exactly if the pages to be shared are mapped. -/
theorem shared_iff (h : s.Ok) : (∀ result s', (mapMemory curThread args).run spaceCalls s = some (result, s') →
    Shared curThread args s result s') ↔ SourcesMapped curThread args s := by
  constructor
  · rintro hshares caller receiving originating rfl hc i hi
    obtain ⟨s', hs'⟩ := hc.mapMemory h
    obtain ⟨_, _, originating', ⟨⟩, -, hsource, hpages, -⟩ := (hshares _ _ hs').1 rfl
    obtain rfl : originating' = originating := Option.some.inj (hsource.symm.trans hc.source)
    exact (hpages i hi).1
  · intro hcond result s' hs'
    rcases mapMemory_cases hs' with ⟨hresult, rfl⟩ |
      ⟨rfl, caller, receiving, originating, rfl, hvalid, htarget, hsource, hshare⟩
    · exact ⟨fun hno => absurd hno hresult, fun _ => rfl⟩
    · refine ⟨fun _ => ?_, fun hne => absurd rfl hne⟩
      have hextant := (MapArgs.aligned hvalid).2
      obtain ⟨hreserves, hunmapped, htables⟩ := (sharePages_isSome h hextant).mp ⟨s', hshare⟩
      have huse := hcond caller receiving originating rfl
        ⟨hvalid, htarget, hsource, hunmapped, hreserves, htables⟩
      obtain ⟨-, hshared, hother⟩ := sharePages_frames h hextant hshare
      refine ⟨caller, receiving, originating, rfl, htarget, hsource, fun i hi => ⟨huse i hi, ?_⟩, hother⟩
      obtain ⟨p, hp⟩ := Option.isSome_iff_exists.mp (huse i hi).2
      rw [hp]
      exact hshared i hi p hp

/-- **Mapping shares memory** exactly if a call that completes names pages of the originating process
that are mapped, in user memory; the pages that become tables are empty. -/
theorem mapMemory_shares_iff {s : MemState Mapping} (htables : s.spaces.Ok) (h : s.view.Ok)
    (hempty : (mapMemory curThread args).Along tableCalls MemState.TakesEmpty s) :
    Shares curThread args s ↔ SourcesMapped curThread args s.view :=
  (run_agrees_iff htables hempty (mapMemory_safe curThread args s.view)).trans (shared_iff h)

end

/-- Process 2, with process 1 behind handle 5. -/
def secondProcess : Caller := ⟨2, fun handle => if handle = 5 then some 1 else none⟩

/-- The page at `0x400000` of process 1 is to be mapped at `0x800000` in process 2. -/
def onePage : MapArgs := ⟨0, 0x800000, 0x200000, 5, 0x400000⟩

/-- It is, once process 1 has taken the page. -/
theorem mapMemory_shares_page : ∃ s s' : MemState Mapping, s.view.InUse 1 0x400000 ∧
    (mapMemory (some secondProcess) onePage).run tableCalls s = some (.noError, s') ∧
    Shares (some secondProcess) onePage s := by
  have hrun : ((allocateBackingMemory 1 1 0x1000 0x400000).run tableCalls bootMemory).map (fun r =>
      ((r.2.view.spaces.frames (slotKey 1 0x400000)).isSome,
        decide ((mapMemory (some secondProcess) onePage).Along tableCalls MemState.TakesEmpty r.2),
        ((mapMemory (some secondProcess) onePage).run tableCalls r.2).map (·.1))) =
      some (true, true, some .noError) := by decide +kernel
  have hempty : (allocateBackingMemory 1 1 0x1000 0x400000).Along tableCalls MemState.TakesEmpty
      bootMemory := by decide +kernel
  obtain ⟨⟨⟨result, start⟩, s⟩, hs, heq⟩ := Option.map_eq_some_iff.mp hrun
  simp only [Prod.mk.injEq, decide_eq_true_eq] at heq
  obtain ⟨hmapped, hempty', hmap⟩ := heq
  obtain ⟨⟨result', s'⟩, hs', rfl⟩ := Option.map_eq_some_iff.mp hmap
  obtain ⟨htables, hview⟩ := view_run bootMapping_ok hempty (allocateBackingMemory_safe bootMemory_ok) hs
  refine ⟨s, s', ⟨by decide, hmapped⟩, hs',
    (mapMemory_shares_iff htables (bootMemory_ok.allocate hview) hempty').mpr ?_⟩
  rintro caller receiving originating ⟨⟩ hc i hi
  obtain rfl : 1 = originating := Option.some.inj hc.source
  obtain rfl : i = 0 := Nat.lt_one_iff.mp hi
  rw [pageAt_zero]
  exact ⟨by decide, hmapped⟩

/-- Nothing is mapped at `0x400000` in process 1: the call maps the physical page at zero. -/
theorem mapMemory_unmapped_source :
    ¬ ∀ (curThread : Option Caller) (args : MapArgs) (s : MemState Mapping), s.spaces.Ok → s.view.Ok →
      (mapMemory curThread args).Along tableCalls MemState.TakesEmpty s → Shares curThread args s := by
  intro hall
  have hempty : (mapMemory (some secondProcess) onePage).Along tableCalls MemState.TakesEmpty bootMemory := by
    decide +kernel
  have hrun : ((mapMemory (some secondProcess) onePage).run tableCalls bootMemory).map (·.1) =
      some .noError := by decide +kernel
  obtain ⟨⟨result, s'⟩, hs', rfl⟩ := Option.map_eq_some_iff.mp hrun
  obtain ⟨_, _, originating, ⟨⟩, -, hsource, hpages, -⟩ :=
    (hall _ _ bootMemory bootMapping_ok bootMemory_ok hempty _ _ hs').1 rfl
  obtain rfl : 1 = originating := Option.some.inj hsource
  have huse := (hpages 0 (by decide)).1.2
  rw [pageAt_zero] at huse
  change (bootMapping.view.frames (slotKey 1 0x400000)).isSome at huse
  rw [bootMapping_frames (by decide)] at huse
  cases huse

end Azalea.Syscall
