import Azalea.Syscall.ProcessEnd
import Azalea.Syscall.SharedMemory

/-!
# Syscall — runs of the memory calls

What is mapped in user memory, against what the range lists say is in use, over runs of
`syscall_allocate_backing_memory`, `syscall_release_backing_memory` and `syscall_map_memory`, between which
processes write to their memory.

* `user_memory_in_step`: in a run of calls that fit (`MemState.Fits`), every page that is mapped is in an
  allocated range after every call, nothing of the kernel has changed, and a process that ends leaves
  nothing mapped.
-/

namespace Azalea.Syscall
open Azalea.Mem Azalea.Programs Azalea.Runs Azalea.Tiling Azalea.Bitmaps Function VmmRangeData

/-! ### Runs -/

/-- The calls. -/
inductive MemAct where
  | allocate (process : Nat) (pages mapAddr start : UInt64)
  | release (process : Nat) (deallocPtr : UInt64)
  | map (curThread : Option Caller) (args : MapArgs)

/-- What a call does. -/
def MemAct.prog : MemAct → Prog MemCall ErrCode
  | .allocate process pages mapAddr start => do
      let r ← allocateBackingMemory process pages mapAddr start
      pure r.1
  | .release process deallocPtr => releaseBackingMemory process deallocPtr
  | .map curThread args => mapMemory curThread args

/-- A call is made, or a process stores a word in its memory. -/
inductive MemInput where
  | call (act : MemAct)
  | store (process : Nat) (a : UInt64) (word : BitVec 64)

/-- One step of a run. -/
def MemState.step (s : MemState Mapping) : MemInput → Option (MemState Mapping)
  | .call act => (act.prog.run tableCalls s).map (·.2)
  | .store process a word => (s.spaces.store process a word).map fun spaces => { s with spaces := spaces }

/-- A page of the process is in a range that is allocated. -/
def MemState.InRange {σ : Type} (s : MemState σ) (process k : Nat) : Prop :=
  ∃ r ∈ s.ranges process, r.allocated = true ∧ Covers page pages r k

/-- What is mapped in user memory is in ranges that are allocated. -/
def MemState.Reserved (s : MemState Spaces) : Prop :=
  ∀ c k, k < 2 ^ 26 → (s.spaces.frames (c, k)).isSome → s.InRange c k

/-- After a call, what is mapped in user memory is in allocated ranges; the call has not mapped or unmapped
anything of the kernel; if it has released a range, this is free in the tables and in the list; and a
process that ends leaves nothing mapped. -/
structure InStep (s : MemState Mapping) (act : MemAct) (s' : MemState Mapping) : Prop where
  reserved : s'.view.Reserved
  kernel : ∀ key, ¬ UserSlot key → s'.view.spaces.frames key = s.view.spaces.frames key
  released : ∀ process deallocPtr, act = .release process deallocPtr →
    act.prog.run tableCalls s = some (.noError, s') → ∀ r ∈ s.ranges process, r.start = deallocPtr →
      ∀ k, Covers page pages r k → s'.view.spaces.frames (process, k) = none ∧ ¬ s'.InRange process k
  ends : ∀ process, ∃ s'', (memVmmFreeProcData process).run tableCalls s' = some ((), s'') ∧
    ∀ k < 2 ^ 26, s''.view.spaces.frames (process, k) = none

/-- The calls that keep the two structures in step.  A range that the manager chooses is not all of user
memory.  An address that the caller chooses, and at which nothing is mapped, is in an allocated range.
Nothing that is allocated is released.  Memory is mapped from pages that are in use to pages of free
ranges, and the counters have room. -/
def MemState.CallFits (s : MemState Spaces) : MemAct → Prop
  | .allocate process pages _ start =>
      if start = 0 then (actualNumPages pages.toUInt32).toNat < 2 ^ 25
      else anyMapped s.spaces process pages.toNat start = false → ∀ i < pages.toNat,
        (pageAt start i).toNat < 2 ^ 47 ∧ s.InRange process ((pageAt start i).toNat / 2097152)
  | .release process deallocPtr => ∀ r ∈ s.ranges process, r.start = deallocPtr → r.allocated = false
  | .map curThread args => ∀ caller receiving originating, curThread = some caller →
      Completes caller args s receiving originating →
        (∀ i < args.pages, s.InUse originating (pageAt args.extantAddr i)) ∧
        (∀ i < args.pages, ¬ s.InRange receiving ((pageAt args.mapAddr i).toNat / 2097152)) ∧
        ∀ n, (s.spaces.counters n).toNat + args.pages < 2 ^ 32

/-- And the pages that a call takes for tables are empty. -/
def MemState.Fits (s : MemState Mapping) : MemInput → Prop
  | .call act => s.view.CallFits act ∧ act.prog.Along tableCalls MemState.TakesEmpty s
  | .store .. => True

/-- The invariant. -/
structure MemState.Kept (s : MemState Spaces) (live : List ((Nat × Nat) × Nat)) (other : Nat → Nat) : Prop where
  ok : s.Ok
  owned : s.spaces.Owned live other
  reserved : s.Reserved
  part : ∀ c, ∀ r ∈ s.ranges c, r.allocated = true → r.pages < 2 ^ 25

/-! ### Taking memory -/

section
variable {s s' t : MemState Spaces} {s₁ : Spaces} {live : List ((Nat × Nat) × Nat)} {other : Nat → Nat}
  {c n p : Nat} {a : UInt64} {result result' : ErrCode}

theorem userSlot_low (hlow : a.toNat < 2 ^ 47) : UserSlot (slotKey c a) := by
  rw [slotKey_low hlow]
  change a.toNat / 2097152 < 2 ^ 26
  omega

/-- Tables are taken. -/
theorem MemState.Kept.takes (h : s.Kept live other) (ht : s.spaces.Takes s₁) :
    MemState.Kept ⟨s₁, s.ranges⟩ live other := by
  refine ⟨h.ok.takes ht, h.owned.takes ht, fun c k hk hsome => h.reserved c k hk ?_, h.part⟩
  rw [← ht.frames]
  exact hsome

/-- A page of an allocated range is backed. -/
theorem MemState.Kept.back (h : s.Kept live other) (hlow : a.toNat < 2 ^ 47)
    (hrange : s.InRange c (a.toNat / 2097152)) (hb : s.BacksPage c a p t) :
    t.Kept ((slotKey c a, p) :: live) other := by
  obtain ⟨q, -, -, hbacked⟩ := h.ok.backed hb
  obtain ⟨phys, s₁, hphys, hmap, hs₁, rfl⟩ := hb
  obtain ⟨howned, n, hp, hzero⟩ := h.owned.take hphys
  have htakes := (Spaces.takeTables_takes (h.ok.order.allocate hphys).1 hs₁).1
  have hnone : s₁.frames (slotKey c a) = none := by
    rw [htakes.frames]
    exact hmap.free
  refine ⟨hbacked.ok, (howned.takes htakes).withPage (userSlot_low hlow) hnone (hp.takes htakes) ?_,
    fun c' k hk hsome => ?_, h.part⟩
  · rw [htakes.counters]
    change (s.spaces.counters n).toNat < 2 ^ 32 - 1
    omega
  · rw [Spaces.withPage_frames, update_apply, htakes.frames, slotKey_low hlow] at hsome
    split at hsome
    next heq =>
      obtain ⟨rfl, rfl⟩ := Prod.mk.inj heq
      exact hrange
    next => exact h.reserved c' k hk hsome

theorem MemState.Kept.backPages (h : s.Kept live other)
    (hpages : ∀ i < n, (pageAt a i).toNat < 2 ^ 47 ∧ s.InRange c ((pageAt a i).toNat / 2097152))
    (hs : (Syscall.backPages c n a result).run spaceCalls s = some (result', s')) :
    (∃ live', s'.Kept live' other) ∧
      ∀ key, ¬ UserSlot key → s'.spaces.frames key = s.spaces.frames key := by
  induction n generalizing a result s live with
  | zero =>
      obtain ⟨rfl, rfl⟩ := Prod.mk.inj (Option.some.inj hs)
      exact ⟨⟨live, h⟩, fun _ _ => rfl⟩
  | succ n ih =>
      obtain ⟨hfirst, hrest⟩ := (forall_pages
        (P := fun a => a.toNat < 2 ^ 47 ∧ s.InRange c (a.toNat / 2097152))).mp hpages
      obtain ⟨p, t, hb, hs'⟩ := (backPages_succ h.ok).mp hs
      obtain ⟨q, -, -, hbacked⟩ := h.ok.backed hb
      obtain ⟨hkept, hkernel⟩ := ih (h.back hfirst.1 hfirst.2 hb)
        (by simp only [MemState.InRange, hbacked.ranges]; exact hrest) hs'
      refine ⟨hkept, fun key hkey => ?_⟩
      rw [hkernel key hkey, hbacked.frames, update_of_ne]
      rintro rfl
      exact hkey (userSlot_low hfirst.1)

/-- What the list grows by does not matter to the pages that are mapped. -/
theorem MemState.Kept.withRanges (h : s.Kept live other) {ranges : List VmmRangeData}
    (hinv : VmmInv userRoot ranges) (hold : ∀ r ∈ s.ranges c, r.allocated = true → r ∈ ranges)
    (hpart : ∀ r ∈ ranges, r.allocated = true → r.pages < 2 ^ 25) :
    (s.withRanges c ranges).Kept live other := by
  refine ⟨h.ok.withRanges hinv, h.owned, fun c' k hk hsome => ?_, fun c' => ?_⟩
  · obtain ⟨r, hr, hra, hcovers⟩ := h.reserved c' k hk hsome
    refine ⟨r, ?_, hra, hcovers⟩
    rw [withRanges_ranges, update_apply]
    split
    next heq => exact hold r (heq ▸ hr) hra
    next => exact hr
  · rw [withRanges_ranges, update_apply]
    split
    · exact hpart
    · exact h.part c'

/-- A range that is granted is a range of user memory, with as many pages as asked for. -/
theorem MemState.Kept.grant (h : s.Kept live other) {k : UInt32} {ranges : List VmmRangeData}
    (ha : memAllocateVirtualRange k (s.ranges c) = some (a, ranges))
    (hk : (actualNumPages k).toNat < 2 ^ 25) :
    (s.withRanges c ranges).Kept live other ∧ ∀ i < k.toNat, (pageAt a i).toNat < 2 ^ 47 ∧
      (s.withRanges c ranges).InRange c ((pageAt a i).toNat / 2097152) := by
  obtain ⟨pre, post, x, halves, hl, hfree, -, hhalves, hpieces, rfl⟩ :=
    allocate_spec (h.ok.ranges c) ha
  let g : VmmRangeData := ⟨a, (actualNumPages k).toUInt64, true⟩
  have hinv : VmmInv userRoot (pre ++ (g :: halves) ++ post) :=
    VmmInv.replace (hl ▸ h.ok.ranges c) hpieces
  have hg : g ∈ pre ++ (g :: halves) ++ post := by simp
  have hgpages : g.pages = (actualNumPages k).toNat := by simp [g, VmmRangeData.pages]
  refine ⟨h.withRanges hinv (fun r hr hra => ?_) fun r hr hra => ?_, fun i hi => ?_⟩
  · rw [hl, List.mem_append, List.mem_cons] at hr
    rcases hr with hr | rfl | hr
    · simp [hr]
    · exact absurd hra (by rw [hfree]; decide)
    · simp [hr]
  · simp only [List.mem_append, List.mem_cons] at hr
    rcases hr with (hr | rfl | hr) | hr
    · exact h.part c r (by rw [hl]; simp [hr]) hra
    · exact hgpages ▸ hk
    · exact absurd hra (by rw [hhalves r hr]; decide)
    · exact h.part c r (by rw [hl]; simp [hr]) hra
  · have hpos := (hinv.wf g hg).dyadic.pos
    have hne : actualNumPages k ≠ 0 := fun h0 => by
      rw [hgpages, h0] at hpos
      exact absurd hpos (by decide)
    have hlt : i < g.pages := by
      rw [hgpages]
      exact Nat.lt_of_lt_of_le hi (le_actualNumPages hne)
    obtain ⟨htoNat, hlow⟩ := pageAt_range hinv hg hlt
    have htoNat : (pageAt a i).toNat = (g.page + i) * 2097152 := htoNat
    rw [htoNat]
    refine ⟨by omega, g, by rw [withRanges_ranges, update_self]; exact hg, rfl, ?_⟩
    rw [Nat.mul_div_cancel _ (by decide)]
    exact ⟨by omega, by omega⟩

/-- **`syscall_allocate_backing_memory`.** -/
theorem MemState.Kept.allocate (h : s.Kept live other) {pages mapAddr start start' : UInt64}
    (hfits : s.CallFits (.allocate c pages mapAddr start))
    (hs : (allocateBackingMemory c pages mapAddr start).run spaceCalls s = some ((result, start'), s')) :
    (∃ live', s'.Kept live' other) ∧
      ∀ key, ¬ UserSlot key → s'.spaces.frames key = s.spaces.frames key := by
  rw [MemState.CallFits] at hfits
  rcases allocateBackingMemory_cases hs with rfl | ⟨hzero, ranges, ha, rfl | hback⟩ |
    ⟨hne, hmapped, hback⟩
  · exact ⟨⟨live, h⟩, fun _ _ => rfl⟩
  · rw [if_pos hzero] at hfits
    exact ⟨⟨live, (h.grant ha hfits).1⟩, fun _ _ => rfl⟩
  · rw [if_pos hzero] at hfits
    obtain ⟨hkept, hpages⟩ := h.grant ha hfits
    -- there are fewer physical pages than the 32 bits of a request can count
    have hroom := backPages_room hkept.ok hback
    have hleft := h.ok.order.pool.left_lt
    have hfree : s.spaces.phys.freePages ≤ memMaxSupportedPages := by
      rw [h.ok.order.pool.ok.phys.count]
      exact count_le
    change 512 * pages.toNat ≤ s.spaces.pool.left + 512 * s.spaces.phys.freePages at hroom
    have htoNat : pages.toUInt32.toNat = pages.toNat := by
      rw [UInt64.toNat_toUInt32]
      rw [memMaxSupportedPages] at hfree
      omega
    rw [htoNat] at hpages
    exact hkept.backPages hpages hback
  · rw [if_neg hne] at hfits
    exact h.backPages (hfits hmapped) hback

end

/-! ### Sharing memory -/

section
variable {s s' : MemState Spaces} {live : List ((Nat × Nat) × Nat)} {other : Nat → Nat}
  {receiving originating n : Nat} {extantAddr mapAddr a : UInt64}

/-- A page of a free range is reserved: it is the only one that is allocated by it. -/
theorem reserve_free {ranges ranges' : List VmmRangeData} (h : VmmInv userRoot ranges)
    (hr : memVmmAllocateSpecificRange a 1 ranges = some ranges')
    (hfree : ∀ r ∈ ranges, r.allocated = true → ¬ Covers page pages r (a.toNat / 2097152)) :
    (∀ r ∈ ranges, r.allocated = true → r ∈ ranges') ∧ ⟨a, 1, true⟩ ∈ ranges' ∧
      ∀ r ∈ ranges', r.allocated = true → r ∈ ranges ∨ r = ⟨a, 1, true⟩ := by
  obtain ⟨ho, -⟩ := allocateSpecific_cases hr
  obtain ⟨pre, x, post, rfl, hcovers⟩ := allocateSpecific_covers h.wf hr
  have hx : x.Free := by
    cases hxa : x.allocated with
    | false => exact hxa
    | true => exact absurd hcovers (hfree x (by simp) hxa)
  obtain ⟨mid, rfl, -, hmem, hmid⟩ := allocateSpecific_spec x.pages le_rfl h.tiles h.wf ho hcovers hr
  refine ⟨fun r hr hra => ?_, by simp [show (⟨a, 1, true⟩ : VmmRangeData) ∈ mid from hmem],
    fun r hr hra => ?_⟩
  · rw [List.mem_append, List.mem_cons] at hr
    rcases hr with hr | rfl | hr
    · simp [hr]
    · exact absurd hra (by rw [hx]; decide)
    · simp [hr]
  · simp only [List.mem_append] at hr
    rcases hr with (hr | hr) | hr
    · exact .inl (by simp [hr])
    · have : r ∈ mid.filter (·.allocated) := List.mem_filter.mpr ⟨hr, hra⟩
      rw [hmid hx] at this
      exact .inr (List.mem_singleton.mp this)
    · exact .inl (by simp [hr])

/-- The range of one page. -/
theorem covers_page {k : Nat} : Covers page pages ⟨a, 1, true⟩ k ↔ k = a.toNat / 2097152 := by
  simp only [Covers, VmmRangeData.page, VmmRangeData.pages, UInt64.reduceToNat]
  omega

/-- The physical page behind user memory is held. -/
theorem MemState.Kept.held (h : s.Kept live other) (ha : a.toNat % 2097152 = 0)
    (huse : s.InUse originating a) : ∃ k, s.spaces.Held (s.spaces.getPhysAddr a originating) k := by
  obtain ⟨hlow, hsome⟩ := huse
  obtain ⟨p, hp⟩ := Option.isSome_iff_exists.mp hsome
  rw [Spaces.getPhysAddr_page ha, hp]
  exact h.owned.held _ ((h.owned.mem_live _ _).mpr ⟨userSlot_low hlow, hp⟩)

/-- One page is shared. -/
theorem MemState.Kept.share (h : s.Kept live other) {p k : Nat} {ranges : List VmmRangeData}
    (hp : s.spaces.Held p k) (hroom : (s.spaces.counters k).toNat < 2 ^ 32 - 1)
    (hfree : ¬ s.InRange receiving (a.toNat / 2097152))
    (hnone : s.spaces.frames (slotKey receiving a) = none)
    (hr : memVmmAllocateSpecificRange a 1 (s.ranges receiving) = some ranges) :
    (s.withPage p a receiving ranges).Kept ((slotKey receiving a, p) :: live) other := by
  have hfree' : ∀ r ∈ s.ranges receiving, r.allocated = true →
      ¬ Covers page pages r (a.toNat / 2097152) := fun r hr hra hcovers => hfree ⟨r, hr, hra, hcovers⟩
  obtain ⟨hinv, -, hlow⟩ := reserve_page (h.ok.ranges receiving) hr
  obtain ⟨hold, hnew, hpart⟩ := reserve_free (h.ok.ranges receiving) hr hfree'
  have hkept : (s.withRanges receiving ranges).Kept live other := by
    refine h.withRanges hinv hold fun r hr hra => ?_
    rcases hpart r hr hra with hr | rfl
    · exact h.part receiving r hr hra
    · exact (by decide : (1 : Nat) < 2 ^ 25)
  have hkey := slotKey_low (c := receiving) (a := a) (by omega)
  have hwhole : p % sizeOfPage = 0 := by
    rw [hp.held.2.1]
    exact Nat.mul_mod_right ..
  refine ⟨h.ok.withPage hwhole hinv, hkept.owned.withPage (userSlot_low (by omega)) hnone (hp.congr rfl rfl) hroom,
    fun c' k' hk' hsome => ?_, hkept.part⟩
  rw [MemState.withPage_frames, update_apply, hkey] at hsome
  split at hsome
  next heq =>
    obtain ⟨rfl, rfl⟩ := Prod.mk.inj heq
    exact ⟨⟨a, 1, true⟩, by rw [MemState.withPage_ranges, update_self]; exact hnew, rfl,
      covers_page.mpr rfl⟩
  next => exact hkept.reserved c' k' hk' hsome

theorem countUse_le {counters : Nat → BitVec 32} {m k : Nat} :
    (countUse m counters k).toNat ≤ (counters k).toNat + 1 := by
  rw [countUse]
  split
  · rw [update_apply]
    split
    next heq =>
      rw [heq, BitVec.toNat_add]
      exact Nat.mod_le _ _
    next => exact Nat.le_succ _
  · exact Nat.le_succ _

/-- A page that has been shared is not met again by the pages after it. -/
theorem not_inRange_withPage {p : Nat} {ranges : List VmmRangeData} (h : s.Ok)
    (hr : memVmmAllocateSpecificRange a 1 (s.ranges receiving) = some ranges)
    (hfree₀ : ¬ s.InRange receiving (a.toNat / 2097152))
    (hreserve : (reserve n (a + memPageSize) ranges).isSome)
    (hfree : ∀ i < n, ¬ s.InRange receiving ((pageAt (a + memPageSize) i).toNat / 2097152)) :
    ∀ i < n, ¬ (s.withPage p a receiving ranges).InRange receiving
      ((pageAt (a + memPageSize) i).toNat / 2097152) := by
  rintro i hi ⟨r, hrmem, hra, hcovers⟩
  rw [MemState.withPage_ranges, update_self] at hrmem
  obtain ⟨hinv, -, hlow⟩ := reserve_page (h.ranges receiving) hr
  obtain ⟨ranges₂, hranges₂⟩ := Option.isSome_iff_exists.mp hreserve
  have hpages := fun i hi => ((reserve_pages hinv hranges₂).2 i hi).2
  obtain ⟨-, -, hnew⟩ := reserve_free (h.ranges receiving) hr
    fun r hr hra hcovers => hfree₀ ⟨r, hr, hra, hcovers⟩
  rcases hnew r hrmem hra with hold | rfl
  · exact hfree i hi ⟨r, hold, hra, hcovers⟩
  · have hapart := slotKey_pageAt_ne (c := receiving) hlow hpages i hi
    have hi' := hpages i hi
    rw [slotKey_low (by omega), slotKey_low (by omega), covers_page.mp hcovers] at hapart
    exact hapart rfl

/-- **The loop of `syscall_map_memory`.** -/
theorem MemState.Kept.sharePages (h : s.Kept live other) (he : extantAddr.toNat % 2097152 = 0)
    (huse : ∀ i < n, s.InUse originating (pageAt extantAddr i))
    (hfree : ∀ i < n, ¬ s.InRange receiving ((pageAt mapAddr i).toNat / 2097152))
    (hroom : ∀ k, (s.spaces.counters k).toNat + n < 2 ^ 32)
    (hs : (Syscall.sharePages receiving originating n extantAddr mapAddr).run spaceCalls s = some ((), s')) :
    (∃ live', s'.Kept live' other) ∧
      ∀ key, ¬ UserSlot key → s'.spaces.frames key = s.spaces.frames key := by
  induction n generalizing extantAddr mapAddr s live with
  | zero =>
      obtain rfl := (Prod.mk.inj (Option.some.inj hs)).2
      exact ⟨⟨live, h⟩, fun _ _ => rfl⟩
  | succ n ih =>
      obtain ⟨ranges, s₁, hr, hmap, hs₁, hrest⟩ := sharePages_succ.mp hs
      have htakes := (Spaces.takeTables_takes h.ok.order hs₁).1
      obtain ⟨huse₀, huse⟩ := (forall_pages (P := fun a => s.InUse originating a)).mp huse
      obtain ⟨hfree₀, hfree⟩ := (forall_pages
        (P := fun a => ¬ s.InRange receiving (a.toNat / 2097152))).mp hfree
      obtain ⟨k, hp⟩ := h.held he huse₀
      obtain ⟨hinv, -, hlow⟩ := reserve_page (h.ok.ranges receiving) hr
      have hnone : s₁.frames (slotKey receiving mapAddr) = none := by
        rw [htakes.frames]
        exact hmap.free
      have hroom₀ : (s₁.counters k).toNat < 2 ^ 32 - 1 := by
        rw [htakes.counters]
        have := hroom k
        omega
      have hkept := (h.takes htakes).share (hp.takes htakes) hroom₀ hfree₀ hnone hr
      have he' := add_memPageSize_aligned he
      have hreserve := ((sharePages_isSome hkept.ok he').mp ⟨s', hrest⟩).1
      rw [MemState.withPage_ranges, update_self] at hreserve
      have huse' : ∀ i < n, (MemState.withPage ⟨s₁, s.ranges⟩ (s.spaces.getPhysAddr extantAddr originating) mapAddr
          receiving ranges).InUse originating (pageAt (extantAddr + memPageSize) i) := by
        intro i hi
        refine ⟨(huse i hi).1, ?_⟩
        rw [MemState.withPage_frames, update_apply, htakes.frames]
        split
        · rfl
        · exact (huse i hi).2
      have hroom' : ∀ k, (countUse (s.spaces.getPhysAddr extantAddr originating / sizeOfPage % 2 ^ 32)
          s₁.counters k).toNat + n < 2 ^ 32 := by
        intro k
        have hle := @countUse_le s₁.counters (s.spaces.getPhysAddr extantAddr originating / sizeOfPage % 2 ^ 32) k
        have := hroom k
        rw [htakes.counters] at hle ⊢
        omega
      obtain ⟨hkept', hkernel⟩ := ih hkept he' huse'
        (not_inRange_withPage (h.ok.takes htakes) hr hfree₀ hreserve hfree) hroom' hrest
      refine ⟨hkept', fun key hkey => ?_⟩
      rw [hkernel key hkey, MemState.withPage_frames, update_of_ne, htakes.frames]
      rintro rfl
      exact hkey (userSlot_low (by omega))

end

/-! ### What every call keeps -/

/-- A call that gives back no page with tables in it keeps the ranges and the tables in order, whatever it is
asked for. -/
theorem MemState.Ok.call {s s' : MemState Spaces} {act : MemAct} {result : ErrCode} (h : s.Ok)
    (hsafe : act.prog.Along spaceCalls MemState.Safe s) (hs : act.prog.run spaceCalls s = some (result, s')) :
    s'.Ok := by
  cases act with
  | allocate process pages mapAddr start =>
      rw [MemAct.prog, Prog.run_bind] at hs
      obtain ⟨⟨⟨result₁, start₁⟩, s₁⟩, hcall, heq⟩ := Option.bind_eq_some_iff.mp hs
      obtain ⟨-, rfl⟩ := Prod.mk.inj (Option.some.inj heq)
      exact h.allocate hcall
  | release process deallocPtr => exact h.release hsafe hs
  | map curThread args =>
      rcases mapMemory_cases hs with ⟨-, rfl⟩ | ⟨-, caller, receiving, originating, -, hvalid, -, -, hshare⟩
      · exact h
      · exact (sharePages_frames h (MapArgs.aligned hvalid).2 hshare).1

/-! ### Runs of calls that fit -/

section
variable {s s' : MemState Spaces} {live : List ((Nat × Nat) × Nat)} {other : Nat → Nat} {act : MemAct}
  {result : ErrCode}

theorem memGetVirtualAllocationSize_free {ranges : List VmmRangeData} {deallocPtr : UInt64}
    (hfree : ∀ r ∈ ranges, r.start = deallocPtr → r.allocated = false) :
    memGetVirtualAllocationSize deallocPtr ranges = 0 := by
  unfold memGetVirtualAllocationSize
  split
  next r hfind =>
    have hstart := List.find?_some hfind
    rw [beq_iff_eq] at hstart
    rw [hfree r (List.mem_of_find?_eq_some hfind) hstart]
    rfl
  next => rfl

/-- Nothing is released by a call that fits. -/
theorem releaseBackingMemory_fits {σ : Type} {h : Handler SpaceCall σ} {s s' : MemState σ} {process : Nat}
    {deallocPtr : UInt64} (hfree : ∀ r ∈ s.ranges process, r.start = deallocPtr → r.allocated = false)
    (hs : (releaseBackingMemory process deallocPtr).run (MemState.calls h) s = some (result, s')) :
    result ≠ .noError ∧ s' = s := by
  unfold releaseBackingMemory at hs
  split at hs
  next =>
    obtain ⟨rfl, rfl⟩ := Prod.mk.inj (Option.some.inj hs)
    exact ⟨by decide, rfl⟩
  next =>
    rw [Prog.run_bind, run_list, Option.bind_some] at hs
    dsimp only at hs
    rw [if_pos (memGetVirtualAllocationSize_free hfree)] at hs
    obtain ⟨rfl, rfl⟩ := Prod.mk.inj (Option.some.inj hs)
    exact ⟨by decide, rfl⟩

theorem releaseBackingMemory_fits_safe {process : Nat} {deallocPtr : UInt64}
    (hfree : ∀ r ∈ s.ranges process, r.start = deallocPtr → r.allocated = false) :
    (releaseBackingMemory process deallocPtr).Along spaceCalls MemState.Safe s := by
  unfold releaseBackingMemory
  split
  · exact Prog.along_pure _
  · refine (Prog.along_bind ..).mpr ⟨along_vmm _, fun ranges t hlist => ?_⟩
    rw [run_list] at hlist
    obtain ⟨rfl, rfl⟩ := Prod.mk.inj (Option.some.inj hlist)
    dsimp only
    rw [if_pos (memGetVirtualAllocationSize_free hfree)]
    exact Prog.along_pure _

/-- The calls that fit are safe. -/
theorem MemState.Kept.safe (h : s.Kept live other) (hfits : s.CallFits act) :
    act.prog.Along spaceCalls MemState.Safe s := by
  cases act with
  | allocate process pages mapAddr start =>
      exact (Prog.along_bind ..).mpr ⟨allocateBackingMemory_safe h.ok, fun _ _ _ => Prog.along_pure _⟩
  | release process deallocPtr => exact releaseBackingMemory_fits_safe hfits
  | map curThread args => exact mapMemory_safe curThread args s

/-- A call that fits keeps the invariant, and all that is mapped in the kernel's half. -/
theorem MemState.Kept.call (h : s.Kept live other) (hfits : s.CallFits act)
    (hs : act.prog.run spaceCalls s = some (result, s')) :
    (∃ live', s'.Kept live' other) ∧
      ∀ key, ¬ UserSlot key → s'.spaces.frames key = s.spaces.frames key := by
  cases act with
  | allocate process pages mapAddr start =>
      rw [MemAct.prog, Prog.run_bind] at hs
      obtain ⟨⟨⟨result₁, start₁⟩, s₁⟩, hcall, heq⟩ := Option.bind_eq_some_iff.mp hs
      obtain ⟨-, rfl⟩ := Prod.mk.inj (Option.some.inj heq)
      exact h.allocate hfits hcall
  | release process deallocPtr =>
      obtain ⟨-, rfl⟩ := releaseBackingMemory_fits hfits hs
      exact ⟨⟨live, h⟩, fun _ _ => rfl⟩
  | map curThread args =>
      rcases mapMemory_cases hs with ⟨-, rfl⟩ |
        ⟨-, caller, receiving, originating, rfl, hvalid, htarget, hsource, hshare⟩
      · exact ⟨⟨live, h⟩, fun _ _ => rfl⟩
      · have hextant := (MapArgs.aligned hvalid).2
        obtain ⟨hreserves, hunmapped, htables⟩ := (sharePages_isSome h.ok hextant).mp ⟨s', hshare⟩
        obtain ⟨huse, hfree, hroom⟩ := hfits caller receiving originating rfl
          ⟨hvalid, htarget, hsource, hunmapped, hreserves, htables⟩
        exact h.sharePages hextant huse hfree hroom hshare

end

section
variable {s s' : MemState Mapping} {live : List ((Nat × Nat) × Nat)} {other : Nat → Nat} {act : MemAct}

/-- The same on page tables. -/
theorem MemState.Kept.step (htables : s.spaces.Ok) (h : s.view.Kept live other) (hfits : s.Fits (.call act))
    (hs : s.step (.call act) = some s') : s'.spaces.Ok ∧ (∃ live', s'.view.Kept live' other) ∧
      ∀ key, ¬ UserSlot key → s'.view.spaces.frames key = s.view.spaces.frames key := by
  obtain ⟨⟨result, s₁⟩, hcall, rfl⟩ := Option.map_eq_some_iff.mp hs
  obtain ⟨htables', hview⟩ := view_run htables hfits.2 (h.safe hfits.1) hcall
  exact ⟨htables', h.call hfits.1 hview⟩

/-- **A process that ends leaves nothing mapped.** -/
theorem memVmmFreeProcData_unmaps (htables : s.spaces.Ok) (h : s.view.Kept live other) (process : Nat) :
    ∃ s', (memVmmFreeProcData process).run tableCalls s = some ((), s') ∧
      ∀ k < 2 ^ 26, s'.view.spaces.frames (process, k) = none := by
  have hwhole : ¬ s.WholeTaken process := by
    rintro ⟨r, hr, hra⟩
    have hinv : VmmInv userRoot (s.ranges process) := h.ok.ranges process
    have hpart : r.pages < 2 ^ 25 := h.part process r (by
      change r ∈ s.ranges process
      rw [hr]
      exact List.mem_singleton_self r) hra
    rw [hr] at hinv
    rw [VmmInv.singleton hinv] at hpart
    omega
  obtain ⟨s', -, hdoes, -, -, -, hnone⟩ :=
    memVmmFreeProcData_does htables (h.ok.ranges process) h.owned hwhole
  refine ⟨s', hdoes.run, fun k hk => hnone k ?_⟩
  by_cases hmapped : s.view.spaces.frames (process, k) = none
  · exact .inr hmapped
  · obtain ⟨r, hr, hra, hcovers⟩ := h.reserved process k hk (Option.isSome_iff_ne_none.mpr hmapped)
    exact .inl ⟨r, List.mem_filter.mpr ⟨hr, hra⟩, hcovers⟩

/-- **User memory is kept in step**: in every run of calls that fit, after every call what is mapped is in
allocated ranges, nothing of the kernel is mapped or unmapped, a range that has been released is free, and a
process that ends leaves nothing mapped. -/
theorem user_memory_in_step {s₀ : MemState Mapping} (htables₀ : s₀.spaces.Ok) (h₀ : s₀.view.Kept live other)
    (h : Reach MemState.step MemState.Fits s₀ s) (hfits : s.Fits (.call act))
    (hs : s.step (.call act) = some s') : InStep s act s' := by
  have hinv : s.spaces.Ok ∧ ∃ live, s.view.Kept live other := by
    refine Reach.invariant (I := fun s : MemState Mapping => s.spaces.Ok ∧ ∃ live, s.view.Kept live other)
      ⟨htables₀, live, h₀⟩ ?_ h
    rintro s input s' ⟨htables, live, hkept⟩ hok hs
    cases input with
    | call act =>
        obtain ⟨htables', hkept', -⟩ := hkept.step htables hok hs
        exact ⟨htables', hkept'⟩
    | store process a word =>
        obtain ⟨spaces, hstore, rfl⟩ := Option.map_eq_some_iff.mp hs
        obtain ⟨htables', hview⟩ := htables.storeOwned hkept.owned hstore
        have hsame : MemState.view { s with spaces := spaces } = s.view := congrArg (MemState.mk · s.ranges) hview
        exact ⟨htables', live, hsame ▸ hkept⟩
  obtain ⟨htables, live₁, hkept⟩ := hinv
  obtain ⟨htables', ⟨live', hkept'⟩, hkernel⟩ := hkept.step htables hfits hs
  refine ⟨hkept'.reserved, hkernel, ?_, memVmmFreeProcData_unmaps htables' hkept'⟩
  rintro process deallocPtr rfl hnoError
  exact absurd rfl (releaseBackingMemory_fits (s := s) hfits.1 hnoError).1

end

theorem bootMemory_kept : bootMemory.view.Kept [] fun _ => 0 := by
  refine ⟨bootMemory_ok, bootMapping_owned, fun c k hk hsome => ?_, fun c r hr hra => ?_⟩
  · obtain ⟨p, hp⟩ := Option.isSome_iff_exists.mp hsome
    have := (bootMapping_owned.mem_live (c, k) p).mpr ⟨hk, hp⟩
    cases this
  · rw [List.mem_singleton.mp hr] at hra
    cases hra

/-- A process takes a page of memory. -/
theorem user_memory_in_step_page : ∃ s', bootMemory.step (.call (.allocate 1 1 0x1000 0)) = some s' ∧
    InStep bootMemory (.allocate 1 1 0x1000 0) s' := by
  have hsome : (bootMemory.step (.call (.allocate 1 1 0x1000 0))).isSome := by decide +kernel
  obtain ⟨s', hs'⟩ := Option.isSome_iff_exists.mp hsome
  have hempty : (MemAct.allocate 1 1 0x1000 0).prog.Along tableCalls MemState.TakesEmpty bootMemory := by
    decide +kernel
  have hfits : bootMemory.view.CallFits (.allocate 1 1 0x1000 0) := by
    rw [MemState.CallFits, if_pos rfl]
    decide
  exact ⟨s', hs', user_memory_in_step bootMapping_ok bootMemory_kept .refl ⟨hfits, hempty⟩ hs'⟩

/-- A page that a process takes at an address it chooses is not in an allocated range. -/
theorem user_memory_chosen_address : ¬ ∀ (live : List ((Nat × Nat) × Nat)) (other : Nat → Nat)
    (s₀ s s' : MemState Mapping) (act : MemAct), s₀.spaces.Ok → s₀.view.Kept live other →
      Reach MemState.step anyInput s₀ s → s.step (.call act) = some s' → InStep s act s' := by
  intro hall
  have hrun : (bootMemory.step (.call (.allocate 1 1 0x1000 0x400000))).map
      (fun s => ((s.view.spaces.frames (1, 2)).isSome, s.ranges 1)) = some (true, memVmmInitProcData) := by
    decide +kernel
  obtain ⟨s', hs', heq⟩ := Option.map_eq_some_iff.mp hrun
  obtain ⟨hsome, hranges⟩ := Prod.mk.inj heq
  have hstep := hall [] (fun _ => 0) bootMemory bootMemory s' _ bootMapping_ok bootMemory_kept .refl hs'
  obtain ⟨r, hr, hra, -⟩ := hstep.reserved 1 2 (by decide) hsome
  change r ∈ s'.ranges 1 at hr
  rw [hranges, memVmmInitProcData, List.mem_singleton] at hr
  rw [hr] at hra
  cases hra

end Azalea.Syscall
