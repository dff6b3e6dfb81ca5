import Azalea.Mem.TableViews
import Azalea.Support.Bytes

/-!
# Mem — the bytes of physical pages

The page tables lie in the memory that they map.  Of the other pages, those that hold no table, the mapping
code writes none: it changes no byte of a page that holds no table afterwards (`calls_show`).  And what is
written to such a page is not seen in the tables (`Mapping.Ok.write`).  So the bytes of these pages are told
apart from the address spaces.
-/

namespace Azalea.Mem
open Azalea.Memory Azalea.Programs Function

/-- The bytes of physical memory. -/
def Mapping.bytes (s : Mapping) : Bytes := wordBytes s.paging.mem

/-- `memcpy` and `memset`, to an address of the kernel's.  The bytes are in one page; what is not mapped
faults. -/
def Mapping.write (context : Nat) (a : UInt64) (n : Nat) (src : Bytes) (s : Mapping) : Option Mapping :=
  if a.toNat % 2097152 + n ≤ 2097152 then
    (s.paging.translate context a.toBitVec).map fun p =>
      s.withMem (blitWords s.paging.mem (p.toNat + a.toNat % 2097152) src n)
  else none

/-- The bytes of the pages that hold no table. -/
def Mapping.Shows (s : Mapping) (ram : Bytes) : Prop :=
  ∀ x, s.view.HoldsNoTable (x / sizeOfPage) → s.bytes x = ram x

section
variable {s s₁ : Spaces} {place : Place} {key : Nat × Nat} {c n : Nat} {a : UInt64}

/-! ### Tables stay where they are -/

/-- A page that holds no table when one more has been taken held none before. -/
theorem Spaces.HoldsNoTable.of_takeTable (h : s.InOrder) (hs : s.takeTable place = some s₁)
    (hno : s₁.HoldsNoTable n) : s.HoldsNoTable n := by
  obtain ⟨t, pool, hpool, rfl⟩ := takeTable_eq_some.mp hs
  have hnew : t.toNat / sizeOfPage ≠ n := hno.tables place t (update_self ..)
  refine ⟨fun q u hu => ?_, fun hne hpage => ?_⟩
  · by_cases hq : q = place
    · subst hq
      rw [hu] at hpool
      obtain ⟨rfl, -⟩ := Prod.mk.inj (Option.some.inj hpool)
      exact hnew
    · exact hno.tables q u ((update_of_ne hq ..).trans hu)
  · cases hold : s.tables place with
    | some u =>
        rw [hold] at hpool
        obtain ⟨-, rfl⟩ := Prod.mk.inj (Option.some.inj hpool)
        exact hno.next hne hpage
    | none =>
        -- the page that is carved up holds the new table
        rw [hold] at hpool
        obtain ⟨mid, hmid, hpool⟩ := Option.bind_eq_some_iff.mp hpool
        rw [TablePool.refill, if_neg hne] at hmid
        obtain rfl := Option.some.inj hmid
        obtain ⟨rfl, -⟩ := Prod.mk.inj (Option.some.inj hpool)
        have hlt := (h.pool.ok.held hne).1
        rw [sizeOfPage, memMaxSupportedPages] at hlt
        rw [BitVec.toNat_ofNat, Nat.mod_eq_of_lt (by omega)] at hnew
        exact hnew hpage

theorem Spaces.HoldsNoTable.of_takeTables (h : s.InOrder) (hs : s.takeTables key = some s₁)
    (hno : s₁.HoldsNoTable n) : s.HoldsNoTable n := by
  obtain ⟨mid, hmid, hs⟩ := Option.bind_eq_some_iff.mp hs
  exact (hno.of_takeTable (takeTable_takes h hmid).1.order hs).of_takeTable h hmid

theorem Spaces.unmapPage_noTable {allow : Bool} (hs : s.unmapPage a c allow = some s₁) :
    s₁.HoldsNoTable n ↔ s.HoldsNoTable n := by
  have hsame : s₁.tables = s.tables ∧ s₁.pool.next4kbPage = s.pool.next4kbPage := by
    rw [Spaces.unmapPage] at hs
    split at hs
    next =>
      rw [releaseUse] at hs
      split at hs
      next => cases hs
      next =>
        dsimp only at hs
        split at hs
        next =>
          obtain ⟨phys, -, rfl⟩ := Option.map_eq_some_iff.mp hs
          exact ⟨rfl, rfl⟩
        next =>
          obtain rfl := Option.some.inj hs
          exact ⟨rfl, rfl⟩
    next =>
      obtain rfl := Option.some.inj hs
      exact ⟨rfl, rfl⟩
  constructor
  · exact fun hno => ⟨hsame.1 ▸ hno.tables, fun hne => hsame.2 ▸ hno.next (hsame.2.symm ▸ hne)⟩
  · exact fun hno => ⟨hsame.1.symm ▸ hno.tables, fun hne => hsame.2.symm ▸ hno.next (hsame.2 ▸ hne)⟩

/-- **A page that holds no table after a call** held none before. -/
theorem Spaces.HoldsNoTable.of_exec {β : Type} {o : SpaceCall β} {b : β} (h : s.InOrder)
    (hs : Spaces.exec o s = some (b, s₁)) (hno : s₁.HoldsNoTable n) : s.HoldsNoTable n := by
  cases o with
  | getPhysAddr a c =>
      obtain ⟨-, rfl⟩ := Prod.mk.inj (Option.some.inj hs)
      exact hno
  | allocatePhysicalPage =>
      obtain ⟨r, -, heq⟩ := Option.map_eq_some_iff.mp hs
      obtain ⟨-, rfl⟩ := Prod.mk.inj heq
      exact ⟨hno.tables, hno.next⟩
  | deallocatePhysicalPage p =>
      obtain ⟨phys, -, heq⟩ := Option.map_eq_some_iff.mp hs
      obtain ⟨-, rfl⟩ := Prod.mk.inj heq
      exact ⟨hno.tables, hno.next⟩
  | mapPage p a c =>
      obtain ⟨s₂, hs₂, heq⟩ := Option.map_eq_some_iff.mp hs
      obtain ⟨-, rfl⟩ := Prod.mk.inj heq
      obtain ⟨-, s₃, hs₃, rfl⟩ := mapPage_eq_some.mp hs₂
      exact Spaces.HoldsNoTable.of_takeTables h hs₃ ⟨hno.tables, hno.next⟩
  | unmapPage a c allow =>
      obtain ⟨s₂, hs₂, heq⟩ := Option.map_eq_some_iff.mp hs
      obtain ⟨-, rfl⟩ := Prod.mk.inj heq
      exact (unmapPage_noTable hs₂).mp hno

end

/-! ### What the mapping code writes -/

section
variable {s s' : Mapping} {c p x : Nat} {a : UInt64} {paging : Paging} {ram : Bytes}

/-- An address in a page without tables is that of no entry. -/
theorem ne_entryAddr {place : Place} {t : BitVec 64} {k : Nat} (hok : place.Ok)
    (ht : s.paging.tableAt place = some t) (hk : k < 512) (hno : s.view.HoldsNoTable (x / sizeOfPage)) :
    x ≠ entryAddr t k := by
  rintro rfl
  exact (view_holdsNoTable.mp hno).tables place hok t ht (entryAddr_page (tableAt_aligned ht) hk).symm

theorem Mapping.Ok.ne_window (h : s.Ok) (hno : s.view.HoldsNoTable (x / sizeOfPage)) :
    x ≠ s.paging.workingTableVaEntryAddr := by
  obtain ⟨t, ht, haddr⟩ := h.tables.window
  rw [haddr]
  exact ne_entryAddr windowPlace_ok ht (by decide) hno

/-- Looking up a page. -/
theorem Mapping.Ok.moved_mem (h : s.Ok) (hmoved : s.paging.Moved paging)
    (hno : s.view.HoldsNoTable (x / sizeOfPage)) : paging.mem x = s.paging.mem x := by
  obtain ⟨e, -, rfl⟩ := hmoved
  exact update_of_ne (h.ne_window hno) ..

/-- Unmapping a page. -/
theorem Mapping.Ok.unmapPage_mem {allow : Bool} (h : s.Ok)
    (hs : memUnmapVirtualPage a.toBitVec c allow s = some s')
    (hno : s.view.HoldsNoTable (x / sizeOfPage)) : s'.paging.mem x = s.paging.mem x := by
  obtain ⟨r, paging, hget, hmoved, -⟩ := h.getPhysAddr a c
  obtain ⟨hok, hview⟩ := h.moved hmoved
  simp only [memUnmapVirtualPage, hget, Option.bind_eq_bind, Option.bind_some] at hs
  obtain ⟨paging', hpaging', hs⟩ := Option.bind_eq_some_iff.mp hs
  have hno' : Spaces.HoldsNoTable (Mapping.view { s with paging := paging }) (x / sizeOfPage) := hview ▸ hno
  have hmem := memX64UnmapVirtualPage_words hok.tables hpaging' x (hok.ne_window hno') fun u hu l hl =>
    ne_entryAddr (s := { s with paging := paging }) pagePlace_ok hu hl hno'
  have hrelease : s'.paging.mem = paging'.mem := by
    split at hs
    next =>
      rw [Mem.releaseUse] at hs
      split at hs
      next => cases hs
      next =>
        dsimp only at hs
        split at hs
        next =>
          obtain ⟨phys, -, rfl⟩ := Option.map_eq_some_iff.mp hs
          rfl
        next =>
          obtain rfl := Option.some.inj hs
          rfl
    next =>
      obtain rfl := Option.some.inj hs
      rfl
  rw [hrelease, hmem]
  exact h.moved_mem hmoved hno

/-- Mapping a page. -/
theorem Mapping.Ok.mapPage_mem {t : Spaces} (h : s.Ok) (hempty : s.paging.TakesEmpty c a.toBitVec)
    (hp : s.view.Known p) (hs : memMapRange (BitVec.ofNat 64 p) a.toBitVec 1 c cacheWriteBack s = some s')
    (ht : s.view.mapPage p a c = some t) (hno : s.view.HoldsNoTable (x / sizeOfPage))
    (hno' : t.HoldsNoTable (x / sizeOfPage)) : s'.paging.mem x = s.paging.mem x := by
  obtain ⟨hmap, s₁, hs₁, rfl⟩ := Spaces.mapPage_eq_some.mp ht
  rcases h.takeTables hempty hmap.kernel with ⟨hnone, -⟩ | ⟨t, u, pool', hhas, hsome⟩
  · rw [hs₁] at hnone
    cases hnone
  · obtain rfl := Option.some.inj (hs₁.symm.trans hsome)
    obtain ⟨e, s₂, hs₂, hmaps, hok, hview⟩ :=
      h.mapsPage hempty hp hmap.whole hmap.aligned hmap.free hhas hsome
    obtain rfl := Option.some.inj (hs₂.symm.trans hs)
    rw [← hview] at hno'
    exact hmaps.rest x (h.ne_window hno) (fun l hl => ne_entryAddr pagePtrPlace_ok hmaps.pageDirPtrTable hl hno')
      fun l hl => ne_entryAddr pagePlace_ok hmaps.pageDir hl hno'

end

section
variable {s : Mapping} {c n : Nat} {a : UInt64} {ram : Bytes}

theorem word_page (x : Nat) : x / 8 * 8 / sizeOfPage = x / sizeOfPage := by
  rw [sizeOfPage]
  omega

/-- Address spaces, and the bytes of the pages that hold no table. -/
def Mapping.Holds (s : Mapping) (t : Spaces × Bytes) : Prop := s.Views t.1 ∧ s.Shows t.2

/-- **The mapping code changes no byte of a page that holds no table afterwards.** -/
theorem calls_show : Simulates Mapping.calls (Spaces.calls.beside Bytes) Mapping.Holds Mapping.TakesEmpty
    fun o t => t.1.Safe o := by
  rintro β o s ⟨_, ram⟩ ⟨⟨h, rfl⟩, hshows⟩ hempty hsafe
  have hagree := calls_simulate o s s.view ⟨h, rfl⟩ hempty hsafe
  rw [Handler.beside_exec]
  cases hs : Mapping.calls.exec o s with
  | none =>
      rw [hs] at hagree
      cases ht : Spaces.calls.exec o s.view with
      | none => exact .none
      | some r => rw [ht] at hagree; cases hagree
  | some r =>
      obtain ⟨b, s'⟩ := r
      obtain ⟨t, ht, hviews⟩ := hagree.eq_some hs
      rw [ht]
      refine .some ⟨rfl, hviews, fun x hno' => ?_⟩
      rw [hviews.2] at hno'
      have hno := hno'.of_exec h.inOrder ht
      have hmem : s'.paging.mem (x / 8 * 8) = s.paging.mem (x / 8 * 8) := by
        rw [← word_page] at hno hno'
        cases o with
        | getPhysAddr a c =>
            obtain ⟨r, paging, hget, hmoved, -⟩ := h.getPhysAddr a c
            obtain ⟨r', hr', heq⟩ := Option.map_eq_some_iff.mp hs
            obtain rfl := Option.some.inj (hget.symm.trans hr')
            obtain ⟨-, rfl⟩ := Prod.mk.inj heq
            exact h.moved_mem hmoved hno
        | allocatePhysicalPage =>
            obtain ⟨r', -, heq⟩ := Option.map_eq_some_iff.mp hs
            obtain ⟨-, rfl⟩ := Prod.mk.inj heq
            rfl
        | deallocatePhysicalPage p =>
            obtain ⟨r', -, heq⟩ := Option.map_eq_some_iff.mp hs
            obtain ⟨-, rfl⟩ := Prod.mk.inj heq
            rfl
        | mapPage p a c =>
            obtain ⟨s₂, hs₂, heq⟩ := Option.map_eq_some_iff.mp hs
            obtain ⟨-, rfl⟩ := Prod.mk.inj heq
            obtain ⟨t₂, ht₂, heq'⟩ := Option.map_eq_some_iff.mp ht
            obtain ⟨-, rfl⟩ := Prod.mk.inj heq'
            exact h.mapPage_mem hempty hsafe hs₂ ht₂ hno hno'
        | unmapPage a c allow =>
            obtain ⟨s₂, hs₂, heq⟩ := Option.map_eq_some_iff.mp hs
            obtain ⟨-, rfl⟩ := Prod.mk.inj heq
            exact h.unmapPage_mem hs₂ hno
      rw [← hshows x hno, Mapping.bytes, Mapping.bytes, wordBytes, wordBytes, hmem]

/-! ### What is written at an address -/

/-- The same, on address spaces. -/
def Spaces.write (context : Nat) (a : UInt64) (n : Nat) (src : Bytes) (t : Spaces × Bytes) :
    Option (Spaces × Bytes) :=
  if a.toNat % 2097152 + n ≤ 2097152 then
    (t.1.frames (slotKey context a)).map fun p => (t.1, blit t.2 (p + a.toNat % 2097152) src 0 n)
  else none

/-- What the processor finds for a page that is not the window. -/
theorem view_translate (hne : slotKey c a ≠ windowKey) :
    s.view.frames (slotKey c a) = (s.paging.translate c a.toBitVec).map BitVec.toNat := by
  change (s.paging.frame (slotKey c a)).map _ = _
  rw [Paging.frame_eq _ dirPlace_ok hne, dirPlace_slotKey, slotKey_idx]
  rfl

/-- **What is written to a page without tables is not seen in the tables**, and it is seen in the page. -/
theorem Mapping.Ok.write {src : Bytes} (h : s.Ok) (hshows : s.Shows ram) (hne : slotKey c a ≠ windowKey)
    (hwhole : ∀ p, s.view.frames (slotKey c a) = some p → p % sizeOfPage = 0)
    (hno : ∀ p, s.view.frames (slotKey c a) = some p → s.view.HoldsNoTable (p / sizeOfPage)) :
    Option.Rel Mapping.Holds (s.write c a n src) (Spaces.write c a n src (s.view, ram)) := by
  rw [Mapping.write, Spaces.write]
  split
  next hpage =>
    have hframe := view_translate (s := s) hne
    cases ht : s.paging.translate c a.toBitVec with
    | none =>
        rw [ht] at hframe
        rw [hframe]
        exact .none
    | some q =>
        rw [ht, Option.map_some] at hframe
        have hq := hwhole _ hframe
        have hnoq := hno _ hframe
        rw [hframe, Option.map_some, Option.map_some]
        have hviews := @Mapping.Ok.withMem s (blitWords s.paging.mem (q.toNat + a.toNat % 2097152) src n) h
          fun x hx => by
            obtain ⟨hword, hstart, hend⟩ := blitWords_ne hx
            have hdiv : x / sizeOfPage = q.toNat / sizeOfPage := by
              rw [sizeOfPage] at hq ⊢
              omega
            exact hdiv ▸ hnoq
        refine .some ⟨hviews, fun x hx => ?_⟩
        rw [hviews.2] at hx
        rw [Mapping.bytes, Mapping.withMem, wordBytes_blitWords]
        by_cases hin : q.toNat + a.toNat % 2097152 ≤ x ∧ x < q.toNat + a.toNat % 2097152 + n
        · exact (if_pos hin).trans (if_pos hin).symm
        · exact (blit_of_not_mem hin).trans ((hshows x hx).trans (blit_of_not_mem hin).symm)
  next => exact .none

end

end Azalea.Mem
