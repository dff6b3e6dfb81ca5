import Azalea.Mem.SpaceUses
import Azalea.Mem.TableViews

/-!
# Mem — runs of the mapping calls

Pages are mapped and unmapped in the address spaces, and physical pages are handed out and taken back.  In
calls that fit (`Spaces.Fits`) the physical pages behind user memory stay counted (`Spaces.Owned.step`), and so
they do on page tables (`Mapping.Ok.step`), where processes write to their memory besides (`Mapping.Ok.storeOwned`).
-/

namespace Azalea.Mem
open Azalea.Bitmaps Azalea.Programs Function

/-- The calls. -/
inductive SpaceOp where
  | takePage
  | givePage (physAddr : Nat)
  | mapPage (physAddr : Nat) (virtAddr : UInt64) (context : Nat)
  | unmapPage (virtAddr : UInt64) (context : Nat) (allowPhysPageFree : Bool)

/-- The call that is made. -/
def SpaceOp.prog : SpaceOp → Prog SpaceCall Unit
  | .takePage => do
      let _ ← .op .allocatePhysicalPage
      pure ()
  | .givePage physAddr => .op (.deallocatePhysicalPage physAddr)
  | .mapPage physAddr virtAddr context => .op (.mapPage physAddr virtAddr context)
  | .unmapPage virtAddr context allow => .op (.unmapPage virtAddr context allow)

/-- The list of what is mapped in user memory. -/
def Spaces.Lists (s : Spaces) (live : List ((Nat × Nat) × Nat)) : Prop :=
  live.Nodup ∧ ∀ key p, (key, p) ∈ live ↔ UserSlot key ∧ s.frames key = some p

/-- The counter of a physical page is more than the number of its uses in user memory. -/
def Spaces.UsedBeyond (s : Spaces) (n : Nat) : Prop :=
  ∀ live, s.Lists live → usesIn live n < (s.counters n).toNat

/-- The calls that keep the count.  What is given back is not in use, and has no tables in it.  User memory is
mapped to such physical pages that have been handed out, and no counter is full; the kernel maps pages that
memory has and that are not free, and when it unmaps one, this has no tables in it, and the counter still has
a use of its own. -/
def Spaces.Fits (s : Spaces) : SpaceOp → Prop
  | .takePage => True
  | .givePage physAddr =>
      s.counters (physAddr / sizeOfPage) = 0 ∧ s.HoldsNoTable (physAddr / sizeOfPage)
  | .mapPage physAddr virtAddr context =>
      (UserSlot (slotKey context virtAddr) →
        ∃ n, s.Held physAddr n ∧ (s.counters n).toNat < 2 ^ 32 - 1) ∧
      (¬ UserSlot (slotKey context virtAddr) → s.Known physAddr ∧
        (physAddr / sizeOfPage % 2 ^ 32 < memMaxSupportedPages →
          bit s.phys.alloc (physAddr / sizeOfPage % 2 ^ 32) = false))
  | .unmapPage virtAddr context allow =>
      ¬ UserSlot (slotKey context virtAddr) → s.Safe (.unmapPage virtAddr context allow) ∧
        (s.getPhysAddr virtAddr context ≠ 0 →
          s.getPhysAddr virtAddr context / sizeOfPage % 2 ^ 32 < memMaxSupportedPages →
            s.UsedBeyond (s.getPhysAddr virtAddr context / sizeOfPage % 2 ^ 32))

section
variable {s s' : Spaces} {live : List ((Nat × Nat) × Nat)} {other : Nat → Nat} {n p c : Nat} {a : UInt64}
  {allow : Bool}

theorem Spaces.Owned.lists (h : s.Owned live other) : s.Lists live := ⟨h.nodup, h.mem_live⟩

/-- Nothing is changed of user memory, and the counters still count it. -/
theorem Spaces.Owned.elsewhere (h : s.Owned live other)
    (hframes : ∀ key, UserSlot key → s'.frames key = s.frames key) (horder : s'.InOrder)
    (hheld : ∀ m ∈ live, ∃ n, s'.Held m.2 n)
    (hcounts : ∀ n < memMaxSupportedPages, usesIn live n ≤ (s'.counters n).toNat)
    (hfree : ∀ n < memMaxSupportedPages, bit s'.phys.alloc n = true → (s'.counters n).toNat = 0) :
    ∃ other', s'.Owned live other' := by
  refine ⟨fun n => (s'.counters n).toNat - usesIn live n, horder, fun key p => ?_, h.nodup, hheld,
    fun n hn => ?_, hfree⟩
  · rw [h.mem_live]
    exact and_congr_right fun hkey => by rw [hframes key hkey]
  · have := hcounts n hn
    omega

theorem Spaces.Owned.held_congr (h : s.Owned live other) (htables : s'.tables = s.tables)
    (hpool : s'.pool = s.pool) : ∀ m ∈ live, ∃ n, s'.Held m.2 n := by
  intro m hm
  obtain ⟨n, hn⟩ := h.held m hm
  exact ⟨n, hn.congr htables hpool⟩

/-- What is not in use can be given back. -/
theorem Spaces.Owned.givePage {phys : PhysMem} (h : s.Owned live other)
    (hzero : s.counters (p / sizeOfPage) = 0) (hno : s.HoldsNoTable (p / sizeOfPage))
    (hp : memDeallocatePhysicalPages p 1 s.phys = some phys) : ∃ other', (s.withPhys phys).Owned live other' := by
  have horder := h.order.deallocate hno hp
  obtain ⟨n, hn, rfl, halloc, hexist, rfl⟩ := memDeallocatePhysicalPages_eq_some.mp hp
  rw [Nat.mul_div_cancel_left n (by decide)] at hzero
  have hcount := h.counts n hn
  rw [hzero, show (0 : BitVec 32).toNat = 0 from rfl] at hcount
  refine h.elsewhere (fun _ _ => rfl) horder (fun m hm => ?_)
    (fun k hk => (h.counts k hk).ge.trans' (Nat.le_add_right ..)) fun k hk hfree => ?_
  · obtain ⟨q, hq⟩ := h.held m hm
    have hne : q ≠ n := by
      rintro rfl
      have := usesIn_pos hm
      rw [hq.held.div] at this
      omega
    refine ⟨q, ⟨hq.held.1, hq.held.2.1, ?_, hq.held.2.2.2⟩, hq.noTable.tables, hq.noTable.next⟩
    show bit (setBit s.phys.alloc n) q = false
    rw [bit_setBit, hq.held.2.2.1]
    simp [hne]
  · change bit (setBit s.phys.alloc n) k = true at hfree
    rw [bit_setBit, Bool.or_eq_true, decide_eq_true_eq] at hfree
    rcases hfree with rfl | hfree
    · exact congrArg BitVec.toNat hzero
    · exact h.free k hk hfree

theorem le_countUse (m : Nat) (counters : Nat → BitVec 32) (k : Nat) :
    (counters k).toNat ≤ (countUse m counters k).toNat := by
  rw [countUse]
  split
  next hroom =>
    rw [update_apply]
    split
    next heq =>
      have hlt : (counters m).toNat < 2 ^ 32 - 1 := BitVec.lt_def.mp hroom.2
      rw [heq, BitVec.toNat_add, show (1 : BitVec 32).toNat = 1 from rfl]
      omega
    next => exact le_rfl
  next => exact le_rfl

theorem countUse_of_ne {m k : Nat} (counters : Nat → BitVec 32) (hne : k ≠ m) :
    countUse m counters k = counters k := by
  rw [countUse]
  split
  · exact update_of_ne hne ..
  · rfl

theorem dropUse_of_ne {m k : Nat} (counters : Nat → BitVec 32) (hne : k ≠ m) :
    dropUse m counters k = counters k := by
  rw [dropUse]
  split
  · exact update_of_ne hne ..
  · rfl

theorem dropUse_self (m : Nat) (counters : Nat → BitVec 32) :
    (dropUse m counters m).toNat = (counters m).toNat - 1 := by
  rw [dropUse]
  split
  next hpos =>
    have hpos : 0 < (counters m).toNat := BitVec.lt_def.mp hpos
    rw [update_self, BitVec.toNat_sub, show (1 : BitVec 32).toNat = 1 from rfl]
    omega
  next hzero =>
    have hzero : ¬ 0 < (counters m).toNat := fun h => hzero (BitVec.lt_def.mpr h)
    omega

/-- The kernel maps a page that is not free. -/
theorem Spaces.Owned.mapKernel (h : s.Owned live other) (hkernel : ¬ UserSlot (slotKey c a))
    (hheld : p / sizeOfPage % 2 ^ 32 < memMaxSupportedPages →
      bit s.phys.alloc (p / sizeOfPage % 2 ^ 32) = false) :
    ∃ other', (s.withPage p a c).Owned live other' := by
  refine h.elsewhere (fun key hkey => ?_) (h.order.congr rfl rfl) (h.held_congr rfl rfl) (fun k hk => ?_)
    fun k hk hfree => ?_
  · rw [Spaces.withPage_frames, update_of_ne]
    rintro rfl
    exact hkernel hkey
  · refine le_trans ?_ (le_countUse _ s.counters k)
    rw [h.counts k hk]
    exact Nat.le_add_right ..
  · have hne : k ≠ p / sizeOfPage % 2 ^ 32 := by
      rintro rfl
      change bit s.phys.alloc _ = true at hfree
      rw [hheld hk] at hfree
      cases hfree
    refine (congrArg BitVec.toNat (countUse_of_ne s.counters hne)).trans ?_
    exact h.free k hk hfree

/-- The kernel unmaps a page that it has counted. -/
theorem Spaces.Owned.unmapKernel (h : s.Owned live other) (hkernel : ¬ UserSlot (slotKey c a))
    (hsafe : s.Safe (.unmapPage a c allow))
    (hused : s.getPhysAddr a c ≠ 0 → s.getPhysAddr a c / sizeOfPage % 2 ^ 32 < memMaxSupportedPages →
      s.UsedBeyond (s.getPhysAddr a c / sizeOfPage % 2 ^ 32))
    (hs : s.unmapPage a c allow = some s') : ∃ other', s'.Owned live other' := by
  have hframes : ∀ key, UserSlot key → (s.withoutPage a c).frames key = s.frames key := fun key hkey => by
    rw [Spaces.withoutPage_frames, update_of_ne]
    rintro rfl
    exact hkernel hkey
  have hle : ∀ k < memMaxSupportedPages, usesIn live k ≤ (s.counters k).toNat := fun k hk => by
    rw [h.counts k hk]
    exact Nat.le_add_right ..
  rw [Spaces.unmapPage] at hs
  split at hs
  next hne =>
    rw [Spaces.releaseUse] at hs
    split at hs
    next => cases hs
    next halign =>
      have hcounts : ∀ k < memMaxSupportedPages, usesIn live k ≤
          (dropUse (s.getPhysAddr a c / sizeOfPage % 2 ^ 32) s.counters k).toNat := by
        intro k hk
        by_cases heq : k = s.getPhysAddr a c / sizeOfPage % 2 ^ 32
        · subst heq
          have := hused hne hk live h.lists
          rw [dropUse_self]
          omega
        · rw [dropUse_of_ne _ heq]
          exact hle k hk
      have hfree : ∀ k < memMaxSupportedPages, bit s.phys.alloc k = true →
          (dropUse (s.getPhysAddr a c / sizeOfPage % 2 ^ 32) s.counters k).toNat = 0 := by
        intro k hk hbit
        by_cases heq : k = s.getPhysAddr a c / sizeOfPage % 2 ^ 32
        · rw [heq, dropUse_self, ← heq, h.free k hk hbit]
        · rw [dropUse_of_ne _ heq]
          exact h.free k hk hbit
      obtain ⟨other₁, howned⟩ := @Spaces.Owned.elsewhere s ((s.withoutPage a c).withCounters
        (dropUse (s.getPhysAddr a c / sizeOfPage % 2 ^ 32) s.counters)) live other h hframes
        (h.order.congr rfl rfl) (h.held_congr rfl rfl) hcounts hfree
      dsimp only at hs
      split at hs
      next hzero =>
        -- the last use: the page is given back
        obtain ⟨phys, hphys, rfl⟩ := Option.map_eq_some_iff.mp hs
        have hno := hsafe.2 hzero.2 hne (not_not.mp halign)
        refine howned.givePage ?_ ⟨hno.tables, hno.next⟩ hphys
        obtain ⟨n, hn, hp, -⟩ := memDeallocatePhysicalPages_eq_some.mp hphys
        have hdiv : s.getPhysAddr a c / sizeOfPage = n := by
          rw [hp]
          exact Nat.mul_div_cancel_left n (by decide)
        have hmod : n % 2 ^ 32 = n := Nat.mod_eq_of_lt (hn.trans (by decide))
        have hzero := hzero.1
        rw [hdiv, hmod] at hzero
        rw [hdiv, hmod]
        exact hzero
      next =>
        obtain rfl := Option.some.inj hs
        exact ⟨other₁, howned⟩
  next =>
    obtain rfl := Option.some.inj hs
    exact h.elsewhere hframes (h.order.congr rfl rfl) (h.held_congr rfl rfl) hle h.free

/-- A page of user memory is unmapped without its physical page being given back. -/
theorem Spaces.Owned.unmapHeld (h : s.Owned live other) (hmem : (slotKey c a, p) ∈ live)
    (hp : s.Held p n) (hframe : s.frames (slotKey c a) = some p) :
    ((s.withoutPage a c).withCounters (dropUse n s.counters)).Owned (live.erase (slotKey c a, p)) other := by
  refine ⟨h.order.congr rfl rfl, h.mem_erase hframe, h.nodup.erase _, fun m hm => ?_,
    h.counts_erase hmem hp, h.free_dropUse hp⟩
  obtain ⟨q, hq⟩ := h.held m (List.mem_of_mem_erase hm)
  exact ⟨q, hq.congr rfl rfl⟩

/-- A page of user memory is unmapped. -/
theorem Spaces.Owned.unmapUser (h : s.Owned live other) (huser : UserSlot (slotKey c a))
    (hs : s.unmapPage a c allow = some s') : ∃ live', s'.Owned live' other := by
  have hoff : a.toNat % 2097152 < 2097152 := Nat.mod_lt _ (by decide)
  cases hframe : s.frames (slotKey c a) with
  | none =>
      -- nothing is there: only an offset can be found
      have hsame : s.withoutPage a c = s := by
        rw [Spaces.withoutPage, ← hframe, update_eq_self]
      rw [Spaces.unmapPage, hsame] at hs
      split at hs
      next hne =>
        have haddr : s.getPhysAddr a c = a.toNat % 2097152 := by
          rw [Spaces.getPhysAddr, hframe] at hne ⊢
          dsimp only at hne ⊢
          split
          next hdir => rw [if_pos hdir] at hne; exact absurd rfl hne
          next => rfl
        rw [haddr] at hne hs
        rw [Spaces.releaseUse, if_pos] at hs
        · cases hs
        · rwa [sizeOfPage, Nat.mod_eq_of_lt hoff]
      next =>
        obtain rfl := Option.some.inj hs
        exact ⟨live, h⟩
  | some p =>
      have hmem : (slotKey c a, p) ∈ live := (h.mem_live _ _).mpr ⟨huser, hframe⟩
      obtain ⟨n, hp⟩ : ∃ n, s.Held p n := h.held _ hmem
      have haddr : s.getPhysAddr a c = p + a.toNat % 2097152 := by rw [Spaces.getPhysAddr, hframe]
      have hmod : s.getPhysAddr a c % sizeOfPage = a.toNat % 2097152 := by
        rw [haddr, hp.held.2.1, Nat.mul_add_mod, sizeOfPage, Nat.mod_eq_of_lt hoff]
      have hne : s.getPhysAddr a c ≠ 0 := by
        have := hp.held.ne_zero h.order.pool.ok.phys
        omega
      by_cases ha : a.toNat % 2097152 = 0
      · cases allow with
        | true =>
            obtain ⟨s₁, live', hs₁, howned, -⟩ := h.unmapPage ha huser
            obtain rfl := Option.some.inj (hs.symm.trans hs₁)
            exact ⟨live', howned⟩
        | false =>
            rw [ha, Nat.add_zero] at haddr
            rw [Spaces.unmapPage, if_pos hne, Spaces.releaseUse, if_neg (by rw [hmod, ha]; decide), haddr,
              hp.held.num] at hs
            simp only [Bool.false_eq_true, and_false, if_false, Option.some.injEq] at hs
            exact ⟨_, hs ▸ h.unmapHeld hmem hp hframe⟩
      · rw [Spaces.unmapPage, if_pos hne, Spaces.releaseUse, if_pos (by rwa [hmod])] at hs
        cases hs

/-- A call that fits is safe. -/
theorem Spaces.Owned.safe {op : SpaceOp} (h : s.Owned live other) (hfits : s.Fits op) :
    op.prog.Along Spaces.calls Spaces.Safe s := by
  cases op with
  | takePage => exact (Prog.along_bind ..).mpr ⟨Prog.along_op.mpr trivial, fun _ _ _ => Prog.along_pure _⟩
  | givePage physAddr => exact Prog.along_op.mpr hfits.2
  | mapPage physAddr virtAddr context =>
      refine Prog.along_op.mpr ?_
      by_cases huser : UserSlot (slotKey context virtAddr)
      · obtain ⟨n, hp, -⟩ := hfits.1 huser
        exact .inl ⟨n, hp.held.1, hp.held.2.1⟩
      · exact (hfits.2 huser).1
  | unmapPage virtAddr context allow =>
      refine Prog.along_op.mpr ?_
      by_cases huser : UserSlot (slotKey context virtAddr)
      · exact h.safe_unmap huser
      · exact (hfits huser).1

/-- **A call that fits keeps the count.** -/
theorem Spaces.Owned.step {op : SpaceOp} (h : s.Owned live other) (hfits : s.Fits op)
    (hs : op.prog.run Spaces.calls s = some ((), s')) : ∃ live' other', s'.Owned live' other' := by
  cases op with
  | takePage =>
      rw [SpaceOp.prog, Prog.run_bind, Prog.run_op] at hs
      obtain ⟨⟨p, s₁⟩, hp, hs⟩ := Option.bind_eq_some_iff.mp hs
      obtain ⟨-, rfl⟩ := Prod.mk.inj (Option.some.inj hs)
      obtain ⟨⟨q, phys⟩, hphys, heq⟩ := Option.map_eq_some_iff.mp hp
      obtain ⟨rfl, rfl⟩ := Prod.mk.inj heq
      exact ⟨live, other, (h.take hphys).1⟩
  | givePage physAddr =>
      rw [SpaceOp.prog, Prog.run_op] at hs
      obtain ⟨phys, hp, heq⟩ := Option.map_eq_some_iff.mp hs
      obtain ⟨-, rfl⟩ := Prod.mk.inj heq
      exact ⟨live, h.givePage hfits.1 hfits.2 hp⟩
  | mapPage physAddr virtAddr context =>
      rw [SpaceOp.prog, Prog.run_op] at hs
      obtain ⟨s₂, hs₂, heq⟩ := Option.map_eq_some_iff.mp hs
      obtain ⟨-, rfl⟩ := Prod.mk.inj heq
      obtain ⟨hmap, s₁, hs₁, rfl⟩ := Spaces.mapPage_eq_some.mp hs₂
      have htakes := (Spaces.takeTables_takes h.order hs₁).1
      have hnone : s₁.frames (slotKey context virtAddr) = none := by
        rw [htakes.frames]
        exact hmap.free
      by_cases huser : UserSlot (slotKey context virtAddr)
      · obtain ⟨n, hp, hroom⟩ := hfits.1 huser
        refine ⟨_, other, (h.takes htakes).withPage huser hnone (hp.takes htakes) ?_⟩
        rw [htakes.counters]
        exact hroom
      · refine ⟨live, (h.takes htakes).mapKernel huser fun hlt => ?_⟩
        by_contra hfree
        rw [Bool.not_eq_false] at hfree
        have hused := htakes.alloc _ hfree
        rw [(hfits.2 huser).2 hlt] at hused
        cases hused
  | unmapPage virtAddr context allow =>
      rw [SpaceOp.prog, Prog.run_op] at hs
      obtain ⟨s₂, hs₂, heq⟩ := Option.map_eq_some_iff.mp hs
      obtain ⟨-, rfl⟩ := Prod.mk.inj heq
      by_cases huser : UserSlot (slotKey context virtAddr)
      · obtain ⟨live', howned⟩ := h.unmapUser huser hs₂
        exact ⟨live', other, howned⟩
      · exact ⟨live, h.unmapKernel huser (hfits huser).1 (hfits huser).2 hs₂⟩

end

/-! ### On page tables -/

section
variable {s s' : Mapping} {live : List ((Nat × Nat) × Nat)} {other : Nat → Nat}

/-- **A call that fits keeps the count**, when the pages that it takes for tables are empty. -/
theorem Mapping.Ok.step {op : SpaceOp} (h : s.Ok) (howned : s.view.Owned live other) (hfits : s.view.Fits op)
    (hempty : op.prog.Along Mapping.calls Mapping.TakesEmpty s)
    (hs : op.prog.run Mapping.calls s = some ((), s')) :
    s'.Ok ∧ ∃ live' other', s'.view.Owned live' other' := by
  obtain ⟨t, ht, hok, rfl⟩ :=
    (calls_simulate.run op.prog ⟨h, rfl⟩ hempty (howned.safe hfits)).eq_some hs
  exact ⟨hok, howned.step hfits ht⟩

/-- A process stores to pages of its own. -/
theorem Spaces.Owned.storeOk {c : Nat} {a : UInt64} (h : s.view.Owned live other) (hlow : a.toNat < 2 ^ 47) :
    s.StoreOk c a := by
  intro p hp
  have huser : UserSlot (slotKey c a) := by
    rw [slotKey_low hlow]
    change a.toNat / 2097152 < 2 ^ 26
    omega
  have hne : slotKey c a ≠ windowKey := by
    intro heq
    rw [heq] at huser
    exact absurd huser (by unfold UserSlot; decide)
  have hframe : s.view.frames (slotKey c a) = some p.toNat := by
    change (s.paging.frame (slotKey c a)).map _ = _
    rw [Paging.frame_eq _ dirPlace_ok hne, dirPlace_slotKey, slotKey_idx]
    exact congrArg _ hp
  obtain ⟨n, hheld⟩ : ∃ n, s.view.Held p.toNat n := h.held _ ((h.mem_live _ _).mpr ⟨huser, hframe⟩)
  have hdiv : (p.toNat + a.toNat % 2097152) / sizeOfPage = n := by
    have := hheld.held.2.1
    rw [sizeOfPage] at this ⊢
    omega
  rw [hdiv]
  exact hheld.noTable

/-- What a process stores in its memory is not seen in the tables. -/
theorem Mapping.Ok.storeOwned {c : Nat} {a : UInt64} {word : BitVec 64} (h : s.Ok)
    (howned : s.view.Owned live other) (hs : s.store c a word = some s') : s'.Views s.view := by
  by_cases hlow : a.toNat < 2 ^ 47
  · exact h.store (howned.storeOk hlow) hs
  · rw [Mapping.store, if_neg fun haddr => hlow haddr.1] at hs
    cases hs

end

end Azalea.Mem
