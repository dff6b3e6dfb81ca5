import Azalea.Mem.Spaces

/-!
# Mem — the physical pages of user memory

`Spaces.Owned` is what the mapping code keeps of the user halves of all processes: the physical pages
mapped there are not free, and each is counted as often as it is mapped.  So a page that is unmapped can
be given back when its counter gets to zero, and nothing else is mapped to it then (`Owned.unmapPage`).
-/

namespace Azalea.Mem
open Azalea.Bitmaps Function

/-- The slots of user memory. -/
def UserSlot (key : Nat × Nat) : Prop := key.2 < 2 ^ 26

/-- How often a physical page is mapped. -/
def usesIn (live : List ((Nat × Nat) × Nat)) (n : Nat) : Nat :=
  live.countP fun m => m.2 / sizeOfPage = n

/-- The physical page is one that can be handed out, and is not free. -/
def PhysMem.Held (s : PhysMem) (physAddr n : Nat) : Prop :=
  n < memMaxSupportedPages ∧ physAddr = sizeOfPage * n ∧ bit s.alloc n = false ∧ bit s.exist n = true

/-- And there is no table in it. -/
structure Spaces.Held (s : Spaces) (physAddr n : Nat) : Prop where
  held : s.phys.Held physAddr n
  noTable : s.HoldsNoTable n

/-- `live` are the mappings of user memory; `other` counts those of the kernel. -/
structure Spaces.Owned (s : Spaces) (live : List ((Nat × Nat) × Nat)) (other : Nat → Nat) : Prop where
  order : s.InOrder
  mem_live : ∀ key p, (key, p) ∈ live ↔ UserSlot key ∧ s.frames key = some p
  nodup : live.Nodup
  held : ∀ m ∈ live, ∃ n, s.Held m.2 n
  counts : ∀ n < memMaxSupportedPages, (s.counters n).toNat = usesIn live n + other n
  free : ∀ n < memMaxSupportedPages, bit s.phys.alloc n = true → (s.counters n).toNat = 0

section
variable {s : Spaces} {live : List ((Nat × Nat) × Nat)} {other : Nat → Nat} {n p c : Nat} {a : UInt64}
  {key : Nat × Nat}

theorem usesIn_cons : usesIn ((key, p) :: live) n = usesIn live n + if p / sizeOfPage = n then 1 else 0 := by
  rw [usesIn, List.countP_cons, usesIn]
  simp only [decide_eq_true_eq]

theorem usesIn_erase (h : (key, p) ∈ live) : usesIn (live.erase (key, p)) n =
    usesIn live n - if p / sizeOfPage = n then 1 else 0 := by
  rw [usesIn, List.countP_erase, usesIn]
  simp only [h, true_and, decide_eq_true_eq]

theorem usesIn_pos (h : (key, p) ∈ live) : 0 < usesIn live (p / sizeOfPage) :=
  List.countP_pos_iff.mpr ⟨(key, p), h, decide_eq_true rfl⟩

theorem PhysMem.Held.div {m : PhysMem} (h : m.Held p n) : p / sizeOfPage = n := by
  rw [h.2.1]
  exact Nat.mul_div_cancel_left n (by decide)

/-- The number the counter of a page is found at. -/
theorem PhysMem.Held.num {m : PhysMem} (h : m.Held p n) : p / sizeOfPage % 2 ^ 32 = n := by
  have := h.1
  rw [h.div, memMaxSupportedPages] at *
  omega

theorem PhysMem.Held.ne_zero {m : PhysMem} (hm : m.Ok) (h : m.Held p n) : p ≠ 0 := by
  intro h0
  have hn : n = 0 := by
    rw [← h.div, h0]
    rfl
  have hexist := h.2.2.2
  rw [hn, hm.kernel 0 (by decide)] at hexist
  cases hexist

theorem Spaces.Held.congr {s' : Spaces} (h : s.Held p n) (htables : s'.tables = s.tables)
    (hpool : s'.pool = s.pool) : s'.Held p n := by
  refine ⟨?_, ⟨?_, hpool ▸ h.noTable.next⟩⟩
  · rw [Spaces.phys, hpool]
    exact h.held
  · rw [htables]
    exact h.noTable.tables

/-- Tables are taken from other pages. -/
theorem Spaces.Held.takes {s₁ : Spaces} (h : s.Held p n) (ht : s.Takes s₁) : s₁.Held p n := by
  refine ⟨⟨h.held.1, h.held.2.1, ?_, ?_⟩, ht.noTable n h.held.2.2.1 h.noTable⟩
  · by_contra hfree
    rw [Bool.not_eq_false] at hfree
    have := ht.alloc n hfree
    rw [h.held.2.2.1] at this
    cases this
  · rw [ht.exist]
    exact h.held.2.2.2

/-- The page that is handed out was free, and is held from then on. -/
theorem Spaces.InOrder.allocate_held {phys : PhysMem} (h : s.InOrder)
    (ha : memAllocatePhysicalPages 1 s.phys = some (p, phys)) :
    ∃ n, (s.withPhys phys).Held p n ∧ bit s.phys.alloc n = true := by
  obtain ⟨-, -, n, hn, rfl, -, hbit, hclear, hexist, hcarved⟩ := h.pool.allocate ha
  refine ⟨n, ⟨⟨hn, rfl, ?_, ?_⟩, ?_, hcarved⟩, hbit⟩
  · show bit phys.alloc n = false
    rw [hclear, bit_clearBit]
    simp
  · show bit phys.exist n = true
    rw [hexist]
    exact h.pool.ok.phys.sub n hn hbit
  · rintro q u hu rfl
    rw [h.tables q u hu hn] at hbit
    cases hbit

/-- It is none of those held before. -/
theorem Spaces.Held.allocate {phys : PhysMem} {q : Nat} (h : s.InOrder)
    (ha : memAllocatePhysicalPages 1 s.phys = some (q, phys)) (hp : s.Held p n) :
    (s.withPhys phys).Held p n ∧ p ≠ q := by
  obtain ⟨-, -, m, -, rfl, -, hbit, hclear, hexist, -⟩ := h.pool.allocate ha
  obtain ⟨⟨hn, hpn, halloc, hn'⟩, hno⟩ := hp
  refine ⟨⟨⟨hn, hpn, ?_, hexist.symm ▸ hn'⟩, hno.tables, hno.next⟩, ?_⟩
  · show bit phys.alloc n = false
    rw [hclear, bit_clearBit, halloc, Bool.and_false]
  · rintro rfl
    obtain rfl : m = n := Nat.eq_of_mul_eq_mul_left (by decide) hpn
    rw [halloc] at hbit
    cases hbit

theorem Spaces.Owned.takes {s₁ : Spaces} (h : s.Owned live other) (ht : s.Takes s₁) :
    s₁.Owned live other := by
  refine ⟨ht.order, fun key p => ?_, h.nodup, fun use huse => ?_, fun k hk => ?_, fun k hk hfree => ?_⟩
  · rw [ht.frames]
    exact h.mem_live key p
  · obtain ⟨n, hn⟩ := h.held use huse
    exact ⟨n, hn.takes ht⟩
  · rw [ht.counters]
    exact h.counts k hk
  · rw [ht.counters]
    exact h.free k hk (ht.alloc k hfree)

/-- A page is taken that nothing is mapped to. -/
theorem Spaces.Owned.take {phys : PhysMem} (h : s.Owned live other)
    (ha : memAllocatePhysicalPages 1 s.phys = some (p, phys)) :
    (s.withPhys phys).Owned live other ∧
      ∃ n, (s.withPhys phys).Held p n ∧ (s.counters n).toNat = 0 := by
  obtain ⟨n, hheld, hbit⟩ := h.order.allocate_held ha
  obtain ⟨-, -, m, -, -, -, -, hclear, -⟩ := h.order.pool.allocate ha
  refine ⟨⟨(h.order.allocate ha).1, h.mem_live, h.nodup, fun use huse => ?_, h.counts, fun q hq hq' => ?_⟩,
    n, hheld, h.free n hheld.held.1 hbit⟩
  · obtain ⟨q, hq⟩ := h.held use huse
    exact ⟨q, (hq.allocate h.order ha).1⟩
  · change bit phys.alloc q = true at hq'
    rw [hclear, bit_clearBit, Bool.and_eq_true] at hq'
    exact h.free q hq hq'.2

/-- A page that is held is mapped once more. -/
theorem Spaces.Owned.withPage (h : s.Owned live other) (huser : UserSlot (slotKey c a))
    (hnone : s.frames (slotKey c a) = none) (hp : s.Held p n)
    (hroom : (s.counters n).toNat < 2 ^ 32 - 1) :
    (s.withPage p a c).Owned ((slotKey c a, p) :: live) other := by
  have hcount : (s.withPage p a c).counters = update s.counters n (s.counters n + 1) := by
    rw [Spaces.withPage, hp.held.num, countUse, if_pos ⟨hp.held.1, BitVec.lt_def.mpr hroom⟩]
  refine ⟨h.order.congr rfl rfl, fun key q => ?_, ?_, fun m hm => ?_, fun k hk => ?_, fun k hk hfree => ?_⟩
  · rw [Spaces.withPage_frames, update_apply, List.mem_cons, Prod.mk.injEq, h.mem_live]
    constructor
    · rintro (⟨rfl, rfl⟩ | ⟨hkey, hq⟩)
      · exact ⟨huser, if_pos rfl⟩
      · refine ⟨hkey, ?_⟩
        rw [if_neg (by rintro rfl; rw [hnone] at hq; cases hq), hq]
    · rintro ⟨hkey, hq⟩
      split at hq
      next heq => exact .inl ⟨heq, (Option.some.inj hq).symm⟩
      next => exact .inr ⟨hkey, hq⟩
  · refine List.nodup_cons.mpr ⟨fun hmem => ?_, h.nodup⟩
    have := ((h.mem_live _ _).mp hmem).2
    rw [hnone] at this
    cases this
  · rcases List.mem_cons.mp hm with rfl | hm
    · exact ⟨n, hp.congr rfl rfl⟩
    · obtain ⟨q, hq⟩ := h.held m hm
      exact ⟨q, hq.congr rfl rfl⟩
  · have hk' := h.counts k hk
    rw [hcount, update_apply, usesIn_cons, hp.held.div]
    by_cases hkn : k = n
    · subst hkn
      rw [if_pos rfl, if_pos rfl, BitVec.toNat_add, show (1 : BitVec 32).toNat = 1 from rfl]
      omega
    · rw [if_neg hkn, if_neg (Ne.symm hkn), hk', Nat.add_zero]
  · rw [hcount, update_of_ne, h.free k hk hfree]
    rintro rfl
    change bit s.phys.alloc k = true at hfree
    rw [hp.held.2.2.1] at hfree
    cases hfree

/-- A page that is mapped has been counted. -/
theorem Spaces.Owned.counter_pos (h : s.Owned live other) (hmem : (key, p) ∈ live)
    (hp : s.Held p n) : s.counters n > 0 := by
  have hpos := usesIn_pos hmem
  have hcount := h.counts n hp.held.1
  rw [hp.held.div] at hpos
  refine BitVec.lt_def.mpr ?_
  change 0 < (s.counters n).toNat
  omega

/-- With a use less, the counters are those of the mappings that are left. -/
theorem Spaces.Owned.counts_erase (h : s.Owned live other) (hmem : (key, p) ∈ live)
    (hp : s.Held p n) : ∀ k < memMaxSupportedPages,
      (dropUse n s.counters k).toNat = usesIn (live.erase (key, p)) k + other k := by
  intro k hk
  have hpos := usesIn_pos hmem
  have hcount := h.counts n hp.held.1
  rw [hp.held.div] at hpos
  rw [dropUse, if_pos (h.counter_pos hmem hp), update_apply, usesIn_erase hmem, hp.held.div]
  by_cases hkn : k = n
  · subst hkn
    rw [if_pos rfl, if_pos rfl, BitVec.toNat_sub, show (1 : BitVec 32).toNat = 1 from rfl]
    omega
  · rw [if_neg hkn, if_neg (Ne.symm hkn), h.counts k hk, Nat.sub_zero]

/-- The pages that are free are none of those in use. -/
theorem Spaces.Owned.free_dropUse (h : s.Owned live other) (hp : s.Held p n) :
    ∀ k < memMaxSupportedPages, bit s.phys.alloc k = true → (dropUse n s.counters k).toNat = 0 := by
  intro k hk hfree
  rw [dropUse]
  split
  · rw [update_of_ne, h.free k hk hfree]
    rintro rfl
    rw [hp.held.2.2.1] at hfree
    cases hfree
  · exact h.free k hk hfree

theorem Spaces.Owned.mem_erase (h : s.Owned live other) (hframe : s.frames key = some p) :
    ∀ key' q, (key', q) ∈ live.erase (key, p) ↔
      UserSlot key' ∧ update s.frames key none key' = some q := by
  intro key' q
  rw [h.nodup.mem_erase_iff, h.mem_live, update_apply, ne_eq, Prod.mk.injEq]
  by_cases hkey : key' = key
  · subst hkey
    rw [if_pos rfl, hframe]
    simp only [true_and, Option.some.injEq, reduceCtorEq, and_false, iff_false, not_and]
    exact fun hne _ heq => hne heq.symm
  · simp [hkey]

/-- Unmapping a page of user memory gives back no page with tables in it. -/
theorem Spaces.Owned.safe_unmap {allow : Bool} (h : s.Owned live other) (huser : UserSlot (slotKey c a)) :
    s.Safe (.unmapPage a c allow) := by
  refine ⟨fun hw => ?_, fun _ hne halign => ?_⟩
  · rw [hw] at huser
    exact absurd huser (by unfold UserSlot; decide)
  · have hoff : a.toNat % 2097152 < 2097152 := Nat.mod_lt _ (by decide)
    rw [Spaces.getPhysAddr] at hne halign ⊢
    cases hframe : s.frames (slotKey c a) with
    | none =>
        -- only an offset can be found, which is no page
        rw [hframe] at hne halign
        dsimp only at hne halign
        split at hne
        next => exact absurd rfl hne
        next hdir =>
          rw [if_neg hdir, sizeOfPage, Nat.mod_eq_of_lt hoff] at halign
          exact absurd halign hne
    | some p =>
        obtain ⟨n, hp⟩ : ∃ n, s.Held p n := h.held _ ((h.mem_live _ _).mpr ⟨huser, hframe⟩)
        have hdiv : (p + a.toNat % 2097152) / sizeOfPage = n := by
          rw [hp.held.2.1, Nat.mul_add_div (by decide), sizeOfPage, Nat.div_eq_of_lt hoff, Nat.add_zero]
        dsimp only
        rw [hdiv]
        exact hp.noTable

/-- **A page of user memory can be unmapped.**  If it is mapped, its physical page loses a use, and is given
back with the last one. -/
theorem Spaces.Owned.unmapPage (h : s.Owned live other) (ha : a.toNat % 2097152 = 0)
    (huser : UserSlot (slotKey c a)) :
    ∃ s' live', s.unmapPage a c true = some s' ∧ s'.Owned live' other ∧
      s'.frames = update s.frames (slotKey c a) none := by
  rw [Spaces.unmapPage, Spaces.getPhysAddr_page ha]
  cases hframe : s.frames (slotKey c a) with
  | none =>
      refine ⟨s.withoutPage a c, live, rfl, ?_, rfl⟩
      have hsame : s.withoutPage a c = s := by
        rw [Spaces.withoutPage, ← hframe, update_eq_self]
      rwa [hsame]
  | some p =>
      have hmem : (slotKey c a, p) ∈ live := (h.mem_live _ _).mpr ⟨huser, hframe⟩
      obtain ⟨n, hp⟩ : ∃ n, s.Held p n := h.held _ hmem
      have halign : ¬ p % sizeOfPage ≠ 0 := not_not.mpr (by rw [hp.held.2.1]; exact Nat.mul_mod_right ..)
      have hcounts := h.counts_erase hmem hp
      have hlive := h.mem_erase hframe
      rw [Option.getD_some, if_pos (hp.held.ne_zero h.order.pool.ok.phys), Spaces.releaseUse, if_neg halign,
        hp.held.num]
      simp only [Spaces.withoutPage, and_true]
      by_cases hzero : dropUse n s.counters n = 0
      · -- the last use: nothing that is left is mapped to the page
        have hnone : usesIn (live.erase (slotKey c a, p)) n = 0 := by
          have := (hcounts n hp.held.1).symm.trans (congrArg BitVec.toNat hzero)
          rw [show (0 : BitVec 32).toNat = 0 from rfl] at this
          omega
        have hdealloc := memDeallocatePhysicalPages_eq_some.mpr
          ⟨n, hp.held.1, hp.held.2.1, hp.held.2.2.1, hp.held.2.2.2, rfl⟩
        have horder := h.order.deallocate (by rw [hp.held.div]; exact hp.noTable) hdealloc
        rw [if_pos hzero, hdealloc]
        refine ⟨_, live.erase (slotKey c a, p), rfl, ⟨horder.congr rfl rfl, hlive, h.nodup.erase _, fun m hm => ?_,
          hcounts, fun k hk hfree => ?_⟩, rfl⟩
        · obtain ⟨q, hq⟩ := h.held m (List.mem_of_mem_erase hm)
          have hne : q ≠ n := by
            rintro rfl
            have := usesIn_pos hm
            rw [hq.held.div] at this
            omega
          refine ⟨q, ⟨hq.held.1, hq.held.2.1, ?_, hq.held.2.2.2⟩, hq.noTable.tables, hq.noTable.next⟩
          show bit (setBit s.phys.alloc n) q = false
          rw [bit_setBit, hq.held.2.2.1]
          simp [hne]
        · change bit (setBit s.phys.alloc n) k = true at hfree
          rw [bit_setBit, Bool.or_eq_true, decide_eq_true_eq] at hfree
          rcases hfree with rfl | hfree
          · exact congrArg BitVec.toNat hzero
          · exact h.free_dropUse hp k hk hfree
      · rw [if_neg hzero]
        refine ⟨_, live.erase (slotKey c a, p), rfl, ⟨h.order.congr rfl rfl, hlive, h.nodup.erase _,
          fun m hm => ?_, hcounts, h.free_dropUse hp⟩, rfl⟩
        obtain ⟨q, hq⟩ := h.held m (List.mem_of_mem_erase hm)
        exact ⟨q, hq.congr rfl rfl⟩

end

end Azalea.Mem
