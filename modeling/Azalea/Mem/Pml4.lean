import Azalea.Support.Bytes
import Azalea.Support.Runs
import Mathlib.Data.List.Basic

/-!
# Mem — the PML4 tables of all processes

`mem/x64/mem_pml4-x64.cpp`.  Each process has a PML4 table of its own; the second half of a table
maps the kernel, and `mem_x64_pml4_synchronize` copies it from one table to all the others.  Memory
is a function from virtual addresses to bytes, and a process is known by the address of its table
(`pml4_virt_addr`).  The locks make each function one step; physical addresses are not looked at
here.

* `kernel_halves_in_step_iff`: the tables agree on the kernel in every state, but the number of
  tables is right, and synchronising does not panic, exactly as long as no process has ended:
  `mem_x64_pml4_deallocate` does not count down.
-/

namespace Azalea.Mem
open Azalea.Memory Azalea.Runs

/-- `PML4_LENGTH`. -/
def pml4Length : Nat := 4096

/-- The memory, the list of known tables and `known_pml4s`. -/
structure Pml4Sys where
  mem : Bytes
  tableList : List Nat
  knownPml4s : Nat

/-- `mem_x64_pml4_init_sys`. -/
def memX64Pml4InitSys (mem : Bytes) (task0 : Nat) : Pml4Sys := ⟨mem, [task0], 1⟩

/-- `mem_x64_pml4_allocate`.  `newPte` is the table that `new` returns; the item of the new process
is on the list before its address is set, so that on an empty list the table is copied from whatever
address `unset` was there before. -/
def memX64Pml4Allocate (newPte unset : Nat) (s : Pml4Sys) : Option Pml4Sys :=
  if newPte % pml4Length ≠ 0 then none
  else
    let existingPte := s.tableList.head?.getD unset
    let mem := blit s.mem newPte (fun _ => 0) 0 pml4Length
    let mem :=
      blit mem (newPte + pml4Length / 2) mem (existingPte + pml4Length / 2) (pml4Length / 2)
    some ⟨mem, s.tableList ++ [newPte], s.knownPml4s + 1⟩

/-- `mem_x64_pml4_deallocate`.  `klib_list_remove` panics for an item that is on no list. -/
def memX64Pml4Deallocate (table : Nat) (s : Pml4Sys) : Option Pml4Sys :=
  if table ∈ s.tableList then some { s with tableList := s.tableList.erase table } else none

/-- The loop of `mem_x64_pml4_synchronize`: copy the buffer over the kernel's half of each table. -/
def copyToAll (pml4CopyBuffer : Bytes) : List Nat → Bytes → Bytes
  | [], mem => mem
  | table :: tables, mem =>
      copyToAll pml4CopyBuffer tables
        (blit mem (table + pml4Length / 2) pml4CopyBuffer 0 (pml4Length / 2))

/-- `mem_x64_pml4_synchronize`.  The loop counts the tables it has updated. -/
def memX64Pml4Synchronize (updatedPml4Table : Nat) (s : Pml4Sys) : Option Pml4Sys :=
  let pml4CopyBuffer :=
    blit (fun _ => 0) 0 s.mem (updatedPml4Table + pml4Length / 2) (pml4Length / 2)
  if s.tableList.length = s.knownPml4s then
    some { s with mem := copyToAll pml4CopyBuffer s.tableList s.mem }
  else none

/-! ### Runs -/

/-- What happens to the tables: a process starts, a process ends, or an entry of a table is set and
the tables are synchronised. -/
inductive Pml4Op where
  | allocate (newPte unset : Nat)
  | deallocate (table : Nat)
  | synchronize (table entry value : Nat)

/-- The tables, and the number of processes that have ended.  No function of the source reads it. -/
structure Pml4Run where
  sys : Pml4Sys
  ended : Nat

/-- One operation; an entry of a table has eight bytes. -/
def Pml4Run.step (r : Pml4Run) : Pml4Op → Option Pml4Run
  | .allocate newPte unset => do
      let sys ← memX64Pml4Allocate newPte unset r.sys
      some { r with sys := sys }
  | .deallocate table => do
      let sys ← memX64Pml4Deallocate table r.sys
      some ⟨sys, r.ended + 1⟩
  | .synchronize table entry value => do
      let sys ← memX64Pml4Synchronize table
        { r.sys with mem := store r.sys.mem (table + 8 * entry) 8 value }
      some { r with sys := sys }

/-- Two tables do not overlap. -/
def TablesApart (a b : Nat) : Prop := a + pml4Length ≤ b ∨ b + pml4Length ≤ a

/-- What the callers do: `new` returns memory that is not in use, and the table that has changed is
a listed one, in an entry of the kernel's half. -/
def Pml4Run.Allowed (r : Pml4Run) : Pml4Op → Prop
  | .allocate newPte _ => ∀ a ∈ r.sys.tableList, TablesApart newPte a
  | .deallocate _ => True
  | .synchronize table entry _ => table ∈ r.sys.tableList ∧ 256 ≤ entry ∧ entry < 512

/-- Two tables agree on the kernel. -/
def SameKernelHalf (mem : Bytes) (a b : Nat) : Prop :=
  ∀ i < pml4Length / 2, mem (a + pml4Length / 2 + i) = mem (b + pml4Length / 2 + i)

/-- The counter, the list and the tables are in step, and synchronising works. -/
structure Pml4Sys.InStep (s : Pml4Sys) : Prop where
  known : s.knownPml4s = s.tableList.length
  same : ∀ a ∈ s.tableList, ∀ b ∈ s.tableList, SameKernelHalf s.mem a b
  synchronizes : ∀ table ∈ s.tableList, ∀ entry value, 256 ≤ entry → entry < 512 →
    (memX64Pml4Synchronize table
      { s with mem := store s.mem (table + 8 * entry) 8 value }).isSome = true

/-- What every run keeps. -/
structure Pml4Run.Ok (r : Pml4Run) : Prop where
  known : r.sys.knownPml4s = r.sys.tableList.length + r.ended
  apart : r.sys.tableList.Pairwise TablesApart
  same : ∀ a ∈ r.sys.tableList, ∀ b ∈ r.sys.tableList, SameKernelHalf r.sys.mem a b

section
variable {mem buf : Bytes} {tables : List Nat} {a b x : Nat} {r r' : Pml4Run}

/-- The copies leave all memory outside of the tables alone. -/
theorem copyToAll_of_apart
    (hx : ∀ t ∈ tables, ¬ (t + pml4Length / 2 ≤ x ∧ x < t + pml4Length / 2 + pml4Length / 2)) :
    copyToAll buf tables mem x = mem x := by
  induction tables generalizing mem with
  | nil => rfl
  | cons t tables ih =>
      rw [copyToAll, ih fun u hu => hx u (List.mem_cons_of_mem _ hu)]
      exact blit_of_not_mem (hx t List.mem_cons_self)

/-- After the copies each table has the buffer in its kernel half. -/
theorem copyToAll_of_mem (hp : tables.Pairwise TablesApart) (ha : a ∈ tables) {i : Nat}
    (hi : i < pml4Length / 2) : copyToAll buf tables mem (a + pml4Length / 2 + i) = buf i := by
  induction tables generalizing mem with
  | nil => cases ha
  | cons t tables ih =>
      rw [copyToAll]
      obtain ⟨ht, hp⟩ := List.pairwise_cons.mp hp
      rcases List.mem_cons.mp ha with rfl | ha
      · rw [copyToAll_of_apart fun u hu => ?_, blit_of_mem hi, Nat.zero_add]
        have hapart := ht u hu
        rw [TablesApart] at hapart
        rw [pml4Length] at hapart hi ⊢
        omega
      · exact ih hp ha

theorem SameKernelHalf.rfl : SameKernelHalf mem a a := fun _ _ => Eq.refl _

/-- A new table has the kernel half it is copied from, and no other changes. -/
theorem Pml4Run.Ok.allocate (h : r.Ok) {newPte unset : Nat} {sys : Pml4Sys}
    (hnew : ∀ a ∈ r.sys.tableList, TablesApart newPte a)
    (hsys : memX64Pml4Allocate newPte unset r.sys = some sys) :
    Pml4Run.Ok { r with sys := sys } := by
  rw [memX64Pml4Allocate] at hsys
  split at hsys
  next => cases hsys
  next =>
    obtain rfl := Option.some.inj hsys
    -- the tables that were listed before keep their contents
    have hkeep : ∀ a ∈ r.sys.tableList, ∀ i < pml4Length / 2,
        blit (blit r.sys.mem newPte (fun _ => 0) 0 pml4Length) (newPte + pml4Length / 2)
          (blit r.sys.mem newPte (fun _ => 0) 0 pml4Length)
          (r.sys.tableList.head?.getD unset + pml4Length / 2) (pml4Length / 2)
          (a + pml4Length / 2 + i) = r.sys.mem (a + pml4Length / 2 + i) := by
      intro a ha i hi
      have hapart := hnew a ha
      rw [TablesApart] at hapart
      rw [pml4Length] at hapart hi ⊢
      rw [blit_of_not_mem (by omega), blit_of_not_mem (by omega)]
    refine ⟨?_, ?_, fun a ha b hb i hi => ?_⟩
    · simp only [List.length_append, List.length_singleton, h.known]
      omega
    · refine List.pairwise_append.mpr ⟨h.apart, List.pairwise_singleton _ _, fun a ha b hb => ?_⟩
      rw [List.mem_singleton.mp hb]
      exact (hnew a ha).symm
    · dsimp only at ha hb ⊢
      cases htables : r.sys.tableList with
      | nil =>
          rw [htables, List.nil_append, List.mem_singleton] at ha hb
          rw [ha, hb]
      | cons t ts =>
          have ht : t ∈ r.sys.tableList := htables ▸ List.mem_cons_self
          -- each table, new or old, has the kernel half that the first one had
          have hfirst : ∀ c ∈ r.sys.tableList ++ [newPte],
              blit (blit r.sys.mem newPte (fun _ => 0) 0 pml4Length) (newPte + pml4Length / 2)
                (blit r.sys.mem newPte (fun _ => 0) 0 pml4Length)
                (r.sys.tableList.head?.getD unset + pml4Length / 2) (pml4Length / 2)
                (c + pml4Length / 2 + i) = r.sys.mem (t + pml4Length / 2 + i) := by
            intro c hc
            rcases List.mem_append.mp hc with hc | hc
            · rw [hkeep c hc i hi]
              exact h.same c hc t ht i hi
            · have hapart := hnew t ht
              rw [List.mem_singleton.mp hc, blit_of_mem hi, htables, List.head?_cons,
                Option.getD_some]
              rw [TablesApart] at hapart
              rw [pml4Length] at hapart hi ⊢
              exact blit_of_not_mem (by omega)
          rw [htables] at hfirst ha hb
          exact (hfirst a ha).trans (hfirst b hb).symm

theorem Pml4Run.Ok.deallocate (h : r.Ok) {table : Nat} {sys : Pml4Sys}
    (hsys : memX64Pml4Deallocate table r.sys = some sys) : Pml4Run.Ok ⟨sys, r.ended + 1⟩ := by
  rw [memX64Pml4Deallocate] at hsys
  split at hsys
  next hmem =>
    obtain rfl := Option.some.inj hsys
    have hlen := List.length_erase_of_mem hmem
    have hpos := List.length_pos_of_mem hmem
    refine ⟨?_, h.apart.sublist List.erase_sublist,
      fun a ha b hb => h.same a (List.mem_of_mem_erase ha) b (List.mem_of_mem_erase hb)⟩
    have hknown := h.known
    dsimp only at hlen ⊢
    omega
  next => cases hsys

theorem Pml4Run.Ok.synchronize (h : r.Ok) {table : Nat} {sys : Pml4Sys}
    (hsys : memX64Pml4Synchronize table { r.sys with mem := mem } = some sys) :
    Pml4Run.Ok { r with sys := sys } := by
  rw [memX64Pml4Synchronize] at hsys
  dsimp only at hsys
  split at hsys
  next =>
    obtain rfl := Option.some.inj hsys
    refine ⟨h.known, h.apart, fun a ha b hb i hi => ?_⟩
    dsimp only
    rw [copyToAll_of_mem h.apart ha hi, copyToAll_of_mem h.apart hb hi]
  next => cases hsys

/-- What one operation keeps. -/
theorem Pml4Run.Ok.step (h : r.Ok) {op : Pml4Op} (hop : r.Allowed op)
    (hstep : r.step op = some r') : r'.Ok := by
  cases op with
  | allocate newPte unset =>
      obtain ⟨sys, hsys, hstep⟩ := Option.bind_eq_some_iff.mp hstep
      cases hstep
      exact h.allocate hop hsys
  | deallocate table =>
      obtain ⟨sys, hsys, hstep⟩ := Option.bind_eq_some_iff.mp hstep
      cases hstep
      exact h.deallocate hsys
  | synchronize table entry value =>
      obtain ⟨sys, hsys, hstep⟩ := Option.bind_eq_some_iff.mp hstep
      cases hstep
      exact h.synchronize hsys

end

/-- **The tables of all processes are in step as long as no process has ended.** -/
theorem kernel_halves_in_step_iff {mem : Bytes} {task0 : Nat} {r : Pml4Run}
    (hrun : Reach Pml4Run.step Pml4Run.Allowed ⟨memX64Pml4InitSys mem task0, 0⟩ r) :
    r.sys.InStep ↔ r.ended = 0 := by
  have h : r.Ok := by
    refine hrun.invariant ⟨rfl, List.pairwise_singleton _ _, fun a ha b hb => ?_⟩
      fun _ _ _ hok hop hstep => hok.step hop hstep
    rw [List.mem_singleton.mp ha, List.mem_singleton.mp hb]
    exact .rfl
  have hknown := h.known
  constructor
  · intro hstep
    have hlen := hstep.known
    omega
  · intro h0
    refine ⟨by omega, h.same, fun table _ entry value _ _ => ?_⟩
    rw [memX64Pml4Synchronize, if_pos (by dsimp only; omega)]
    rfl

/-- Task 0 and one process that has been started. -/
def twoTables : Pml4Run :=
  ⟨⟨blit (blit (fun _ => 7) 4096 (fun _ => 0) 0 4096) 6144
    (blit (fun _ => 7) 4096 (fun _ => 0) 0 4096) 2048 2048, [0, 4096], 2⟩, 0⟩

theorem reach_twoTables :
    Reach Pml4Run.step Pml4Run.Allowed ⟨memX64Pml4InitSys (fun _ => 7) 0, 0⟩ twoTables :=
  .step (Pml4Op.allocate 4096 0) .refl
    (fun a ha => Or.inr (by rw [List.mem_singleton.mp ha]; decide)) rfl

theorem kernel_halves_in_step_twoTables :
    Reach Pml4Run.step Pml4Run.Allowed ⟨memX64Pml4InitSys (fun _ => 7) 0, 0⟩ twoTables ∧
      twoTables.sys.InStep :=
  ⟨reach_twoTables, (kernel_halves_in_step_iff reach_twoTables).mpr rfl⟩

/-- The process ends again; then the next change of the kernel's mappings panics. -/
theorem kernel_halves_in_step_fails :
    ¬ ∀ (mem : Bytes) (task0 : Nat) (r : Pml4Run),
      Reach Pml4Run.step Pml4Run.Allowed ⟨memX64Pml4InitSys mem task0, 0⟩ r → r.sys.InStep := by
  intro h
  have hended := Reach.step (Pml4Op.deallocate 4096) reach_twoTables trivial rfl
  exact absurd ((h _ 0 _ hended).synchronizes 0 (by decide) 511 0 (by decide) (by decide))
    (by decide)

end Azalea.Mem
