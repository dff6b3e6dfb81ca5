import Azalea.Fat.Chain

/-!
# Fat — looking for a free cluster

`fat_filesystem::select_free_cluster` of `fat_fs.cpp`, with its `int` counter and the parameter it leaves
unchanged when it fails.  A volume's clusters are numbered from 2 to `number_of_clusters + 1`; the loop stops
before the last of them.

* `selectFreeClusterLoop_spec`: what the loop finds.
* `selects_iff`: it finds a free cluster whenever there is one, unless that is only the last one.
-/

namespace Azalea.Fat
open Azalea.Memory

/-- The loop of `fat_filesystem::select_free_cluster`, from `i`.  Nothing is returned if the `int` would be
counted beyond its range. -/
def selectFreeClusterLoop (g : FatParams) (rawFat : Bytes) (freeCluster i : Nat) : Option (ErrCode × Nat) :=
  if i < g.numberOfClusters + 1 then
    if readFatEntry g rawFat i = 0 then some (.noError, i)
    else if i = 2147483647 then none
    else selectFreeClusterLoop g rawFat freeCluster (i + 1)
  else some (.outOfResource, freeCluster)
termination_by g.numberOfClusters + 1 - i

/-- `fat_filesystem::select_free_cluster`: the code it returns, and `free_cluster`. -/
def selectFreeClusterFrom (g : FatParams) (rawFat : Bytes) (freeCluster : Nat) : Option (ErrCode × Nat) :=
  selectFreeClusterLoop g rawFat freeCluster 2

/-- A cluster of the volume that is marked free. -/
def IsFree (g : FatParams) (rawFat : Bytes) (c : Nat) : Prop := g.InTable c ∧ readFatEntry g rawFat c = 0

/-- A free cluster is found if there is one, and failure reported exactly if there is none. -/
def Selects (g : FatParams) (rawFat : Bytes) (freeCluster : Nat) : Prop :=
  ∃ code c, selectFreeClusterFrom g rawFat freeCluster = some (code, c) ∧
    ((∃ d, IsFree g rawFat d) → code = .noError ∧ IsFree g rawFat c) ∧
    (code ≠ .noError ↔ ∀ d, ¬ IsFree g rawFat d)

section
variable {g : FatParams} {fat : Bytes} {free i : Nat}

/-- The loop finds the first free cluster before the last one, or goes on to its end if it can count so far. -/
theorem selectFreeClusterLoop_spec (hi : i ≤ 2147483647) :
    (∃ c, i ≤ c ∧ c ≤ g.numberOfClusters ∧ c ≤ 2147483647 ∧ readFatEntry g fat c = 0 ∧
      (∀ d, i ≤ d → d < c → readFatEntry g fat d ≠ 0) ∧
      selectFreeClusterLoop g fat free i = some (.noError, c)) ∨
    (∀ c, i ≤ c → c ≤ g.numberOfClusters → c ≤ 2147483647 → readFatEntry g fat c ≠ 0) ∧
      selectFreeClusterLoop g fat free i =
        if g.numberOfClusters < 2147483647 then some (.outOfResource, free) else none := by
  induction i using selectFreeClusterLoop.induct g fat with
  | case1 i hlt h0 =>
      rw [selectFreeClusterLoop, if_pos hlt, if_pos h0]
      exact .inl ⟨i, Nat.le_refl i, Nat.le_of_lt_succ hlt, hi, h0, fun d hd hdi => absurd hdi (Nat.not_lt.mpr hd), rfl⟩
  | case2 hlt h0 =>
      rw [selectFreeClusterLoop, if_pos hlt, if_neg h0, if_pos rfl]
      refine .inr ⟨fun c hc _ hmax => ?_, (if_neg (Nat.not_lt.mpr (Nat.le_of_lt_succ hlt))).symm⟩
      rwa [Nat.le_antisymm hmax hc]
  | case3 i hlt h0 hmax ih =>
      rw [selectFreeClusterLoop, if_pos hlt, if_neg h0, if_neg hmax]
      rcases ih (by omega) with ⟨c, hic, hle, hc, hfree, hfirst, hloop⟩ | ⟨hnone, hloop⟩
      · refine .inl ⟨c, Nat.le_of_succ_le hic, hle, hc, hfree, fun d hd hdc => ?_, hloop⟩
        rcases Nat.lt_or_eq_of_le hd with hlt | rfl
        · exact hfirst d hlt hdc
        · exact h0
      · refine .inr ⟨fun c hic hle hc => ?_, hloop⟩
        rcases Nat.lt_or_eq_of_le hic with hlt | rfl
        · exact hnone c hlt hle hc
        · exact h0
  | case4 i hge =>
      rw [selectFreeClusterLoop, if_neg hge, if_pos (by omega)]
      exact .inr ⟨fun c hic hle => absurd hle (by omega), rfl⟩

/-- With fewer clusters than an `int` counts, the code selects the first free one before the last. -/
theorem selectFreeClusterFrom_eq (hn : g.numberOfClusters < 2147483647) :
    selectFreeClusterFrom g fat free =
      some ((selectFreeCluster g fat).elim (.outOfResource, free) fun c => (.noError, c)) := by
  rcases @selectFreeClusterLoop_spec g fat free 2 (by decide) with
    ⟨c, hc, hle, -, hfree, hfirst, hloop⟩ | ⟨hnone, hloop⟩
  · have hselect : selectFreeCluster g fat = some c :=
      List.find?_range'_eq_some.mpr ⟨beq_iff_eq.mpr hfree, List.mem_range'_1.mpr ⟨hc, by omega⟩,
        fun d hd hdc => by simpa using hfirst d hd hdc⟩
    rw [hselect]
    exact hloop
  · have hselect : selectFreeCluster g fat = none := by
      refine List.find?_eq_none.mpr fun c hc => ?_
      obtain ⟨hc, hlt⟩ := List.mem_range'_1.mp hc
      simpa using hnone c hc (by omega) (by omega)
    rw [hselect, selectFreeClusterFrom, hloop, if_pos hn]
    rfl

/-- **A free cluster.**  For every type and table, the code finds a free cluster if there is one and reports a
failure only if there is none, if and only if one that is not the last is free, or the last one is taken too. -/
theorem selects_iff (g : FatParams) (rawFat : Bytes) (freeCluster : Nat) :
    Selects g rawFat freeCluster ↔
      (∃ c, IsFree g rawFat c ∧ c ≤ g.numberOfClusters ∧ c ≤ 2147483647) ∨
        g.numberOfClusters < 2147483647 ∧ ¬ IsFree g rawFat (g.numberOfClusters + 1) := by
  rcases @selectFreeClusterLoop_spec g rawFat freeCluster 2 (by decide) with
    ⟨c, hc, hle, hmax, hfree, -, hloop⟩ | ⟨hnone, hloop⟩
  · have hfree : IsFree g rawFat c := ⟨⟨hc, Nat.le_succ_of_le hle⟩, hfree⟩
    refine iff_of_true ⟨_, _, hloop, fun _ => ⟨rfl, hfree⟩, ?_⟩ (.inl ⟨c, hfree, hle, hmax⟩)
    exact iff_of_false (fun h => h rfl) fun h => h c hfree
  · have hlow : ¬ ∃ c, IsFree g rawFat c ∧ c ≤ g.numberOfClusters ∧ c ≤ 2147483647 :=
      fun ⟨c, hc, hle, hmax⟩ => hnone c hc.1.1 hle hmax hc.2
    rw [or_iff_right hlow]
    constructor
    · rintro ⟨code, c, hselect, hfinds, hfails⟩
      rw [selectFreeClusterFrom, hloop] at hselect
      split at hselect
      next hn =>
        obtain ⟨rfl, rfl⟩ := Prod.mk.inj (Option.some.inj hselect)
        exact ⟨hn, hfails.mp (by decide) _⟩
      next => exact absurd hselect.symm (Option.some_ne_none _)
    · rintro ⟨hn, hlast⟩
      rw [if_pos hn] at hloop
      have hall : ∀ d, ¬ IsFree g rawFat d := by
        intro d hd
        rcases Nat.lt_or_eq_of_le hd.1.2 with hlt | rfl
        · exact hlow ⟨d, hd, Nat.le_of_lt_succ hlt, by omega⟩
        · exact hlast hd
      exact ⟨_, _, hloop, fun ⟨d, hd⟩ => absurd hd (hall d), iff_of_true (by decide) hall⟩

end

/-- A volume with one cluster, which is free. -/
def oneCluster : FatParams :=
  { type := .fat12, bytesPerSec := 512, secsPerCluster := 1, rsvdSecCnt := 1, fatSize := 1,
    rootDirStartSector := 2, rootDirSectorCount := 1, firstDataSector := 3, maxSectors := 4,
    numberOfClusters := 1, fatLengthBytes := 512, rootCluster := 0 }

/-- The only cluster of the volume is not found. -/
theorem oneCluster_not_selected : ¬ Selects oneCluster (fun _ => 0) 0 := by
  rintro ⟨code, c, hselect, hfinds, -⟩
  have hloop : selectFreeClusterFrom oneCluster (fun _ => 0) 0 = some (.outOfResource, 0) := by
    rw [selectFreeClusterFrom, selectFreeClusterLoop]
    rfl
  obtain ⟨rfl, rfl⟩ := Prod.mk.inj (Option.some.inj (hloop.symm.trans hselect))
  exact absurd (hfinds ⟨2, by decide, rfl⟩).1 (by decide)

end Azalea.Fat
