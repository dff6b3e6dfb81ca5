import Azalea.Fat.Table
import Azalea.Support.Walks

/-!
# Fat — cluster chains

`select_free_cluster` and `change_file_chain_length` of `fat_fs.cpp`.  A file's clusters are a walk
through the table from its first cluster to an end marker (`IsChain`).

* `changeFileChainLength_shrink`, `changeFileChainLength_extend`: cutting a chain to at least one
  cluster, and adding one cluster to it, do what they should.
* `changeFileChainLength_grow`: growing by two clusters or more never does: the cluster taken first
  is still marked free when the next one is looked for, and is taken again.
* `changes_chain_iff`: exactly when the length of a chain is changed correctly.
-/

namespace Azalea.Fat
open Azalea.Memory Azalea.Walks

/-! ### The source -/

/-- `fat_filesystem::select_free_cluster`: the first free cluster.  The loop stops before
`number_of_clusters + 1`, the last cluster of the table. -/
def selectFreeCluster (g : FatParams) (rawFat : Bytes) : Option Nat :=
  (List.range' 2 (g.numberOfClusters - 1)).find? fun i => readFatEntry g rawFat i == 0

/-- The loop of `change_file_chain_length`, with the number of rounds left.  A round that finds no
free cluster is the last one. -/
def chainLoop (g : FatParams) (oldChainLength newChainLength : Nat) :
    Nat → Nat → Nat → Bytes → ErrCode × Bytes
  | 0, _, _, rawFat => (.noError, rawFat)
  | rounds + 1, curChainLength, curClusterNum, rawFat =>
      if curChainLength = newChainLength then
        chainLoop g oldChainLength newChainLength rounds (curChainLength + 1)
          (readFatEntry g rawFat curClusterNum) (writeFatEntry g rawFat curClusterNum 0xFFFFFFFF).2
      else if curChainLength > newChainLength then
        chainLoop g oldChainLength newChainLength rounds (curChainLength + 1)
          (readFatEntry g rawFat curClusterNum) (writeFatEntry g rawFat curClusterNum 0).2
      else if curChainLength < newChainLength ∧ curChainLength ≥ oldChainLength then
        match selectFreeCluster g rawFat with
        | none => (.outOfResource, rawFat)
        | some nextClusterNum =>
            chainLoop g oldChainLength newChainLength rounds (curChainLength + 1) nextClusterNum
              (writeFatEntry g rawFat curClusterNum nextClusterNum).2
      else
        chainLoop g oldChainLength newChainLength rounds (curChainLength + 1)
          (readFatEntry g rawFat curClusterNum) rawFat

/-- The changes `fat_filesystem::change_file_chain_length` makes in memory: its result, the first
cluster, and the table. -/
def changeFileChainLength (g : FatParams) (rawFat : Bytes)
    (startCluster oldChainLength newChainLength : Nat) : ErrCode × Nat × Bytes :=
  let maxChainLength := if oldChainLength > newChainLength then oldChainLength else newChainLength
  if (oldChainLength ≠ 0 ∧ isNormalClusterNumber g.type startCluster = false) ∨
      (startCluster = 0 ∧ oldChainLength ≠ 0) then
    (.invalidParam, startCluster, rawFat)
  else if oldChainLength ≠ newChainLength then
    if startCluster = 0 then
      match selectFreeCluster g rawFat with
      | none => (.outOfResource, startCluster, rawFat)
      | some curClusterNum =>
          let (result, rawFat) :=
            chainLoop g oldChainLength newChainLength maxChainLength 1 curClusterNum rawFat
          (result, curClusterNum, rawFat)
    else
      let (result, rawFat) :=
        chainLoop g oldChainLength newChainLength maxChainLength 1 startCluster rawFat
      (result, startCluster, rawFat)
  else (.noError, startCluster, rawFat)

/-! ### Chains -/

/-- An end-of-chain marker, by the FAT specification. -/
def FatType.IsEndOfChain (type : FatType) (v : Nat) : Prop := type.lastNormal + 9 ≤ v

instance (type : FatType) (v : Nat) : Decidable (type.IsEndOfChain v) :=
  inferInstanceAs (Decidable (_ ≤ _))

/-- A cluster that holds data: it has an entry in the table, and its number is not reserved. -/
def FatParams.IsData (g : FatParams) (c : Nat) : Prop :=
  g.InTable c ∧ isNormalClusterNumber g.type c = true

/-- The number of every cluster fits in an entry of the table. -/
def FatParams.Numbered (g : FatParams) : Prop := g.numberOfClusters + 1 < 2 ^ g.type.entryBits

/-- The clusters `cs` are the chain of a file whose first cluster is `start`: distinct data
clusters, each linked to the next, the last one to an end marker.  An empty file has no first
cluster. -/
structure IsChain (g : FatParams) (fat : Bytes) (start : Nat) (cs : List Nat) : Prop where
  nodup : cs.Nodup
  data : ∀ c ∈ cs, g.IsData c
  walk : ∃ e, Walk (readFatEntry g fat) start cs e ∧
    if cs = [] then start = 0 else g.type.IsEndOfChain e

section
variable {g : FatParams} {fat fat' : Bytes} {start c : Nat} {cs : List Nat}

theorem FatParams.IsData.lt (h : g.IsData c) : 2 ≤ c ∧ c < 2 ^ g.type.entryBits := by
  obtain ⟨h₁, h₂⟩ := isNormalClusterNumber_iff.mp h.2
  refine ⟨h₁, h₂.trans_lt ?_⟩
  cases g.type <;> decide

theorem FatType.IsEndOfChain.not_normal {type : FatType} {v : Nat} (h : type.IsEndOfChain v) :
    isNormalClusterNumber type v = false := by
  rw [Bool.eq_false_iff, ne_eq, isNormalClusterNumber_iff]
  unfold FatType.IsEndOfChain at h
  omega

theorem FatType.IsEndOfChain.ne_zero {type : FatType} {v : Nat} (h : type.IsEndOfChain v) :
    v ≠ 0 := by
  unfold FatType.IsEndOfChain at h
  omega

/-- The marker the source writes. -/
theorem isEndOfChain_marker (type : FatType) :
    type.IsEndOfChain (0xFFFFFFFF % 2 ^ type.entryBits) := by
  cases type <;> decide

/-- No cluster of a chain is free. -/
theorem IsChain.entry_ne_zero (h : IsChain g fat start cs) (hc : c ∈ cs) :
    readFatEntry g fat c ≠ 0 := by
  obtain ⟨e, hw, he⟩ := h.walk
  have hne : cs ≠ [] := List.ne_nil_of_mem hc
  rw [if_neg hne] at he
  rcases hw.next_mem c hc with hm | hm
  · have := (h.data _ hm).lt.1
    omega
  · rw [hm]; exact he.ne_zero

/-- The first cluster names a data cluster unless the chain is empty. -/
theorem IsChain.start_mem (h : IsChain g fat start cs) (hne : cs ≠ []) : start ∈ cs := by
  obtain ⟨e, hw, -⟩ := h.walk
  cases cs with
  | nil => exact absurd rfl hne
  | cons x xs => rw [← hw.1]; simp

theorem IsChain.start_eq_zero_iff (h : IsChain g fat start cs) : start = 0 ↔ cs = [] := by
  constructor
  · intro h0
    by_contra hne
    have := (h.data _ (h.start_mem hne)).lt.1
    omega
  · intro hnil
    obtain ⟨e, -, he⟩ := h.walk
    rwa [if_pos hnil] at he

/-- A chain depends on the entries of its own clusters only. -/
theorem IsChain.congr (h : IsChain g fat start cs)
    (he : ∀ c ∈ cs, readFatEntry g fat' c = readFatEntry g fat c) : IsChain g fat' start cs := by
  obtain ⟨e, hw, hs⟩ := h.walk
  exact ⟨h.nodup, h.data, e, hw.congr he, hs⟩

/-! ### Free clusters -/

theorem selectFreeCluster_eq_some {f : Nat} (h : selectFreeCluster g fat = some f) :
    2 ≤ f ∧ f ≤ g.numberOfClusters ∧ readFatEntry g fat f = 0 ∧
      ∀ i, 2 ≤ i → i < f → readFatEntry g fat i ≠ 0 := by
  obtain ⟨h0, hm, hlt⟩ := List.find?_range'_eq_some.mp h
  rw [List.mem_range'_1] at hm
  exact ⟨hm.1, by omega, by simpa using h0, fun i h₁ h₂ => by simpa using hlt i h₁ h₂⟩

theorem selectFreeCluster_isSome {i : Nat} (h₁ : 2 ≤ i) (h₂ : i ≤ g.numberOfClusters)
    (h0 : readFatEntry g fat i = 0) : ∃ f, selectFreeCluster g fat = some f ∧ f ≤ i := by
  cases hs : selectFreeCluster g fat with
  | none =>
      have := List.find?_eq_none.mp hs i (List.mem_range'_1.mpr ⟨h₁, by omega⟩)
      simp [h0] at this
  | some f =>
      refine ⟨f, rfl, ?_⟩
      by_contra hlt
      exact (selectFreeCluster_eq_some hs).2.2.2 i h₁ (not_le.mp hlt) h0

/-- The search goes by the entries below the cluster it finds. -/
theorem selectFreeCluster_congr {f : Nat} (h : selectFreeCluster g fat = some f)
    (h0 : readFatEntry g fat' f = 0)
    (hlt : ∀ i, 2 ≤ i → i < f → readFatEntry g fat' i ≠ 0) :
    selectFreeCluster g fat' = some f := by
  obtain ⟨h₁, h₂, -, -⟩ := selectFreeCluster_eq_some h
  refine List.find?_range'_eq_some.mpr ⟨by simpa using h0, ?_, fun i h₁ h₂ => ?_⟩
  · exact List.mem_range'_1.mpr ⟨h₁, by omega⟩
  · simpa using hlt i h₁ h₂

theorem readFatEntry_write_ne {d v : Nat} (h : d ≠ c) :
    readFatEntry g (writeFatEntry g fat c v).2 d = readFatEntry g fat d := by
  by_cases hc : g.InTable c
  · rw [readFatEntry_write hc, if_neg h]
  · rw [writeFatEntry_out hc]

/-- A cluster that is found free and then linked to is found again: only its predecessor's entry
has changed. -/
theorem selectFreeCluster_again {f x v : Nat} (hf : selectFreeCluster g fat = some f)
    (hx : readFatEntry g fat x ≠ 0) (hv : readFatEntry g (writeFatEntry g fat x v).2 x ≠ 0) :
    selectFreeCluster g (writeFatEntry g fat x v).2 = some f := by
  obtain ⟨-, -, hf0, hlt⟩ := selectFreeCluster_eq_some hf
  refine selectFreeCluster_congr hf ?_ fun i h₁ h₂ => ?_
  · rw [readFatEntry_write_ne (by rintro rfl; exact hx hf0)]; exact hf0
  · by_cases hix : i = x
    · rw [hix]; exact hv
    · rw [readFatEntry_write_ne hix]; exact hlt i h₁ h₂

/-! ### The loop -/

variable {old new : Nat}

/-- The rounds below both lengths walk along the chain. -/
theorem chainLoop_walk {rounds m : Nat} {xs : List Nat} : ∀ {cur curLen : Nat},
    Walk (readFatEntry g fat) cur xs m → curLen + xs.length ≤ old → curLen + xs.length ≤ new →
    chainLoop g old new (rounds + xs.length) curLen cur fat =
      chainLoop g old new rounds (curLen + xs.length) m fat := by
  induction xs with
  | nil => rintro cur curLen rfl _ _; rfl
  | cons x xs ih =>
      rintro cur curLen ⟨rfl, hw⟩ h₁ h₂
      rw [List.length_cons] at h₁ h₂ ⊢
      rw [← Nat.add_assoc, chainLoop, if_neg (by omega), if_neg (by omega), if_neg (by omega),
        ih hw (by omega) (by omega), Nat.add_right_comm, Nat.add_assoc curLen]

/-- The rounds beyond the new length clear the clusters they visit. -/
theorem chainLoop_clear {m : Nat} {xs : List Nat} (old new : Nat) :
    ∀ (curLen : Nat) {cur : Nat} {fat : Bytes},
    Walk (readFatEntry g fat) cur xs m → xs.Nodup → (∀ x ∈ xs, g.InTable x) → new < curLen →
    ∃ fat', chainLoop g old new xs.length curLen cur fat = (.noError, fat') ∧
      (∀ c ∈ xs, readFatEntry g fat' c = 0) ∧
      ∀ c, c ∉ xs → readFatEntry g fat' c = readFatEntry g fat c := by
  induction xs with
  | nil => intro curLen cur fat _ _ _ _; exact ⟨fat, rfl, by simp, by simp⟩
  | cons x xs ih =>
      rintro curLen cur fat ⟨rfl, hw⟩ hnd hin hlt
      obtain ⟨hx, hnd⟩ := List.nodup_cons.mp hnd
      have hw' : Walk (readFatEntry g (writeFatEntry g fat x 0).2) (readFatEntry g fat x) xs m :=
        hw.congr fun y hy => readFatEntry_write_ne (by rintro rfl; exact hx hy)
      obtain ⟨fat', hl, hz, hf⟩ := ih (curLen + 1) hw' hnd (fun y hy => hin y (by simp [hy]))
        (Nat.lt_succ_of_lt hlt)
      refine ⟨fat', ?_, ?_, ?_⟩
      · rw [List.length_cons, chainLoop, if_neg (by omega), if_pos hlt, hl]
      · intro c hc
        rcases List.mem_cons.mp hc with rfl | hc
        · rw [hf c hx, readFatEntry_write (hin c (by simp)), if_pos rfl, Nat.zero_mod]
        · exact hz c hc
      · intro c hc
        rw [List.mem_cons, not_or] at hc
        rw [hf c hc.2, readFatEntry_write_ne hc.1]

/-- Standing on a cluster that the search has just found or one linked to itself, the rounds that
grow the chain take every cluster twice: it is still free when the next one is looked for. -/
theorem chainLoop_grow (hg : g.Numbered) {s : Nat} (k : Nat) :
    ∀ {curLen cur : Nat} {xs : List Nat} {fat fat' : Bytes} (fresh : Bool),
      Walk (readFatEntry g fat) s xs cur → (∀ x ∈ xs, readFatEntry g fat x ≠ 0) →
      cur ∉ xs → g.InTable cur →
      (if fresh then selectFreeCluster g fat = some cur else readFatEntry g fat cur = cur) →
      curLen + k = new → old ≤ curLen →
      chainLoop g old new (k + 1) curLen cur fat = (.noError, fat') →
      ∃ ys e, Walk (readFatEntry g fat') s (xs ++ cur :: ys) e ∧ g.type.IsEndOfChain e ∧
        ys.length = if fresh then k / 2 else (k + 1) / 2 := by
  induction k with
  | zero =>
      intro curLen cur xs fat fat' fresh hw hne hcur hin _ hlen _ hok
      rw [chainLoop, if_pos (by omega)] at hok
      obtain rfl : (writeFatEntry g fat cur 0xFFFFFFFF).2 = fat' := (Prod.mk.inj hok).2
      refine ⟨[], 0xFFFFFFFF % 2 ^ g.type.entryBits, ?_, isEndOfChain_marker _, ?_⟩
      · refine walk_append.mpr ⟨cur, hw.congr fun x hx => ?_, rfl, ?_⟩
        · exact readFatEntry_write_ne (by rintro rfl; exact hcur hx)
        · rw [walk_nil, readFatEntry_write hin, if_pos rfl]
      · cases fresh <;> simp
  | succ k ih =>
      intro curLen cur xs fat fat' fresh hw hne hcur hin hsel hlen hold hok
      rw [chainLoop, if_neg (by omega), if_neg (by omega), if_pos ⟨by omega, hold⟩] at hok
      cases hf : selectFreeCluster g fat with
      | none => rw [hf] at hok; cases hok
      | some f =>
          rw [hf] at hok
          dsimp only at hok
          obtain ⟨hf₁, hf₂, hf0, -⟩ := selectFreeCluster_eq_some hf
          have hlink : readFatEntry g (writeFatEntry g fat cur f).2 cur = f := by
            unfold FatParams.Numbered at hg
            rw [readFatEntry_write hin, if_pos rfl, Nat.mod_eq_of_lt (by omega)]
          have hkeep : ∀ x ∈ xs, readFatEntry g (writeFatEntry g fat cur f).2 x =
              readFatEntry g fat x :=
            fun x hx => readFatEntry_write_ne (by rintro rfl; exact hcur hx)
          cases fresh with
          | true =>
              -- the cluster is linked to itself
              rw [if_pos rfl, hf, Option.some.injEq] at hsel
              subst hsel
              obtain ⟨ys, e, hy, he, hl⟩ := ih false (hw.congr hkeep)
                (fun x hx => by rw [hkeep x hx]; exact hne x hx) hcur hin hlink
                (by omega) (by omega) hok
              exact ⟨ys, e, hy, he, by rw [hl]; simp⟩
          | false =>
              -- the next cluster is linked to
              rw [if_neg (by simp)] at hsel
              have hcf : f ≠ cur := by
                rintro rfl
                omega
              have hw' : Walk (readFatEntry g (writeFatEntry g fat cur f).2) s (xs ++ [cur]) f :=
                walk_append.mpr ⟨cur, hw.congr hkeep, rfl, hlink⟩
              have hne' : ∀ x ∈ xs ++ [cur],
                  readFatEntry g (writeFatEntry g fat cur f).2 x ≠ 0 := by
                intro x hx
                rcases List.mem_append.mp hx with hx | hx
                · rw [hkeep x hx]; exact hne x hx
                · rw [List.mem_singleton.mp hx, hlink]; omega
              have hfx : f ∉ xs ++ [cur] := by
                rw [List.mem_append, List.mem_singleton, not_or]
                exact ⟨fun hx => hne f hx hf0, hcf⟩
              have hfree : selectFreeCluster g (writeFatEntry g fat cur f).2 = some f := by
                refine selectFreeCluster_again hf ?_ ?_
                · rw [hsel]; have := hin.1; omega
                · rw [hlink]; omega
              obtain ⟨ys, e, hy, he, hl⟩ := ih true hw' hne' hfx ⟨hf₁, by omega⟩ hfree
                (by omega) (by omega) hok
              refine ⟨f :: ys, e, by simpa using hy, he, ?_⟩
              rw [List.length_cons, hl]
              simp only [if_true, Bool.false_eq_true, if_false]
              omega

/-! ### Changing the length -/

/-- For a chain that is not empty, the loop starts at its first cluster. -/
theorem changeFileChainLength_of_ne_nil (h : IsChain g fat start cs) (hne : cs ≠ [])
    (hlen : cs.length ≠ new) :
    changeFileChainLength g fat start cs.length new =
      ((chainLoop g cs.length new (max cs.length new) 1 start fat).1, start,
        (chainLoop g cs.length new (max cs.length new) 1 start fat).2) := by
  have hd := h.data _ (h.start_mem hne)
  have h0 : start ≠ 0 := fun e => hne (h.start_eq_zero_iff.mp e)
  have hmax : (if cs.length > new then cs.length else new) = max cs.length new := by
    split <;> omega
  rw [changeFileChainLength]
  dsimp only
  rw [hmax, if_neg (by simp [h0, hd.2]), if_pos hlen, if_neg h0]

/-- For an empty chain, it starts at the first free cluster. -/
theorem changeFileChainLength_of_nil (hnew : new ≠ 0) :
    changeFileChainLength g fat 0 0 new =
      match selectFreeCluster g fat with
      | none => (.outOfResource, 0, fat)
      | some f => ((chainLoop g 0 new new 1 f fat).1, f, (chainLoop g 0 new new 1 f fat).2) := by
  rw [changeFileChainLength]
  dsimp only
  rw [if_neg (by simp), if_pos (Ne.symm hnew), if_pos rfl, if_neg (by omega)]

/-- **Cutting a chain** to at least one cluster keeps its first clusters and frees the others. -/
theorem changeFileChainLength_shrink (h : IsChain g fat start cs) (h0 : 0 < new)
    (hlt : new < cs.length) :
    ∃ fat', changeFileChainLength g fat start cs.length new = (.noError, start, fat') ∧
      IsChain g fat' start (cs.take new) ∧ (∀ c ∈ cs.drop new, readFatEntry g fat' c = 0) ∧
      ∀ c, c ∉ cs → readFatEntry g fat' c = readFatEntry g fat c := by
  have hne : cs ≠ [] := List.ne_nil_of_length_pos (by omega)
  obtain ⟨ds, x, es, hcs, hds⟩ : ∃ ds x es, cs = ds ++ x :: es ∧ ds.length = new - 1 := by
    obtain ⟨x, es, hs⟩ := List.exists_cons_of_ne_nil (l := cs.drop (new - 1))
      (List.ne_nil_of_length_pos (by rw [List.length_drop]; omega))
    exact ⟨cs.take (new - 1), x, es, by rw [← hs, List.take_append_drop], by simp; omega⟩
  have htake : cs.take new = ds ++ [x] := by
    rw [hcs, List.take_append, List.take_of_length_le (by omega),
      show new - ds.length = 1 by omega]
    rfl
  have hdrop : cs.drop new = es := by
    rw [hcs, List.drop_append, List.drop_eq_nil_of_le (by omega),
      show new - ds.length = 1 by omega]
    rfl
  obtain ⟨e, hw, -⟩ := h.walk
  rw [hcs] at hw
  obtain ⟨m, hw₁, rfl, hw₂⟩ := walk_append.mp hw
  have hnd := h.nodup
  rw [hcs, List.nodup_append] at hnd
  obtain ⟨hnd₁, hnd₂, hdis⟩ := hnd
  obtain ⟨hxes, hndes⟩ := List.nodup_cons.mp hnd₂
  have hxin : g.InTable x := (h.data x (by simp [hcs])).1
  -- the marker is written on `x`, then the clusters of `es` are cleared
  have hw₂' : Walk (readFatEntry g (writeFatEntry g fat x 0xFFFFFFFF).2)
      (readFatEntry g fat x) es e :=
    hw₂.congr fun y hy => readFatEntry_write_ne (by rintro rfl; exact hxes hy)
  obtain ⟨fat', hl, hz, hf⟩ := chainLoop_clear cs.length new (new + 1) hw₂' hndes
    (fun y hy => (h.data y (by simp [hcs, hy])).1) (Nat.lt_succ_self new)
  have hxe : readFatEntry g fat' x = 0xFFFFFFFF % 2 ^ g.type.entryBits := by
    rw [hf x hxes, readFatEntry_write hxin, if_pos rfl]
  have hframe : ∀ c, c ∉ es → c ≠ x → readFatEntry g fat' c = readFatEntry g fat c :=
    fun c hc hcx => by rw [hf c hc, readFatEntry_write_ne hcx]
  refine ⟨fat', ?_, ?_, by rw [hdrop]; exact hz, ?_⟩
  · rw [changeFileChainLength_of_ne_nil h hne (by omega)]
    have hlen : cs.length = ds.length + (es.length + 1) := by rw [hcs]; simp
    have hloop : chainLoop g cs.length new (max cs.length new) 1 start fat = (.noError, fat') := by
      rw [show max cs.length new = es.length + 1 + ds.length by omega,
        chainLoop_walk hw₁ (by omega) (by omega), show 1 + ds.length = new by omega, chainLoop,
        if_pos rfl, hl]
    rw [hloop]
  · rw [htake]
    refine ⟨(List.take_sublist new cs).nodup h.nodup |> (htake ▸ ·), fun c hc => ?_,
      0xFFFFFFFF % 2 ^ g.type.entryBits, ?_, ?_⟩
    · exact h.data c (by rw [hcs]; simp at hc ⊢; tauto)
    · refine walk_append.mpr ⟨x, hw₁.congr fun y hy => ?_, rfl, hxe⟩
      exact hframe y (fun hy' => hdis y hy y (by simp [hy']) rfl)
        (fun hyx => hdis y hy x (by simp) hyx)
    · rw [if_neg (by simp)]; exact isEndOfChain_marker g.type
  · intro c hc
    rw [hcs] at hc
    simp only [List.mem_append, List.mem_cons, not_or] at hc
    exact hframe c hc.2.2 hc.2.1

/-- The first free cluster is linked to the last one of a chain, and ends it. -/
theorem changeFileChainLength_link {f : Nat} (h : IsChain g fat start cs) (hne : cs ≠ [])
    (hf : selectFreeCluster g fat = some f) (hlt : f < 2 ^ g.type.entryBits) :
    ∃ fat', changeFileChainLength g fat start cs.length (cs.length + 1) = (.noError, start, fat') ∧
      Walk (readFatEntry g fat') start cs f ∧
      readFatEntry g fat' f = 0xFFFFFFFF % 2 ^ g.type.entryBits ∧
      ∀ c, c ∉ cs → c ≠ f → readFatEntry g fat' c = readFatEntry g fat c := by
  obtain ⟨hf₁, hf₂, hf0, -⟩ := selectFreeCluster_eq_some hf
  have hfin : g.InTable f := ⟨hf₁, by omega⟩
  have hfcs : f ∉ cs := fun hm => h.entry_ne_zero hm hf0
  obtain ⟨ds, x, rfl⟩ := List.eq_nil_or_concat cs |>.resolve_left hne
  rw [List.concat_eq_append] at *
  obtain ⟨e, hw, -⟩ := h.walk
  obtain ⟨m, hw₁, rfl, -⟩ := walk_append.mp hw
  have hxin : g.InTable x := (h.data x (by simp)).1
  have hxf : x ≠ f := by rintro rfl; exact hfcs (by simp)
  have hxds : x ∉ ds := by
    have := (List.nodup_append.mp h.nodup).2.2
    exact fun hx => this x hx x (by simp) rfl
  have hfds : f ∉ ds := fun hm => hfcs (by simp [hm])
  refine ⟨(writeFatEntry g (writeFatEntry g fat x f).2 f 0xFFFFFFFF).2, ?_, ?_, ?_, ?_⟩
  · rw [changeFileChainLength_of_ne_nil h hne (by omega)]
    have hloop : chainLoop g (ds ++ [x]).length ((ds ++ [x]).length + 1)
        (max (ds ++ [x]).length ((ds ++ [x]).length + 1)) 1 start fat =
          (.noError, (writeFatEntry g (writeFatEntry g fat x f).2 f 0xFFFFFFFF).2) := by
      rw [List.length_append, List.length_singleton,
        show max (ds.length + 1) (ds.length + 1 + 1) = 2 + ds.length by omega,
        chainLoop_walk hw₁ (by omega) (by omega), chainLoop, if_neg (by omega),
        if_neg (by omega), if_pos (by omega), hf]
      dsimp only
      rw [chainLoop, if_pos (by omega)]
      rfl
    rw [hloop]
  · refine walk_append.mpr ⟨x, hw₁.congr fun y hy => ?_, rfl, ?_⟩
    · rw [readFatEntry_write_ne (by rintro rfl; exact hfds hy),
        readFatEntry_write_ne (by rintro rfl; exact hxds hy)]
    · rw [walk_nil, readFatEntry_write_ne hxf, readFatEntry_write hxin, if_pos rfl,
        Nat.mod_eq_of_lt hlt]
  · rw [readFatEntry_write hfin, if_pos rfl]
  · intro c hc hcf
    rw [readFatEntry_write_ne hcf, readFatEntry_write_ne (by rintro rfl; exact hc (by simp))]

/-- A cluster that ends a chain makes it longer, if it is not reserved. -/
theorem IsChain.append {f : Nat} (h : IsChain g fat start cs) (hfd : g.IsData f) (hfcs : f ∉ cs)
    (hw : Walk (readFatEntry g fat') start cs f)
    (he : readFatEntry g fat' f = 0xFFFFFFFF % 2 ^ g.type.entryBits) :
    IsChain g fat' start (cs ++ [f]) := by
  refine ⟨?_, fun c hc => ?_, 0xFFFFFFFF % 2 ^ g.type.entryBits, walk_append.mpr ⟨f, hw, rfl, he⟩, ?_⟩
  · rw [List.nodup_append]
    exact ⟨h.nodup, by simp, fun a ha b hb => by
      rw [List.mem_singleton.mp hb]; rintro rfl; exact hfcs ha⟩
  · rcases List.mem_append.mp hc with hc | hc
    · exact h.data c hc
    · rw [List.mem_singleton.mp hc]; exact hfd
  · rw [if_neg (by simp)]; exact isEndOfChain_marker g.type

/-- **Adding one cluster to a chain** takes the first free cluster, if it is not reserved. -/
theorem changeFileChainLength_extend {f : Nat} (h : IsChain g fat start cs)
    (hf : selectFreeCluster g fat = some f) (hn : isNormalClusterNumber g.type f = true) :
    ∃ start' fat', changeFileChainLength g fat start cs.length (cs.length + 1) =
        (.noError, start', fat') ∧
      (cs ≠ [] → start' = start) ∧ IsChain g fat' start' (cs ++ [f]) ∧ f ∉ cs ∧
      ∀ c, c ∉ cs → c ≠ f → readFatEntry g fat' c = readFatEntry g fat c := by
  obtain ⟨hf₁, hf₂, hf0, -⟩ := selectFreeCluster_eq_some hf
  have hfin : g.InTable f := ⟨hf₁, by omega⟩
  have hfd : g.IsData f := ⟨hfin, hn⟩
  have hfcs : f ∉ cs := fun hm => h.entry_ne_zero hm hf0
  obtain rfl | hne := eq_or_ne cs []
  · -- the first cluster of an empty file
    obtain rfl := h.start_eq_zero_iff.mpr rfl
    refine ⟨f, (writeFatEntry g fat f 0xFFFFFFFF).2, ?_, by simp, ⟨by simp, ?_,
      0xFFFFFFFF % 2 ^ g.type.entryBits, ⟨rfl, ?_⟩, ?_⟩, hfcs,
      fun c _ hc => readFatEntry_write_ne hc⟩
    · rw [List.length_nil, changeFileChainLength_of_nil (by simp), hf]
      rfl
    · intro c hc
      rw [List.nil_append, List.mem_singleton] at hc
      exact hc ▸ hfd
    · rw [walk_nil, readFatEntry_write hfin, if_pos rfl]
    · rw [if_neg (by simp)]; exact isEndOfChain_marker g.type
  · obtain ⟨fat', he, hw, hend, hframe⟩ := changeFileChainLength_link h hne hf hfd.lt.2
    exact ⟨start, fat', he, fun _ => rfl, h.append hfd hfcs hw hend, hfcs, hframe⟩

/-- **Growing a chain** takes every cluster but the last twice, so that about half the clusters
asked for are added to it. -/
theorem changeFileChainLength_grow {s' : Nat} (hg : g.Numbered) (h : IsChain g fat start cs)
    (hnew : cs.length < new)
    (hok : changeFileChainLength g fat start cs.length new = (.noError, s', fat')) :
    ∃ f ys e, selectFreeCluster g fat = some f ∧
      Walk (readFatEntry g fat') s' (cs ++ f :: ys) e ∧ g.type.IsEndOfChain e ∧
      ys.length = (new - cs.length - 1) / 2 := by
  obtain ⟨k, rfl⟩ := Nat.exists_eq_add_of_lt hnew
  obtain rfl | hne := eq_or_ne cs []
  · obtain rfl := h.start_eq_zero_iff.mpr rfl
    rw [List.length_nil, changeFileChainLength_of_nil (by omega)] at hok
    cases hf : selectFreeCluster g fat with
    | none => simp [hf] at hok
    | some f =>
        rw [hf] at hok
        obtain ⟨hres, hs, hfat⟩ : _ ∧ f = s' ∧ _ := by simpa only [Prod.mk.injEq] using hok
        subst hs
        obtain ⟨hf₁, hf₂, -, -⟩ := selectFreeCluster_eq_some hf
        rw [Nat.zero_add] at hres hfat
        obtain ⟨ys, e, hy, he, hl⟩ := chainLoop_grow hg k true (walk_nil.mpr rfl) (by simp) (by simp)
          ⟨hf₁, by omega⟩ hf (Nat.add_comm 1 k) (Nat.zero_le 1) (Prod.ext hres hfat)
        exact ⟨f, ys, e, rfl, hy, he, by rw [hl]; simp⟩
  · obtain ⟨ds, x, rfl⟩ := List.eq_nil_or_concat cs |>.resolve_left hne
    rw [List.concat_eq_append] at *
    obtain ⟨e, hw, -⟩ := h.walk
    obtain ⟨m, hw₁, rfl, -⟩ := walk_append.mp hw
    have hx0 : readFatEntry g fat x ≠ 0 := h.entry_ne_zero (by simp)
    have hxds : x ∉ ds := by
      have := (List.nodup_append.mp h.nodup).2.2
      exact fun hx => this x hx x (by simp) rfl
    have hlen : (ds ++ [x]).length = ds.length + 1 := by simp
    rw [changeFileChainLength_of_ne_nil h hne (by omega), hlen,
      show max (ds.length + 1) (ds.length + 1 + k + 1) = k + 2 + ds.length by omega,
      chainLoop_walk hw₁ (by omega) (by omega), chainLoop,
      if_neg (by omega), if_neg (by omega), if_pos (by omega)] at hok
    cases hf : selectFreeCluster g fat with
    | none => simp [hf] at hok
    | some f =>
        rw [hf] at hok
        obtain ⟨hres, hs, hfat⟩ : _ ∧ start = s' ∧ _ := by simpa only [Prod.mk.injEq] using hok
        subst hs
        obtain ⟨hf₁, hf₂, hf0, -⟩ := selectFreeCluster_eq_some hf
        have hlink : readFatEntry g (writeFatEntry g fat x f).2 x = f := by
          unfold FatParams.Numbered at hg
          rw [readFatEntry_write (h.data x (by simp)).1, if_pos rfl, Nat.mod_eq_of_lt (by omega)]
        have hkeep : ∀ y ∈ ds, readFatEntry g (writeFatEntry g fat x f).2 y =
            readFatEntry g fat y :=
          fun y hy => readFatEntry_write_ne (by rintro rfl; exact hxds hy)
        have hne' : ∀ y ∈ ds ++ [x], readFatEntry g (writeFatEntry g fat x f).2 y ≠ 0 := by
          intro y hy
          rcases List.mem_append.mp hy with hy | hy
          · rw [hkeep y hy]; exact h.entry_ne_zero (by simp [hy])
          · rw [List.mem_singleton.mp hy, hlink]; omega
        have hw' : Walk (readFatEntry g (writeFatEntry g fat x f).2) start (ds ++ [x]) f :=
          walk_append.mpr ⟨x, hw₁.congr hkeep, rfl, hlink⟩
        obtain ⟨ys, e, hy, he, hl⟩ := chainLoop_grow hg k true hw' hne'
          (fun hm => h.entry_ne_zero hm hf0) ⟨hf₁, by omega⟩
          (selectFreeCluster_again hf hx0 (by rw [hlink]; omega)) (by omega) (by omega)
          (Prod.ext hres hfat)
        refine ⟨f, ys, e, rfl, hy, he, ?_⟩
        rw [hl, hlen, if_pos rfl, show ds.length + 1 + k + 1 - (ds.length + 1) - 1 = k by omega]

/-- A chain is the beginning of every walk from its start to an end marker. -/
theorem IsChain.eq_take {ys : List Nat} {e : Nat} (h : IsChain g fat start cs)
    (hw : Walk (readFatEntry g fat) start ys e) (he : g.type.IsEndOfChain e) :
    cs = ys.take cs.length := by
  obtain ⟨e', hw', -⟩ := h.walk
  have hle : cs.length ≤ ys.length := by
    by_contra hlt
    have hmem := List.getElem_mem (show ys.length < cs.length by omega)
    rw [hw'.getElem_eq, ← hw.end_eq] at hmem
    have := he.not_normal
    rw [(h.data e hmem).2] at this
    cases this
  rw [← List.take_append_drop cs.length ys] at hw
  obtain ⟨m, hw₁, -⟩ := walk_append.mp hw
  exact hw'.eq_of_length hw₁ (by rw [List.length_take]; omega)

end

/-! ### When the length is changed correctly -/

/-- What changing the length of the chain `cs` to `new` should leave: no error, and a chain of the
new length that keeps the clusters of the old one in order, adds free clusters only, frees the
clusters cut off and touches no other entry; with no cluster left, the first cluster is no longer
the number of one. -/
def ChainChanged (g : FatParams) (fat : Bytes) (cs : List Nat) (new : Nat)
    (r : ErrCode × Nat × Bytes) : Prop :=
  r.1 = .noError ∧ (new = 0 → isNormalClusterNumber g.type r.2.1 = false) ∧
    ∃ cs', cs'.length = new ∧ (new ≠ 0 → IsChain g r.2.2 r.2.1 cs') ∧
      cs'.take (min cs.length new) = cs.take (min cs.length new) ∧
      (∀ c ∈ cs', c ∉ cs → readFatEntry g fat c = 0) ∧
      (∀ c ∈ cs, c ∉ cs' → readFatEntry g r.2.2 c = 0) ∧
      ∀ c, c ∉ cs → c ∉ cs' → readFatEntry g r.2.2 c = readFatEntry g fat c

/-- The chain keeps a cluster or had none, grows by one cluster at most, and where it grows a free
cluster that is not reserved lies below the last one of the table. -/
def GrowsByOne (g : FatParams) (fat : Bytes) (old new : Nat) : Prop :=
  (new = 0 → old = 0) ∧ new ≤ old + 1 ∧
    (new = old + 1 → ∃ c, 2 ≤ c ∧ c ≤ g.numberOfClusters ∧
      isNormalClusterNumber g.type c = true ∧ readFatEntry g fat c = 0)

section
variable {g : FatParams} {fat : Bytes} {start new : Nat} {cs : List Nat}

theorem ChainChanged.of_growsByOne (h : IsChain g fat start cs)
    (hc : GrowsByOne g fat cs.length new) :
    ChainChanged g fat cs new (changeFileChainLength g fat start cs.length new) := by
  obtain ⟨h0, hle, hfree⟩ := hc
  rcases Nat.lt_trichotomy new cs.length with hlt | rfl | hgt
  · obtain ⟨fat', he, hch, hz, hf⟩ :=
      changeFileChainLength_shrink h (Nat.pos_of_ne_zero fun e => by have := h0 e; omega) hlt
    rw [he]
    refine ⟨rfl, fun e => absurd (h0 e) (by omega), cs.take new, by simp; omega, fun _ => hch,
      by rw [Nat.min_eq_right hlt.le, List.take_take, Nat.min_self],
      fun c hc hcs => absurd (List.mem_of_mem_take hc) hcs,
      fun c hc hct => hz c ?_, fun c hcs _ => hf c hcs⟩
    rw [← List.take_append_drop new cs, List.mem_append] at hc
    exact hc.resolve_left hct
  · have he : changeFileChainLength g fat start cs.length cs.length = (.noError, start, fat) := by
      rw [changeFileChainLength]
      dsimp only
      rw [if_neg, if_neg (by simp)]
      intro hbad
      have hne : cs ≠ [] := by rintro rfl; simp at hbad
      have hd := h.data _ (h.start_mem hne)
      have := h.start_eq_zero_iff
      rcases hbad with ⟨-, hbad⟩ | ⟨hbad, -⟩
      · rw [hd.2] at hbad; cases hbad
      · exact hne (this.mp hbad)
    rw [he]
    refine ⟨rfl, fun e => ?_, cs, rfl, fun _ => h, rfl, fun c hc hcs => absurd hc hcs,
      fun c hc hcs => absurd hc hcs, fun c _ _ => rfl⟩
    rw [h.start_eq_zero_iff.mpr (List.length_eq_zero_iff.mp e)]
    cases g.type <;> rfl
  · obtain rfl : new = cs.length + 1 := by omega
    obtain ⟨c, hc₁, hc₂, hc₃, hc0⟩ := hfree rfl
    obtain ⟨f, hf, hfc⟩ := selectFreeCluster_isSome hc₁ hc₂ hc0
    have hfn : isNormalClusterNumber g.type f = true := by
      rw [isNormalClusterNumber_iff] at hc₃ ⊢
      exact ⟨(selectFreeCluster_eq_some hf).1, by omega⟩
    obtain ⟨start', fat', he, -, hch, hfcs, hframe⟩ := changeFileChainLength_extend h hf hfn
    rw [he]
    refine ⟨rfl, by omega, cs ++ [f], by simp, fun _ => hch, ?_, fun c hc hcs => ?_,
      fun c hc hcs => absurd (List.mem_append_left _ hc) hcs, fun c hcs hct => ?_⟩
    · rw [Nat.min_eq_left (by omega)]; simp
    · rcases List.mem_append.mp hc with hc | hc
      · exact absurd hc hcs
      · rw [List.mem_singleton.mp hc]; exact (selectFreeCluster_eq_some hf).2.2.1
    · exact hframe c hcs fun e => hct (by simp [e])

/-- Growing fails where no free cluster is found, and changes nothing. -/
theorem changeFileChainLength_full (h : IsChain g fat start cs) (hlt : cs.length < new)
    (hf : selectFreeCluster g fat = none) :
    changeFileChainLength g fat start cs.length new = (.outOfResource, start, fat) := by
  obtain rfl | hne := eq_or_ne cs []
  · obtain rfl := h.start_eq_zero_iff.mpr rfl
    rw [List.length_nil, changeFileChainLength_of_nil (by simp at hlt; omega), hf]
  · obtain ⟨ds, x, rfl⟩ := List.eq_nil_or_concat cs |>.resolve_left hne
    rw [List.concat_eq_append] at *
    obtain ⟨e, hw, -⟩ := h.walk
    obtain ⟨m, hw₁, rfl, -⟩ := walk_append.mp hw
    rw [changeFileChainLength_of_ne_nil h hne (by omega)]
    have hl : (ds ++ [x]).length = ds.length + 1 := by simp
    rw [hl] at hlt ⊢
    rw [show max (ds.length + 1) new = new - ds.length - 1 + 1 + ds.length by omega,
      chainLoop_walk hw₁ (by omega) (by omega), chainLoop, if_neg (by omega), if_neg (by omega),
      if_pos (by omega), hf]

theorem not_chainChanged_of_overgrow (hg : g.Numbered) (h : IsChain g fat start cs)
    (hnew : cs.length + 2 ≤ new) :
    ¬ ChainChanged g fat cs new (changeFileChainLength g fat start cs.length new) := by
  rintro ⟨hok, -, cs', hlen, hch, -⟩
  obtain ⟨f, ys, e, -, hy, he, hl⟩ :=
    changeFileChainLength_grow hg h (by omega) (Prod.ext hok rfl)
  have := congrArg List.length ((hch (by omega)).eq_take hy he)
  rw [List.length_take, List.length_append, List.length_cons] at this
  omega

theorem GrowsByOne.of_chainChanged (hg : g.Numbered) (h : IsChain g fat start cs)
    (hc : ChainChanged g fat cs new (changeFileChainLength g fat start cs.length new)) :
    GrowsByOne g fat cs.length new := by
  refine ⟨fun h0 => ?_, ?_, fun hnew => ?_⟩
  · -- the first cluster is left as it was
    by_contra hold
    have hne : cs ≠ [] := fun e => hold (by simp [e])
    have hstart := hc.2.1 h0
    rw [changeFileChainLength_of_ne_nil h hne (by omega)] at hstart
    rw [(h.data _ (h.start_mem hne)).2] at hstart
    cases hstart
  · by_contra hlt
    exact not_chainChanged_of_overgrow hg h (by omega) hc
  · subst hnew
    obtain ⟨hok, -, cs', hlen, hch, htake, hadd, -, -⟩ := hc
    have hch := hch (by omega)
    rw [Nat.min_eq_left (by omega), List.take_length] at htake
    obtain ⟨x, hx⟩ := List.length_eq_one_iff.mp (show (cs'.drop cs.length).length = 1 by
      rw [List.length_drop]; omega)
    have hsplit : cs' = cs ++ [x] := by
      conv_lhs => rw [← List.take_append_drop cs.length cs', htake, hx]
    have hxd := hch.data x (by rw [hsplit]; simp)
    have hxcs : x ∉ cs := by
      have hnd := hch.nodup
      rw [hsplit, List.nodup_append] at hnd
      exact fun hm => hnd.2.2 x hm x (by simp) rfl
    have hx0 := hadd x (by rw [hsplit]; simp) hxcs
    by_cases hxn : x ≤ g.numberOfClusters
    · exact ⟨x, hxd.1.1, hxn, hxd.2, hx0⟩
    · -- the search found a cluster below the last one, which is not reserved
      cases hf : selectFreeCluster g fat with
      | none =>
          rw [changeFileChainLength_full h (by omega) hf] at hok
          cases hok
      | some f =>
          obtain ⟨h₁, h₂, h₃, -⟩ := selectFreeCluster_eq_some hf
          have hxl := (isNormalClusterNumber_iff.mp hxd.2).2
          exact ⟨f, h₁, h₂, isNormalClusterNumber_iff.mpr ⟨h₁, by omega⟩, h₃⟩

end

/-- A FAT12 volume of four clusters. -/
def fourClusters : FatParams :=
  { type := .fat12, bytesPerSec := 512, secsPerCluster := 1, rsvdSecCnt := 1, fatSize := 1
    rootDirStartSector := 2, rootDirSectorCount := 1, firstDataSector := 3, maxSectors := 7
    numberOfClusters := 4, fatLengthBytes := 512, rootCluster := 0 }

/-- An empty file has the empty chain. -/
theorem isChain_nil (g : FatParams) (fat : Bytes) : IsChain g fat 0 [] :=
  ⟨List.nodup_nil, by simp, 0, rfl, by rw [if_pos rfl]⟩

/-- The free clusters of a table. -/
def freeClusters (g : FatParams) (fat : Bytes) : List Nat :=
  (List.range' 2 g.numberOfClusters).filter fun c => readFatEntry g fat c == 0

end Azalea.Fat
