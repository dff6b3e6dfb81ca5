import Azalea.Fat.Chain

/-!
# Fat — what a failed change of length leaves

`change_file_chain_length` fails when its search finds no free cluster, and does not take back the links
it has made by then.  The rounds that add clusters take each free one twice (`Adds`), so how many can be
made is known from the table before the first.

* `chainLoop_adds`: when the rounds run out of clusters.
* `failed_change_clean_iff`: exactly when a call that fails leaves the table and the first cluster as they
  were.
* `isChain_of_failed_iff`: exactly when it leaves the chain.
-/

namespace Azalea.Fat
open Azalea.Memory Azalea.Walks

section
variable {g : FatParams} {fat : Bytes} {start old new cur curLen : Nat}

/-- The clusters `select_free_cluster` can find, in its order. -/
def selectable (g : FatParams) (fat : Bytes) : List Nat :=
  (List.range' 2 (g.numberOfClusters - 1)).filter fun c => readFatEntry g fat c == 0

theorem selectFreeCluster_eq_head? : selectFreeCluster g fat = (selectable g fat).head? :=
  List.head?_filter.symm

theorem selectable_nodup : (selectable g fat).Nodup := List.Nodup.filter _ List.nodup_range'

theorem mem_selectable {c : Nat} (h : c ∈ selectable g fat) : g.InTable c ∧ c ≤ g.numberOfClusters := by
  have := List.mem_range'_1.mp (List.mem_of_mem_filter h)
  exact ⟨⟨by omega, by omega⟩, by omega⟩

/-- An entry that is not zero takes its cluster, and no other, off the list. -/
theorem selectable_write {v : Nat} (hv : v % 2 ^ g.type.entryBits ≠ 0) :
    selectable g (writeFatEntry g fat cur v).2 = (selectable g fat).erase cur := by
  rw [selectable_nodup.erase_eq_filter, selectable, selectable, List.filter_filter]
  refine List.filter_congr fun c hc => ?_
  have hin : g.InTable c := by
    have := List.mem_range'_1.mp hc
    exact ⟨by omega, by omega⟩
  by_cases hcur : c = cur
  · subst hcur
    rw [readFatEntry_write hin, if_pos rfl]
    simp [hv]
  · rw [readFatEntry_write_ne hcur]
    simp [hcur]

/-- How many clusters can be added behind `cur`, if some are left. -/
def Adds (g : FatParams) (fat : Bytes) (cur : Nat) : Nat :=
  if cur ∉ selectable g fat then 2 * (selectable g fat).length
  else if (selectable g fat).head? = some cur then 2 * (selectable g fat).length - 1
  else 2 * (selectable g fat).length - 2

/-- A cluster's number as an entry. -/
theorem entry_ne_zero {f : Nat} (hg : g.Numbered) (hf : g.InTable f) :
    f % 2 ^ g.type.entryBits ≠ 0 := by
  unfold FatParams.Numbered at hg
  have := hf.1
  have := hf.2
  rw [Nat.mod_eq_of_lt (by omega)]
  omega

/-- A round that adds a cluster. -/
theorem chainLoop_add {rounds f : Nat} (h₁ : curLen < new) (h₂ : old ≤ curLen)
    (hf : selectFreeCluster g fat = some f) :
    chainLoop g old new (rounds + 1) curLen cur fat
      = chainLoop g old new rounds (curLen + 1) f (writeFatEntry g fat cur f).2 := by
  rw [chainLoop, if_neg (by omega), if_neg (by omega), if_pos ⟨h₁, h₂⟩, hf]

theorem chainLoop_add_none {rounds : Nat} (h₁ : curLen < new) (h₂ : old ≤ curLen)
    (hf : selectFreeCluster g fat = none) :
    chainLoop g old new (rounds + 1) curLen cur fat = (.outOfResource, fat) := by
  rw [chainLoop, if_neg (by omega), if_neg (by omega), if_pos ⟨h₁, h₂⟩, hf]

/-- One cluster more or less, after a round. -/
theorem adds_after {f : Nat} (hg : g.Numbered) (hf : selectFreeCluster g fat = some f) :
    Adds g (writeFatEntry g fat cur f).2 f + 1 = Adds g fat cur := by
  rw [selectFreeCluster_eq_head?] at hf
  have hmem : f ∈ selectable g fat := List.mem_of_mem_head? hf
  have hpos : 0 < (selectable g fat).length := List.length_pos_of_mem hmem
  unfold Adds
  rw [selectable_write (entry_ne_zero hg (mem_selectable hmem).1)]
  by_cases hcur : cur ∈ selectable g fat
  · have hlen := List.length_erase_of_mem hcur
    by_cases hhead : cur = f
    · subst hhead
      rw [if_pos selectable_nodup.not_mem_erase, if_neg (not_not.mpr hmem), if_pos hf, hlen]
      omega
    · have hf' : f ∈ (selectable g fat).erase cur :=
        (selectable_nodup.mem_erase_iff).mpr ⟨fun e => hhead e.symm, hmem⟩
      have hhead' : ((selectable g fat).erase cur).head? = some f := by
        obtain ⟨rest, hrest⟩ := List.head?_eq_some_iff.mp hf
        rw [hrest, List.erase_cons_tail (by simpa using fun e => hhead e.symm)]
        rfl
      have hpos' := List.length_pos_of_mem hf'
      rw [if_neg (not_not.mpr hf'), if_pos hhead', if_neg (not_not.mpr hcur),
        if_neg (by rw [hf]; simpa using fun e => hhead e.symm)]
      omega
  · rw [List.erase_of_not_mem hcur, if_neg (not_not.mpr hmem), if_pos hf, if_pos hcur]
    omega

/-- The rounds that add clusters succeed as long as the table has enough. -/
theorem chainLoop_adds (hg : g.Numbered) (k : Nat) : ∀ {curLen cur : Nat} {fat : Bytes},
    curLen + k = new → old ≤ curLen →
    ((chainLoop g old new (k + 1) curLen cur fat).1 = .noError ↔ k ≤ Adds g fat cur) := by
  induction k with
  | zero =>
      intro curLen cur fat hlen _
      rw [chainLoop, if_pos (by omega), chainLoop]
      simp
  | succ k ih =>
      intro curLen cur fat hlen hold
      cases hf : selectFreeCluster g fat with
      | none =>
          rw [chainLoop_add_none (by omega) hold hf]
          rw [selectFreeCluster_eq_head?, List.head?_eq_none_iff] at hf
          simp [Adds, hf]
      | some f =>
          rw [chainLoop_add (by omega) hold hf, ih (by omega) (by omega), ← adds_after hg hf]
          omega

/-- Where the loop stops with an error, no free cluster is left to be found. -/
theorem chainLoop_failed (rounds : Nat) : ∀ {curLen cur : Nat} {fat : Bytes},
    (chainLoop g old new rounds curLen cur fat).1 ≠ .noError →
    selectFreeCluster g (chainLoop g old new rounds curLen cur fat).2 = none := by
  induction rounds with
  | zero => intro curLen cur fat h; exact absurd rfl h
  | succ rounds ih =>
      intro curLen cur fat h
      unfold chainLoop at h ⊢
      split at h
      next hc => rw [if_pos hc]; exact ih h
      next hc =>
        rw [if_neg hc]
        split at h
        next hc => rw [if_pos hc]; exact ih h
        next hc =>
          rw [if_neg hc]
          split at h
          next hc =>
            rw [if_pos hc]
            cases hf : selectFreeCluster g fat with
            | none => exact hf
            | some f =>
                simp only [hf] at h ⊢
                exact ih h
          next hc => rw [if_neg hc]; exact ih h

/-- A chain that is cut needs no free cluster. -/
theorem chainLoop_cut (hlt : new < old) (rounds : Nat) : ∀ {curLen cur : Nat} {fat : Bytes},
    (chainLoop g old new rounds curLen cur fat).1 = .noError := by
  induction rounds with
  | zero => intro curLen cur fat; rfl
  | succ rounds ih =>
      intro curLen cur fat
      unfold chainLoop
      split
      · exact ih
      · split
        · exact ih
        · rw [if_neg (by omega)]
          exact ih

/-- The rounds below both lengths follow the table. -/
theorem chainLoop_follow {rounds : Nat} (j : Nat) : ∀ {curLen cur : Nat},
    curLen + j ≤ old → curLen + j < new →
    chainLoop g old new (rounds + j) curLen cur fat
      = chainLoop g old new rounds (curLen + j) ((readFatEntry g fat)^[j] cur) fat := by
  induction j with
  | zero => intro curLen cur _ _; rfl
  | succ j ih =>
      intro curLen cur h₁ h₂
      rw [← Nat.add_assoc, chainLoop, if_neg (by omega), if_neg (by omega), if_neg (by omega),
        ih (by omega) (by omega), Function.iterate_succ_apply, Nat.add_right_comm, Nat.add_assoc curLen]

/-- The cluster that the first one added is linked from: the one the search gives an empty file, or the
last one of as many as the chain is said to have. -/
def linkedFrom (g : FatParams) (fat : Bytes) (start old : Nat) : Nat :=
  if start = 0 then (selectFreeCluster g fat).getD 0 else (readFatEntry g fat)^[old - 1] start

/-- A call that fails leaves the first cluster and the table as they were. -/
def FailsClean (g : FatParams) (fat : Bytes) (start old new : Nat) : Prop :=
  (changeFileChainLength g fat start old new).1 ≠ .noError →
    (changeFileChainLength g fat start old new).2 = (start, fat)

/-- The call is refused, or no cluster is free, or the clusters to be added are there: two for every free
one, less those the link itself uses up. -/
def NoneOrEnough (g : FatParams) (fat : Bytes) (start old new : Nat) : Prop :=
  (old ≠ 0 ∧ isNormalClusterNumber g.type start = false) ∨ selectable g fat = []
    ∨ new - max old 1 ≤ Adds g fat (linkedFrom g fat start old)

theorem changeFileChainLength_new {f : Nat} (hne : 0 ≠ new) (hf : selectFreeCluster g fat = some f) :
    changeFileChainLength g fat 0 0 new
      = ((chainLoop g 0 new new 1 f fat).1, f, (chainLoop g 0 new new 1 f fat).2) := by
  simp [changeFileChainLength, hne, hf]

theorem changeFileChainLength_grown (hr : ¬ (old ≠ 0 ∧ isNormalClusterNumber g.type start = false))
    (h0 : start ≠ 0) (hlt : old < new) :
    changeFileChainLength g fat start old new = ((chainLoop g old new new 1 start fat).1, start,
      (chainLoop g old new new 1 start fat).2) := by
  rw [changeFileChainLength]
  dsimp only
  rw [if_neg (not_or.mpr ⟨hr, by tauto⟩), if_pos (by omega), if_neg h0, if_neg (by omega)]

/-- The whole loop, for a chain that is made longer. -/
theorem chainLoop_grown (hlt : old < new) (cur : Nat) :
    chainLoop g old new new 1 cur fat = chainLoop g old new (new - max old 1 + 1) (max old 1)
      ((readFatEntry g fat)^[old - 1] cur) fat := by
  rcases Nat.eq_zero_or_pos old with rfl | hpos
  · rw [show new - max 0 1 + 1 = new by omega]
    rfl
  · have hfollow : chainLoop g old new (new - max old 1 + 1 + (old - 1)) 1 cur fat = _ :=
      chainLoop_follow (old - 1) (by omega) (by omega)
    rw [show new - max old 1 + 1 + (old - 1) = new by omega] at hfollow
    rw [hfollow, show 1 + (old - 1) = max old 1 by omega]

/-- The table after a failure, if there was a cluster to begin with. -/
theorem chainLoop_changed {rounds : Nat} (hne : selectable g fat ≠ [])
    (h : (chainLoop g old new rounds curLen cur fat).1 ≠ .noError) :
    (chainLoop g old new rounds curLen cur fat).2 ≠ fat := by
  intro he
  have hnone := chainLoop_failed rounds h
  rw [he, selectFreeCluster_eq_head?, List.head?_eq_none_iff] at hnone
  exact hne hnone

/-- **Exactly when a failed call leaves everything as it was**, for every table in which cluster numbers
fit, and every first cluster and lengths. -/
theorem failed_change_clean_iff (hg : g.Numbered) (fat : Bytes) (start old new : Nat) :
    FailsClean g fat start old new ↔ NoneOrEnough g fat start old new := by
  unfold FailsClean NoneOrEnough
  by_cases hr : old ≠ 0 ∧ isNormalClusterNumber g.type start = false
  · refine iff_of_true (fun _ => ?_) (.inl hr)
    rw [changeFileChainLength]
    dsimp only
    rw [if_pos (.inl hr)]
  have hr' : ¬ ((old ≠ 0 ∧ isNormalClusterNumber g.type start = false) ∨ (start = 0 ∧ old ≠ 0)) := by
    rintro (h | ⟨rfl, h⟩)
    · exact hr h
    · exact hr ⟨h, by cases g.type <;> rfl⟩
  rw [or_iff_right hr]
  rcases Nat.lt_trichotomy new old with hlt | rfl | hlt
  · refine iff_of_true (fun h => absurd ?_ h) (.inr (by omega))
    rw [changeFileChainLength]
    dsimp only
    rw [if_neg hr', if_pos (by omega), if_neg fun h0 => hr' (.inr ⟨h0, by omega⟩)]
    exact chainLoop_cut hlt _
  · refine iff_of_true (fun h => absurd ?_ h) (.inr (by omega))
    rw [changeFileChainLength]
    dsimp only
    rw [if_neg hr', if_neg (by simp)]
  have hadds : ∀ cur, ((chainLoop g old new new 1 cur fat).1 = .noError
      ↔ new - max old 1 ≤ Adds g fat ((readFatEntry g fat)^[old - 1] cur)) := by
    intro cur
    rw [chainLoop_grown hlt]
    exact chainLoop_adds hg _ (by omega) (by omega)
  by_cases h0 : start = 0
  · -- an empty file: its first cluster is taken before the loop
    subst h0
    obtain rfl : old = 0 := by
      by_contra hold
      exact hr' (.inr ⟨rfl, hold⟩)
    cases hf : selectFreeCluster g fat with
    | none =>
        refine iff_of_true (fun _ => ?_) (.inl ?_)
        · simp [changeFileChainLength, show ¬ 0 = new by omega, hf]
        · rwa [selectFreeCluster_eq_head?, List.head?_eq_none_iff] at hf
    | some f =>
        have hne : selectable g fat ≠ [] := by
          intro hnil
          rw [selectFreeCluster_eq_head?, hnil] at hf
          cases hf
        have hlink : linkedFrom g fat 0 0 = f := by rw [linkedFrom, if_pos rfl, hf]; rfl
        rw [changeFileChainLength_new (by omega) hf, or_iff_right hne, hlink]
        dsimp only
        rw [← Function.iterate_zero_apply (readFatEntry g fat) f, ← hadds f]
        refine ⟨fun h => ?_, fun h h' => absurd h h'⟩
        by_contra hbad
        have hfz := (Prod.mk.inj (h hbad)).1
        have := (selectFreeCluster_eq_some hf).1
        rw [Function.iterate_zero_apply] at hfz
        omega
  · rw [changeFileChainLength_grown hr h0 hlt, linkedFrom, if_neg h0, ← hadds start]
    dsimp only
    by_cases hnil : selectable g fat = []
    · -- the first round that adds a cluster makes no change
      refine iff_of_true (fun hbad => ?_) (.inl hnil)
      have hnone : selectFreeCluster g fat = none := by rw [selectFreeCluster_eq_head?, hnil]; rfl
      rw [chainLoop_grown hlt] at hbad ⊢
      rcases Nat.eq_zero_or_pos (new - max old 1) with hz | hpos
      · rw [hz, chainLoop, if_pos (by omega)] at hbad
        exact absurd rfl hbad
      · rw [chainLoop_add_none (by omega) (by omega) hnone]
    · rw [or_iff_right hnil]
      refine ⟨fun h => ?_, fun h h' => absurd h h'⟩
      by_contra hbad
      exact chainLoop_changed hnil hbad (Prod.mk.inj (h hbad)).2

end

/-! ### A chain that could not be made longer -/

section
variable {g : FatParams} {fat : Bytes} {start old new x : Nat} {cs ds : List Nat}

/-- The rounds that add clusters change the entries of the current one and of free ones only. -/
theorem chainLoop_frame {y : Nat} (rounds : Nat) : ∀ {curLen cur : Nat} {fat : Bytes}, old ≤ curLen →
    curLen + rounds ≤ new + 1 → readFatEntry g fat y ≠ 0 → y ≠ cur →
    readFatEntry g (chainLoop g old new rounds curLen cur fat).2 y = readFatEntry g fat y := by
  induction rounds with
  | zero => intros; rfl
  | succ rounds ih =>
      intro curLen cur fat hold hnew h0 hcur
      have hwrite : ∀ v, readFatEntry g (writeFatEntry g fat cur v).2 y = readFatEntry g fat y :=
        fun v => readFatEntry_write_ne hcur
      rcases Nat.lt_or_ge curLen new with hlt | hge
      · cases hf : selectFreeCluster g fat with
        | none => rw [chainLoop_add_none hlt hold hf]
        | some f =>
            have hne : y ≠ f := by
              rintro rfl
              exact h0 (selectFreeCluster_eq_some hf).2.2.1
            rw [chainLoop_add hlt hold hf, ih (by omega) (by omega) (by rwa [hwrite]) hne, hwrite]
      · -- the last round writes the marker
        obtain rfl : rounds = 0 := by omega
        rw [chainLoop, if_pos (by omega), chainLoop, hwrite]

/-- A chain is made longer from its last cluster on. -/
theorem changeFileChainLength_last (h : IsChain g fat start (ds ++ [x])) (hlt : (ds ++ [x]).length < new) :
    changeFileChainLength g fat start (ds ++ [x]).length new =
      ((chainLoop g (ds ++ [x]).length new (new - (ds ++ [x]).length + 1) (ds ++ [x]).length x fat).1, start,
        (chainLoop g (ds ++ [x]).length new (new - (ds ++ [x]).length + 1) (ds ++ [x]).length x fat).2) := by
  obtain ⟨e, hw, -⟩ := h.walk
  obtain ⟨m, hw₁, rfl, -⟩ := walk_append.mp hw
  rw [changeFileChainLength_of_ne_nil h (by simp) (by omega)]
  have hl : (ds ++ [x]).length = 1 + ds.length := by simp; omega
  have hwalk : chainLoop g (ds ++ [x]).length new (new - (ds ++ [x]).length + 1 + ds.length) 1 start fat =
      chainLoop g (ds ++ [x]).length new (new - (ds ++ [x]).length + 1) (1 + ds.length) x fat :=
    chainLoop_walk hw₁ (by omega) (by omega)
  rw [show max (ds ++ [x]).length new = new - (ds ++ [x]).length + 1 + ds.length by omega, hwalk, hl]

/-- A chain is made longer exactly if there is a free cluster for every two. -/
theorem changeFileChainLength_noError_iff (hg : g.Numbered) (h : IsChain g fat start cs) (hne : cs ≠ [])
    (hlt : cs.length < new) : (changeFileChainLength g fat start cs.length new).1 = .noError ↔
      new - cs.length ≤ 2 * (selectable g fat).length := by
  obtain ⟨ds, x, rfl⟩ := List.eq_nil_or_concat cs |>.resolve_left hne
  rw [List.concat_eq_append] at *
  have hx : x ∉ selectable g fat := fun hm =>
    h.entry_ne_zero (show x ∈ ds ++ [x] by simp) (by simpa using List.of_mem_filter hm)
  rw [changeFileChainLength_last h hlt]
  dsimp only
  rw [chainLoop_adds hg _ (by omega) le_rfl, Adds, if_pos hx]

/-- **A chain that could not be made longer** is what it was if no cluster was free; or if the first one, to
which its last cluster leads now, has the number of an end marker. -/
theorem isChain_of_failed_iff (hg : g.Numbered) (h : IsChain g fat start cs) (hne : cs ≠ [])
    (hlt : cs.length < new) (hfail : (changeFileChainLength g fat start cs.length new).1 ≠ .noError) :
    IsChain g (changeFileChainLength g fat start cs.length new).2.2 start cs ↔
      ∀ f, selectFreeCluster g fat = some f → g.type.IsEndOfChain f := by
  cases hf : selectFreeCluster g fat with
  | none =>
      rw [changeFileChainLength_full h hlt hf]
      exact iff_of_true h fun f heq => by cases heq
  | some f =>
      obtain ⟨ds, x, rfl⟩ := List.eq_nil_or_concat cs |>.resolve_left hne
      rw [List.concat_eq_append] at *
      obtain ⟨hf₁, hf₂, hf0, -⟩ := selectFreeCluster_eq_some hf
      have hflt : f < 2 ^ g.type.entryBits := by unfold FatParams.Numbered at hg; omega
      have hfcs : f ∉ ds ++ [x] := fun hm => h.entry_ne_zero hm hf0
      rw [List.mem_append, List.mem_singleton, not_or] at hfcs
      have hxds : x ∉ ds := fun hx => (List.nodup_append.mp h.nodup).2.2 x hx x (by simp) rfl
      rw [changeFileChainLength_last h hlt]
      dsimp only
      -- the link to the first free cluster is made, and stays
      rw [show new - (ds ++ [x]).length + 1 = new - (ds ++ [x]).length - 1 + 1 + 1 by omega,
        chainLoop_add hlt le_rfl hf]
      generalize hfat : (chainLoop g (ds ++ [x]).length new (new - (ds ++ [x]).length - 1 + 1)
        ((ds ++ [x]).length + 1) f (writeFatEntry g fat x f).2).2 = fat'
      have hlink : readFatEntry g fat' x = f := by
        have hxf : readFatEntry g (writeFatEntry g fat x f).2 x = f := by
          rw [readFatEntry_write (h.data x (by simp)).1, if_pos rfl, Nat.mod_eq_of_lt hflt]
        rw [← hfat, chainLoop_frame _ (by omega) (by omega) (by rw [hxf]; omega) (Ne.symm hfcs.2), hxf]
      have hframe : ∀ y ∈ ds, readFatEntry g fat' y = readFatEntry g fat y := by
        intro y hy
        have hyx : readFatEntry g (writeFatEntry g fat x f).2 y = readFatEntry g fat y :=
          readFatEntry_write_ne (by rintro rfl; exact hxds hy)
        rw [← hfat, chainLoop_frame _ (by omega) (by omega) (by
          rw [hyx]; exact h.entry_ne_zero (List.mem_append_left _ hy)) (by rintro rfl; exact hfcs.1 hy), hyx]
      obtain ⟨e, hw, -⟩ := h.walk
      obtain ⟨m, hw₁, rfl, -⟩ := walk_append.mp hw
      have hwalk : Walk (readFatEntry g fat') start (ds ++ [x]) f :=
        walk_append.mpr ⟨x, hw₁.congr hframe, rfl, hlink⟩
      constructor
      · rintro ⟨-, -, e, hw', he⟩ f' heq
        rw [if_neg (by simp)] at he
        rw [← Option.some.inj heq, hwalk.end_eq, ← hw'.end_eq]
        exact he
      · intro hall
        refine ⟨h.nodup, h.data, f, hwalk, ?_⟩
        rw [if_neg (by simp)]
        exact hall f rfl

end

/-- The table of a volume of four clusters: a file in cluster 2, another in cluster 3, and cluster 4
free. -/
def oneLeft : Bytes := fun i => if i < 6 then 0xFF else 0x00

/-- Of the two clusters wanted one is free, taken twice, and there is no failure. -/
theorem failed_change_clean_two : FailsClean fourClusters oneLeft 2 1 3 :=
  (failed_change_clean_iff (by unfold FatParams.Numbered; decide) oneLeft 2 1 3).mpr
    (.inr (.inr (by decide +kernel)))

/-- Of the three clusters wanted one is free: the call fails with the file linked to it. -/
theorem failed_change_leaves_link :
    (changeFileChainLength fourClusters oneLeft 2 1 4).1 = .outOfResource
      ∧ readFatEntry fourClusters oneLeft 2 = 0xFFF
      ∧ readFatEntry fourClusters (changeFileChainLength fourClusters oneLeft 2 1 4).2.2 2 = 4
      ∧ ¬ FailsClean fourClusters oneLeft 2 1 4 := by
  have hfail : (changeFileChainLength fourClusters oneLeft 2 1 4).1 = .outOfResource := by decide +kernel
  have hold : readFatEntry fourClusters oneLeft 2 = 0xFFF := by decide +kernel
  have hnew : readFatEntry fourClusters (changeFileChainLength fourClusters oneLeft 2 1 4).2.2 2 = 4 := by
    decide +kernel
  refine ⟨hfail, hold, hnew, fun h => ?_⟩
  rw [h (by rw [hfail]; decide), hold] at hnew
  cases hnew

end Azalea.Fat
