import Azalea.Fat.Structures
import Azalea.Support.Bytes
import Mathlib.Data.Nat.Bitwise

/-!
# Fat — reading and writing table entries

`read_fat_entry` and `write_fat_entry` of `fat_fs.cpp`, on the copy of the FAT in memory.  A FAT12
entry is one and a half bytes long, and shares a byte with its neighbour.

* `readFatEntry_write`: a table is a map from the data clusters to values of the entry's width.
* `table_entries_independent`: the same for every type, number of clusters and table, with the
  bytes that are read and written.
-/

namespace Azalea.Fat
open Azalea.Memory

/-- `fat_filesystem::read_fat_entry`. -/
def readFatEntry (g : FatParams) (rawFat : Bytes) (clusterNum : Nat) : Nat :=
  if clusterNum > g.numberOfClusters + 1 ∨ clusterNum < 2 then 0
  else
    match g.type with
    | .fat12 =>
        let nextCluster := load rawFat (clusterNum + clusterNum / 2) 2
        if clusterNum % 2 = 1 then nextCluster >>> 4 else nextCluster &&& 0x0FFF
    | .fat16 => load rawFat (clusterNum * 2) 2
    | .fat32 => load rawFat (clusterNum * 4) 4 &&& 0x0FFFFFFF

/-- `fat_filesystem::write_fat_entry`: the code it returns, and the table. -/
def writeFatEntry (g : FatParams) (rawFat : Bytes) (clusterNum newEntry : Nat) : ErrCode × Bytes :=
  if clusterNum < 2 ∨ clusterNum > g.numberOfClusters + 1 then (.outOfRange, rawFat)
  else
    match g.type with
    | .fat12 =>
        let offset := clusterNum + clusterNum / 2
        let newEntry := newEntry &&& 0x0FFF
        let oldEntry := load rawFat offset 2
        let oldEntry :=
          if clusterNum % 2 = 1 then (oldEntry &&& 0x000F) ||| (newEntry <<< 4)
          else (oldEntry &&& 0xF000) ||| newEntry
        (.unknown, store rawFat offset 2 oldEntry)
    | .fat16 => (.unknown, store rawFat (clusterNum * 2) 2 newEntry)
    | .fat32 => (.unknown, store rawFat (clusterNum * 4) 4 (newEntry &&& 0x0FFFFFFF))

/-! ### Masks as arithmetic -/

theorem and_0FFF (x : Nat) : x &&& 0x0FFF = x % 4096 := Nat.and_two_pow_sub_one_eq_mod x 12

theorem and_000F (x : Nat) : x &&& 0x000F = x % 16 := Nat.and_two_pow_sub_one_eq_mod x 4

theorem and_0FFFFFFF (x : Nat) : x &&& 0x0FFFFFFF = x % 2 ^ 28 :=
  Nat.and_two_pow_sub_one_eq_mod x 28

theorem and_F000 {x : Nat} (h : x < 65536) : x &&& 0xF000 = 4096 * (x / 4096) := by
  refine Nat.eq_of_testBit_eq fun i => ?_
  have hm : (0xF000 : Nat) = 2 ^ 12 * (2 ^ 4 - 1) := rfl
  have h4 : (4096 : Nat) = 2 ^ 12 := rfl
  rw [Nat.testBit_and, hm, Nat.testBit_two_pow_mul, Nat.testBit_two_pow_sub_one, h4,
    Nat.testBit_two_pow_mul, Nat.testBit_div_two_pow]
  by_cases h12 : 12 ≤ i
  · rw [Nat.sub_add_cancel h12]
    by_cases h16 : i < 16
    · simp [h12, show i - 12 < 4 by omega]
    · have hx : x.testBit i = false :=
        Nat.testBit_lt_two_pow (h.trans_le (Nat.pow_le_pow_right (n := 2) (i := 16) (by decide)
          (not_lt.mp h16)))
      simp [hx]
  · simp [h12]

/-- The odd entry's word: the low nibble kept, the entry above it. -/
theorem oddWord (x v : Nat) : (x &&& 0x000F) ||| ((v &&& 0x0FFF) <<< 4) = x % 16 + 16 * (v % 4096) := by
  rw [and_000F, and_0FFF, Nat.shiftLeft_eq, Nat.or_comm, mul_comm _ (2 ^ 4)]
  have := Nat.two_pow_add_eq_or_of_lt (i := 4) (Nat.mod_lt x (by decide)) (v % 4096)
  rw [← this, add_comm]

/-- The even entry's word: the high nibble kept, the entry below it. -/
theorem evenWord {x : Nat} (h : x < 65536) (v : Nat) :
    (x &&& 0xF000) ||| (v &&& 0x0FFF) = 4096 * (x / 4096) + v % 4096 := by
  rw [and_F000 h, and_0FFF]
  exact (Nat.two_pow_add_eq_or_of_lt (i := 12) (Nat.mod_lt v (by decide)) (x / 4096)).symm

/-! ### One entry -/

section
variable {g : FatParams} {fat fat' : Bytes} {c d v : Nat}

/-- The clusters a table has entries for. -/
def FatParams.InTable (g : FatParams) (c : Nat) : Prop := 2 ≤ c ∧ c ≤ g.numberOfClusters + 1

instance (g : FatParams) (c : Nat) : Decidable (g.InTable c) := inferInstanceAs (Decidable (_ ∧ _))

theorem readFatEntry_out (h : ¬ g.InTable c) : readFatEntry g fat c = 0 :=
  if_pos (by unfold FatParams.InTable at h; omega)

theorem writeFatEntry_out (h : ¬ g.InTable c) : writeFatEntry g fat c v = (.outOfRange, fat) :=
  if_pos (by unfold FatParams.InTable at h; omega)

/-- A FAT12 entry, as arithmetic on the two bytes it is read from. -/
theorem readFatEntry_fat12 (ht : g.type = .fat12) (h : g.InTable c) :
    readFatEntry g fat c =
      if c % 2 = 1 then load fat (c + c / 2) 2 / 16 else load fat (c + c / 2) 2 % 4096 := by
  rw [readFatEntry, if_neg (by unfold FatParams.InTable at h; omega), ht]
  dsimp only
  rw [and_0FFF, Nat.shiftRight_eq_div_pow]

theorem readFatEntry_fat16 (ht : g.type = .fat16) (h : g.InTable c) :
    readFatEntry g fat c = load fat (c * 2) 2 := by
  rw [readFatEntry, if_neg (by unfold FatParams.InTable at h; omega), ht]

theorem readFatEntry_fat32 (ht : g.type = .fat32) (h : g.InTable c) :
    readFatEntry g fat c = load fat (c * 4) 4 % 2 ^ 28 := by
  rw [readFatEntry, if_neg (by unfold FatParams.InTable at h; omega), ht]
  exact and_0FFFFFFF _

theorem writeFatEntry_fat12 (ht : g.type = .fat12) (h : g.InTable c) :
    (writeFatEntry g fat c v).2 = store fat (c + c / 2) 2
      (if c % 2 = 1 then load fat (c + c / 2) 2 % 16 + 16 * (v % 4096)
        else 4096 * (load fat (c + c / 2) 2 / 4096) + v % 4096) := by
  rw [writeFatEntry, if_neg (by unfold FatParams.InTable at h; omega), ht]
  dsimp only
  rw [oddWord, evenWord (load_lt fat (c + c / 2) 2)]

theorem writeFatEntry_fat16 (ht : g.type = .fat16) (h : g.InTable c) :
    (writeFatEntry g fat c v).2 = store fat (c * 2) 2 v := by
  rw [writeFatEntry, if_neg (by unfold FatParams.InTable at h; omega), ht]

theorem writeFatEntry_fat32 (ht : g.type = .fat32) (h : g.InTable c) :
    (writeFatEntry g fat c v).2 = store fat (c * 4) 4 (v % 2 ^ 28) := by
  rw [writeFatEntry, if_neg (by unfold FatParams.InTable at h; omega), ht]
  dsimp only
  rw [and_0FFFFFFF]

/-- A load of two bytes. -/
theorem load_two (m : Bytes) (off : Nat) :
    load m off 2 = (m off).toNat + 256 * (m (off + 1)).toNat := by
  simp [load]

/-- Two FAT12 entries that share a byte keep out of each other's nibble: stated for the even
cluster `2 * k` and the odd one after it. -/
theorem fat12_even_odd (fat : Bytes) (k w : Nat) (hw : w < 65536)
    (hk : w / 4096 = load fat (3 * k) 2 / 4096) :
    load (store fat (3 * k) 2 w) (3 * k + 1) 2 / 16 = load fat (3 * k + 1) 2 / 16 := by
  have h₁ : store fat (3 * k) 2 w (3 * k + 1) = UInt8.ofNat (w / 256 ^ 1) :=
    store_of_mem (i := 1) (by decide) w
  have h₂ : store fat (3 * k) 2 w (3 * k + 1 + 1) = fat (3 * k + 1 + 1) :=
    store_of_not_mem (by omega) w
  rw [load_two] at hk
  have hb := (fat (3 * k)).toNat_lt
  rw [load_two, load_two, h₁, h₂, UInt8.toNat_ofNat']
  omega

theorem fat12_odd_even (fat : Bytes) (k w : Nat) (hk : w % 16 = load fat (3 * k + 1) 2 % 16) :
    load (store fat (3 * k + 1) 2 w) (3 * k) 2 % 4096 = load fat (3 * k) 2 % 4096 := by
  have h₁ : store fat (3 * k + 1) 2 w (3 * k) = fat (3 * k) := store_of_not_mem (by omega) w
  have h₂ : store fat (3 * k + 1) 2 w (3 * k + 1) = UInt8.ofNat (w / 256 ^ 0) :=
    store_of_mem (i := 0) (by decide) w
  rw [load_two] at hk
  rw [load_two, load_two, h₁, h₂, UInt8.toNat_ofNat']
  have hb := (fat (3 * k)).toNat_lt
  omega

/-- The entry written is read back, cut to its width. -/
theorem readFatEntry_write_same (h : g.InTable c) :
    readFatEntry g (writeFatEntry g fat c v).2 c = v % 2 ^ g.type.entryBits := by
  cases ht : g.type with
  | fat12 =>
      rw [readFatEntry_fat12 ht h, writeFatEntry_fat12 ht h, load_store]
      have hl := load_lt fat (c + c / 2) 2
      simp only [FatType.entryBits]
      split <;> omega
  | fat16 =>
      rw [readFatEntry_fat16 ht h, writeFatEntry_fat16 ht h, load_store]
      rfl
  | fat32 =>
      rw [readFatEntry_fat32 ht h, writeFatEntry_fat32 ht h, load_store]
      simp only [FatType.entryBits]
      omega

/-- Every other entry keeps its value. -/
theorem readFatEntry_write_other (hc : g.InTable c) (hd : g.InTable d) (hne : d ≠ c) :
    readFatEntry g (writeFatEntry g fat c v).2 d = readFatEntry g fat d := by
  cases ht : g.type with
  | fat12 =>
      rw [readFatEntry_fat12 ht hd, readFatEntry_fat12 ht hd, writeFatEntry_fat12 ht hc]
      have hl := load_lt fat (c + c / 2) 2
      by_cases hpair : c / 2 = d / 2
      · -- the two entries of one byte triple
        obtain ⟨k, rfl | rfl⟩ : ∃ k, c = 2 * k ∨ c = 2 * k + 1 := ⟨c / 2, by omega⟩
        all_goals
          have heven : ¬ 2 * k % 2 = 1 := by omega
          have hodd : (2 * k + 1) % 2 = 1 := by omega
          have he : 2 * k + 2 * k / 2 = 3 * k := by omega
          have ho : 2 * k + 1 + (2 * k + 1) / 2 = 3 * k + 1 := by omega
        · obtain rfl : d = 2 * k + 1 := by omega
          rw [he] at hl
          rw [if_pos hodd, if_pos hodd, if_neg heven, he, ho]
          exact fat12_even_odd fat k _ (by omega) (by omega)
        · obtain rfl : d = 2 * k := by omega
          rw [ho] at hl
          rw [if_neg heven, if_neg heven, if_pos hodd, he, ho]
          exact fat12_odd_even fat k _ (by omega)
      · rw [load_store_of_disjoint _ (by omega)]
  | fat16 =>
      rw [readFatEntry_fat16 ht hd, readFatEntry_fat16 ht hd, writeFatEntry_fat16 ht hc,
        load_store_of_disjoint _ (by omega)]
  | fat32 =>
      rw [readFatEntry_fat32 ht hd, readFatEntry_fat32 ht hd, writeFatEntry_fat32 ht hc,
        load_store_of_disjoint _ (by omega)]

/-- A table is a map from the data clusters to values of the entry's width. -/
theorem readFatEntry_write (hc : g.InTable c) :
    readFatEntry g (writeFatEntry g fat c v).2 d =
      if d = c then v % 2 ^ g.type.entryBits else readFatEntry g fat d := by
  split
  next h => subst h; exact readFatEntry_write_same hc
  next h =>
    by_cases hd : g.InTable d
    · exact readFatEntry_write_other hc hd h
    · rw [readFatEntry_out hd, readFatEntry_out hd]

/-! ### The bytes of a table -/

/-- The table has room for the entries of all the clusters, and the two before them. -/
def FatParams.HasTable (g : FatParams) : Prop :=
  g.type.tableBytes (g.numberOfClusters + 2) ≤ g.fatLengthBytes

/-- The bytes of an entry lie in the table. -/
theorem FatParams.HasTable.window (h : g.HasTable) (hc : g.InTable c) :
    match g.type with
    | .fat12 => c + c / 2 + 2 ≤ g.fatLengthBytes
    | .fat16 => c * 2 + 2 ≤ g.fatLengthBytes
    | .fat32 => c * 4 + 4 ≤ g.fatLengthBytes := by
  unfold FatParams.HasTable at h
  unfold FatParams.InTable at hc
  cases ht : g.type <;> simp only [ht, FatType.tableBytes] at h ⊢ <;> omega

/-- An entry is read from the bytes of the table only. -/
theorem readFatEntry_congr (h : g.HasTable) (he : ∀ i, i < g.fatLengthBytes → fat i = fat' i) :
    readFatEntry g fat d = readFatEntry g fat' d := by
  by_cases hd : g.InTable d
  · have hw := h.window hd
    cases ht : g.type with
    | fat12 =>
        rw [ht] at hw
        rw [readFatEntry_fat12 ht hd, readFatEntry_fat12 ht hd,
          load_congr fun i hi => he _ (by omega)]
    | fat16 =>
        rw [ht] at hw
        rw [readFatEntry_fat16 ht hd, readFatEntry_fat16 ht hd,
          load_congr fun i hi => he _ (by omega)]
    | fat32 =>
        rw [ht] at hw
        rw [readFatEntry_fat32 ht hd, readFatEntry_fat32 ht hd,
          load_congr fun i hi => he _ (by omega)]
  · rw [readFatEntry_out hd, readFatEntry_out hd]

/-- A write changes bytes of the table only. -/
theorem writeFatEntry_frame (h : g.HasTable) {i : Nat} (hi : g.fatLengthBytes ≤ i) :
    (writeFatEntry g fat c v).2 i = fat i := by
  by_cases hc : g.InTable c
  · have hw := h.window hc
    cases ht : g.type with
    | fat12 =>
        rw [ht] at hw
        rw [writeFatEntry_fat12 ht hc, store_of_not_mem (by omega)]
    | fat16 =>
        rw [ht] at hw
        rw [writeFatEntry_fat16 ht hc, store_of_not_mem (by omega)]
    | fat32 =>
        rw [ht] at hw
        rw [writeFatEntry_fat32 ht hc, store_of_not_mem (by omega)]
  · rw [writeFatEntry_out hc]

/-- What is written depends on the bytes of the table only. -/
theorem writeFatEntry_congr (h : g.HasTable) (he : ∀ i, i < g.fatLengthBytes → fat i = fat' i)
    {i : Nat} (hi : i < g.fatLengthBytes) :
    (writeFatEntry g fat c v).2 i = (writeFatEntry g fat' c v).2 i := by
  by_cases hc : g.InTable c
  · have hw := h.window hc
    cases ht : g.type with
    | fat12 =>
        rw [ht] at hw
        have hl : load fat (c + c / 2) 2 = load fat' (c + c / 2) 2 :=
          load_congr fun i hi => he _ (by omega)
        rw [writeFatEntry_fat12 ht hc, writeFatEntry_fat12 ht hc, hl, store, store, he i hi]
    | fat16 => rw [writeFatEntry_fat16 ht hc, writeFatEntry_fat16 ht hc, store, store, he i hi]
    | fat32 => rw [writeFatEntry_fat32 ht hc, writeFatEntry_fat32 ht hc, store, store, he i hi]
  · rw [writeFatEntry_out hc, writeFatEntry_out hc]
    exact he i hi

end

/-- **Table entries are independent of each other**, for every type, number of clusters and table:
an entry is read back cut to its width, every other entry keeps its value, no byte outside the
table is written or read, and a write outside the clusters changes nothing. -/
theorem table_entries_independent (g : FatParams) (fat : Bytes) (v : UInt64) (h : g.HasTable) :
    (∀ c d, g.InTable c → g.InTable d →
      readFatEntry g (writeFatEntry g fat c v.toNat).2 d =
        if d = c then v.toNat % 2 ^ g.type.entryBits else readFatEntry g fat d) ∧
    (∀ c i, g.fatLengthBytes ≤ i → (writeFatEntry g fat c v.toNat).2 i = fat i) ∧
    (∀ fat', (∀ i, i < g.fatLengthBytes → fat i = fat' i) →
      (∀ d, readFatEntry g fat d = readFatEntry g fat' d) ∧
      ∀ c i, i < g.fatLengthBytes →
        (writeFatEntry g fat c v.toNat).2 i = (writeFatEntry g fat' c v.toNat).2 i) ∧
    ∀ c, ¬ g.InTable c → writeFatEntry g fat c v.toNat = (.outOfRange, fat) :=
  ⟨fun _ _ hc _ => readFatEntry_write hc, fun _ _ hi => writeFatEntry_frame h hi,
    fun _ he => ⟨fun _ => readFatEntry_congr h he, fun _ _ hi => writeFatEntry_congr h he hi⟩,
    fun _ hc => writeFatEntry_out hc⟩

/-- A FAT12 table of three clusters: entry 3 shares a byte with entry 2. -/
theorem table_entries_independent_fat12 :
    let g : FatParams := ⟨.fat12, 512, 1, 1, 1, 2, 1, 3, 6, 3, 512, 0⟩
    let fat := (writeFatEntry g (fun _ => 0) 2 0xABC).2
    g.HasTable ∧ readFatEntry g fat 2 = 0xABC ∧
      readFatEntry g (writeFatEntry g fat 3 0xF123).2 2 = 0xABC ∧
      readFatEntry g (writeFatEntry g fat 3 0xF123).2 3 = 0x123 := by
  intro g fat
  have hg : g.HasTable := by unfold FatParams.HasTable; decide
  have h := (table_entries_independent g fat 0xF123 hg).1
  refine ⟨hg, by decide, ?_, ?_⟩
  · exact (h 3 2 (by decide) (by decide)).trans (by decide)
  · exact (h 3 3 (by decide) (by decide)).trans (by decide)

end Azalea.Fat
