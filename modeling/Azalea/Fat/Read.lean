import Azalea.Fat.Sectors

/-!
# Fat — reading a file

`fat_file::read_bytes`: a part of the first sector, a batched run of whole sectors, and a part of
the last one.  A panic is `none`.  The number of bytes read in one batch, 65024 in the source, is a
parameter.

* `readWhole_eq`: the run of whole sectors is read correctly when the sector after the last of them
  follows it on the disk.  Otherwise the loop has just read its batch when it ends, and the read
  after it starts from the sector after the last one.  If the loop has just read a full batch, the
  read after it is one of no blocks.
* `reads_file_iff`: exactly when a read gives the bytes of the file.
-/

namespace Azalea.Fat
open Azalea.Memory Azalea.Walks

/-! ### The source -/

/-- `a - b` on 64 bits. -/
def sub64 (a b : Nat) : Nat := (a + (2 ^ 64 - b)) % 2 ^ 64

/-- The variables of `read_bytes` that its three sections share. -/
structure ReadState where
  ec : ErrCode
  buffer : Bytes
  bytesReadSoFar : Nat
  readSectorNum : Nat
  sectorBuffer : Bytes

/-- Section 1: up to the end of the request, or a sector boundary. -/
def readHead (fs : FatFs) (file : FatFile) (start length : Nat) (buffer : Bytes)
    (readSectorNum : Nat) : ReadState :=
  let bytesPerSec := fs.params.bytesPerSec
  let readOffset := start % bytesPerSec
  let bytesFromThisSector := if length > bytesPerSec then bytesPerSec else length
  let bytesFromThisSector :=
    if bytesFromThisSector + readOffset > bytesPerSec then bytesPerSec - readOffset
    else bytesFromThisSector
  let (ec, sectorBuffer) := fs.storage.readBlocks readSectorNum 1 (fun _ => 0) 0 bytesPerSec
  if ec ≠ .noError then ⟨ec, buffer, length, readSectorNum, sectorBuffer⟩
  else
    ⟨ec, blit buffer 0 sectorBuffer readOffset bytesFromThisSector, bytesFromThisSector,
      (advanceSectorNum fs file readSectorNum).2, sectorBuffer⟩

/-- The variables of the loop over whole sectors. -/
structure BatchState where
  ec : ErrCode
  buffer : Bytes
  bytesReadSoFar : Nat
  startSector : Nat
  curSector : Nat
  nextSector : Nat

/-- Read the sectors from `start_sector` to `cur_sector`.  `sector_count` has 32 bits, and so has
its product with `bytes_per_sec`. -/
def BatchState.flush (fs : FatFs) (st : BatchState) : BatchState :=
  let sectorCount := sub64 (st.curSector + 1) st.startSector % 2 ^ 32
  let bytes := sectorCount * fs.params.bytesPerSec % 2 ^ 32
  let (ec, buffer) :=
    fs.storage.readBlocks st.startSector sectorCount st.buffer st.bytesReadSoFar bytes
  { st with ec := ec, buffer := buffer, bytesReadSoFar := (st.bytesReadSoFar + bytes) % 2 ^ 64 }

/-- One round of the loop over whole sectors. -/
def BatchState.round (limit : Nat) (fs : FatFs) (file : FatFile) (st : BatchState) : BatchState :=
  let curSector := st.nextSector
  let (ec, nextSector) := advanceSectorNum fs file curSector
  let st := { st with ec := ec, curSector := curSector, nextSector := nextSector }
  if nextSector ≠ curSector + 1 ∨
      sub64 curSector st.startSector ≥ limit / fs.params.bytesPerSec then
    { st.flush fs with startSector := nextSector }
  else st

/-- The loop over whole sectors. -/
def BatchState.loop (limit : Nat) (fs : FatFs) (file : FatFile) : Nat → BatchState → BatchState
  | 0, st => st
  | n + 1, st => if st.ec ≠ .noError then st else loop limit fs file n (st.round limit fs file)

/-- Section 2: whole sectors. -/
def readWhole (limit : Nat) (fs : FatFs) (file : FatFile) (length : Nat) (st : ReadState) :
    ReadState :=
  let bytesPerSec := fs.params.bytesPerSec
  if sub64 length st.bytesReadSoFar ≥ bytesPerSec then
    let numWholeSectors := sub64 length st.bytesReadSoFar / bytesPerSec
    let batch := BatchState.loop limit fs file numWholeSectors
      ⟨st.ec, st.buffer, st.bytesReadSoFar, st.readSectorNum, st.readSectorNum, st.readSectorNum⟩
    let last := batch.flush fs
    ⟨last.ec, last.buffer, last.bytesReadSoFar, batch.nextSector, st.sectorBuffer⟩
  else st

/-- Section 3: the rest of the request, between two assertions. -/
def readTail (fs : FatFs) (length : Nat) (st : ReadState) : Option ReadState :=
  let bytesPerSec := fs.params.bytesPerSec
  if ¬ sub64 length st.bytesReadSoFar < bytesPerSec then none
  else
    let st :=
      if sub64 length st.bytesReadSoFar ≠ 0 then
        let (ec, sectorBuffer) :=
          fs.storage.readBlocks st.readSectorNum 1 st.sectorBuffer 0 bytesPerSec
        if ec = .noError then
          let bytesFromThisSector := sub64 length st.bytesReadSoFar
          { st with
            ec := ec
            sectorBuffer := sectorBuffer
            buffer := blit st.buffer st.bytesReadSoFar sectorBuffer 0 bytesFromThisSector
            bytesReadSoFar := st.bytesReadSoFar + bytesFromThisSector }
        else { st with ec := ec, sectorBuffer := sectorBuffer }
      else st
    if st.bytesReadSoFar = length then some st else none

/-- `fat_file::read_bytes`: the code it returns, the buffer, and `bytes_read`. -/
def readBytes (limit : Nat) (fs : FatFs) (file : FatFile) (start length : Nat)
    (buffer : Option Bytes) (bufferLength : Nat) : Option (ErrCode × Option Bytes × Nat) :=
  let fileSize := file.record.fileSize
  let tryRead := !(start > fileSize)
  let length := if (start + length) % 2 ^ 64 > fileSize then sub64 fileSize start else length
  let length := if length > bufferLength then bufferLength else length
  match buffer with
  | none => some (.invalidParam, none, 0)
  | some buffer =>
      if tryRead then
        match getDiskSectorFromOffset fs file (start / fs.params.bytesPerSec) with
        | none => some (.storageError, some buffer, 0)
        | some readSectorNum => do
            let st := readHead fs file start length buffer readSectorNum
            let st := readWhole limit fs file length st
            let st ← readTail fs length st
            some (st.ec, some st.buffer, st.bytesReadSoFar)
      else some (.noError, some buffer, 0)

/-! ### What has been read -/

theorem sub64_of_le {a b : Nat} (ha : a < 2 ^ 64) (h : b ≤ a) : sub64 a b = a - b := by
  unfold sub64
  omega

/-- The first `n` bytes of `buf` are those of the file from `start` on, and the others are those of
`buf₀`. -/
structure Filled (fs : FatFs) (cs : List Nat) (buf₀ buf : Bytes) (start n : Nat) : Prop where
  read : ∀ i, i < n → buf i = fileByte fs cs (start + i)
  rest : ∀ i, n ≤ i → buf i = buf₀ i

/-- Copying the next bytes of the file behind those already read. -/
theorem Filled.blit {fs : FatFs} {cs : List Nat} {buf₀ buf : Bytes} {start n : Nat}
    (h : Filled fs cs buf₀ buf start n) (src : Bytes) (s m : Nat)
    (hsrc : ∀ i, i < m → src (s + i) = fileByte fs cs (start + n + i)) :
    Filled fs cs buf₀ (blit buf n src s m) start (n + m) := by
  refine ⟨fun i hi => ?_, fun i hi => ?_⟩
  · by_cases hin : n ≤ i
    · obtain ⟨k, rfl⟩ := Nat.exists_eq_add_of_le hin
      rw [blit_of_mem (by omega), hsrc k (by omega), Nat.add_assoc]
    · rw [blit_of_not_mem (by omega)]
      exact h.read i (by omega)
  · rw [blit_of_not_mem (by omega)]
    exact h.rest i (by omega)

section
variable {fs : FatFs} {file : FatFile} {cs : List Nat} {limit : Nat}

/-- The sectors from the `a`th on stand next to each other on the disk, `n` of them. -/
def IsRun (g : FatParams) (cs : List Nat) (a n : Nat) : Prop :=
  ∀ i, i < n → sectorAt g cs (a + i) = sectorAt g cs a + i

/-- The bytes of a run lie next to each other too. -/
theorem fileByte_run (h : fs.Mounted) {a n i : Nat} (hr : IsRun fs.params cs a n)
    (hi : i < n * fs.params.bytesPerSec) :
    fileByte fs cs (a * fs.params.bytesPerSec + i) =
      fs.storage.bytes (sectorAt fs.params cs a * fs.params.bytesPerSec + i) := by
  have hpos := h.params.sector_pos
  have hlt : i / fs.params.bytesPerSec < n := (Nat.div_lt_iff_lt_mul hpos).mpr hi
  rw [fileByte_eq h.params, Nat.add_comm (a * _), Nat.add_mul_div_right _ _ hpos,
    Nat.add_mul_mod_self_right, Nat.add_comm (i / _), hr _ hlt, Nat.add_mul, Nat.add_assoc,
    Nat.mul_comm (i / _), Nat.div_add_mod]

/-- A run of sectors is read in one request. -/
theorem readBlocks_run (h : fs.Mounted) (hcs : ∀ c ∈ cs, fs.params.IsData c) {a n : Nat}
    (ha : a < cs.length * fs.params.secsPerCluster)
    (hn : a + n ≤ cs.length * fs.params.secsPerCluster) (hr : IsRun fs.params cs a n)
    (hsome : fs.storage.refusesNone = true → n ≠ 0) (buf : Bytes) (off : Nat) {len : Nat}
    (hlen : n * fs.params.bytesPerSec ≤ len) :
    fs.storage.readBlocks (sectorAt fs.params cs a) n buf off len =
      (.noError, blit buf off fs.storage.bytes
        (sectorAt fs.params cs a * fs.params.bytesPerSec) (n * fs.params.bytesPerSec)) := by
  have hend : sectorAt fs.params cs a + n ≤
      fs.params.firstDataSector + fs.params.numberOfClusters * fs.params.secsPerCluster := by
    have h0 := (sectorAt_bounds h.params hcs ha).2
    rcases Nat.eq_zero_or_pos n with rfl | hpos
    · omega
    · have h₁ := (sectorAt_bounds h.params hcs (j := a + (n - 1)) (by omega)).2
      rw [hr (n - 1) (by omega)] at h₁
      omega
  have h₁ := h.params.dataRegion
  have h₂ := h.numBlocks
  rw [BlockDevice.readBlocks, if_pos ⟨by omega, hsome, by rwa [h.blockSize]⟩, h.blockSize]

/-- One sector is a run. -/
theorem isRun_one (g : FatParams) (cs : List Nat) (a : Nat) : IsRun g cs a 1 := by
  intro i hi
  obtain rfl : i = 0 := by omega
  rfl

/-- A sector read into the sector buffer. -/
theorem readBlocks_sector (h : fs.Mounted) (hcs : ∀ c ∈ cs, fs.params.IsData c) {j : Nat}
    (hj : j < cs.length * fs.params.secsPerCluster) (buf : Bytes) :
    ∃ buf', fs.storage.readBlocks (sectorAt fs.params cs j) 1 buf 0 fs.params.bytesPerSec =
        (.noError, buf') ∧
      ∀ i, i < fs.params.bytesPerSec →
        buf' i = fileByte fs cs (j * fs.params.bytesPerSec + i) := by
  refine ⟨_, readBlocks_run h hcs hj (by omega) (isRun_one _ _ _) (fun _ => Nat.one_ne_zero) buf 0
    (by omega), ?_⟩
  intro i hi
  rw [fileByte_run h (isRun_one _ _ _) (by omega), Nat.one_mul]
  have : blit buf 0 fs.storage.bytes (sectorAt fs.params cs j * fs.params.bytesPerSec)
      fs.params.bytesPerSec (0 + i) = _ := blit_of_mem hi
  rwa [Nat.zero_add] at this

/-! ### The first sector -/

/-- **The first section** reads up to the end of the request or of the sector, and moves on to the
next sector if there is one. -/
theorem readHead_eq (h : fs.Mounted) (hs : file.isSmallFatRootDir = false) {first : Nat}
    (hch : IsChain fs.params fs.rawFat first cs) {start : Nat} (length : Nat) (buf : Bytes)
    (hj : start / fs.params.bytesPerSec < cs.length * fs.params.secsPerCluster) :
    ∃ buf' sectorBuffer,
      readHead fs file start length buf
          (sectorAt fs.params cs (start / fs.params.bytesPerSec)) =
        ⟨.noError, buf', min length (fs.params.bytesPerSec - start % fs.params.bytesPerSec),
          if start / fs.params.bytesPerSec + 1 < cs.length * fs.params.secsPerCluster then
            sectorAt fs.params cs (start / fs.params.bytesPerSec + 1)
          else sectorAt fs.params cs (start / fs.params.bytesPerSec), sectorBuffer⟩ ∧
      Filled fs cs buf buf' start
        (min length (fs.params.bytesPerSec - start % fs.params.bytesPerSec)) := by
  have hpos := h.params.sector_pos
  have hoff := Nat.mod_lt start hpos
  obtain ⟨sb, hsb, hbytes⟩ := readBlocks_sector h hch.data hj (fun _ => 0)
  have hn : (if (if length > fs.params.bytesPerSec then fs.params.bytesPerSec else length) +
        start % fs.params.bytesPerSec > fs.params.bytesPerSec
      then fs.params.bytesPerSec - start % fs.params.bytesPerSec
      else if length > fs.params.bytesPerSec then fs.params.bytesPerSec else length) =
      min length (fs.params.bytesPerSec - start % fs.params.bytesPerSec) := by
    split <;> split at * <;> omega
  refine ⟨blit buf 0 sb (start % fs.params.bytesPerSec)
    (min length (fs.params.bytesPerSec - start % fs.params.bytesPerSec)), sb, ?_, ?_⟩
  · rw [readHead]
    dsimp only
    rw [hsb]
    dsimp only
    rw [if_neg (by simp), hn, advanceSectorNum_eq h.params hs hch hj]
    congr 1
    split <;> rfl
  · have h0 : Filled fs cs buf buf start 0 := ⟨by omega, fun _ _ => rfl⟩
    have := h0.blit sb (start % fs.params.bytesPerSec)
      (min length (fs.params.bytesPerSec - start % fs.params.bytesPerSec)) fun i hi => by
        rw [hbytes _ (by omega), Nat.add_zero, ← Nat.add_assoc, Nat.mul_comm, Nat.div_add_mod]
    rwa [Nat.zero_add] at this

/-! ### Whole sectors -/

/-- A batch is read in one request, and the bytes read grow by its sectors. -/
theorem flush_run (h : fs.Mounted) (hcs : ∀ c ∈ cs, fs.params.IsData c) (st : BatchState)
    (a n : Nat) {buf₀ : Bytes} {start : Nat} (hstart : st.startSector = sectorAt fs.params cs a)
    (hcur : st.curSector + 1 = sectorAt fs.params cs a + n)
    (ha : a < cs.length * fs.params.secsPerCluster)
    (hn : a + n ≤ cs.length * fs.params.secsPerCluster) (hr : IsRun fs.params cs a n)
    (hsome : fs.storage.refusesNone = true → n ≠ 0) (hsmall : n * fs.params.bytesPerSec < 2 ^ 32)
    (hpos : start + st.bytesReadSoFar = a * fs.params.bytesPerSec)
    (hlen : st.bytesReadSoFar + n * fs.params.bytesPerSec < 2 ^ 64)
    (hf : Filled fs cs buf₀ st.buffer start st.bytesReadSoFar) :
    ∃ buf, st.flush fs =
        { st with
          ec := .noError
          buffer := buf
          bytesReadSoFar := st.bytesReadSoFar + n * fs.params.bytesPerSec } ∧
      Filled fs cs buf₀ buf start (st.bytesReadSoFar + n * fs.params.bytesPerSec) := by
  have hbpos := h.params.sector_pos
  have hcount : sub64 (st.curSector + 1) st.startSector % 2 ^ 32 = n := by
    have h₁ := (sectorAt_bounds h.params hcs ha).2
    have h₂ := h.params.dataRegion
    have h₃ := h.params.sectors_lt
    have hn32 : n < 2 ^ 32 := (Nat.le_mul_of_pos_right n hbpos).trans_lt hsmall
    rw [hcur, hstart, sub64_of_le (by omega) (by omega), Nat.add_sub_cancel_left,
      Nat.mod_eq_of_lt hn32]
  refine ⟨_, ?_, hf.blit fs.storage.bytes (sectorAt fs.params cs a * fs.params.bytesPerSec)
    (n * fs.params.bytesPerSec) fun i hi => ?_⟩
  · rw [BatchState.flush]
    dsimp only
    rw [hcount, Nat.mod_eq_of_lt hsmall, hstart,
      readBlocks_run h hcs ha hn hr hsome _ _ (le_refl _)]
    dsimp only
    rw [Nat.mod_eq_of_lt hlen]
  · rw [hpos, fileByte_run h hr hi]

/-- The loop over whole sectors, between two rounds: sectors `a` to `b` are next to each other,
and those before `b` and from `a` on are still to be read. -/
structure BatchInv (limit : Nat) (fs : FatFs) (cs : List Nat) (buf₀ : Bytes) (start a b : Nat)
    (st : BatchState) : Prop where
  ec : st.ec = .noError
  le : a ≤ b
  lt : b < cs.length * fs.params.secsPerCluster
  startSector : st.startSector = sectorAt fs.params cs a
  nextSector : st.nextSector = sectorAt fs.params cs b
  run : IsRun fs.params cs a (b - a + 1)
  short : b - a ≤ limit / fs.params.bytesPerSec
  pos : start + st.bytesReadSoFar = a * fs.params.bytesPerSec
  filled : Filled fs cs buf₀ st.buffer start st.bytesReadSoFar

/-- The bytes of a batch fit in 32 bits. -/
theorem BatchInv.small {buf₀ : Bytes} {start a b : Nat} {st : BatchState} (h : fs.Mounted)
    (hi : BatchInv limit fs cs buf₀ start a b st) (hlim : limit + 65536 ≤ 2 ^ 32) :
    (b - a + 1) * fs.params.bytesPerSec < 2 ^ 32 := by
  have h₁ := Nat.mul_le_mul_right fs.params.bytesPerSec hi.short
  have h₂ := Nat.div_mul_le_self limit fs.params.bytesPerSec
  have h₃ := h.params.sector_lt
  rw [Nat.add_mul, Nat.one_mul]
  omega

/-- The batch up to `b` is read when the round that looks beyond `b` flushes it. -/
theorem BatchInv.flush {buf₀ : Bytes} {start length a b : Nat} {st : BatchState} (h : fs.Mounted)
    (hcs : ∀ c ∈ cs, fs.params.IsData c) (hlim : limit + 65536 ≤ 2 ^ 32)
    (hi : BatchInv limit fs cs buf₀ start a b st) (hlen : length < 2 ^ 64)
    (hend : (b + 1) * fs.params.bytesPerSec ≤ start + length) (ec : ErrCode) (next : Nat) :
    ∃ buf so, BatchState.flush fs { st with ec := ec, curSector := st.nextSector, nextSector := next }
        = ⟨.noError, buf, so, st.startSector, st.nextSector, next⟩ ∧
      start + so = (b + 1) * fs.params.bytesPerSec ∧ Filled fs cs buf₀ buf start so := by
  have hle := hi.le
  have hmul : a * fs.params.bytesPerSec + (b - a + 1) * fs.params.bytesPerSec =
      (b + 1) * fs.params.bytesPerSec := by rw [← Nat.add_mul]; congr 1; omega
  have hpos := hi.pos
  obtain ⟨buf, he, hf⟩ := flush_run h hcs
    { st with ec := ec, curSector := st.nextSector, nextSector := next } a (b - a + 1)
    hi.startSector (by
      have := hi.run (b - a) (by omega)
      rw [show a + (b - a) = b by omega] at this
      dsimp only
      rw [hi.nextSector, this]; omega)
    (by have := hi.lt; omega) (by have := hi.lt; omega) hi.run (fun _ => by omega) (hi.small h hlim) hi.pos
    (by dsimp only; omega) hi.filled
  exact ⟨buf, _, he, by dsimp only; omega, hf⟩

/-- How many of the sectors before the `(j + i)`th, from the `j`th on, follow each other up to it. -/
def runBefore (g : FatParams) (cs : List Nat) (j : Nat) : Nat → Nat
  | 0 => 0
  | i + 1 => if sectorAt g cs (j + i + 1) = sectorAt g cs (j + i) + 1 then runBefore g cs j i + 1 else 0

/-- **One round**, where the file has a sector after the one looked at. -/
theorem BatchInv.round {buf₀ : Bytes} {first start length a b : Nat} {st : BatchState}
    (h : fs.Mounted) (hs : file.isSmallFatRootDir = false)
    (hch : IsChain fs.params fs.rawFat first cs) (hlim : limit + 65536 ≤ 2 ^ 32)
    (hi : BatchInv limit fs cs buf₀ start a b st) (hlen : length < 2 ^ 64)
    (hend : (b + 1) * fs.params.bytesPerSec ≤ start + length)
    (hb : b + 1 < cs.length * fs.params.secsPerCluster) :
    ∃ a', BatchInv limit fs cs buf₀ start a' (b + 1) (st.round limit fs file) ∧
      (st.round limit fs file).curSector = sectorAt fs.params cs b ∧
      b + 1 - a' = if sectorAt fs.params cs (b + 1) = sectorAt fs.params cs b + 1 ∧
        b - a < limit / fs.params.bytesPerSec then b - a + 1 else 0 := by
  have hle := hi.le
  have hrb : sectorAt fs.params cs b = sectorAt fs.params cs a + (b - a) := by
    have := hi.run (b - a) (by omega)
    rwa [show a + (b - a) = b by omega] at this
  have hadv : advanceSectorNum fs file st.nextSector =
      (.noError, sectorAt fs.params cs (b + 1)) := by
    rw [hi.nextSector, advanceSectorNum_eq h.params hs hch hi.lt, if_pos hb]
  have hbd := (sectorAt_bounds h.params hch.data hi.lt).2
  have hreg := h.params.dataRegion
  have h32 := h.params.sectors_lt
  rw [BatchState.round]
  dsimp only
  rw [hadv]
  dsimp only
  by_cases hc : sectorAt fs.params cs (b + 1) ≠ st.nextSector + 1 ∨
      sub64 st.nextSector st.startSector ≥ limit / fs.params.bytesPerSec
  · rw [if_pos hc]
    obtain ⟨buf, so, he, hpos, hf⟩ := hi.flush h hch.data hlim hlen hend .noError
      (sectorAt fs.params cs (b + 1))
    rw [he]
    refine ⟨b + 1, ⟨rfl, le_rfl, hb, rfl, rfl, ?_, ?_, hpos, hf⟩, hi.nextSector, ?_⟩
    · rw [Nat.sub_self]; exact isRun_one _ _ _
    · rw [Nat.sub_self]; exact Nat.zero_le _
    · rw [hi.nextSector, hi.startSector, sub64_of_le (by omega) (by omega)] at hc
      rw [Nat.sub_self, if_neg]
      rintro ⟨hnext, hshort⟩
      rcases hc with hne | hfull
      · exact hne hnext
      · omega
  · rw [if_neg hc]
    rw [not_or, ne_eq, not_not, hi.nextSector, hi.startSector,
      sub64_of_le (by omega) (by omega)] at hc
    refine ⟨a, ⟨rfl, by omega, hb, hi.startSector, rfl, ?_, by omega, hi.pos, hi.filled⟩,
      hi.nextSector, ?_⟩
    swap
    · rw [if_pos ⟨hc.1, by omega⟩]
      omega
    intro i hlt
    by_cases hib : i < b - a + 1
    · exact hi.run i hib
    · obtain rfl : i = b + 1 - a := by omega
      rw [show a + (b + 1 - a) = b + 1 by omega, hc.1, hrb]
      omega

/-- The loop ends with the round after those before it. -/
theorem loop_succ (n : Nat) : ∀ {st : BatchState}, (st.loop limit fs file n).ec = .noError →
    st.loop limit fs file (n + 1) = (st.loop limit fs file n).round limit fs file := by
  induction n with
  | zero =>
      intro st hec
      have hec' : st.ec = .noError := hec
      exact if_neg (not_not.mpr hec')
  | succ n ih =>
      intro st hec
      by_cases h0 : st.ec = .noError
      · have hr : ∀ m, st.loop limit fs file (m + 1) =
            (st.round limit fs file).loop limit fs file m := fun m => by
          rw [BatchState.loop, if_neg (by simp [h0])]
        rw [hr n] at hec
        rw [hr (n + 1), hr n, ih hec]
      · have hl : st.loop limit fs file (n + 1) = st := by rw [BatchState.loop, if_pos h0]
        rw [hl] at hec
        exact absurd hec h0

/-- The sectors of a batch, after a round. -/
theorem runBefore_succ (g : FatParams) (cs : List Nat) (j n k : Nat) :
    (if sectorAt g cs (j + n + 1) = sectorAt g cs (j + n) + 1 ∧ runBefore g cs j n % (k + 1) < k then
      runBefore g cs j n % (k + 1) + 1 else 0) = runBefore g cs j (n + 1) % (k + 1) := by
  have hlt : runBefore g cs j n % (k + 1) < k + 1 := Nat.mod_lt _ (Nat.succ_pos k)
  have hadd := Nat.mod_add_mod (runBefore g cs j n) (k + 1) 1
  rw [runBefore]
  by_cases hnext : sectorAt g cs (j + n + 1) = sectorAt g cs (j + n) + 1
  · rw [if_pos hnext, ← hadd]
    by_cases hfull : runBefore g cs j n % (k + 1) < k
    · rw [if_pos ⟨hnext, hfull⟩]
      exact (Nat.mod_eq_of_lt (by omega)).symm
    · have hk : runBefore g cs j n % (k + 1) = k := by omega
      rw [if_neg fun h => hfull h.2, hk, Nat.mod_self]
  · rw [if_neg hnext, if_neg fun h => hnext h.1, Nat.zero_mod]

/-- **The rounds before the last.** -/
theorem BatchInv.loop {buf₀ : Bytes} {first start length j : Nat} {st : BatchState}
    (h : fs.Mounted) (hs : file.isSmallFatRootDir = false)
    (hch : IsChain fs.params fs.rawFat first cs) (hlim : limit + 65536 ≤ 2 ^ 32)
    (hi : BatchInv limit fs cs buf₀ start j j st) (hlen : length < 2 ^ 64) (n : Nat)
    (hend : (j + n) * fs.params.bytesPerSec ≤ start + length)
    (hb : j + n < cs.length * fs.params.secsPerCluster) :
    ∃ a, BatchInv limit fs cs buf₀ start a (j + n) (st.loop limit fs file n) ∧
      j + n - a = runBefore fs.params cs j n % (limit / fs.params.bytesPerSec + 1) := by
  induction n with
  | zero => exact ⟨j, hi, by rw [runBefore, Nat.zero_mod, Nat.add_zero, Nat.sub_self]⟩
  | succ n ih =>
      have hmul : (j + n) * fs.params.bytesPerSec ≤ (j + (n + 1)) * fs.params.bytesPerSec :=
        Nat.mul_le_mul_right _ (by omega)
      obtain ⟨a, hi', ha⟩ := ih (by omega) (by omega)
      obtain ⟨a', hi'', -, ha'⟩ := hi'.round h hs hch hlim hlen hend hb
      rw [loop_succ n hi'.ec]
      refine ⟨a', hi'', ?_⟩
      rw [← runBefore_succ, ← ha]
      exact ha'

/-- Where section 2 begins: the bytes up to the `j`th sector have been read. -/
structure AtSector (fs : FatFs) (cs : List Nat) (buf₀ : Bytes) (start j : Nat) (st : ReadState) :
    Prop where
  ec : st.ec = .noError
  sector : st.readSectorNum = sectorAt fs.params cs j
  pos : start + st.bytesReadSoFar = j * fs.params.bytesPerSec
  filled : Filled fs cs buf₀ st.buffer start st.bytesReadSoFar

/-- The state the loop over whole sectors starts from. -/
def ReadState.batch (st : ReadState) : BatchState :=
  ⟨st.ec, st.buffer, st.bytesReadSoFar, st.readSectorNum, st.readSectorNum, st.readSectorNum⟩

theorem AtSector.batchInv {buf₀ : Bytes} {start j : Nat} {st : ReadState} (limit : Nat)
    (h : AtSector fs cs buf₀ start j st) (hj : j < cs.length * fs.params.secsPerCluster) :
    BatchInv limit fs cs buf₀ start j j st.batch :=
  ⟨h.ec, le_rfl, hj, h.sector, h.sector, by rw [Nat.sub_self]; exact isRun_one _ _ _,
    by rw [Nat.sub_self]; exact Nat.zero_le _, h.pos, h.filled⟩

section
variable {buf₀ : Bytes} {first start length j w : Nat} {st : ReadState} (h : fs.Mounted)
  (hs : file.isSmallFatRootDir = false) (hch : IsChain fs.params fs.rawFat first cs)
  (hlim : limit + 65536 ≤ 2 ^ 32) (hi : AtSector fs cs buf₀ start j st) (hlen : length < 2 ^ 64)
  (hle : (j + (w + 1)) * fs.params.bytesPerSec ≤ start + length)
  (hlt : start + length < (j + (w + 1) + 1) * fs.params.bytesPerSec)
include h hi hlen hle hlt

/-- Section 2 is the loop over the whole sectors of the rest, and one more read. -/
theorem readWhole_unfold :
    readWhole limit fs file length st =
      ⟨((st.batch.loop limit fs file (w + 1)).flush fs).ec,
        ((st.batch.loop limit fs file (w + 1)).flush fs).buffer,
        ((st.batch.loop limit fs file (w + 1)).flush fs).bytesReadSoFar,
        (st.batch.loop limit fs file (w + 1)).nextSector, st.sectorBuffer⟩ := by
  have hpos := h.params.sector_pos
  have hp := hi.pos
  rw [Nat.add_mul] at hle
  have hsub : sub64 length st.bytesReadSoFar = length - st.bytesReadSoFar :=
    sub64_of_le hlen (by omega)
  have hw : (length - st.bytesReadSoFar) / fs.params.bytesPerSec = w + 1 := by
    refine Nat.div_eq_of_lt_le (by omega) ?_
    rw [Nat.add_assoc, Nat.add_mul j] at hlt
    omega
  have hge : length - st.bytesReadSoFar ≥ fs.params.bytesPerSec := by
    have := Nat.le_mul_of_pos_left fs.params.bytesPerSec (show 0 < w + 1 by omega)
    omega
  rw [readWhole]
  dsimp only
  rw [hsub, hw, if_pos hge]
  rfl

include hs hch hlim

omit hlt in
/-- **The loop**, where the file goes on after the last whole sector. -/
theorem loop_whole (hb : j + (w + 1) < cs.length * fs.params.secsPerCluster) :
    ∃ a, BatchInv limit fs cs buf₀ start a (j + (w + 1)) (st.batch.loop limit fs file (w + 1)) ∧
      (st.batch.loop limit fs file (w + 1)).curSector = sectorAt fs.params cs (j + w) ∧
      j + (w + 1) - a = runBefore fs.params cs j (w + 1) % (limit / fs.params.bytesPerSec + 1) := by
  have hmul : (j + w) * fs.params.bytesPerSec ≤ (j + (w + 1)) * fs.params.bytesPerSec :=
    Nat.mul_le_mul_right _ (by omega)
  obtain ⟨a, ha, hrun⟩ := (hi.batchInv limit (by omega)).loop h hs hch hlim hlen w (by omega)
    (by omega)
  rw [loop_succ w ha.ec]
  obtain ⟨a', ha', hcur, hrun'⟩ := ha.round h hs hch hlim hlen hle hb
  refine ⟨a', ha', hcur, ?_⟩
  rw [← runBefore_succ, ← hrun]
  exact hrun'

/-- **Section 2 reads its sectors** when the sector after the last of them follows it on the disk.  The
code is that of a read of no blocks if the loop has just read a full batch. -/
theorem readWhole_eq (hb : j + (w + 1) < cs.length * fs.params.secsPerCluster)
    (hnext : sectorAt fs.params cs (j + (w + 1)) = sectorAt fs.params cs (j + w) + 1) :
    ∃ ec st', AtSector fs cs buf₀ start (j + (w + 1)) st' ∧
      readWhole limit fs file length st = { st' with ec := ec } ∧
      (ec = .noError ↔ fs.storage.refusesNone = true →
        ¬ limit / fs.params.bytesPerSec + 1 ∣ runBefore fs.params cs j (w + 1)) := by
  obtain ⟨a, ha, hcur, hrun⟩ := loop_whole h hs hch hlim hi hlen hle hb
  have hale := ha.le
  have hend : sectorAt fs.params cs (j + (w + 1)) =
      sectorAt fs.params cs a + (j + (w + 1) - a) := by
    have := ha.run (j + (w + 1) - a) (by omega)
    rwa [show a + (j + (w + 1) - a) = j + (w + 1) by omega] at this
  have hmul : a * fs.params.bytesPerSec + (j + (w + 1) - a) * fs.params.bytesPerSec =
      (j + (w + 1)) * fs.params.bytesPerSec := by rw [← Nat.add_mul]; congr 1; omega
  have hsm := ha.small h hlim
  have hsm' : (j + (w + 1) - a) * fs.params.bytesPerSec ≤
      (j + (w + 1) - a + 1) * fs.params.bytesPerSec := Nat.mul_le_mul_right _ (by omega)
  have hpos := ha.pos
  rw [Nat.dvd_iff_mod_eq_zero, ← hrun]
  rw [readWhole_unfold h hi hlen hle hlt]
  by_cases hnone : fs.storage.refusesNone = true → j + (w + 1) - a ≠ 0
  · obtain ⟨buf, he, hf⟩ := flush_run h hch.data _ a (j + (w + 1) - a) ha.startSector
      (by rw [hcur, ← hnext, hend]) (by omega) (by omega) (fun i hlt => ha.run i (by omega)) hnone
      (by omega) ha.pos (by omega) ha.filled
    rw [he]
    exact ⟨.noError, ⟨.noError, _, _, _, st.sectorBuffer⟩, ⟨rfl, ha.nextSector, by dsimp only; omega, hf⟩,
      rfl, iff_of_true rfl hnone⟩
  · -- nothing is left to be read, and the disk says so
    obtain ⟨href, hzero⟩ : fs.storage.refusesNone = true ∧ j + (w + 1) - a = 0 := by
      simpa using hnone
    have hbd := (sectorAt_bounds h.params hch.data hb).2
    have hreg := h.params.dataRegion
    have h32 := h.params.sectors_lt
    obtain rfl : a = j + (w + 1) := by omega
    have hcount : sub64 (sectorAt fs.params cs (j + w) + 1) (sectorAt fs.params cs (j + (w + 1))) = 0 := by
      rw [sub64_of_le (by omega) (by omega)]
      omega
    refine ⟨.invalidParam, ⟨.noError, _, _, _, st.sectorBuffer⟩, ⟨rfl, ha.nextSector, hpos, ha.filled⟩, ?_,
      iff_of_false nofun hnone⟩
    rw [BatchState.flush, hcur, ha.startSector, hcount]
    dsimp only
    rw [Nat.zero_mod, Nat.zero_mul, Nat.zero_mod, BlockDevice.readBlocks,
      if_neg fun hserves => hserves.some href rfl, Nat.add_zero, Nat.mod_eq_of_lt (by omega)]
    rfl

/-- Where the file goes on elsewhere, the last batch has been read when the loop ends, and the read
after it starts from the sector the file goes on at. -/
theorem readWhole_gap (hb : j + (w + 1) < cs.length * fs.params.secsPerCluster)
    (hnext : sectorAt fs.params cs (j + (w + 1)) ≠ sectorAt fs.params cs (j + w) + 1) :
    ∃ buf so, start + so = (j + (w + 1)) * fs.params.bytesPerSec ∧ Filled fs cs buf₀ buf start so ∧
      ∃ count bytes, count = sub64 (sectorAt fs.params cs (j + w) + 1)
          (sectorAt fs.params cs (j + (w + 1))) % 2 ^ 32 ∧
        bytes = count * fs.params.bytesPerSec % 2 ^ 32 ∧
        readWhole limit fs file length st =
          ⟨(fs.storage.readBlocks (sectorAt fs.params cs (j + (w + 1))) count buf so bytes).1,
            (fs.storage.readBlocks (sectorAt fs.params cs (j + (w + 1))) count buf so bytes).2,
            (so + bytes) % 2 ^ 64, sectorAt fs.params cs (j + (w + 1)), st.sectorBuffer⟩ := by
  obtain ⟨a, ha, hcur, hrun⟩ := loop_whole h hs hch hlim hi hlen hle hb
  have hale := ha.le
  obtain rfl : a = j + (w + 1) := by
    rw [runBefore, Nat.add_assoc, if_neg hnext, Nat.zero_mod] at hrun
    omega
  refine ⟨_, _, ha.pos, ha.filled, _, _, rfl, rfl, ?_⟩
  rw [readWhole_unfold h hi hlen hle hlt, BatchState.flush, hcur, ha.startSector, ha.nextSector]

/-- Where the file ends with the last whole sector, that sector is read a second time. -/
theorem readWhole_end (hb : j + (w + 1) = cs.length * fs.params.secsPerCluster) :
    ∃ so, start + so = (j + (w + 1)) * fs.params.bytesPerSec ∧
      (readWhole limit fs file length st).bytesReadSoFar =
        (so + fs.params.bytesPerSec) % 2 ^ 64 := by
  have hmul : (j + w) * fs.params.bytesPerSec ≤ (j + (w + 1)) * fs.params.bytesPerSec :=
    Nat.mul_le_mul_right _ (by omega)
  obtain ⟨a, ha, -⟩ := (hi.batchInv limit (by omega)).loop h hs hch hlim hlen w (by omega)
    (by omega)
  have hadv : advanceSectorNum fs file (st.batch.loop limit fs file w).nextSector =
      (.storageError, sectorAt fs.params cs (j + w)) := by
    rw [ha.nextSector, advanceSectorNum_eq h.params hs hch ha.lt, if_neg (by omega)]
  obtain ⟨buf, so, he, hpos, -⟩ := ha.flush h hch.data hlim hlen (by rw [Nat.add_assoc]; exact hle)
    .storageError (sectorAt fs.params cs (j + w))
  have hround : (st.batch.loop limit fs file w).round limit fs file =
      ⟨.noError, buf, so, sectorAt fs.params cs (j + w), sectorAt fs.params cs (j + w),
        sectorAt fs.params cs (j + w)⟩ := by
    rw [BatchState.round]
    dsimp only
    rw [hadv]
    dsimp only
    rw [if_pos (Or.inl (by rw [ha.nextSector]; omega)), he, ha.nextSector]
  refine ⟨so, by rw [hpos, Nat.add_assoc], ?_⟩
  have hbd := (sectorAt_bounds h.params hch.data ha.lt).2
  have hreg := h.params.dataRegion
  have h32 := h.params.sectors_lt
  have hsec := h.params.sector_lt
  rw [readWhole_unfold h hi hlen hle hlt, loop_succ w ha.ec, hround, BatchState.flush]
  dsimp only
  rw [sub64_of_le (by omega) (by omega), Nat.add_sub_cancel_left]
  rw [show 1 % 2 ^ 32 = 1 from rfl, Nat.one_mul, Nat.mod_eq_of_lt (a := fs.params.bytesPerSec)
    (by omega)]

end

/-! ### The last sector -/

/-- The assertion before section 3 fails when more has been read than asked for. -/
theorem readTail_overrun {st : ReadState} {length : Nat} (so d : Nat) (h : fs.Mounted)
    (hso : so ≤ length) (hlen : length < so + fs.params.bytesPerSec)
    (hd : fs.params.bytesPerSec ≤ d) (hd32 : d < 2 ^ 32)
    (hst : st.bytesReadSoFar = (so + d) % 2 ^ 64) : readTail fs length st = none := by
  have hsec := h.params.sector_lt
  rw [readTail]
  dsimp only
  rw [if_pos]
  rw [hst, sub64]
  omega

/-- **Section 3** reads the rest of the request, which lies in one sector. -/
theorem readTail_eq {buf₀ : Bytes} {start length : Nat} (st : ReadState) (j : Nat) (h : fs.Mounted)
    (hcs : ∀ c ∈ cs, fs.params.IsData c) (hf : Filled fs cs buf₀ st.buffer start st.bytesReadSoFar)
    (hle : st.bytesReadSoFar ≤ length) (h64 : length < 2 ^ 64)
    (hlt : length < st.bytesReadSoFar + fs.params.bytesPerSec)
    (hrest : st.bytesReadSoFar ≠ length →
      start + st.bytesReadSoFar = j * fs.params.bytesPerSec ∧
      st.readSectorNum = sectorAt fs.params cs j ∧ j < cs.length * fs.params.secsPerCluster) :
    ∃ st', readTail fs length st = some st' ∧ st'.bytesReadSoFar = length ∧
      st'.ec = (if st.bytesReadSoFar = length then st.ec else .noError) ∧
      Filled fs cs buf₀ st'.buffer start length := by
  have hsub : sub64 length st.bytesReadSoFar = length - st.bytesReadSoFar := sub64_of_le h64 hle
  rw [readTail]
  dsimp only
  rw [hsub, if_neg (by omega)]
  by_cases heq : st.bytesReadSoFar = length
  · rw [if_neg (show ¬ length - st.bytesReadSoFar ≠ 0 by omega), if_pos heq]
    exact ⟨st, rfl, heq, (if_pos heq).symm, heq ▸ hf⟩
  · obtain ⟨hpos, hsec, hj⟩ := hrest heq
    obtain ⟨sb, hsb, hbytes⟩ := readBlocks_sector h hcs hj st.sectorBuffer
    have hf' := hf.blit sb 0 (length - st.bytesReadSoFar) fun i hi => by
      rw [Nat.zero_add, hbytes i (by omega), hpos]
    rw [Nat.add_sub_cancel' hle] at hf'
    rw [if_pos (show length - st.bytesReadSoFar ≠ 0 by omega), hsec, hsb]
    dsimp only
    rw [if_pos rfl, if_pos (Nat.add_sub_cancel' hle)]
    exact ⟨_, rfl, Nat.add_sub_cancel' hle, (if_neg heq).symm, hf'⟩

end

/-! ### When a read gives the bytes of the file -/

/-- The bytes of the file a read should give: `min(length, buffer_length, size - start)`. -/
def readLength (size start length bufferLength : Nat) : Nat :=
  min length (min bufferLength (size - start))

/-- A read succeeds, says how many bytes it gave, gives the bytes of the file, and writes no byte
of the buffer past them. -/
def ReadsFile (fs : FatFs) (cs : List Nat) (start n : Nat) (buffer : Bytes)
    (r : Option (ErrCode × Option Bytes × Nat)) : Prop :=
  ∃ buf, r = some (.noError, some buf, n) ∧ (∀ i, i < n → buf i = fileByte fs cs (start + i)) ∧
    ∀ i, n ≤ i → buf i = buffer i

/-- The condition on the whole sectors of a read of `n` bytes: where there are any, the chain has a
sector after the last of them, and that sector is the next one on the disk; and a part of that sector
is read too, or the device serves requests for no blocks, or the sectors that follow each other up to
the last one are not a number of full batches.  (Or the two sectors' byte addresses agree modulo `2^32`
and a part of that sector is read too.) -/
def WholeSectorsRead (limit : Nat) (refusesNone : Bool) (g : FatParams) (cs : List Nat) (start n : Nat) :
    Prop :=
  let rest := n - min n (g.bytesPerSec - start % g.bytesPerSec)
  let last := start / g.bytesPerSec + rest / g.bytesPerSec
  rest / g.bytesPerSec ≠ 0 →
    last + 1 < cs.length * g.secsPerCluster ∧
      (sectorAt g cs (last + 1) = sectorAt g cs last + 1 ∧
          (rest % g.bytesPerSec ≠ 0 ∨ (refusesNone = true →
            ¬ limit / g.bytesPerSec + 1 ∣
              runBefore g cs (start / g.bytesPerSec + 1) (rest / g.bytesPerSec))) ∨
        sectorAt g cs (last + 1) ≠ sectorAt g cs last + 1 ∧ rest % g.bytesPerSec ≠ 0 ∧
          (sectorAt g cs last + 1) * g.bytesPerSec % 2 ^ 32 =
            sectorAt g cs (last + 1) * g.bytesPerSec % 2 ^ 32)

/-- A read of `[start, start + length)` gives the bytes of a file when its start lies in the chain,
its end does not wrap around (or the buffer ends before the file does), and its whole sectors are
read. -/
def ReadCondition (limit : Nat) (fs : FatFs) (cs : List Nat) (size start length bufferLength : Nat) : Prop :=
  start < cs.length * fs.params.bytesPerCluster ∧
    (start + length < 2 ^ 64 ∨ bufferLength ≤ size - start) ∧
    WholeSectorsRead limit fs.storage.refusesNone fs.params cs start
      (readLength size start length bufferLength)

/-- The three sections of a read of `n` bytes, from a sector that was found. -/
def readSections (limit : Nat) (fs : FatFs) (file : FatFile) (start n : Nat) (buffer : Bytes)
    (readSectorNum : Nat) : Option ReadState :=
  readTail fs n (readWhole limit fs file n (readHead fs file start n buffer readSectorNum))

/-- What is left of `length` after the checks of `read_bytes`. -/
def checkedLength (size start length bufferLength : Nat) : Nat :=
  let length := if (start + length) % 2 ^ 64 > size then sub64 size start else length
  if length > bufferLength then bufferLength else length

theorem readBytes_eq {limit : Nat} {fs : FatFs} {file : FatFile} {start length bufferLength : Nat}
    {buffer : Bytes} (hstart : start ≤ file.record.fileSize) :
    readBytes limit fs file start length (some buffer) bufferLength =
      match getDiskSectorFromOffset fs file (start / fs.params.bytesPerSec) with
      | none => some (.storageError, some buffer, 0)
      | some readSectorNum =>
          (readSections limit fs file start
            (checkedLength file.record.fileSize start length bufferLength) buffer
            readSectorNum).map fun st => (st.ec, some st.buffer, st.bytesReadSoFar) := by
  rw [readBytes]
  dsimp only
  rw [if_pos (by simpa using hstart)]
  cases getDiskSectorFromOffset fs file (start / fs.params.bytesPerSec) with
  | none => rfl
  | some sector =>
      dsimp only
      rw [readSections, checkedLength]
      cases readTail fs _ _ <;> rfl

/-- The checks leave the length a read should give, unless the end of the request wraps around
and the buffer goes beyond the end of the file. -/
theorem checkedLength_eq_iff {size start length bufferLength : Nat} (hsize : size < 2 ^ 32)
    (hstart : start ≤ size) (hlen : length < 2 ^ 64) :
    checkedLength size start length bufferLength = readLength size start length bufferLength ↔
      start + length < 2 ^ 64 ∨ bufferLength ≤ size - start := by
  have hsub : sub64 size start = size - start := sub64_of_le (by omega) hstart
  rw [checkedLength, readLength, hsub]
  by_cases hw : start + length < 2 ^ 64
  · rw [Nat.mod_eq_of_lt hw]
    refine iff_of_true ?_ (Or.inl hw)
    split <;> split <;> omega
  · rw [if_neg (show ¬ (start + length) % 2 ^ 64 > size by omega)]
    split <;> omega

/-- A read that comes to its end has read what was asked for. -/
theorem readSections_length {limit : Nat} {fs : FatFs} {file : FatFile} {start n sector : Nat}
    {buffer : Bytes} {st : ReadState}
    (h : readSections limit fs file start n buffer sector = some st) : st.bytesReadSoFar = n := by
  rw [readSections, readTail] at h
  obtain ⟨-, h⟩ := Option.ite_none_left_eq_some.mp h
  obtain ⟨he, h⟩ := Option.ite_none_right_eq_some.mp h
  rw [← Option.some.inj h]
  exact he

/-- Beyond its first sector, a read of `n` bytes is a number of whole sectors and a rest. -/
theorem rest_split {fs : FatFs} (start n : Nat) (h : fs.Mounted)
    (hgt : fs.params.bytesPerSec - start % fs.params.bytesPerSec < n) :
    start + n = (start / fs.params.bytesPerSec + 1 +
        (n - (fs.params.bytesPerSec - start % fs.params.bytesPerSec)) / fs.params.bytesPerSec) *
          fs.params.bytesPerSec +
        (n - (fs.params.bytesPerSec - start % fs.params.bytesPerSec)) % fs.params.bytesPerSec := by
  have hoff := Nat.mod_lt start h.params.sector_pos
  have h₁ := Nat.div_add_mod start fs.params.bytesPerSec
  have h₂ := Nat.div_add_mod (n - (fs.params.bytesPerSec - start % fs.params.bytesPerSec))
    fs.params.bytesPerSec
  rw [Nat.add_mul, Nat.add_mul, Nat.one_mul, Nat.mul_comm (start / _), Nat.mul_comm (_ / _)]
  omega

/-- The bytes that the read after the loop asks for, from a gap between two sectors: none exactly
when the sectors' byte addresses agree modulo `2^32`, else at least a sector's. -/
theorem gap_bytes {fs : FatFs} {x y : Nat} (h : fs.Mounted) (hy : y < 2 ^ 32) :
    (sub64 x y % 2 ^ 32 * fs.params.bytesPerSec % 2 ^ 32 = 0 ↔
      x * fs.params.bytesPerSec % 2 ^ 32 = y * fs.params.bytesPerSec % 2 ^ 32) ∧
    (sub64 x y % 2 ^ 32 * fs.params.bytesPerSec % 2 ^ 32 ≠ 0 →
      fs.params.bytesPerSec ≤ sub64 x y % 2 ^ 32 * fs.params.bytesPerSec % 2 ^ 32) := by
  have hred : sub64 x y % 2 ^ 32 * fs.params.bytesPerSec % 2 ^ 32 =
      (x + (2 ^ 64 - y)) * fs.params.bytesPerSec % 2 ^ 32 := by
    rw [sub64, Nat.mod_mod_of_dvd _ (by decide : 2 ^ 32 ∣ 2 ^ 64), Nat.mod_mul_mod]
  have hsum : (x + (2 ^ 64 - y)) * fs.params.bytesPerSec + y * fs.params.bytesPerSec =
      x * fs.params.bytesPerSec + 2 ^ 64 * fs.params.bytesPerSec := by
    rw [← Nat.add_mul, ← Nat.add_mul]; congr 1; omega
  rw [hred]
  refine ⟨by omega, fun hne => Nat.le_of_dvd (Nat.pos_of_ne_zero hne) ?_⟩
  have hdvd : fs.params.bytesPerSec ∣ 2 ^ 32 := by
    obtain ⟨k, -, hk, he⟩ := h.params.sectorSize
    rw [he]
    exact pow_dvd_pow 2 (by omega)
  exact (Nat.dvd_mod_iff hdvd).mpr (Nat.dvd_mul_left _ _)

section
variable {fs : FatFs} {file : FatFile} {cs : List Nat} {limit first start n : Nat} (h : fs.Mounted)
  (hs : file.isSmallFatRootDir = false) (hch : IsChain fs.params fs.rawFat first cs)
  (hj : start / fs.params.bytesPerSec < cs.length * fs.params.secsPerCluster)
  (hn : n < 2 ^ 64)
include h hs hch hj hn

/-- A read inside one sector. -/
theorem readSections_short (buffer : Bytes)
    (hle : n ≤ fs.params.bytesPerSec - start % fs.params.bytesPerSec) :
    ∃ st, readSections limit fs file start n buffer
        (sectorAt fs.params cs (start / fs.params.bytesPerSec)) = some st ∧
      st.ec = .noError ∧ Filled fs cs buffer st.buffer start n := by
  have hpos := h.params.sector_pos
  obtain ⟨buf, sb, he, hf⟩ := readHead_eq h hs hch n buffer hj
  rw [Nat.min_eq_left hle] at he hf
  rw [readSections, he]
  have hw : ∀ st : ReadState, st.bytesReadSoFar = n → readWhole limit fs file n st = st := by
    intro st hst
    rw [readWhole]
    dsimp only
    rw [hst, sub64_of_le hn le_rfl, Nat.sub_self, if_neg (by omega)]
  rw [hw _ rfl]
  obtain ⟨st', ht, hso, hec, hf'⟩ := readTail_eq
    ⟨.noError, buf, n, _, sb⟩ 0 h hch.data hf le_rfl hn (by dsimp only; omega)
    fun hne => absurd rfl hne
  exact ⟨st', ht, by rw [hec]; simp, hf'⟩

omit hn in
/-- A read beyond its first sector: after section 1 the next sector has been reached. -/
theorem readSections_long (limit : Nat) (buffer : Bytes)
    (hgt : fs.params.bytesPerSec - start % fs.params.bytesPerSec < n)
    (hcov : start + n ≤ cs.length * fs.params.secsPerCluster * fs.params.bytesPerSec) :
    start / fs.params.bytesPerSec + 1 < cs.length * fs.params.secsPerCluster ∧
    ∃ st, AtSector fs cs buffer start (start / fs.params.bytesPerSec + 1) st ∧
      st.bytesReadSoFar = fs.params.bytesPerSec - start % fs.params.bytesPerSec ∧
      readSections limit fs file start n buffer
          (sectorAt fs.params cs (start / fs.params.bytesPerSec)) =
        readTail fs n (readWhole limit fs file n st) := by
  have hpos := h.params.sector_pos
  have hoff := Nat.mod_lt start hpos
  have hdm := Nat.div_add_mod start fs.params.bytesPerSec
  have hmul : (start / fs.params.bytesPerSec + 1) * fs.params.bytesPerSec =
      fs.params.bytesPerSec * (start / fs.params.bytesPerSec) + fs.params.bytesPerSec := by
    rw [Nat.add_mul, Nat.one_mul, Nat.mul_comm]
  have hnext : start / fs.params.bytesPerSec + 1 < cs.length * fs.params.secsPerCluster :=
    Nat.lt_of_mul_lt_mul_right (a := fs.params.bytesPerSec) (by omega)
  obtain ⟨buf, sb, he, hf⟩ := readHead_eq h hs hch n buffer hj
  rw [Nat.min_eq_right hgt.le, if_pos hnext] at he
  rw [Nat.min_eq_right hgt.le] at hf
  refine ⟨hnext, _, ⟨rfl, rfl, ?_, hf⟩, rfl, by rw [readSections, he]⟩
  dsimp only
  omega

omit hj in
/-- A read whose whole sectors are followed by a gap succeeds only where the sectors on both sides
have the same byte address modulo `2^32`: then the read after the loop fails and leaves the buffer
as it is, and the read of the last sector sets the code again. -/
theorem readTail_gap (hlim : limit + 65536 ≤ 2 ^ 32) {buffer : Bytes} {j w : Nat} {st : ReadState}
    (hi : AtSector fs cs buffer start j st)
    (hle : (j + (w + 1)) * fs.params.bytesPerSec ≤ start + n)
    (hlt : start + n < (j + (w + 1) + 1) * fs.params.bytesPerSec)
    (hb : j + (w + 1) < cs.length * fs.params.secsPerCluster)
    (hnext : sectorAt fs.params cs (j + (w + 1)) ≠ sectorAt fs.params cs (j + w) + 1) :
    (∃ st', readTail fs n (readWhole limit fs file n st) = some st' ∧ st'.ec = .noError ∧
      Filled fs cs buffer st'.buffer start n) ↔
    start + n ≠ (j + (w + 1)) * fs.params.bytesPerSec ∧
      (sectorAt fs.params cs (j + w) + 1) * fs.params.bytesPerSec % 2 ^ 32 =
        sectorAt fs.params cs (j + (w + 1)) * fs.params.bytesPerSec % 2 ^ 32 := by
  have hpos := h.params.sector_pos
  have hbd := (sectorAt_bounds h.params hch.data hb).2
  have hbd' := (sectorAt_bounds h.params hch.data (j := j + w) (by omega)).2
  have hreg := h.params.dataRegion
  have h32 := h.params.sectors_lt
  obtain ⟨buf, so, hso, hf, count, bytes, hcount, hbytes, hw⟩ :=
    readWhole_gap h hs hch hlim hi hn hle hlt hb hnext
  rw [Nat.add_mul _ 1, Nat.one_mul] at hlt
  have hgap := gap_bytes (x := sectorAt fs.params cs (j + w) + 1) h
    (show sectorAt fs.params cs (j + (w + 1)) < 2 ^ 32 by omega)
  rw [← hcount, ← hbytes] at hgap
  rw [hw, ← hgap.1]
  by_cases h0 : bytes = 0
  · have hne : count ≠ 0 := by
      rw [hcount, sub64]
      omega
    have hfail : fs.storage.readBlocks (sectorAt fs.params cs (j + (w + 1))) count buf so bytes =
        (.invalidParam, buf) := by
      have hmul := Nat.mul_pos (Nat.pos_of_ne_zero hne) hpos
      rw [BlockDevice.readBlocks, if_neg]
      intro hserves
      have hroom := hserves.room
      rw [h.blockSize] at hroom
      omega
    rw [hfail, h0, Nat.add_zero, Nat.mod_eq_of_lt (show so < 2 ^ 64 by omega)]
    obtain ⟨st', ht, -, hec, hf'⟩ := readTail_eq
      ⟨.invalidParam, buf, so, sectorAt fs.params cs (j + (w + 1)), st.sectorBuffer⟩ (j + (w + 1))
      h hch.data hf (show so ≤ n by omega) hn
      (show n < so + fs.params.bytesPerSec by omega) fun _ => ⟨hso, rfl, hb⟩
    constructor
    · rintro ⟨st'', ht', hec', -⟩
      obtain rfl := Option.some.inj (ht.symm.trans ht')
      refine ⟨fun heq => ?_, rfl⟩
      rw [hec, if_pos (show so = n by omega)] at hec'
      cases hec'
    · rintro ⟨hne', -⟩
      exact ⟨st', ht, hec.trans (if_neg (show ¬ so = n by omega)), hf'⟩
  · refine iff_of_false ?_ fun hc => h0 hc.2
    rintro ⟨st', ht, -⟩
    rw [readTail_overrun so bytes h (by omega) (by omega) (hgap.2 h0)
      (by rw [hbytes]; exact Nat.mod_lt _ (by omega)) rfl] at ht
    cases ht

/-- **The sections of a read give the bytes of the file** exactly when its whole sectors are
read. -/
theorem readSections_iff (hlim : limit + 65536 ≤ 2 ^ 32)
    (hcov : start + n ≤ cs.length * fs.params.secsPerCluster * fs.params.bytesPerSec)
    (buffer : Bytes) :
    (∃ st, readSections limit fs file start n buffer
        (sectorAt fs.params cs (start / fs.params.bytesPerSec)) = some st ∧
      st.ec = .noError ∧ Filled fs cs buffer st.buffer start n) ↔
    WholeSectorsRead limit fs.storage.refusesNone fs.params cs start n := by
  have hpos := h.params.sector_pos
  by_cases hle : n ≤ fs.params.bytesPerSec - start % fs.params.bytesPerSec
  · refine iff_of_true (readSections_short h hs hch hj hn buffer hle) ?_
    rw [WholeSectorsRead, Nat.min_eq_left hle, Nat.sub_self, Nat.zero_div]
    exact fun h0 => absurd rfl h0
  · obtain ⟨hnext, st, hi, hso, he⟩ := readSections_long h hs hch hj limit buffer
      (by omega) hcov
    have hsplit := rest_split start n h (by omega)
    have hmod := Nat.mod_lt (n - (fs.params.bytesPerSec - start % fs.params.bytesPerSec)) hpos
    rw [he, WholeSectorsRead, Nat.min_eq_right (by omega)]
    generalize n - (fs.params.bytesPerSec - start % fs.params.bytesPerSec) = rest at *
    cases hw : rest / fs.params.bytesPerSec with
    | zero =>
        rw [hw, Nat.add_zero] at hsplit
        have hp := hi.pos
        have hwhole : readWhole limit fs file n st = st := by
          rw [readWhole]
          dsimp only
          rw [sub64_of_le hn (by omega), if_neg (by omega)]
        obtain ⟨st', ht, -, hec, hf⟩ := readTail_eq _ (start / fs.params.bytesPerSec + 1) h
          hch.data hi.filled (by omega) hn (by omega) fun _ => ⟨hp, hi.sector, hnext⟩
        rw [hwhole]
        refine iff_of_true ⟨st', ht, ?_, hf⟩ fun h0 => absurd rfl h0
        rw [hec, hi.ec, ite_self]
    | succ w =>
        rw [hw] at hsplit
        have hlast : start / fs.params.bytesPerSec + (w + 1) =
            start / fs.params.bytesPerSec + 1 + w := by omega
        rw [hlast, Nat.add_assoc (_ + 1) w 1]
        generalize start / fs.params.bytesPerSec + 1 = j at *
        have hend : (j + (w + 1)) * fs.params.bytesPerSec ≤ start + n := by omega
        have hlt : start + n < (j + (w + 1) + 1) * fs.params.bytesPerSec := by
          rw [Nat.add_mul _ 1, Nat.one_mul]; omega
        have hb : j + (w + 1) ≤ cs.length * fs.params.secsPerCluster :=
          Nat.le_of_mul_le_mul_right (hend.trans hcov) hpos
        simp only [ne_eq, Nat.add_eq_zero_iff, one_ne_zero, and_false, not_false_eq_true,
          true_implies]
        rcases hb.lt_or_eq with hb | hb
        · rw [and_iff_right hb]
          by_cases hnx : sectorAt fs.params cs (j + (w + 1)) = sectorAt fs.params cs (j + w) + 1
          · obtain ⟨ec, st₂, hi', hwhole, hec₂⟩ := readWhole_eq h hs hch hlim hi hn hend hlt hb hnx
            have hp := hi'.pos
            obtain ⟨st', ht, -, hec, hf⟩ := readTail_eq { st₂ with ec := ec } (j + (w + 1)) h hch.data
              hi'.filled (by dsimp only; omega) hn (by dsimp only; omega) fun _ => ⟨hp, hi'.sector, hb⟩
            have hdone : st₂.bytesReadSoFar = n ↔ rest % fs.params.bytesPerSec = 0 := by omega
            rw [hwhole, ← hec₂, and_iff_right hnx, iff_false_intro (not_and_of_not_left _ (not_not.mpr hnx)),
              or_false, ← not_iff_not.mpr hdone]
            constructor
            · rintro ⟨st'', ht', hec', -⟩
              obtain rfl := Option.some.inj (ht.symm.trans ht')
              rw [hec] at hec'
              split at hec'
              next => exact .inr hec'
              next hne => exact .inl hne
            · intro hor
              refine ⟨st', ht, ?_, hf⟩
              rw [hec]
              split
              next heq => exact hor.resolve_left (not_not.mpr heq)
              next => rfl
          · rw [readTail_gap h hs hch hn hlim hi hend hlt hb hnx, and_iff_right hnx,
              iff_false_intro (not_and_of_not_left _ hnx), false_or]
            refine and_congr_left' ?_
            omega
        · refine iff_of_false ?_ fun hc => by omega
          obtain ⟨so, hp, hov⟩ := readWhole_end h hs hch hlim hi hn hend hlt hb
          have hsec := h.params.sector_lt
          rintro ⟨st', ht, -⟩
          rw [readTail_overrun so _ h (by omega) (by omega) le_rfl (by omega) hov] at ht
          cases ht

end

/-- A volume of four clusters, three of them linked to each other. -/
def oneFileVolume : FatFs :=
  { params := fourClusters
    storage := ⟨512, 7, fun i => UInt8.ofNat i, true⟩
    rawFat := fun i => [0xF8, 0xFF, 0xFF, 0x03, 0x40, 0x00, 0xFF, 0x0F].getD i 0 }

theorem oneFileVolume_mounted : oneFileVolume.Mounted := ⟨fourClusters_mounted, rfl, le_rfl⟩

/-- The file of the three clusters, with a size. -/
def threeClusterFile (size : Nat) : FatFile :=
  ⟨(FatDirEntry.zero.setFirstCluster 0 2).setFileSize size, 0, false⟩

theorem isChain_threeClusters (size : Nat) :
    IsChain fourClusters oneFileVolume.rawFat (threeClusterFile size).record.firstCluster
      [2, 3, 4] := by
  have hfirst : (threeClusterFile size).record.firstCluster = 2 := by
    simp [threeClusterFile, FatDirEntry.firstCluster]
  rw [hfirst]
  refine ⟨by decide, by simp only [FatParams.IsData]; decide, 0xFFF, ?_, by decide⟩
  simp only [walk_cons, walk_nil]
  decide +kernel

end Azalea.Fat
