import Azalea.Proc.LoadElf

/-!
# Proc — what a process finds on its pages

Two runs that differ in the contents of physical pages without tables, as far as the mapping code and the loop
of `proc_load_elf_file` go.  What is written to a page does not depend on what is there (`Blind`).

* `recycled_pages_alike`: as long as empty pages become tables, both runs map the same pages.  They agree on
  every byte of a loaded segment; any other byte they agree on too, or it holds what it held before in both.
-/

namespace Azalea.Proc
open Azalea.Mem Azalea.Memory Azalea.Patches Azalea.Programs Azalea.Syscall Function

/-! ### One page -/

/-- The loop is at a page: as much has been copied, and as much is left to be zeroed, as lies before it and
behind it. -/
structure At (h : Elf64ProgramHeader) (thisPage : UInt64) (v : SegmentVars) : Prop where
  aligned : thisPage.toNat % 2097152 = 0
  offset : v.offset.toNat < 2097152
  pos : thisPage.toNat + v.offset.toNat = max h.reqVirtAddr.toNat thisPage.toNat
  written : v.bytesWritten.toNat =
    min h.sizeInFile.toNat (thisPage.toNat + v.offset.toNat - h.reqVirtAddr.toNat)
  left : v.bytesToZero.toNat =
    h.sizeInMem.toNat - max h.sizeInFile.toNat (thisPage.toNat + v.offset.toNat - h.reqVirtAddr.toNat)

section
variable {image : ElfImage} {h : Elf64ProgramHeader} {thisPage : UInt64} {v v' : SegmentVars}
  {b : Nat}

theorem blit_eq_overlay (dst : Bytes) (d : Nat) (src : Bytes) (n : Nat) :
    blit dst d src 0 n = overlay (fun x => if d ≤ x ∧ x < d + n then some (src (x - d)) else none) dst := by
  funext x
  simp only [blit, overlay, Nat.zero_add]
  split <;> rfl

/-- The end of the file's bytes, seen from where the loop is. -/
theorem toNat_copyEnd_sub (hpos : thisPage.toNat + v.offset.toNat = h.reqVirtAddr.toNat + v.bytesWritten.toNat)
    (hle : v.bytesWritten.toNat ≤ h.sizeInFile.toNat) :
    (h.reqVirtAddr + h.sizeInFile - thisPage - v.offset).toNat =
      h.sizeInFile.toNat - v.bytesWritten.toNat := by
  have hsize := h.sizeInFile.toNat_lt
  have hpage := thisPage.toNat_lt
  have hoffset := v.offset.toNat_lt
  simp only [UInt64.toNat_add, UInt64.toNat_sub]
  omega

/-- A length that fits in the page is what is left of the page or of the file. -/
theorem copyLength_toNat (hoffset : v.offset.toNat < 2097152)
    (hpos : thisPage.toNat + v.offset.toNat = h.reqVirtAddr.toNat + v.bytesWritten.toNat)
    (hle : v.bytesWritten.toNat ≤ h.sizeInFile.toNat) (hlow : thisPage.toNat < 2 ^ 47)
    (hfits : v.offset.toNat + (copyLength (h.reqVirtAddr + h.sizeInFile) thisPage v.offset).toNat ≤ 2097152) :
    (copyLength (h.reqVirtAddr + h.sizeInFile) thisPage v.offset).toNat =
      min (2097152 - v.offset.toNat) (h.sizeInFile.toNat - v.bytesWritten.toNat) := by
  have hsub : (memPageSize - v.offset).toNat = 2097152 - v.offset.toNat := by
    rw [UInt64.toNat_sub_of_le _ _ (UInt64.le_iff_toNat_le.mpr (Nat.le_of_lt hoffset))]
    rfl
  have hend : (thisPage + v.offset + (memPageSize - v.offset)).toNat = thisPage.toNat + 2097152 := by
    rw [UInt64.toNat_add, UInt64.toNat_add, hsub]
    omega
  have hcopyEnd := toNat_copyEnd_sub hpos hle
  simp only [copyLength, gt_iff_lt, UInt64.lt_iff_toNat_lt, hend] at hfits ⊢
  split at hfits
  next hpast =>
    rw [if_pos hpast, hcopyEnd] at *
    omega
  next hpast =>
    rw [if_neg hpast, hsub]
    rw [UInt64.toNat_add] at hpast
    omega

/-- The end of a page. -/
def pageEnd (thisPage : UInt64) : Nat := thisPage.toNat + 2097152

/-- Where the file's bytes end in a page, or the page ends. -/
structure Copied (h : Elf64ProgramHeader) (thisPage : UInt64) (v v' : SegmentVars) : Prop where
  left : v'.bytesToZero = v.bytesToZero
  offset : v'.offset.toNat ≤ 2097152
  pos : thisPage.toNat + v'.offset.toNat = max (thisPage.toNat + v.offset.toNat)
    (min (pageEnd thisPage) (h.reqVirtAddr.toNat + h.sizeInFile.toNat))
  written : v'.bytesWritten.toNat = min h.sizeInFile.toNat (pageEnd thisPage - h.reqVirtAddr.toNat)

/-- Copying, in numbers: `P` is the page and `E` its end, `R` the segment, `F` its size in the file. -/
theorem copied_arith {P E o R F W L : Nat} (hE : E = P + 2097152) (ho : o < 2097152)
    (hpos : P + o = max R P) (hW : W = min F (P + o - R)) (hlt : W < F)
    (hL : L = min (2097152 - o) (F - W)) :
    o + L ≤ 2097152 ∧ P + (o + L) = max (P + o) (min E (R + F)) ∧ W + L = min F (E - R) := by
  omega

theorem copied_done {P E o R F W : Nat} (hE : E = P + 2097152) (ho : o < 2097152)
    (hpos : P + o = max R P) (hW : W = min F (P + o - R)) (hlt : ¬ W < F) :
    P + o = max (P + o) (min E (R + F)) ∧ W = min F (E - R) := by
  omega

theorem copyBytes_blind (image : ElfImage) (h : Elf64ProgramHeader) (thisPage : UInt64) (b : Nat)
    (v : SegmentVars) : Blind (copyBytes image h thisPage b v) fun v' p =>
      At h thisPage v → thisPage.toNat < 2 ^ 47 → Copied h thisPage v v' ∧
        ∀ k, v.offset.toNat ≤ k → k < v'.offset.toNat → (p (b + k)).isSome := by
  unfold copyBytes
  by_cases hleft : v.bytesWritten < h.sizeInFile
  · simp only [if_pos hleft]
    rw [UInt64.lt_iff_toNat_lt] at hleft
    by_cases hfits : v.offset.toNat +
        (copyLength (h.reqVirtAddr + h.sizeInFile) thisPage v.offset).toNat ≤ 2097152
    · simp only [if_pos hfits, blit_eq_overlay]
      refine .write fun hat hlow => ?_
      have hsize := h.sizeInFile.toNat_lt
      have hwritten := hat.written
      have hpos := hat.pos
      have hlength := copyLength_toNat (v := v) hat.offset (by omega) (by omega) hlow hfits
      generalize copyLength (h.reqVirtAddr + h.sizeInFile) thisPage v.offset = length at *
      obtain ⟨hle, hpos', hwritten'⟩ := copied_arith rfl hat.offset hpos hwritten hleft hlength
      have hoffset : (v.offset + length).toNat = v.offset.toNat + length.toNat := by
        rw [UInt64.toNat_add]
        omega
      have hsum : (v.bytesWritten + length).toNat = v.bytesWritten.toNat + length.toNat := by
        rw [UInt64.toNat_add]
        omega
      refine ⟨⟨rfl, ?_, ?_, ?_⟩, fun k hk hk' => ?_⟩
      · exact hoffset ▸ hle
      · exact hoffset ▸ hpos'
      · exact hsum ▸ hwritten'
      · dsimp only at hk'
        rw [hoffset] at hk'
        rw [if_pos ⟨by omega, by omega⟩]
        rfl
    · simp only [if_neg hfits]
      exact .fail
  · simp only [if_neg hleft]
    rw [UInt64.lt_iff_toNat_lt] at hleft
    refine .pure fun hat _ => ?_
    obtain ⟨hpos, hwritten⟩ := copied_done rfl hat.offset hat.pos hat.written hleft
    exact ⟨⟨rfl, Nat.le_of_lt hat.offset, hpos, hwritten⟩, fun k hk hk' => absurd hk' (Nat.not_lt.mpr hk)⟩

/-- Zeroing, in numbers: `o'` is where the file's bytes end, `S` the size in memory, `Z` what is left. -/
theorem zeroed_arith {P E o o' R F S W Z N : Nat} (hE : E = P + 2097152) (hpos : P + o = max R P)
    (hZ : Z = S - max F (P + o - R)) (hpos' : P + o' = max (P + o) (min E (R + F)))
    (hW : W = min F (E - R)) (hall : F ≤ W) (hroom : o' < 2097152) (hN : N = min (2097152 - o') Z) :
    N ≤ Z ∧ Z - N = S - max F (E - R) ∧
      ∀ k, o' ≤ k → k < 2097152 → P + k < R + S → k < o' + N := by
  refine ⟨by omega, by omega, fun k hk hk' hlt => ?_⟩
  omega

theorem zeroed_none {P E o o' R F S W Z : Nat} (hE : E = P + 2097152) (hpos : P + o = max R P)
    (hZ : Z = S - max F (P + o - R)) (ho' : o' ≤ 2097152)
    (hpos' : P + o' = max (P + o) (min E (R + F))) (hW : W = min F (E - R))
    (hno : ¬ F ≤ W ∨ Z = 0 ∨ ¬ o' < 2097152) :
    Z = S - max F (E - R) ∧ ∀ k, o' ≤ k → k < 2097152 → ¬ P + k < R + S := by
  refine ⟨by omega, fun k hk hk' hlt => ?_⟩
  omega

/-- What is left of the page or of the bytes to zero. -/
theorem zeroLength_toNat (hroom : v.offset.toNat < 2097152) :
    (zeroLength v).toNat = min (2097152 - v.offset.toNat) v.bytesToZero.toNat := by
  have hsub : (memPageSize - v.offset).toNat = 2097152 - v.offset.toNat := by
    rw [UInt64.toNat_sub_of_le _ _ (UInt64.le_iff_toNat_le.mpr (Nat.le_of_lt hroom))]
    rfl
  rw [zeroLength]
  split <;> rename_i hlt <;> rw [gt_iff_lt, UInt64.lt_iff_toNat_lt, hsub] at hlt
  · omega
  · rw [hsub]
    omega

theorem zeroBytes_blind (h : Elf64ProgramHeader) (thisPage : UInt64) (b : Nat) (v v' : SegmentVars) :
    Blind (fun ram => some (zeroBytes h b v' ram)) fun v'' p =>
      At h thisPage v → Copied h thisPage v v' →
        v''.bytesWritten = v'.bytesWritten ∧
        v''.bytesToZero.toNat = h.sizeInMem.toNat -
          max h.sizeInFile.toNat (pageEnd thisPage - h.reqVirtAddr.toNat) ∧
        ∀ k, v'.offset.toNat ≤ k → k < 2097152 →
          thisPage.toNat + k < h.reqVirtAddr.toNat + h.sizeInMem.toNat → (p (b + k)).isSome := by
  unfold zeroBytes
  by_cases hzero : Zeroes h v'
  · simp only [if_pos hzero, blit_eq_overlay]
    refine .write fun hat hcopied => ?_
    obtain ⟨hall, -, hroom⟩ := hzero
    have hleft := hat.left
    rw [← hcopied.left] at hleft
    rw [ge_iff_le, UInt64.le_iff_toNat_le] at hall
    have hroom : v'.offset.toNat < 2097152 := UInt64.lt_iff_toNat_lt.mp hroom
    have hnow := zeroLength_toNat hroom
    obtain ⟨hle, hleft', hbytes⟩ :=
      zeroed_arith rfl hat.pos hleft hcopied.pos hcopied.written hall hroom hnow
    refine ⟨rfl, ?_, fun k hk hk' hlt => ?_⟩
    · rw [UInt64.toNat_sub_of_le _ _ (UInt64.le_iff_toNat_le.mpr hle)]
      exact hleft'
    · have hin := hbytes k hk hk' hlt
      rw [if_pos ⟨by omega, by omega⟩]
      rfl
  · simp only [if_neg hzero]
    refine .pure fun hat hcopied => ?_
    have hleft := hat.left
    rw [← hcopied.left] at hleft
    simp only [Zeroes, memPageSize, ge_iff_le, UInt64.le_iff_toNat_le, UInt64.lt_iff_toNat_lt, ne_eq,
      ← UInt64.toNat_inj, not_and_or, not_not] at hzero
    obtain ⟨hleft', hbytes⟩ :=
      zeroed_none rfl hat.pos hleft hcopied.offset hcopied.pos hcopied.written hzero
    exact ⟨rfl, hleft', fun k hk hk' hlt => absurd hlt (hbytes k hk hk')⟩

end

/-! ### The loops -/

section
variable {image : ElfImage} {window : KernelPage} {current process : Nat} {h : Elf64ProgramHeader}
  {t t' : MemState Spaces}

/-- The bytes of a segment, as far as they are in user memory. -/
def Elf64ProgramHeader.Covers (h : Elf64ProgramHeader) (a : UInt64) : Prop :=
  h.reqVirtAddr.toNat ≤ a.toNat ∧ a.toNat < (h.reqVirtAddr + h.sizeInMem).toNat ∧ a.toNat < 2 ^ 47

/-- A segment that covers anything does not wrap around. -/
theorem Elf64ProgramHeader.Covers.lt {a : UInt64} (hc : h.Covers a) :
    a.toNat < h.reqVirtAddr.toNat + h.sizeInMem.toNat := by
  obtain ⟨hle, hlt, -⟩ := hc
  rw [UInt64.toNat_add] at hlt
  exact Nat.lt_of_lt_of_le hlt (Nat.mod_le _ _)

/-- A byte of the page that is in the segment. -/
theorem offset_le_of_page {P o R a : Nat} (hP : P % 2097152 = 0) (hpos : P + o = max R P) (hle : R ≤ a)
    (hpage : a / 2097152 = P / 2097152) : P + a % 2097152 = a ∧ o ≤ a % 2097152 := by
  omega

/-- Where the loop over the pages begins. -/
theorem at_start (h : Elf64ProgramHeader) :
    At h (h.reqVirtAddr - h.reqVirtAddr % memPageSize) (firstVars h) := by
  have hmod : (h.reqVirtAddr % memPageSize).toNat = h.reqVirtAddr.toNat % 2097152 := rfl
  have hstart := firstPage_toNat h
  have hle := Nat.mod_le h.reqVirtAddr.toNat 2097152
  refine ⟨by omega, firstVars_offset h, ?_, ?_, ?_⟩ <;> dsimp only [firstVars]
  · rw [hstart, hmod, Nat.sub_add_cancel hle, Nat.max_eq_left (Nat.sub_le _ _)]
  · rw [hstart, hmod, Nat.sub_add_cancel hle, Nat.sub_self, Nat.min_zero]
    rfl
  · rw [hstart, hmod, Nat.sub_add_cancel hle, Nat.sub_self, Nat.max_zero]
    split
    next hgt =>
      rw [UInt64.toNat_sub_of_le _ _ (UInt64.le_iff_toNat_le.mpr
        (Nat.le_of_lt (UInt64.lt_iff_toNat_lt.mp hgt)))]
    next hle =>
      rw [gt_iff_lt, UInt64.lt_iff_toNat_lt, Nat.not_lt] at hle
      exact (Nat.sub_eq_zero_of_le hle).symm

theorem At.next {thisPage : UInt64} {v v' : SegmentVars} (hat : At h thisPage v)
    (hfits : pageEnd thisPage < 2 ^ 64)
    (hwritten : v'.bytesWritten.toNat = min h.sizeInFile.toNat (pageEnd thisPage - h.reqVirtAddr.toNat))
    (hleft : v'.bytesToZero.toNat = h.sizeInMem.toNat -
      max h.sizeInFile.toNat (pageEnd thisPage - h.reqVirtAddr.toNat)) :
    At h (thisPage + memPageSize) { v' with offset := 0 } := by
  have hnext : (thisPage + memPageSize).toNat = pageEnd thisPage := by
    rw [pageEnd] at *
    rw [UInt64.toNat_add]
    simp only [memPageSize, UInt64.reduceToNat]
    omega
  have hsegment : h.reqVirtAddr.toNat ≤ pageEnd thisPage := by
    have hpos := hat.pos
    have hoffset := hat.offset
    have hle := Nat.le_max_left h.reqVirtAddr.toNat thisPage.toNat
    rw [pageEnd]
    omega
  refine ⟨add_memPageSize_aligned hat.aligned, Nat.succ_pos _, ?_, ?_, ?_⟩
  · rw [hnext]
    exact (Nat.max_eq_right hsegment).symm
  · rw [hnext]
    exact hwritten
  · rw [hnext]
    exact hleft

/-- The byte at an address of user memory has been written. -/
def Written (process : Nat) (t : MemState Spaces) (p : Nat → Option UInt8) (a : UInt64) : Prop :=
  ∃ q, t.spaces.frames (slotKey process a) = some q ∧ (p (q + a.toNat % 2097152)).isSome

/-- What has been written stays written. -/
theorem Written.later {p q : Nat → Option UInt8} {a : UInt64} (h : Written process t p a)
    (hlow : a.toNat < 2 ^ 47) (hkeeps : KeepsPages t t') : Written process t' (after q p) a := by
  obtain ⟨b, hb, hp⟩ := h
  exact ⟨b, hkeeps _ b (userSlot_low hlow) hb, after_isSome_right hp⟩

/-- **One page.**  The bytes of the segment that are in it are written, and the loop is at the next page. -/
theorem loadPage_blind {thisPage : UInt64} {v : SegmentVars} (hpages : UserPages process t)
    (haligned : thisPage.toNat % 2097152 = 0) (hlow : thisPage.toNat < 2 ^ 47) (ho : v.offset.toNat < 2097152) :
    Blind (runPages (loadPage image window current process h thisPage v) t) fun r p =>
      (UserPages process r.2 ∧ KeepsPages t r.2 ∧ r.1.offset = 0) ∧ (At h thisPage v →
        At h (thisPage + memPageSize) r.1 ∧ ∀ a, h.Covers a →
          a.toNat / 2097152 = thisPage.toNat / 2097152 → Written process r.2 p a) := by
  cases htake : (takePage window current process thisPage).run spaceCalls t with
  | none => exact .congr .fail fun ram => by rw [loadPage_run ho, htake, Option.bind_none]
  | some r =>
      obtain ⟨b, t'⟩ := r
      have htaken := takePage_spec hpages haligned hlow htake
      refine .congr (Blind.bind (copyBytes_blind image h thisPage b v) fun v' p hcopy =>
        .map (k := fun v'' => (({ v'' with offset := 0 } : SegmentVars), t'))
          (zeroBytes_blind h thisPage b v v') fun v'' q hzero =>
            ⟨⟨htaken.user, htaken.keeps, rfl⟩, fun hat => ?_⟩) fun ram => by
        rw [loadPage_run ho, htake, Option.bind_some]
        exact Option.map_eq_bind
      obtain ⟨hcopied, hcopiedBytes⟩ := hcopy hat hlow
      obtain ⟨hwritten, hleft, hzeroBytes⟩ := hzero hat hcopied
      have hfits : pageEnd thisPage < 2 ^ 64 := by
        unfold pageEnd
        omega
      refine ⟨hat.next hfits (by rw [hwritten]; exact hcopied.written) hleft, fun a hc hpage => ⟨b, ?_, ?_⟩⟩
      · rw [slotKey_of_page hpage, (slotKey_user process hlow).1]
        exact htaken.mapped
      · obtain ⟨hsum, hoffset⟩ := offset_le_of_page hat.aligned hat.pos hc.1 hpage
        by_cases hcopy : a.toNat % 2097152 < v'.offset.toNat
        · exact after_isSome_right (hcopiedBytes _ hoffset hcopy)
        · exact after_isSome_left (hzeroBytes _ (Nat.le_of_not_lt hcopy)
            (Nat.mod_lt _ (by decide)) (hsum.symm ▸ hc.lt))

/-- **The loop over the pages** writes what is left of the segment. -/
theorem loadPages_blind (hend : (h.reqVirtAddr + h.sizeInMem).toNat ≤ 2 ^ 47) (fuel : Nat) :
    ∀ (thisPage : UInt64) (v : SegmentVars) (t : MemState Spaces), thisPage.toNat % 2097152 = 0 →
      v.offset.toNat < 2097152 → UserPages process t →
        Blind (runPages (loadPages image window current process h fuel thisPage v) t) fun r p =>
          (UserPages process r.2 ∧ KeepsPages t r.2) ∧ (At h thisPage v → ∀ a, h.Covers a →
            thisPage.toNat / 2097152 ≤ a.toNat / 2097152 → Written process r.2 p a) := by
  induction fuel with
  | zero => exact fun _ _ _ _ _ _ => .fail
  | succ fuel ih =>
      intro thisPage v t haligned ho hpages
      by_cases hlt : thisPage < h.reqVirtAddr + h.sizeInMem
      · have hlow : thisPage.toNat < 2 ^ 47 := by
          rw [UInt64.lt_iff_toNat_lt] at hlt
          omega
        refine .congr ((loadPage_blind hpages haligned hlow ho).bind (g := fun r ram => runPages
          (loadPages image window current process h fuel (thisPage + memPageSize) r.1) r.2 ram) fun r p hpage =>
            (ih _ r.1 r.2 (add_memPageSize_aligned haligned) (hpage.1.2.2 ▸ Nat.succ_pos _) hpage.1.1).mono
              fun r' q hrest => ?_) fun ram => by rw [loadPages, if_pos hlt, runPages_bind]
        refine ⟨⟨hrest.1.1, hpage.1.2.1.trans hrest.1.2⟩, fun hat a hc hle => ?_⟩
        obtain ⟨hat', hbytes⟩ := hpage.2 hat
        by_cases heq : a.toNat / 2097152 = thisPage.toNat / 2097152
        · exact (hbytes a hc heq).later hc.2.2 hrest.1.2
        · have hnext : (thisPage + memPageSize).toNat / 2097152 ≤ a.toNat / 2097152 := by
            rw [UInt64.toNat_add]
            simp only [memPageSize, UInt64.reduceToNat]
            omega
          obtain ⟨b, hb, hq⟩ := hrest.2 hat' a hc hnext
          exact ⟨b, hb, after_isSome_left hq⟩
      · refine .congr (.pure (s := ((), t)) ⟨⟨hpages, .refl t⟩, fun _ a hc hle => ?_⟩) fun ram => by
          rw [loadPages, if_neg hlt, runPages_pure]
        -- the page is behind the end of the segment
        have := hc.2.1
        rw [UInt64.lt_iff_toNat_lt] at hlt
        omega

/-- **One segment.** -/
theorem loadSegment_blind (fuel : Nat) {h : Elf64ProgramHeader} (hlow : h.Low) (hpages : UserPages process t) :
    Blind (runPages (loadSegment image window current process fuel h) t) fun r p =>
      (UserPages process r.2 ∧ KeepsPages t r.2) ∧
        (h.type = 1 → ∀ a, h.Covers a → Written process r.2 p a) := by
  unfold loadSegment
  by_cases htype : h.type = 1
  · simp only [if_pos htype]
    by_cases hphys : h.reqPhysAddr < 0x8000000000000000
    · simp only [if_pos hphys]
      have hat := at_start h
      refine (loadPages_blind (hlow htype) fuel _ _ t hat.aligned hat.offset hpages).mono fun r p hloaded =>
        ⟨hloaded.1, fun _ a hc => hloaded.2 hat a hc ?_⟩
      have hle := hc.1
      rw [firstPage_toNat]
      exact Nat.div_le_div_right ((Nat.sub_le _ _).trans hle)
    · simp only [if_neg hphys]
      exact .fail
  · simp only [if_neg htype]
    exact .pure (s := ((), t)) ⟨⟨hpages, .refl t⟩, fun h1 => absurd h1 htype⟩

/-- **The loop over the program headers.** -/
theorem procLoadElfFile_blind (fuel : Nat) : ∀ (progHeaders : List Elf64ProgramHeader) (t : MemState Spaces),
    (∀ h ∈ progHeaders, h.Low) → UserPages process t →
      Blind (runPages (procLoadElfFile image window current process fuel progHeaders) t) fun r p =>
        (UserPages process r.2 ∧ KeepsPages t r.2) ∧
          ∀ h ∈ progHeaders, h.type = 1 → ∀ a, h.Covers a → Written process r.2 p a
  | [], t, _, hpages => .pure (s := ((), t)) ⟨⟨hpages, .refl t⟩, fun _ hmem => absurd hmem List.not_mem_nil⟩
  | h :: progHeaders, t, hlow, hpages => by
      refine .congr ((loadSegment_blind fuel (hlow h List.mem_cons_self) hpages).bind (g := fun r ram =>
        runPages (procLoadElfFile image window current process fuel progHeaders) r.2 ram) fun r p hsegment =>
          (procLoadElfFile_blind fuel progHeaders r.2 (fun h' hmem => hlow h' (List.mem_cons_of_mem h hmem))
            hsegment.1.1).mono fun r' q hrest =>
              ⟨⟨hrest.1.1, hsegment.1.2.trans hrest.1.2⟩, fun h' hmem htype a hc => ?_⟩) fun ram => by
        rw [procLoadElfFile, runPages_bind]
      rcases List.mem_cons.mp hmem with rfl | hmem
      · exact (hsegment.2 htype a hc).later hc.2.2 hrest.1.2
      · obtain ⟨b, hb, hq⟩ := hrest.2 h' hmem htype a hc
        exact ⟨b, hb, after_isSome_left hq⟩

end

/-! ### Two runs -/

section
variable {α : Type} {s s₁ s₂ : MemState Mapping} {process : Nat} {p : Prog LoadCall α}

/-- The same computer, with other contents of physical pages without tables. -/
def Recycled (s₁ s₂ : MemState Mapping) : Prop :=
  ∃ mem, (∀ x, mem x ≠ s₁.spaces.paging.mem x → s₁.view.spaces.HoldsNoTable (x / sizeOfPage)) ∧
    s₂ = { s₁ with spaces := s₁.spaces.withMem mem }

/-- Two runs end with the same result and the same pages mapped.  Afterwards every byte of a physical page
without tables is the same in both, or what it was before in each; and the bytes that are `covered` read the
same. -/
structure Alike (s₁ s₂ : MemState Mapping) (run₁ run₂ : Option (α × MemState Mapping)) (process : Nat)
    (covered : UInt64 → Prop) : Prop where
  ends : run₁.map (fun r => (r.1, r.2.view)) = run₂.map fun r => (r.1, r.2.view)
  bytes : ∀ a s₁' s₂', run₁ = some (a, s₁') → run₂ = some (a, s₂') →
    ∀ x, s₁'.view.spaces.HoldsNoTable (x / sizeOfPage) →
      bytesOf s₁' x = bytesOf s₂' x ∨ bytesOf s₁' x = bytesOf s₁ x ∧ bytesOf s₂' x = bytesOf s₂ x
  reads : ∀ a s₁' s₂', run₁ = some (a, s₁') → run₂ = some (a, s₂') →
    ∀ a, covered a → readByte process a s₁' (bytesOf s₁') = readByte process a s₂' (bytesOf s₂')

theorem Recycled.views (h : Recycled s₁ s₂) (hok : s₁.spaces.Ok) : s₂.spaces.Ok ∧ s₂.view = s₁.view := by
  obtain ⟨mem, hmem, rfl⟩ := h
  obtain ⟨hok', hview⟩ := hok.withMem hmem
  exact ⟨hok', congrArg (MemState.mk · s₁.ranges) hview⟩

/-- What a process reads in its memory is found in the pages that are mapped. -/
theorem readByte_view {a : UInt64} {ram : Bytes} (hlow : a.toNat < 2 ^ 47) : readByte process a s ram =
    (s.view.spaces.frames (slotKey process a)).map fun q => ram (q + a.toNat % 2097152) := by
  have hne : slotKey process a ≠ windowKey := by
    intro heq
    have huser : UserSlot (slotKey process a) := userSlot_low hlow
    rw [heq] at huser
    exact absurd huser (by unfold UserSlot; decide)
  rw [readByte, if_pos hlow]
  change _ = (s.spaces.view.frames (slotKey process a)).map _
  rw [view_translate hne, Option.map_map]
  rfl

/-- A run on page tables, and the run on address spaces. -/
theorem run_shows (hok : s.spaces.Ok) (hempty : p.Along loadCalls LoadCall.TakesEmpty s)
    (hagrees : ∀ ram, p.Along pageCalls LoadCall.Agrees (s.view, ram)) :
    (p.run loadCalls s).map (fun r => (r.1, r.2.view)) = (runPages p s.view (bytesOf s)).map (·.1) ∧
      ∀ a s', p.run loadCalls s = some (a, s') →
        ∃ ram', runPages p s.view (bytesOf s) = some ((a, s'.view), ram') ∧ s'.spaces.Shows ram' := by
  have hagree : Agree Holds (p.run loadCalls s) (p.run pageCalls (s.view, bytesOf s)) :=
    load_simulate.run p ⟨⟨hok, rfl⟩, fun _ _ => rfl⟩ hempty (hagrees _)
  constructor
  · rw [runPages, Option.map_map]
    generalize p.run loadCalls s = x, p.run pageCalls (s.view, bytesOf s) = y at hagree
    cases hagree with
    | none => rfl
    | some hr => exact congrArg some (Prod.ext hr.1 hr.2.1.2)
  · intro a s' hs
    obtain ⟨⟨t, ram'⟩, ht, ⟨-, rfl⟩, hshows⟩ := hagree.eq_some hs
    exact ⟨ram', runPages_eq_some.mpr ht, hshows⟩

/-- What does not depend on the contents of pages is alike. -/
theorem alike_of_blind {covered : UInt64 → Prop} (hok : s₁.spaces.Ok) (hsame : Recycled s₁ s₂)
    (hempty₁ : p.Along loadCalls LoadCall.TakesEmpty s₁) (hempty₂ : p.Along loadCalls LoadCall.TakesEmpty s₂)
    (hagrees : ∀ ram, p.Along pageCalls LoadCall.Agrees (s₁.view, ram))
    (hblind : Blind (runPages p s₁.view) fun r q => ∀ a, covered a →
      a.toNat < 2 ^ 47 ∧ UserPages process r.2 ∧ Written process r.2 q a) :
    Alike s₁ s₂ (p.run loadCalls s₁) (p.run loadCalls s₂) process covered := by
  obtain ⟨hok₂, hview⟩ := hsame.views hok
  obtain ⟨hends₁, hruns₁⟩ := run_shows hok hempty₁ hagrees
  obtain ⟨hends₂, hruns₂⟩ := run_shows hok₂ hempty₂ (hview ▸ hagrees)
  rw [hview] at hends₂ hruns₂
  obtain ⟨hsameEnd, hboth⟩ := hblind.two_runs (bytesOf s₁) (bytesOf s₂)
  -- the bytes that the two runs leave
  have hleft : ∀ a s₁' s₂', p.run loadCalls s₁ = some (a, s₁') → p.run loadCalls s₂ = some (a, s₂') →
      s₂'.view = s₁'.view ∧ ∃ ram₁ ram₂ q, s₁'.spaces.Shows ram₁ ∧ s₂'.spaces.Shows ram₂ ∧
        (∀ a, covered a → a.toNat < 2 ^ 47 ∧ UserPages process s₁'.view ∧ Written process s₁'.view q a) ∧
        ∀ x, ((q x).isSome → ram₁ x = ram₂ x) ∧ (q x = none → ram₁ x = bytesOf s₁ x ∧ ram₂ x = bytesOf s₂ x) := by
    intro a s₁' s₂' h₁ h₂
    obtain ⟨ram₁, hrun₁, hshows₁⟩ := hruns₁ a s₁' h₁
    obtain ⟨ram₂, hrun₂, hshows₂⟩ := hruns₂ a s₂' h₂
    rw [hrun₁, hrun₂, Option.map_some, Option.map_some, Option.some.injEq, Prod.mk.injEq] at hsameEnd
    rw [← hsameEnd.2] at hrun₂
    obtain ⟨q, hwritten, hbytes⟩ := hboth _ _ _ hrun₁ hrun₂
    exact ⟨hsameEnd.2.symm, ram₁, ram₂, q, hshows₁, hshows₂, hwritten, hbytes⟩
  refine ⟨hends₁.trans (hsameEnd.trans hends₂.symm), fun a s₁' s₂' h₁ h₂ x hno => ?_,
    fun a s₁' s₂' h₁ h₂ a ha => ?_⟩
  · obtain ⟨hview', ram₁, ram₂, q, hshows₁, hshows₂, -, hbytes⟩ := hleft a s₁' s₂' h₁ h₂
    have hno₂ : s₂'.view.spaces.HoldsNoTable (x / sizeOfPage) := hview' ▸ hno
    rw [bytesOf, bytesOf, hshows₁ x hno, hshows₂ x hno₂]
    cases hx : q x with
    | none => exact .inr ((hbytes x).2 hx)
    | some b => exact .inl ((hbytes x).1 (by rw [hx]; rfl))
  · obtain ⟨hview', ram₁, ram₂, q, hshows₁, hshows₂, hwritten, hbytes⟩ := hleft _ s₁' s₂' h₁ h₂
    obtain ⟨hlow, huser, b, hb, hsome⟩ := hwritten a ha
    rw [readByte_view hlow, readByte_view hlow, hview', hb, Option.map_some, Option.map_some]
    -- the page is one of the process's own, which holds no table
    obtain ⟨hkey, hk⟩ := slotKey_user process hlow
    obtain ⟨n, hheld⟩ := huser.held _ b hk (hkey ▸ hb)
    have hdiv : (b + a.toNat % 2097152) / sizeOfPage = n := by
      have := hheld.held.2.1
      rw [sizeOfPage] at this ⊢
      omega
    have hno : s₁'.view.spaces.HoldsNoTable ((b + a.toNat % 2097152) / sizeOfPage) := hdiv ▸ hheld.noTable
    have hno₂ : s₂'.view.spaces.HoldsNoTable ((b + a.toNat % 2097152) / sizeOfPage) := hview' ▸ hno
    rw [bytesOf, bytesOf, hshows₁ _ hno, hshows₂ _ hno₂, (hbytes _).1 hsome]

end

/-- A word has been left in a page that is free. -/
def leftWord (x : Nat) (word : BitVec 64) : MemState Mapping :=
  { bootMemory with spaces := bootMapping.withMem (update bootMapping.paging.mem x word) }

theorem bootMemory_private : PrivatePages 1 bootMemory.view := by
  have hnone : ∀ k p, k < 2 ^ 26 → bootMemory.view.spaces.frames (1, k) ≠ some p := by
    intro k p _ hp
    change bootMapping.view.frames (1, k) = some p at hp
    rw [bootMapping_frames fun heq => Nat.one_ne_zero (congrArg Prod.fst heq)] at hp
    cases hp
  exact ⟨⟨bootMemory_ok, fun k p hk hp => absurd hp (hnone k p hk)⟩,
    fun j k p hj _ hp => absurd hp (hnone j p hj)⟩

theorem leftWord_free {x y : Nat} {word : BitVec 64}
    (hfree : Bitmaps.bit bootMemory.view.spaces.phys.alloc (x / sizeOfPage) = true)
    (hy : update bootMapping.paging.mem x word y ≠ bootMapping.paging.mem y) :
    Bitmaps.bit bootMemory.view.spaces.phys.alloc (y / sizeOfPage) = true := by
  have hyx : y = x := by
    by_contra hne
    exact hy (update_of_ne hne ..)
  rwa [hyx]

theorem leftWord_recycled (x : Nat) (word : BitVec 64) (hx : x / sizeOfPage < memMaxSupportedPages)
    (hfree : Bitmaps.bit bootMemory.view.spaces.phys.alloc (x / sizeOfPage) = true) :
    Recycled bootMemory (leftWord x word) := by
  refine ⟨_, fun y hy => ⟨fun place t ht hpage => ?_, fun hne => absurd rfl hne⟩, rfl⟩
  have hyx : y = x := by
    by_contra hne
    exact hy (update_of_ne hne ..)
  subst hyx
  have hused := bootMemory_ok.order.tables place t ht (by rw [hpage]; exact hx)
  rw [hpage, hfree] at hused
  cases hused

/-- A segment with data. -/
def oneSegment : ElfImage where
  progHeaders := [⟨1, 0x1000, 0x400010, 0, 2, 4⟩]
  loadBuffer a := UInt8.ofNat a.toNat

end Azalea.Proc
