import Mathlib.Order.MinMax
import Azalea.Proc.RecycledPages

/-!
# Proc — what a loaded program finds in its memory

The loop of `proc_load_elf_file` over the program headers, for segments that are in user memory: each of the
pages they touch is taken once (`takePage`), and what is written to it is the part of the segment that lies
in it, the bytes of the file and then zeroes (`fillPage`).

* `procLoadElfFile_contents`: where empty pages become tables, the loop gets to its end if the memory manager
  grants the pages.  The process finds the segments as the file has them, and every byte outside of them as it
  was.
-/

namespace Azalea.Proc
open Azalea.Mem Azalea.Memory Azalea.Programs Azalea.Syscall Function

/-- The byte at an offset in a segment. -/
def segmentByte (image : ElfImage) (h : Elf64ProgramHeader) (k : Nat) : UInt8 :=
  if k < h.sizeInFile.toNat then image.loadBuffer (h.fileOffset + UInt64.ofNat k) else 0

/-- The part of a segment that lies in a page is written to the physical page. -/
def fillPage (image : ElfImage) (h : Elf64ProgramHeader) (thisPage : UInt64) (backingAddr : Nat)
    (ram : Bytes) : Bytes := fun x =>
  if backingAddr ≤ x ∧ x < backingAddr + 2097152 ∧ h.reqVirtAddr.toNat ≤ thisPage.toNat + (x - backingAddr) ∧
      thisPage.toNat + (x - backingAddr) < h.reqVirtAddr.toNat + h.sizeInMem.toNat then
    segmentByte image h (thisPage.toNat + (x - backingAddr) - h.reqVirtAddr.toNat)
  else ram x

section
variable {image : ElfImage} {h : Elf64ProgramHeader} {thisPage : UInt64} {v v' : SegmentVars}

/-- What is left of the page or of the file. -/
theorem copyLength_eq (hat : At h thisPage v) (hfits : pageEnd thisPage < 2 ^ 64)
    (hend : h.reqVirtAddr.toNat + h.sizeInFile.toNat < 2 ^ 64)
    (hleft : v.bytesWritten.toNat < h.sizeInFile.toNat) :
    (copyLength (h.reqVirtAddr + h.sizeInFile) thisPage v.offset).toNat =
      min (2097152 - v.offset.toNat) (h.sizeInFile.toNat - v.bytesWritten.toNat) := by
  have hoffset := hat.offset
  have hpos := hat.pos
  have hwritten := hat.written
  have hsub : (memPageSize - v.offset).toNat = 2097152 - v.offset.toNat := by
    rw [UInt64.toNat_sub_of_le _ _ (UInt64.le_iff_toNat_le.mpr (Nat.le_of_lt hoffset))]
    rfl
  have hpageEnd : (thisPage + v.offset + (memPageSize - v.offset)).toNat = thisPage.toNat + 2097152 := by
    rw [pageEnd] at hfits
    rw [UInt64.toNat_add, UInt64.toNat_add, hsub]
    omega
  have hcopyEnd : (h.reqVirtAddr + h.sizeInFile).toNat = h.reqVirtAddr.toNat + h.sizeInFile.toNat := by
    rw [UInt64.toNat_add, Nat.mod_eq_of_lt hend]
  have hrest : (h.reqVirtAddr + h.sizeInFile - thisPage - v.offset).toNat =
      h.sizeInFile.toNat - v.bytesWritten.toNat := toNat_copyEnd_sub (by omega) (by omega)
  simp only [copyLength, gt_iff_lt, UInt64.lt_iff_toNat_lt, hpageEnd, hcopyEnd]
  split
  next => rw [hrest]; omega
  next => rw [hsub]; omega

theorem add_ofNat_toNat (a b : UInt64) (i : Nat) :
    a + b + UInt64.ofNat i = a + UInt64.ofNat (b.toNat + i) := by
  rw [UInt64.ofNat_add, UInt64.ofNat_toNat, UInt64.add_assoc]

/-- Copying, in numbers: while file is left, what was written so far ends where the position is. -/
theorem copied_at {P o R F W b x : Nat} (hpos : P + o = max R P) (hwritten : W = min F (P + o - R))
    (hlt : W < F) (hx : b + o ≤ x) : W + (x - (b + o)) = P + (x - b) - R := by
  omega

/-- The bytes of the file that belong on the page are copied. -/
theorem copyBytes_eq (image : ElfImage) (hat : At h thisPage v) (hfits : pageEnd thisPage < 2 ^ 64)
    (hend : h.reqVirtAddr.toNat + h.sizeInFile.toNat < 2 ^ 64) :
    ∃ v', Copied h thisPage v v' ∧ ∀ b ram, copyBytes image h thisPage b v ram =
      some (v', fun x => if b + v.offset.toNat ≤ x ∧ x < b + v'.offset.toNat then
          image.loadBuffer (h.fileOffset + UInt64.ofNat (thisPage.toNat + (x - b) - h.reqVirtAddr.toNat))
        else ram x) := by
  have hoffset := hat.offset
  have hpos := hat.pos
  have hwritten := hat.written
  have hsize := h.sizeInFile.toNat_lt
  by_cases hleft : v.bytesWritten < h.sizeInFile
  · have hlt := UInt64.lt_iff_toNat_lt.mp hleft
    have hlength := copyLength_eq hat hfits hend hlt
    obtain ⟨hle, hpos', hwritten'⟩ := copied_arith rfl hoffset hpos hwritten hlt hlength
    have hcode : ∀ b ram, copyBytes image h thisPage b v ram =
        let length := copyLength (h.reqVirtAddr + h.sizeInFile) thisPage v.offset
        if v.offset.toNat + length.toNat ≤ 2097152 then
          some ({ v with bytesWritten := v.bytesWritten + length, offset := v.offset + length },
            blit ram (b + v.offset.toNat) (fileBytes image h v) 0 length.toNat)
        else none :=
      fun b ram => if_pos hleft
    generalize copyLength (h.reqVirtAddr + h.sizeInFile) thisPage v.offset = length at *
    have hsum : (v.offset + length).toNat = v.offset.toNat + length.toNat := by
      rw [UInt64.toNat_add]
      omega
    have hsum' : (v.bytesWritten + length).toNat = v.bytesWritten.toNat + length.toNat := by
      rw [UInt64.toNat_add]
      omega
    refine ⟨{ v with bytesWritten := v.bytesWritten + length, offset := v.offset + length },
      ⟨rfl, hsum ▸ hle, hsum ▸ hpos', hsum' ▸ hwritten'⟩, fun b ram => ?_⟩
    rw [hcode]
    dsimp only
    rw [if_pos hle]
    refine congrArg (fun ram => some (_, ram)) (funext fun x => ?_)
    simp only [blit, fileBytes, hsum, add_ofNat_toNat, Nat.add_assoc, Nat.zero_add]
    split
    next hin =>
      have hk : v.bytesWritten.toNat + (x - (b + v.offset.toNat)) =
          thisPage.toNat + (x - b) - h.reqVirtAddr.toNat := copied_at hpos hwritten hlt hin.1
      exact congrArg (fun k => image.loadBuffer (h.fileOffset + UInt64.ofNat k)) hk
    next => rfl
  · have hnot := mt UInt64.lt_iff_toNat_lt.mpr hleft
    obtain ⟨hpos', hwritten'⟩ := copied_done rfl hoffset hpos hwritten hnot
    refine ⟨v, ⟨rfl, Nat.le_of_lt hoffset, hpos', hwritten'⟩, fun b ram => ?_⟩
    have hcode : copyBytes image h thisPage b v ram = some (v, ram) := if_neg hleft
    rw [hcode]
    refine congrArg (fun ram => some (v, ram)) (funext fun x => ?_)
    rw [if_neg (by omega)]

/-- Zeroing, in numbers: the zeroes end where the segment ends. -/
theorem zeroed_end {P E o o' R F S W Z N k : Nat} (hE : E = P + 2097152) (hpos : P + o = max R P)
    (hZ : Z = S - max F (P + o - R)) (hpos' : P + o' = max (P + o) (min E (R + F)))
    (hW : W = min F (E - R)) (hall : F ≤ W) (hN : N = min (2097152 - o') Z) (hk : o' ≤ k)
    (hlt : k < o' + N) : k < 2097152 ∧ P + k < R + S := by
  omega

/-- What is left of the segment on the page is filled with zeroes. -/
theorem zeroBytes_eq (hat : At h thisPage v) (hcopied : Copied h thisPage v v') :
    ∃ v'' : SegmentVars, v''.bytesWritten = v'.bytesWritten ∧
      v''.bytesToZero.toNat = h.sizeInMem.toNat -
        max h.sizeInFile.toNat (pageEnd thisPage - h.reqVirtAddr.toNat) ∧
      ∀ b ram, zeroBytes h b v' ram = (v'', fun x =>
        if b + v'.offset.toNat ≤ x ∧ x < b + 2097152 ∧
          thisPage.toNat + (x - b) < h.reqVirtAddr.toNat + h.sizeInMem.toNat then 0
        else ram x) := by
  have hleft := hat.left
  rw [← hcopied.left] at hleft
  by_cases hzero : Zeroes h v'
  · have hcode : ∀ b ram, zeroBytes h b v' ram =
        ({ v' with bytesToZero := v'.bytesToZero - zeroLength v' },
          blit ram (b + v'.offset.toNat) (fun _ => 0) 0 (zeroLength v').toNat) :=
      fun b ram => if_pos hzero
    obtain ⟨hall, -, hroom⟩ := hzero
    rw [ge_iff_le, UInt64.le_iff_toNat_le] at hall
    have hroom : v'.offset.toNat < 2097152 := UInt64.lt_iff_toNat_lt.mp hroom
    have hnow := zeroLength_toNat hroom
    obtain ⟨hle, hleft', hbytes⟩ :=
      zeroed_arith rfl hat.pos hleft hcopied.pos hcopied.written hall hroom hnow
    refine ⟨{ v' with bytesToZero := v'.bytesToZero - zeroLength v' }, rfl, ?_, fun b ram => ?_⟩
    · rw [UInt64.toNat_sub_of_le _ _ (UInt64.le_iff_toNat_le.mpr hle)]
      exact hleft'
    · rw [hcode]
      refine congrArg (Prod.mk _) (funext fun x => if_congr ?_ rfl rfl)
      constructor
      · rintro ⟨hge, hlt⟩
        obtain ⟨hpage, hsegment⟩ := zeroed_end (k := x - b) rfl hat.pos hleft hcopied.pos
          hcopied.written hall hnow (by omega) (by omega)
        exact ⟨hge, by omega, hsegment⟩
      · rintro ⟨hge, hlt, hsegment⟩
        have hin := hbytes (x - b) (by omega) (by omega) hsegment
        exact ⟨hge, by omega⟩
  · have hcode : ∀ b ram, zeroBytes h b v' ram = (v', ram) := fun b ram => if_neg hzero
    simp only [Zeroes, memPageSize, ge_iff_le, UInt64.le_iff_toNat_le, UInt64.lt_iff_toNat_lt, ne_eq,
      ← UInt64.toNat_inj, not_and_or, not_not] at hzero
    obtain ⟨hleft', hbytes⟩ :=
      zeroed_none rfl hat.pos hleft hcopied.offset hcopied.pos hcopied.written hzero
    refine ⟨v', rfl, hleft', fun b ram => ?_⟩
    rw [hcode]
    refine congrArg (Prod.mk v') (funext fun x => ?_)
    rw [if_neg]
    rintro ⟨hge, hlt, hsegment⟩
    exact hbytes (x - b) (by omega) (by omega) hsegment

/-- The file's bytes, the zeroes and the rest of the page. -/
theorem page_bytes {P o o' R F S k : Nat} (hpos : P + o = max R P) (ho' : o' ≤ 2097152)
    (hpos' : P + o' = max (P + o) (min (P + 2097152) (R + F))) (hFS : F ≤ S) :
    ((o' ≤ k ∧ k < 2097152 ∧ P + k < R + S) →
      k < 2097152 ∧ R ≤ P + k ∧ P + k < R + S ∧ ¬ P + k - R < F) ∧
    ((o ≤ k ∧ k < o') → k < 2097152 ∧ R ≤ P + k ∧ P + k < R + S ∧ P + k - R < F) ∧
    ((k < 2097152 ∧ R ≤ P + k ∧ P + k < R + S) →
      (o' ≤ k ∧ k < 2097152 ∧ P + k < R + S) ∨ (o ≤ k ∧ k < o')) := by
  have hstart : o = R - P := by
    clear hpos' ho' hFS
    omega
  have hoo : o ≤ o' := by
    have := Nat.le_max_left (P + o) (min (P + 2097152) (R + F))
    omega
  have hfile : o ≤ k → (k < o' ↔ k < 2097152 ∧ P + k < R + F) := by
    intro hk
    have hlt : P + k < P + o' ↔ P + k < P + o ∨ P + k < P + 2097152 ∧ P + k < R + F := by
      rw [hpos', lt_max_iff, lt_min_iff]
    omega
  have hin : o ≤ k ↔ R ≤ P + k := by
    clear hpos hpos'
    omega
  clear hpos hpos' hstart
  refine ⟨?_, ?_, ?_⟩
  · rintro ⟨hk, hpage, hmem⟩
    have hok : o ≤ k := Nat.le_trans hoo hk
    have hpast := mt (hfile hok).mpr (Nat.not_lt.mpr hk)
    exact ⟨hpage, hin.mp hok, hmem, by omega⟩
  · rintro ⟨hok, hk⟩
    obtain ⟨hpage, hlt⟩ := (hfile hok).mp hk
    have := hin.mp hok
    exact ⟨hpage, this, by omega, by omega⟩
  · rintro ⟨hpage, hR, hmem⟩
    rcases Nat.lt_or_ge k o' with hk | hk
    · exact .inr ⟨hin.mpr hR, hk⟩
    · exact .inl ⟨hk, hpage, hmem⟩

/-- **One page.**  The part of the segment that lies in it is written, and the loop is at the next page. -/
theorem loadPage_eq (image : ElfImage) (window : KernelPage) (current process : Nat)
    (hat : At h thisPage v) (hlow : thisPage.toNat < 2 ^ 47)
    (hsizes : h.sizeInFile.toNat ≤ h.sizeInMem.toNat)
    (hend : h.reqVirtAddr.toNat + h.sizeInMem.toNat < 2 ^ 64) :
    ∃ v', At h (thisPage + memPageSize) v' ∧ ∀ t ram,
      runPages (loadPage image window current process h thisPage v) t ram =
        ((takePage window current process thisPage).run spaceCalls t).map fun r =>
          ((v', r.2), fillPage image h thisPage r.1 ram) := by
  have hfits : pageEnd thisPage < 2 ^ 64 := by
    unfold pageEnd
    omega
  obtain ⟨v', hcopied, hcopy⟩ := copyBytes_eq image hat hfits (by omega)
  obtain ⟨v'', hwritten, hleft, hzero⟩ := zeroBytes_eq hat hcopied
  refine ⟨{ v'' with offset := 0 }, hat.next hfits (by rw [hwritten]; exact hcopied.written) hleft, ?_⟩
  intro t ram
  rw [loadPage_run hat.offset]
  cases (takePage window current process thisPage).run spaceCalls t with
  | none => rfl
  | some r =>
      obtain ⟨b, t'⟩ := r
      simp only [Option.bind_some, hcopy, hzero, Option.map_some]
      refine congrArg (fun ram => some ((_, t'), ram)) (funext fun x => ?_)
      unfold fillPage
      rcases Nat.lt_or_ge x b with hbefore | hge
      · rw [if_neg (by omega), if_neg (by omega), if_neg (by omega)]
      · obtain ⟨k, rfl⟩ := Nat.exists_eq_add_of_le hge
        obtain ⟨hzeroes, hfile, hrest⟩ := page_bytes (k := k) hat.pos hcopied.offset hcopied.pos hsizes
        simp only [Nat.add_sub_cancel_left, Nat.add_le_add_iff_left, Nat.add_lt_add_iff_left, hge,
          true_and, segmentByte]
        split
        next hin =>
          obtain ⟨hpage, hstart, hsegment, hpast⟩ := hzeroes hin
          rw [if_pos ⟨hpage, hstart, hsegment⟩, if_neg hpast]
        next hnot =>
          split
          next hin =>
            obtain ⟨hpage, hstart, hsegment, hfile⟩ := hfile hin
            rw [if_pos ⟨hpage, hstart, hsegment⟩, if_pos hfile]
          next hnot' =>
            rw [if_neg fun hin => (hrest hin).elim hnot hnot']

end

/-! ### The loops -/

/-- The address is in the segment. -/
def Elf64ProgramHeader.Contains (h : Elf64ProgramHeader) (a : UInt64) : Prop :=
  h.reqVirtAddr.toNat ≤ a.toNat ∧ a.toNat < h.reqVirtAddr.toNat + h.sizeInMem.toNat

instance (h : Elf64ProgramHeader) (a : UInt64) : Decidable (h.Contains a) :=
  inferInstanceAs (Decidable (_ ∧ _))

/-- A LOAD segment of a valid file: it is no larger in the file than in memory, and is in user memory. -/
structure Elf64ProgramHeader.Loadable (h : Elf64ProgramHeader) : Prop where
  phys : h.reqPhysAddr < 0x8000000000000000
  sizes : h.sizeInFile.toNat ≤ h.sizeInMem.toNat
  low : h.reqVirtAddr.toNat + h.sizeInMem.toNat ≤ 2 ^ 47

def pagesFrom : Nat → UInt64 → List UInt64
  | 0, _ => []
  | n + 1, thisPage => thisPage :: pagesFrom n (thisPage + memPageSize)

/-- The pages that a segment touches. -/
def Elf64ProgramHeader.pages (h : Elf64ProgramHeader) : List UInt64 :=
  if h.type = 1 then
    pagesFrom ((h.reqVirtAddr.toNat % 2097152 + h.sizeInMem.toNat + 2097151) / 2097152)
      (h.reqVirtAddr - h.reqVirtAddr % memPageSize)
  else []

/-- One page after the other is taken. -/
def takePages (window : KernelPage) (current process : Nat) : List UInt64 → Prog MemCall Unit
  | [] => pure ()
  | thisPage :: pages => do
      let _ ← takePage window current process thisPage
      takePages window current process pages

/-- What a process reads, as the pages are mapped. -/
def pageByte (process : Nat) (a : UInt64) (t : MemState Spaces) (ram : Bytes) : Option UInt8 :=
  (t.spaces.frames (process, a.toNat / 2097152)).map fun p => ram (p + a.toNat % 2097152)

/-- What the process reads is what was loaded where `loaded` is, and else what was in the pages before;
also when more pages are mapped in the meantime. -/
def Leaves (process : Nat) (loaded : UInt64 → Option UInt8) (t' : MemState Spaces) (ram ram' : Bytes) : Prop :=
  ∀ t'', PrivatePages process t'' → KeepsPages t' t'' → ∀ a : UInt64, a.toNat < 2 ^ 47 →
    pageByte process a t'' ram' = (loaded a).or (pageByte process a t'' ram)

section
variable {image : ElfImage} {window : KernelPage} {current process : Nat} {h : Elf64ProgramHeader}
  {t t' : MemState Spaces} {ram ram' : Bytes} {thisPage : UInt64} {b : Nat}

/-- What the process reads after a page has been filled. -/
theorem pageByte_fillPage (image : ElfImage) (h : Elf64ProgramHeader) (hpages : PrivatePages process t)
    (haligned : thisPage.toNat % 2097152 = 0) (hpage : thisPage.toNat < 2 ^ 47)
    (hframe : t.spaces.frames (process, thisPage.toNat / 2097152) = some b) (ram : Bytes)
    {a : UInt64} (hlow : a.toNat < 2 ^ 47) :
    pageByte process a t (fillPage image h thisPage b ram) =
      if a.toNat / 2097152 = thisPage.toNat / 2097152 ∧ h.Contains a then
        some (segmentByte image h (a.toNat - h.reqVirtAddr.toNat))
      else pageByte process a t ram := by
  unfold pageByte
  by_cases hsame : a.toNat / 2097152 = thisPage.toNat / 2097152
  · have haddr : thisPage.toNat + a.toNat % 2097152 = a.toNat := by omega
    have hmod := Nat.mod_lt a.toNat (by decide : 0 < 2097152)
    simp only [hsame, hframe, Option.map_some, true_and, fillPage, Nat.add_sub_cancel_left, haddr,
      Nat.le_add_right, Nat.add_lt_add_iff_left, hmod, Elf64ProgramHeader.Contains]
    split <;> rfl
  · rw [if_neg fun hin => hsame hin.1]
    cases hother : t.spaces.frames (process, a.toNat / 2097152) with
    | none => rfl
    | some q =>
        obtain ⟨m, ⟨-, hq, -⟩, -⟩ := hpages.held _ q (by omega) hother
        obtain ⟨n, ⟨-, hb, -⟩, -⟩ := hpages.held _ b (by omega) hframe
        have hne : q ≠ b := by
          rintro rfl
          exact hsame (hpages.inj _ _ q (by omega) (by omega) hother hframe)
        have hmn : m ≠ n := fun heq => hne (by rw [hq, hb, heq])
        have hout : fillPage image h thisPage b ram (q + a.toNat % 2097152) =
            ram (q + a.toNat % 2097152) := by
          refine if_neg ?_
          rw [hq, hb, sizeOfPage]
          omega
        simp only [Option.map_some, hout]

theorem Leaves.refl : Leaves process (fun _ => none) t ram ram := fun _ _ _ _ _ => rfl

theorem Leaves.congr {f g : UInt64 → Option UInt8} (hleaves : Leaves process f t' ram ram')
    (hfg : ∀ a : UInt64, a.toNat < 2 ^ 47 → f a = g a) : Leaves process g t' ram ram' :=
  fun t'' hpages hkeeps a hlow => (hfg a hlow) ▸ hleaves t'' hpages hkeeps a hlow

/-- First the one and then the other is loaded. -/
theorem Leaves.trans {f g : UInt64 → Option UInt8} {ram'' : Bytes} (hf : Leaves process f t ram ram')
    (hg : Leaves process g t' ram' ram'') (hkeeps : KeepsPages t t') :
    Leaves process (fun a => (g a).or (f a)) t' ram ram'' := by
  intro t'' hpages hkeeps' a hlow
  rw [hg t'' hpages hkeeps' a hlow, hf t'' hpages (hkeeps.trans hkeeps') a hlow, Option.or_assoc]

/-- The bytes of a segment from a page on. -/
def segmentFrom (image : ElfImage) (h : Elf64ProgramHeader) (thisPage : UInt64) (a : UInt64) :
    Option UInt8 :=
  if h.Contains a ∧ thisPage.toNat / 2097152 ≤ a.toNat / 2097152 then
    some (segmentByte image h (a.toNat - h.reqVirtAddr.toNat))
  else none

theorem leaves_fillPage (image : ElfImage) (h : Elf64ProgramHeader)
    (haligned : thisPage.toNat % 2097152 = 0) (hpage : thisPage.toNat < 2 ^ 47)
    (hframe : t.spaces.frames (process, thisPage.toNat / 2097152) = some b) (ram : Bytes) :
    Leaves process (fun a => if a.toNat / 2097152 = thisPage.toNat / 2097152 ∧ h.Contains a then
      some (segmentByte image h (a.toNat - h.reqVirtAddr.toNat)) else none) t ram
      (fillPage image h thisPage b ram) := by
  intro t'' hpages hkeeps a hlow
  have huser : UserSlot (process, thisPage.toNat / 2097152) := (slotKey_user process hpage).2
  rw [pageByte_fillPage image h hpages haligned hpage (hkeeps _ _ huser hframe) ram hlow]
  dsimp only
  split <;> rfl

end

/-- A part of the loader: it takes the pages, one after the other, and ends if they are granted; and then the
process finds what is `loaded`. -/
structure Loads (window : KernelPage) (current process : Nat) (p : Prog LoadCall Unit) (pages : List UInt64)
    (loaded : UInt64 → Option UInt8) : Prop where
  takes : ∀ t ram, (runPages p t ram).map Prod.fst = (takePages window current process pages).run spaceCalls t
  leaves : ∀ t ram t' ram', PrivatePages process t → runPages p t ram = some (((), t'), ram') →
    PrivatePages process t' ∧ KeepsPages t t' ∧ Leaves process loaded t' ram ram'

section
variable {image : ElfImage} {window : KernelPage} {current process : Nat} {h : Elf64ProgramHeader}
  {thisPage : UInt64}

theorem takePages_append (pages pages' : List UInt64) (t : MemState Spaces) :
    (takePages window current process (pages ++ pages')).run spaceCalls t =
      ((takePages window current process pages).run spaceCalls t).bind fun r =>
        (takePages window current process pages').run spaceCalls r.2 := by
  induction pages generalizing t with
  | nil => rfl
  | cons thisPage pages ih =>
      rw [List.cons_append, takePages, takePages, Prog.run_bind, Prog.run_bind, Option.bind_assoc]
      exact congrArg _ (funext fun r => ih r.2)

theorem Loads.nothing : Loads window current process (pure ()) [] fun _ => none where
  takes _ _ := rfl
  leaves := by
    intro t ram t' ram' hpages hrun
    obtain ⟨heq, rfl⟩ := Prod.mk.inj (Option.some.inj hrun)
    obtain ⟨-, rfl⟩ := Prod.mk.inj heq
    exact ⟨hpages, .refl t, .refl⟩

theorem Loads.congr {p : Prog LoadCall Unit} {pages : List UInt64} {f g : UInt64 → Option UInt8}
    (hloads : Loads window current process p pages f)
    (hfg : ∀ a : UInt64, a.toNat < 2 ^ 47 → f a = g a) : Loads window current process p pages g where
  takes := hloads.takes
  leaves t ram t' ram' hpages hrun := by
    obtain ⟨hpages', hkeeps, hleaves⟩ := hloads.leaves t ram t' ram' hpages hrun
    exact ⟨hpages', hkeeps, hleaves.congr hfg⟩

/-- One part after the other. -/
theorem Loads.bind {p p' : Prog LoadCall Unit} {pages pages' : List UInt64} {f g : UInt64 → Option UInt8}
    (hf : Loads window current process p pages f) (hg : Loads window current process p' pages' g) :
    Loads window current process (p >>= fun _ => p') (pages ++ pages') fun a => (g a).or (f a) := by
  constructor
  case takes =>
    intro t ram
    rw [takePages_append, ← hf.takes t ram, runPages_bind]
    cases runPages p t ram with
    | none => rfl
    | some r => exact hg.takes r.1.2 r.2
  case leaves =>
    intro t ram t' ram' hpages hrun
    rw [runPages_bind] at hrun
    obtain ⟨⟨⟨⟨⟩, t₁⟩, ram₁⟩, hfirst, hrest⟩ := Option.bind_eq_some_iff.mp hrun
    obtain ⟨hpages₁, hkeeps₁, hleaves₁⟩ := hf.leaves t ram t₁ ram₁ hpages hfirst
    obtain ⟨hpages', hkeeps', hleaves'⟩ := hg.leaves t₁ ram₁ t' ram' hpages₁ hrest
    exact ⟨hpages', hkeeps₁.trans hkeeps', hleaves₁.trans hleaves' hkeeps'⟩

/-- **One page** is taken and filled. -/
theorem loads_page (image : ElfImage) (h : Elf64ProgramHeader) {p : Prog LoadCall Unit}
    (haligned : thisPage.toNat % 2097152 = 0) (hlow : thisPage.toNat < 2 ^ 47)
    (hp : ∀ t ram, runPages p t ram = ((takePage window current process thisPage).run spaceCalls t).map fun r =>
      (((), r.2), fillPage image h thisPage r.1 ram)) :
    Loads window current process p [thisPage]
      fun a => if a.toNat / 2097152 = thisPage.toNat / 2097152 ∧ h.Contains a then
        some (segmentByte image h (a.toNat - h.reqVirtAddr.toNat)) else none := by
  constructor
  case takes =>
    intro t ram
    rw [hp, takePages, Prog.run_bind, Option.map_map]
    cases (takePage window current process thisPage).run spaceCalls t <;> rfl
  case leaves =>
    intro t ram t' ram' hpages hrun
    rw [hp] at hrun
    obtain ⟨⟨b, t₁⟩, htake, hr⟩ := Option.map_eq_some_iff.mp hrun
    obtain ⟨hpair, rfl⟩ := Prod.mk.inj hr
    obtain ⟨-, rfl⟩ := Prod.mk.inj hpair
    have htaken := takePage_spec hpages.toUserPages haligned hlow htake
    exact ⟨htaken.priv hpages, htaken.keeps, leaves_fillPage image h haligned hlow htaken.mapped ram⟩

/-- Programs that run alike load alike. -/
theorem Loads.of_run {p p' : Prog LoadCall Unit} {pages : List UInt64} {f : UInt64 → Option UInt8}
    (hloads : Loads window current process p' pages f) (hp : ∀ t ram, runPages p t ram = runPages p' t ram) :
    Loads window current process p pages f where
  takes t ram := (congrArg _ (hp t ram)).trans (hloads.takes t ram)
  leaves t ram t' ram' hpages hrun := hloads.leaves t ram t' ram' hpages ((hp t ram).symm.trans hrun)

/-- **The loop over the pages** of a segment comes to its end, `n` pages on. -/
theorem loads_pages (image : ElfImage) (hsizes : h.sizeInFile.toNat ≤ h.sizeInMem.toNat)
    (hsegment : h.reqVirtAddr.toNat + h.sizeInMem.toNat ≤ 2 ^ 47) :
    ∀ (n fuel : Nat) (thisPage : UInt64) (v : SegmentVars), At h thisPage v → n < fuel →
      h.reqVirtAddr.toNat + h.sizeInMem.toNat ≤ thisPage.toNat + n * 2097152 →
      (0 < n → thisPage.toNat + (n - 1) * 2097152 < h.reqVirtAddr.toNat + h.sizeInMem.toNat) →
      Loads window current process (loadPages image window current process h fuel thisPage v)
        (pagesFrom n thisPage) (segmentFrom image h thisPage) := by
  intro n
  have hend : (h.reqVirtAddr + h.sizeInMem).toNat = h.reqVirtAddr.toNat + h.sizeInMem.toNat := by
    rw [UInt64.toNat_add]
    omega
  induction n with
  | zero =>
      rintro (_ | fuel) thisPage v hat hfuel hpast -
      · omega
      · have hstop : loadPages image window current process h (fuel + 1) thisPage v = pure () := by
          refine if_neg ?_
          rw [UInt64.lt_iff_toNat_lt, hend]
          omega
        rw [hstop]
        refine Loads.nothing.congr fun a _ => (if_neg ?_).symm
        rintro ⟨⟨-, hlt⟩, hle⟩
        have haligned := hat.aligned
        omega
  | succ n ih =>
      rintro (_ | fuel) thisPage v hat hfuel hpast hbefore
      · omega
      · have haligned := hat.aligned
        have hlt := hbefore (Nat.succ_pos n)
        rw [Nat.add_sub_cancel] at hlt
        have hlow : thisPage.toNat < 2 ^ 47 := by omega
        have hnext : (thisPage + memPageSize).toNat = thisPage.toNat + 2097152 := by
          rw [UInt64.toNat_add]
          simp only [memPageSize, UInt64.reduceToNat]
          omega
        obtain ⟨v', hat', hpage⟩ := loadPage_eq image window current process hat hlow hsizes (by omega)
        let first : Prog LoadCall Unit := do
          let _ ← loadPage image window current process h thisPage v
          pure ()
        have hfirst : ∀ t ram, runPages first t ram =
            ((takePage window current process thisPage).run spaceCalls t).map fun r =>
              (((), r.2), fillPage image h thisPage r.1 ram) := by
          intro t ram
          rw [runPages_bind, hpage]
          cases (takePage window current process thisPage).run spaceCalls t <;> rfl
        have hstep : ∀ t ram, runPages (loadPages image window current process h (fuel + 1) thisPage v) t ram =
            runPages (first >>= fun _ =>
              loadPages image window current process h fuel (thisPage + memPageSize) v') t ram := by
          intro t ram
          rw [loadPages, if_pos (by rw [UInt64.lt_iff_toNat_lt, hend]; omega), runPages_bind, runPages_bind,
            hfirst, hpage]
          cases (takePage window current process thisPage).run spaceCalls t <;> rfl
        have hrest := ih fuel (thisPage + memPageSize) v' hat' (by omega) (by omega) (by
          intro hpos
          obtain ⟨m, rfl⟩ := Nat.exists_eq_succ_of_ne_zero (Nat.ne_of_gt hpos)
          rw [Nat.succ_sub_one]
          omega)
        refine (((loads_page image h haligned hlow hfirst).bind hrest).of_run hstep).congr fun a _ => ?_
        unfold segmentFrom
        rw [hnext]
        by_cases hin : h.Contains a
        · simp only [hin, and_true, true_and]
          by_cases hsame : a.toNat / 2097152 = thisPage.toNat / 2097152
          · rw [if_neg (by omega), if_pos hsame, if_pos (by omega), Option.none_or]
          · rw [if_neg hsame, Option.or_none]
            exact if_congr (by omega) rfl rfl
        · simp only [hin, false_and, and_false, if_false, Option.none_or]

/-- **One segment.** -/
theorem loads_segment (image : ElfImage) {fuel : Nat} (hfuel : 2 ^ 26 < fuel)
    (hloadable : h.type = 1 → h.Loadable) :
    Loads window current process (loadSegment image window current process fuel h) h.pages
      fun a => if h.type = 1 ∧ h.Contains a then
        some (segmentByte image h (a.toNat - h.reqVirtAddr.toNat)) else none := by
  unfold Elf64ProgramHeader.pages
  by_cases htype : h.type = 1
  swap
  · have hskip : loadSegment image window current process fuel h = pure () := if_neg htype
    rw [hskip, if_neg htype]
    exact Loads.nothing.congr fun a _ => (if_neg fun hin => htype hin.1).symm
  · obtain ⟨hphys, hsizes, hlow⟩ := hloadable htype
    have hmod := Nat.mod_le h.reqVirtAddr.toNat 2097152
    have hmod' := Nat.mod_lt h.reqVirtAddr.toNat (by decide : 0 < 2097152)
    have hload : loadSegment image window current process fuel h = loadPages image window current process h fuel
        (h.reqVirtAddr - h.reqVirtAddr % memPageSize) (firstVars h) := by
      rw [loadSegment, if_pos htype, if_pos hphys]
    rw [hload, if_pos htype]
    have hpages := @loads_pages window current process h image hsizes hlow
      ((h.reqVirtAddr.toNat % 2097152 + h.sizeInMem.toNat + 2097151) / 2097152) fuel _ _
      (at_start h) (by omega) (by rw [firstPage_toNat]; omega) (by rw [firstPage_toNat]; omega)
    refine hpages.congr fun a _ => if_congr ?_ rfl rfl
    rw [firstPage_toNat, and_comm]
    refine and_congr_left fun hin => iff_of_true ?_ htype
    exact Nat.div_le_div_right ((Nat.sub_le _ _).trans hin.1)

/-- The bytes of the segments, later ones over earlier ones. -/
def loadedBytes (image : ElfImage) : List Elf64ProgramHeader → UInt64 → Option UInt8
  | [], _ => none
  | h :: progHeaders, a => (loadedBytes image progHeaders a).or
      (if h.type = 1 ∧ h.Contains a then some (segmentByte image h (a.toNat - h.reqVirtAddr.toNat))
      else none)

/-- **The loop over the program headers.** -/
theorem loads_headers (image : ElfImage) {fuel : Nat} (hfuel : 2 ^ 26 < fuel) :
    ∀ progHeaders : List Elf64ProgramHeader, (∀ h ∈ progHeaders, h.type = 1 → h.Loadable) →
      Loads window current process (procLoadElfFile image window current process fuel progHeaders)
        (progHeaders.flatMap Elf64ProgramHeader.pages) (loadedBytes image progHeaders)
  | [], _ => .nothing
  | h :: progHeaders, hloadable =>
      (loads_segment image hfuel (hloadable h List.mem_cons_self)).bind
        (loads_headers image hfuel progHeaders fun h' hmem => hloadable h' (List.mem_cons_of_mem h hmem))

/-- No address is in both segments. -/
def Elf64ProgramHeader.Apart (h h' : Elf64ProgramHeader) : Prop :=
  h.type = 1 → h'.type = 1 → ∀ a, h.Contains a → ¬ h'.Contains a

theorem loadedBytes_none {progHeaders : List Elf64ProgramHeader} {a : UInt64}
    (hout : ∀ h ∈ progHeaders, h.type = 1 → ¬ h.Contains a) : loadedBytes image progHeaders a = none := by
  induction progHeaders with
  | nil => rfl
  | cons h progHeaders ih =>
      rw [List.forall_mem_cons] at hout
      rw [loadedBytes, ih hout.2, if_neg fun hin => hout.1 hin.1 hin.2, Option.none_or]

theorem loadedBytes_some {progHeaders : List Elf64ProgramHeader} {a : UInt64}
    (hapart : progHeaders.Pairwise Elf64ProgramHeader.Apart) (hmem : h ∈ progHeaders) (htype : h.type = 1)
    (hin : h.Contains a) :
    loadedBytes image progHeaders a = some (segmentByte image h (a.toNat - h.reqVirtAddr.toNat)) := by
  induction progHeaders with
  | nil => cases hmem
  | cons h₁ progHeaders ih =>
      rw [List.pairwise_cons] at hapart
      rw [loadedBytes]
      rcases List.mem_cons.mp hmem with rfl | hmem
      · rw [loadedBytes_none fun h' hmem' htype' => hapart.1 h' hmem' htype htype' a hin,
          if_pos ⟨htype, hin⟩, Option.none_or]
      · rw [ih hapart.2 hmem, Option.some_or]

end

/-- What the process finds on page tables is what it finds in the pages that are mapped. -/
theorem readByte_shows {process : Nat} {s : MemState Mapping} {ram : Bytes} {a : UInt64}
    (hlow : a.toNat < 2 ^ 47) (hpages : UserPages process s.view) (hshows : s.spaces.Shows ram) :
    readByte process a s (bytesOf s) = pageByte process a s.view ram := by
  obtain ⟨hkey, hk⟩ := slotKey_user process hlow
  rw [readByte_view hlow, hkey, pageByte]
  cases hframe : s.view.spaces.frames (process, a.toNat / 2097152) with
  | none => rfl
  | some b =>
      obtain ⟨n, hheld⟩ := hpages.held _ b hk hframe
      have hdiv : (b + a.toNat % 2097152) / sizeOfPage = n := by
        have := hheld.held.2.1
        rw [sizeOfPage] at this ⊢
        omega
      exact congrArg some (hshows _ (hdiv ▸ hheld.noTable))

/-- A part of the loader, on page tables. -/
theorem Loads.on_tables {window : KernelPage} {current process : Nat} {p : Prog LoadCall Unit}
    {pages : List UInt64} {loaded : UInt64 → Option UInt8} {s : MemState Mapping}
    (hloads : Loads window current process p pages loaded) (hok : s.spaces.Ok)
    (hpages : PrivatePages process s.view) (hempty : p.Along loadCalls LoadCall.TakesEmpty s)
    (hagrees : ∀ ram, p.Along pageCalls LoadCall.Agrees (s.view, ram)) :
    (p.run loadCalls s).map (fun r => (r.1, r.2.view)) =
        (takePages window current process pages).run spaceCalls s.view ∧
      ∀ s', p.run loadCalls s = some ((), s') → PrivatePages process s'.view ∧ KeepsPages s.view s'.view ∧
        ∀ a : UInt64, readByte process a s' (bytesOf s') =
          if a.toNat < 2 ^ 47 then (loaded a).or (readByte process a s' (bytesOf s)) else none := by
  obtain ⟨hends, hruns⟩ := run_shows hok hempty hagrees
  refine ⟨hends.trans (hloads.takes _ _), fun s' hs => ?_⟩
  obtain ⟨ram', hrun, hshows⟩ := hruns () s' hs
  obtain ⟨hpages', hkeeps, hleaves⟩ := hloads.leaves _ _ _ _ hpages hrun
  refine ⟨hpages', hkeeps, fun a => ?_⟩
  split
  next hlow =>
    rw [readByte_shows hlow hpages'.toUserPages hshows, hleaves _ hpages' (.refl _) a hlow, readByte_view hlow,
      (slotKey_user process hlow).1, pageByte]
  next hlow => exact if_neg hlow

theorem Elf64ProgramHeader.Loadable.isLow {h : Elf64ProgramHeader} (hloadable : h.type = 1 → h.Loadable) :
    h.Low := by
  intro htype
  have hlow := (hloadable htype).low
  rw [UInt64.toNat_add]
  omega

/-- A segment with data and a second one, all zero, that shares its page. -/
def twoSegments : ElfImage where
  progHeaders := [⟨1, 0x1000, 0x400010, 0, 2, 4⟩, ⟨1, 0, 0x400020, 0, 0, 8⟩]
  loadBuffer a := UInt8.ofNat a.toNat

/-- A segment that is all zero and goes on into a second page. -/
def twoPages : ElfImage where
  progHeaders := [⟨1, 0, 0x400000, 0, 0, 0x200001⟩]
  loadBuffer _ := 0

end Azalea.Proc
