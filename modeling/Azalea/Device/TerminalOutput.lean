import Azalea.Device.Terminal

/-!
# Device — writing to the terminal

`terms::generic::write_bytes` and `write_string` (`devices/generic/gen_terminal.cpp`) as another part of
the kernel calls them, with a length of 64 bits.  `write_string` takes its length, and counts, in 16.

* `writeBytes_iff`: the bytes reported as written are those that reach the screen exactly if there are
  fewer than 65536 of them.
-/

namespace Azalea.Device

namespace Terminal

/-- The body of the loop of `write_string`. -/
def writeChar (t : Terminal) (c : UInt8) : Terminal :=
  { t with screen := t.screen ++ translateOutput t.filters.outputNewline c }

/-- The loop of `write_string`, from the character with number `c`.  Nothing is returned if it reads past
the end of the string. -/
def writeChars (numChars : UInt16) : UInt16 → List UInt8 → Terminal → Option Terminal
  | c, [], t => if c < numChars then none else some t
  | c, ch :: outString, t =>
      if c < numChars then writeChars numChars (c + 1) outString (t.writeChar ch) else some t

/-- `write_bytes`, with what it sets `bytes_written` to. -/
def writeBytes (t : Terminal) (length : UInt64) (buffer : List UInt8) (bufferLength : UInt64) :
    Option (Terminal × UInt64) :=
  let trueNumBytes := min length bufferLength
  (if t.status ≠ .ok then some t else writeChars trueNumBytes.toUInt16 0 buffer t).map (·, trueNumBytes)

/-- The screen after some characters have been written. -/
def shown (t : Terminal) (s : List UInt8) : Terminal :=
  { t with screen := t.screen ++ s.flatMap (translateOutput t.filters.outputNewline) }

variable {t : Terminal} {numChars c : UInt16} {s a b : List UInt8}

theorem writeChars_eq (hc : c ≤ numChars) (hs : numChars.toNat - c.toNat ≤ s.length) :
    writeChars numChars c s t = some (t.shown (s.take (numChars.toNat - c.toNat))) := by
  induction s generalizing c t with
  | nil =>
      have hlen : numChars.toNat - c.toNat = 0 := Nat.le_zero.mp hs
      have hle := UInt16.le_iff_toNat_le.mp hc
      have hstop : ¬ c < numChars := fun h => by have := UInt16.lt_iff_toNat_lt.mp h; omega
      rw [writeChars, if_neg hstop, List.take_nil, shown, List.flatMap_nil, List.append_nil]
  | cons ch s ih =>
      have hle := UInt16.le_iff_toNat_le.mp hc
      rw [writeChars]
      split
      next hlt =>
        have hlt' := UInt16.lt_iff_toNat_lt.mp hlt
        have hbound := numChars.toNat_lt
        have hnext : (c + 1).toNat = c.toNat + 1 := by
          rw [UInt16.toNat_add]
          exact Nat.mod_eq_of_lt (by change _ + 1 < _; omega)
        obtain ⟨k, hk⟩ : ∃ k, numChars.toNat - c.toNat = k + 1 := ⟨numChars.toNat - c.toNat - 1, by omega⟩
        rw [List.length_cons] at hs
        have hrest : numChars.toNat - (c + 1).toNat = k := by omega
        rw [ih (UInt16.le_iff_toNat_le.mpr (by omega)) (by omega), hk, hrest, List.take_succ_cons]
        simp only [shown, writeChar, List.flatMap_cons, List.append_assoc]
      next hstop =>
        have hstop' : ¬ c.toNat < numChars.toNat := fun h => hstop (UInt16.lt_iff_toNat_lt.mpr h)
        have hlen : numChars.toNat - c.toNat = 0 := by omega
        rw [hlen, List.take_zero, shown, List.flatMap_nil, List.append_nil]

theorem translateOutput_ne_nil (mode : TermNewlineMode) (ch : UInt8) : translateOutput mode ch ≠ [] := by
  unfold translateOutput
  intro h
  exact List.cons_ne_nil _ _ (List.append_eq_nil_iff.mp (List.append_eq_nil_iff.mp h).1).2

/-- More characters show more. -/
theorem shown_take_inj {m n : Nat} (hmn : m ≤ n) (hn : n ≤ s.length)
    (h : t.shown (s.take m) = t.shown (s.take n)) : m = n := by
  refine Nat.le_antisymm hmn (Nat.le_of_not_lt fun hlt => ?_)
  have hscreen := List.append_cancel_left (congrArg Terminal.screen h)
  have hsplit : s.take n = s.take m ++ (s.drop m).take (n - m) := by
    rw [← List.take_add, Nat.add_sub_cancel' hmn]
  rw [hsplit, List.flatMap_append] at hscreen
  have hnil := List.self_eq_append_right.mp hscreen
  obtain ⟨ch, rest, hrest⟩ : ∃ ch rest, (s.drop m).take (n - m) = ch :: rest := by
    refine List.exists_cons_of_length_pos ?_
    rw [List.length_take, List.length_drop]
    omega
  rw [hrest, List.flatMap_cons] at hnil
  exact translateOutput_ne_nil _ ch (List.append_eq_nil_iff.mp hnil).1

/-- `write_bytes` reports the shorter of the two lengths, and shows as many characters as its low 16 bits
say. -/
theorem writeBytes_eq {length bufferLength : UInt64} (hok : t.status = .ok)
    (hs : bufferLength.toNat ≤ s.length) :
    t.writeBytes length s bufferLength =
      some (t.shown (s.take ((min length bufferLength).toNat % 65536)), min length bufferLength) := by
  have hmin : (min length bufferLength).toNat ≤ bufferLength.toNat := by
    rw [UInt64.toNat_min]
    exact Nat.min_le_right _ _
  have hcut : (min length bufferLength).toUInt16.toNat = (min length bufferLength).toNat % 65536 :=
    UInt64.toNat_toUInt16 _
  have hle := Nat.mod_le (min length bufferLength).toNat 65536
  rw [writeBytes, if_neg (not_not.mpr hok), writeChars_eq (UInt16.le_iff_toNat_le.mpr (Nat.zero_le _))
    (by rw [hcut]; exact Nat.le_trans (Nat.sub_le _ _) (by omega)), Option.map_some, hcut]
  rfl

end Terminal

/-- **Writing to the terminal**, to one that runs and from a buffer that is as long as it is said to be:
what reaches the screen is the bytes reported as written, translated, if and only if there are fewer than
65536 of them. -/
theorem writeBytes_iff {t : Terminal} {length bufferLength : UInt64} {buffer : List UInt8}
    (hok : t.status = .ok) (hbuffer : bufferLength.toNat ≤ buffer.length) :
    (∃ bytesWritten, t.writeBytes length buffer bufferLength =
        some (t.shown (buffer.take bytesWritten.toNat), bytesWritten)) ↔
      min length.toNat bufferLength.toNat < 65536 := by
  rw [← UInt64.toNat_min, Terminal.writeBytes_eq hok hbuffer]
  have hmin : (min length bufferLength).toNat ≤ buffer.length := by
    rw [UInt64.toNat_min]
    exact Nat.le_trans (Nat.min_le_right _ _) hbuffer
  constructor
  · rintro ⟨n, h⟩
    obtain ⟨hshown, rfl⟩ := Prod.mk.inj (Option.some.inj h)
    have hcut := Terminal.shown_take_inj (Nat.mod_le _ 65536) hmin hshown
    exact hcut ▸ Nat.mod_lt _ (by decide)
  · intro h
    exact ⟨_, by rw [Nat.mod_eq_of_lt h]⟩

/-- A terminal that runs. -/
def runningTerminal : Terminal := { newTerminal (fun _ => 0) none with status := .ok }

theorem writeBytes_line :
    ∃ bytesWritten, runningTerminal.writeBytes 100 [104, 105, newlineKey] 3 =
      some (runningTerminal.shown ([104, 105, newlineKey].take bytesWritten.toNat), bytesWritten) :=
  (@writeBytes_iff runningTerminal 100 3 [104, 105, newlineKey] rfl (by decide)).mpr (by decide)

/-- 65536 newlines. -/
def manyLines : List UInt8 := List.replicate 65536 newlineKey

theorem manyLines_length : manyLines.length = 65536 := List.length_replicate

/-- None of them is shown, and all are reported as written. -/
theorem writeBytes_fails :
    ¬ ∃ bytesWritten, runningTerminal.writeBytes 65536 manyLines 65536 =
      some (runningTerminal.shown (manyLines.take bytesWritten.toNat), bytesWritten) := by
  have hlen : (65536 : UInt64).toNat ≤ manyLines.length := Nat.le_of_eq manyLines_length.symm
  rw [Terminal.writeBytes_eq rfl hlen]
  rintro ⟨n, h⟩
  obtain ⟨hshown, rfl⟩ := Prod.mk.inj (Option.some.inj h)
  exact absurd (Terminal.shown_take_inj (Nat.mod_le _ 65536) hlen hshown) (by decide)

end Azalea.Device
