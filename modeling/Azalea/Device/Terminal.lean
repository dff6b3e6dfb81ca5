import Azalea.Block.Proxy
import Mathlib.Logic.Function.Basic

/-!
# Device — the terminal's line discipline

`terms::generic` (`devices/generic/gen_terminal.cpp`): keys are translated, collected in a buffer of 80
characters that can be edited, and written to the standard input pipe a line at a time.  The pipe accepts
all it is given, and `sent` is what it has been given; `screen` is what has been echoed.  A store beyond
the buffer is `none`.

`LineEditor` is what the terminal is for: a list of characters delivered, and a list of those that can
still be taken back.

* `handleCharacter_edits`: a key does to the terminal what it does to the editor.
* `terminal_edits_lines`: so does every sequence of keys and changes of the settings.
-/

namespace Azalea.Device
open Azalea.Block (DevStatus)

/-! ### The source -/

/-- `term_newline_mode`. -/
inductive TermNewlineMode where
  | noChange
  | crToCrlf
  | lfToCrlf
  deriving Repr, DecidableEq

/-- `terminal_opts`, with its defaults. -/
structure TerminalOpts where
  inputReturnIsNewline : Bool := true
  inputNewlineIsReturn : Bool := false
  lineDiscipline : Bool := true
  char7fIsBackspace : Bool := true
  outputNewline : TermNewlineMode := .lfToCrlf
  deriving Repr, DecidableEq

/-- `\b`. -/
def backspaceKey : UInt8 := 8

/-- `\n`. -/
def newlineKey : UInt8 := 10

/-- `\r`. -/
def returnKey : UInt8 := 13

/-- Character 127. -/
def deleteKey : UInt8 := 0x7F

/-- `command_buffer_size`. -/
def commandBufferSize : Nat := 80

/-- `terms::generic`.  Without a pipe `sent` is `none`. -/
structure Terminal where
  status : DevStatus
  filters : TerminalOpts
  commandBuffer : Nat → UInt8
  commandBufferPos : Nat
  sent : Option (List UInt8)
  screen : List UInt8

/-- The constructor; `memory` is what the buffer happens to hold. -/
def newTerminal (memory : Nat → UInt8) (sent : Option (List UInt8)) : Terminal where
  status := .unknown
  filters := {}
  commandBuffer := memory
  commandBufferPos := 0
  sent := sent
  screen := []

/-- The translation of a character written to the screen. -/
def translateOutput (mode : TermNewlineMode) (c : UInt8) : List UInt8 :=
  (if c = newlineKey ∧ mode = .lfToCrlf then [returnKey] else []) ++ [c]
    ++ (if c = returnKey ∧ mode = .crToCrlf then [newlineKey] else [])

/-- The translation of a key. -/
def translateInput (filters : TerminalOpts) (key : UInt8) : UInt8 :=
  if key = returnKey ∧ filters.inputReturnIsNewline then newlineKey
  else if key = newlineKey ∧ filters.inputNewlineIsReturn then returnKey
  else key

namespace Terminal

/-- `write_string`. -/
def writeString (t : Terminal) (s : List UInt8) : Terminal :=
  if t.status ≠ .ok then t
  else { t with screen := t.screen ++ s.flatMap (translateOutput t.filters.outputNewline) }

/-- `command_buffer[i] = v`. -/
def store (t : Terminal) (i : Nat) (v : UInt8) : Option Terminal :=
  if i < commandBufferSize then
    some { t with commandBuffer := Function.update t.commandBuffer i v }
  else none

/-- The characters of the buffer in use. -/
def pending (t : Terminal) : List UInt8 := (List.range t.commandBufferPos).map t.commandBuffer

/-- `stdin_writer->write_bytes`, if there is a writer. -/
def writeStdin (t : Terminal) (bytes : List UInt8) : Terminal :=
  { t with sent := t.sent.map (· ++ bytes) }

/-- The case `'\b'`. -/
def eraseLast (t : Terminal) : Option Terminal :=
  if t.commandBufferPos > 0 then
    let t := { t with commandBufferPos := t.commandBufferPos - 1 }
    (t.store t.commandBufferPos 0).map fun t => t.writeString [backspaceKey, 32, backspaceKey]
  else some t

/-- The default case. -/
def addKey (t : Terminal) (key : UInt8) : Option Terminal :=
  (t.store t.commandBufferPos key).bind fun t =>
    (t.store (t.commandBufferPos + 1) 0).map fun t =>
      { t with commandBufferPos := t.commandBufferPos + 1 }.writeString [key]

/-- The end of a key in line discipline mode: a line that is complete, or as long as it can be, is
written to the pipe. -/
def flush (t : Terminal) (key : UInt8) : Terminal :=
  if key = newlineKey ∨ t.commandBufferPos = commandBufferSize - 1 then
    { t.writeStdin t.pending with commandBufferPos := 0 }
  else t

end Terminal

theorem translateInput_eq_deleteKey {filters : TerminalOpts} {key : UInt8} :
    translateInput filters key = deleteKey ↔ key = deleteKey := by
  unfold translateInput
  split
  next h => simp [h.1, newlineKey, returnKey, deleteKey]
  next =>
    split
    next h => simp [h.1, newlineKey, returnKey, deleteKey]
    next => rfl

namespace Terminal

/-- `handle_character`. -/
def handleCharacter (t : Terminal) (key : UInt8) : Option Terminal :=
  if t.status ≠ .ok then some t
  else if t.filters.lineDiscipline then
    if h : translateInput t.filters key = deleteKey then
      (if t.filters.char7fIsBackspace then t.handleCharacter backspaceKey else some t).map
        (·.flush (translateInput t.filters key))
    else if translateInput t.filters key = backspaceKey then
      t.eraseLast.map (·.flush (translateInput t.filters key))
    else (t.addKey (translateInput t.filters key)).map (·.flush (translateInput t.filters key))
  else some (t.writeStdin [translateInput t.filters key])
termination_by if key = deleteKey then 1 else 0
decreasing_by
  rw [if_pos (translateInput_eq_deleteKey.mp h)]
  decide

def start (t : Terminal) : Terminal := { t with status := .ok }

def stop (t : Terminal) : Terminal := { t with status := .stopped }

def reset (t : Terminal) : Terminal := { t with filters := {}, status := .stopped }

/-- `set_filtering_opts`. -/
def setFilteringOpts (t : Terminal) (opts : TerminalOpts) : Terminal :=
  if opts.lineDiscipline ≠ t.filters.lineDiscipline then
    { t with commandBufferPos := 0, filters := opts }
  else { t with filters := opts }

end Terminal

/-- What can happen to a terminal. -/
inductive TermAct where
  | key (k : UInt8)
  | opts (o : TerminalOpts)
  | start
  | stop
  | reset
  deriving Repr, DecidableEq

/-- One of them. -/
def Terminal.step (t : Terminal) : TermAct → Option Terminal
  | .key k => t.handleCharacter k
  | .opts o => some (t.setFilteringOpts o)
  | .start => some t.start
  | .stop => some t.stop
  | .reset => some t.reset

/-! ### The editor -/

/-- The reference: characters that have been delivered, and those of the line that is being edited. -/
structure LineEditor where
  status : DevStatus
  opts : TerminalOpts
  delivered : List UInt8
  line : List UInt8

namespace LineEditor

/-- A key that takes the last character back. -/
def Erases (opts : TerminalOpts) (key : UInt8) : Prop :=
  key = backspaceKey ∨ key = deleteKey ∧ opts.char7fIsBackspace = true

instance (opts : TerminalOpts) (key : UInt8) : Decidable (Erases opts key) :=
  inferInstanceAs (Decidable (_ ∨ _))

/-- Edit the line: a key takes the last character of it back, is ignored, or is added to it; with a newline,
or its 79th character, the line is delivered. -/
def edit (e : LineEditor) (key : UInt8) : LineEditor :=
  if Erases e.opts key then { e with line := e.line.dropLast }
  else if key = deleteKey then e
  else if key = newlineKey ∨ e.line.length + 1 = commandBufferSize - 1 then
    { e with delivered := e.delivered ++ e.line ++ [key], line := [] }
  else { e with line := e.line ++ [key] }

/-- Keys are read when the terminal runs, and edited if line discipline is on.  When it is turned on or
off the line is given up. -/
def step (e : LineEditor) : TermAct → LineEditor
  | .key k =>
      if e.status ≠ .ok then e
      else if e.opts.lineDiscipline then e.edit (translateInput e.opts k)
      else { e with delivered := e.delivered ++ [translateInput e.opts k] }
  | .opts o =>
      if o.lineDiscipline ≠ e.opts.lineDiscipline then { e with opts := o, line := [] }
      else { e with opts := o }
  | .start => { e with status := .ok }
  | .stop => { e with status := .stopped }
  | .reset => { e with opts := {}, status := .stopped }

end LineEditor

/-! ### A key -/

section
variable {t t' : Terminal} {e : LineEditor} {key : UInt8} {s : List UInt8}

/-- The terminal shows the editor's state, and has room in its buffer for a character and the zero after
it. -/
structure Shows (t : Terminal) (e : LineEditor) : Prop where
  status : t.status = e.status
  filters : t.filters = e.opts
  sent : t.sent = some e.delivered
  line : t.pending = e.line
  room : t.commandBufferPos < commandBufferSize - 1

/-- The parts of the terminal an echo does not touch. -/
structure SameInput (t t' : Terminal) : Prop where
  status : t'.status = t.status
  filters : t'.filters = t.filters
  sent : t'.sent = t.sent

theorem commandBufferSize_pos : 0 < commandBufferSize - 1 := by decide

@[simp] theorem pending_length : t.pending.length = t.commandBufferPos := by simp [Terminal.pending]

theorem writeString_sameInput : SameInput t (t.writeString s) := by
  unfold Terminal.writeString
  split
  · exact ⟨rfl, rfl, rfl⟩
  · exact ⟨rfl, rfl, rfl⟩

@[simp] theorem writeString_pending : (t.writeString s).pending = t.pending := by
  unfold Terminal.writeString; split <;> rfl

theorem store_eq_some {i : Nat} (v : UInt8) (h : i < commandBufferSize) :
    t.store i v = some { t with commandBuffer := Function.update t.commandBuffer i v } := if_pos h

/-- The characters before a place that is stored to. -/
theorem map_range_update {f : Nat → UInt8} {n i : Nat} {v : UInt8} (h : n ≤ i) :
    (List.range n).map (Function.update f i v) = (List.range n).map f := by
  refine List.map_congr_left fun j hj => ?_
  have := List.mem_range.mp hj
  exact Function.update_of_ne (show j ≠ i by omega) v f

/-- A backspace, in the buffer: the last character goes, if there is one. -/
theorem eraseLast_spec (h : t.commandBufferPos < commandBufferSize) :
    ∃ t', t.eraseLast = some t' ∧ SameInput t t' ∧ t'.pending = t.pending.dropLast := by
  unfold Terminal.eraseLast
  split
  next hpos =>
    dsimp only
    rw [store_eq_some 0 (by omega), Option.map_some]
    refine ⟨_, rfl, ?_, ?_⟩
    · have hw := @writeString_sameInput
        { t with commandBufferPos := t.commandBufferPos - 1
                 commandBuffer := Function.update t.commandBuffer (t.commandBufferPos - 1) 0 }
        [backspaceKey, 32, backspaceKey]
      exact ⟨hw.status, hw.filters, hw.sent⟩
    · obtain ⟨n, hn⟩ : ∃ n, t.commandBufferPos = n + 1 := ⟨t.commandBufferPos - 1, by omega⟩
      rw [writeString_pending]
      simp only [Terminal.pending, hn, Nat.add_sub_cancel, List.range_succ, List.map_append,
        List.map_cons, List.map_nil, List.dropLast_concat]
      exact map_range_update (Nat.le_refl n)
  next hpos =>
    refine ⟨t, rfl, ⟨rfl, rfl, rfl⟩, ?_⟩
    simp [Terminal.pending, show t.commandBufferPos = 0 by omega]

/-- A character, in the buffer. -/
theorem addKey_spec (h : t.commandBufferPos < commandBufferSize - 1) :
    ∃ t', t.addKey key = some t' ∧ SameInput t t' ∧ t'.pending = t.pending ++ [key] := by
  unfold commandBufferSize at h
  unfold Terminal.addKey
  rw [store_eq_some key (by unfold commandBufferSize; omega), Option.bind_some,
    store_eq_some 0 (by unfold commandBufferSize; dsimp only; omega), Option.map_some]
  refine ⟨_, rfl, ?_, ?_⟩
  · have hw := @writeString_sameInput
      { t with commandBufferPos := t.commandBufferPos + 1
               commandBuffer := Function.update (Function.update t.commandBuffer t.commandBufferPos key)
                 (t.commandBufferPos + 1) 0 } [key]
    exact ⟨hw.status, hw.filters, hw.sent⟩
  · rw [writeString_pending]
    simp only [Terminal.pending, List.range_succ, List.map_append, List.map_cons, List.map_nil]
    rw [map_range_update (Nat.le_succ _), map_range_update (Nat.le_refl _),
      Function.update_of_ne (Nat.ne_of_lt (Nat.lt_succ_self _)), Function.update_self]

theorem Shows.line_length (h : Shows t e) : e.line.length = t.commandBufferPos := by
  rw [← h.line, pending_length]

/-- A line that is neither complete nor full stays. -/
theorem Shows.flush_eq (h : Shows t e) (hkey : key ≠ newlineKey) : t.flush key = t :=
  if_neg (not_or.mpr ⟨hkey, Nat.ne_of_lt h.room⟩)

/-- A line with a character added, which is delivered if it is complete or full. -/
theorem Shows.flush_added (h : Shows t e) (hsame : SameInput t t')
    (hpend : t'.pending = t.pending ++ [key]) :
    Shows (t'.flush key)
      (if key = newlineKey ∨ e.line.length + 1 = commandBufferSize - 1 then
        { e with delivered := e.delivered ++ e.line ++ [key], line := [] }
      else { e with line := e.line ++ [key] }) := by
  have hroom := h.room
  have hlen : t'.commandBufferPos = e.line.length + 1 := by
    rw [← pending_length, hpend, List.length_append, h.line, List.length_singleton]
  have hs := hsame.status.trans h.status
  have hf := hsame.filters.trans h.filters
  have hsent := hsame.sent.trans h.sent
  rw [h.line] at hpend
  rw [← h.line_length] at hroom
  unfold Terminal.flush
  rw [hlen]
  split
  next hflush =>
    refine ⟨hs, hf, ?_, rfl, commandBufferSize_pos⟩
    simp only [Terminal.writeStdin, hsent, Option.map_some, hpend, List.append_assoc]
  next hflush =>
    have := (not_or.mp hflush).2
    exact ⟨hs, hf, hsent, hpend, by omega⟩

/-- The last character taken back. -/
theorem Shows.erased (h : Shows t e) :
    ∃ t', t.eraseLast = some t' ∧ Shows t' { e with line := e.line.dropLast } := by
  have hroom := h.room
  obtain ⟨t', ht', hsame, hpend⟩ := @eraseLast_spec t (by omega)
  refine ⟨t', ht', hsame.status.trans h.status, hsame.filters.trans h.filters, hsame.sent.trans h.sent,
    by rw [hpend, h.line], ?_⟩
  rw [← pending_length, hpend, List.length_dropLast, pending_length]
  omega

/-- A backspace typed. -/
theorem Shows.backspace (h : Shows t e) (hs : t.status = .ok) (hd : t.filters.lineDiscipline = true) :
    ∃ t', t.handleCharacter backspaceKey = some t' ∧ Shows t' { e with line := e.line.dropLast } := by
  have htr : translateInput t.filters backspaceKey = backspaceKey := by
    unfold translateInput
    rw [if_neg (fun h => absurd h.1 (by decide)), if_neg (fun h => absurd h.1 (by decide))]
  obtain ⟨t', ht', hshow⟩ := h.erased
  refine ⟨t', ?_, hshow⟩
  rw [Terminal.handleCharacter, if_neg (not_not.mpr hs), if_pos hd, htr, dif_neg (by decide),
    if_pos rfl, ht', Option.map_some, hshow.flush_eq (by decide)]

/-- A key does to the terminal what it does to the editor. -/
theorem handleCharacter_edits (h : Shows t e) (k : UInt8) :
    ∃ t', t.handleCharacter k = some t' ∧ Shows t' (e.step (.key k)) := by
  rw [Terminal.handleCharacter, LineEditor.step, h.status]
  by_cases hs : e.status = .ok
  swap
  · rw [if_pos hs, if_pos hs]
    exact ⟨t, rfl, h⟩
  rw [if_neg (not_not.mpr hs), if_neg (not_not.mpr hs), h.filters]
  by_cases hd : e.opts.lineDiscipline = true
  swap
  · rw [if_neg hd, if_neg hd]
    refine ⟨_, rfl, ⟨h.status, h.filters, ?_, h.line, h.room⟩⟩
    simp only [Terminal.writeStdin, h.sent, Option.map_some]
  rw [if_pos hd, if_pos hd]
  generalize translateInput e.opts k = key
  unfold LineEditor.edit
  by_cases hdel : key = deleteKey
  · -- character 127: a backspace, or nothing
    subst hdel
    rw [dif_pos rfl]
    by_cases hback : e.opts.char7fIsBackspace = true
    · have herase : LineEditor.Erases e.opts deleteKey := .inr ⟨rfl, hback⟩
      rw [if_pos hback, if_pos herase]
      obtain ⟨t', ht', hshow⟩ := h.backspace (h.status.trans hs) (by rw [h.filters, hd])
      exact ⟨t', by rw [ht', Option.map_some, hshow.flush_eq (by decide)], hshow⟩
    · have herase : ¬ LineEditor.Erases e.opts deleteKey :=
        not_or.mpr ⟨by decide, fun hc => hback hc.2⟩
      rw [if_neg hback, if_neg herase, if_pos rfl]
      exact ⟨t, by rw [Option.map_some, h.flush_eq (by decide)], h⟩
  · rw [dif_neg hdel]
    by_cases hbs : key = backspaceKey
    · subst hbs
      have herase : LineEditor.Erases e.opts backspaceKey := .inl rfl
      rw [if_pos rfl, if_pos herase]
      obtain ⟨t', ht', hshow⟩ := h.erased
      exact ⟨t', by rw [ht', Option.map_some, hshow.flush_eq (by decide)], hshow⟩
    · have herase : ¬ LineEditor.Erases e.opts key := not_or.mpr ⟨hbs, fun hc => hdel hc.1⟩
      rw [if_neg hbs, if_neg herase, if_neg hdel]
      obtain ⟨t', ht', hsame, hpend⟩ := @addKey_spec t key h.room
      exact ⟨t'.flush key, by rw [ht', Option.map_some], h.flush_added hsame hpend⟩

theorem Shows.setFilteringOpts (h : Shows t e) (o : TerminalOpts) :
    Shows (t.setFilteringOpts o) (e.step (.opts o)) := by
  rw [Terminal.setFilteringOpts, LineEditor.step, h.filters]
  split
  · exact ⟨h.status, rfl, h.sent, rfl, commandBufferSize_pos⟩
  · exact ⟨h.status, rfl, h.sent, h.line, h.room⟩

theorem Shows.step (h : Shows t e) (act : TermAct) :
    ∃ t', t.step act = some t' ∧ Shows t' (e.step act) := by
  cases act with
  | key k => exact handleCharacter_edits h k
  | opts o => exact ⟨_, rfl, h.setFilteringOpts o⟩
  | start => exact ⟨_, rfl, rfl, h.filters, h.sent, h.line, h.room⟩
  | stop => exact ⟨_, rfl, rfl, h.filters, h.sent, h.line, h.room⟩
  | reset => exact ⟨_, rfl, rfl, rfl, h.sent, h.line, h.room⟩

/-- A run does to the terminal what it does to the editor. -/
theorem Shows.run (acts : List TermAct) : ∀ {t : Terminal} {e : LineEditor}, Shows t e →
    ∃ t', acts.foldlM Terminal.step t = some t' ∧ Shows t' (acts.foldl LineEditor.step e) := by
  induction acts with
  | nil => intro t e h; exact ⟨t, rfl, h⟩
  | cons act acts ih =>
      intro t e h
      obtain ⟨t₁, ht₁, h₁⟩ := h.step act
      obtain ⟨t', ht', h'⟩ := ih h₁
      refine ⟨t', ?_, h'⟩
      rw [List.foldlM_cons, ht₁]
      exact ht'

/-! ### Delivery -/

/-- In line discipline mode, with `pos` characters in the buffer: a newline, or the character that fills
it. -/
def Delivers (opts : TerminalOpts) (pos : Nat) (key : UInt8) : Prop :=
  key = newlineKey ∨ ¬ LineEditor.Erases opts key ∧ key ≠ deleteKey ∧ pos + 1 = commandBufferSize - 1

theorem edit_delivered_iff :
    (e.edit key).delivered ≠ e.delivered ↔ Delivers e.opts e.line.length key := by
  unfold LineEditor.edit Delivers
  by_cases herase : LineEditor.Erases e.opts key
  · rw [if_pos herase]
    refine iff_of_false (fun h => h rfl) ?_
    rintro (rfl | ⟨h, -⟩)
    · revert herase
      rintro (h | ⟨h, -⟩) <;> revert h <;> decide
    · exact h herase
  rw [if_neg herase]
  by_cases hdel : key = deleteKey
  · rw [if_pos hdel]
    refine iff_of_false (fun h => h rfl) ?_
    rintro (rfl | ⟨-, h, -⟩)
    · revert hdel; decide
    · exact h hdel
  rw [if_neg hdel]
  by_cases hfull : key = newlineKey ∨ e.line.length + 1 = commandBufferSize - 1
  · rw [if_pos hfull]
    refine iff_of_true ?_ (hfull.imp id fun h => ⟨herase, hdel, h⟩)
    intro h
    have := congrArg List.length h
    simp at this
  · rw [if_neg hfull]
    exact iff_of_false (fun h => h rfl) fun h => hfull (h.imp id fun h => h.2.2)

theorem step_key_delivered_iff (k : UInt8) : (e.step (.key k)).delivered ≠ e.delivered ↔
    e.status = .ok ∧ (e.opts.lineDiscipline = false
      ∨ Delivers e.opts e.line.length (translateInput e.opts k)) := by
  rw [LineEditor.step]
  by_cases hs : e.status = .ok
  swap
  · rw [if_pos hs]
    exact iff_of_false (fun h => h rfl) fun h => hs h.1
  rw [if_neg (not_not.mpr hs), and_iff_right hs]
  cases hd : e.opts.lineDiscipline with
  | true =>
      rw [if_pos rfl, edit_delivered_iff]
      simp
  | false =>
      rw [if_neg (by decide)]
      refine iff_of_true ?_ (.inl rfl)
      intro h
      have := congrArg List.length h
      simp at this

end

/-- **The line discipline**, for every sequence of keys and changes of the settings, from a new terminal
with a pipe: what has been delivered and what is in the buffer are the editor's; the buffer has room, so
that no key is stored outside it; and the next key delivers something exactly if the terminal runs and
the key is passed through, ends the line or fills the buffer. -/
theorem terminal_edits_lines (memory : Nat → UInt8) (sent : List UInt8) (acts : List TermAct) :
    ∃ t, acts.foldlM Terminal.step (newTerminal memory (some sent)) = some t
      ∧ Shows t (acts.foldl LineEditor.step ⟨.unknown, {}, sent, []⟩)
      ∧ ∀ k, ∃ t', t.handleCharacter k = some t'
        ∧ (t'.sent ≠ t.sent ↔ t.status = .ok ∧ (t.filters.lineDiscipline = false
          ∨ Delivers t.filters t.commandBufferPos (translateInput t.filters k))) := by
  have hnew : Shows (newTerminal memory (some sent)) ⟨.unknown, {}, sent, []⟩ :=
    ⟨rfl, rfl, rfl, rfl, commandBufferSize_pos⟩
  obtain ⟨t, ht, hshow⟩ := hnew.run acts
  refine ⟨t, ht, hshow, fun k => ?_⟩
  obtain ⟨t', ht', hshow'⟩ := handleCharacter_edits hshow k
  refine ⟨t', ht', ?_⟩
  rw [hshow'.sent, hshow.sent, ne_eq, Option.some.injEq, hshow.status, hshow.filters,
    ← hshow.line_length]
  exact step_key_delivered_iff k

end Azalea.Device
