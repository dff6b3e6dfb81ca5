import Mathlib.Data.List.Basic

/-!
# Device — the PS/2 keyboard

`ps2_keyboard_device::handle_interrupt_slow` (`devices/legacy/ps2/ps2_device.cpp`): a state machine that
takes the bytes of scan code set 2 one at a time.  The two tables of key codes are a parameter.

The reference reads a stream of bytes as a whole.  `keyBytes` leaves out pause sequences, of eight bytes
each, and command responses; `units` cuts the rest after every key byte, which is special if an `E0`
stands before it and a release if an `F0` stands directly before it; `events` gives each unit the
modifiers pressed by then.

* `read_eq`: without responses, the events of the state machine are those of the units.
* `keyboard_decodes_iff`: exactly which streams are decoded as they should be.
-/

namespace Azalea.Device

/-! ### The source -/

/-- `special_keys`. -/
structure SpecialKeys where
  leftShift : Bool := false
  rightShift : Bool := false
  leftControl : Bool := false
  rightControl : Bool := false
  leftAlt : Bool := false
  rightAlt : Bool := false
  printScreenStart : Bool := false
  leftGui : Bool := false
  rightGui : Bool := false
  deriving Repr, DecidableEq

/-- What `handle_key_up` and `handle_key_down` are called with. -/
structure KeyEvent (κ : Type*) where
  up : Bool
  key : κ
  modifiers : SpecialKeys
  deriving Repr, DecidableEq

/-- `ps2_keyboard_device`. -/
structure Keyboard where
  specKeysDown : SpecialKeys := {}
  nextKeyIsRelease : Bool := false
  nextKeyIsSpecial : Bool := false
  pauseSeqChars : Nat := 0
  deriving Repr, DecidableEq

/-- The bytes that answer a command. -/
def responses : List UInt8 := [0x00, 0xAA, 0xEE, 0xFA, 0xFC, 0xFD, 0xFE, 0xFF]

/-- The cases of the switch that set a modifier. -/
def SpecialKeys.set (m : SpecialKeys) (special down : Bool) (scancode : UInt8) : SpecialKeys :=
  if scancode = 0x11 then
    if special then { m with rightAlt := down } else { m with leftAlt := down }
  else if scancode = 0x12 then
    if special then { m with printScreenStart := down } else { m with leftShift := down }
  else if scancode = 0x14 then
    if special then { m with rightControl := down } else { m with leftControl := down }
  else if scancode = 0x59 then { m with rightShift := down }
  else m

namespace Keyboard
variable {κ : Type*}

/-- The switch on the scan code. -/
def switch (k : Keyboard) (scancode : UInt8) : Keyboard :=
  if scancode ∈ responses then k
  else if scancode = 0xF0 then { k with nextKeyIsRelease := true }
  else if scancode = 0xE0 then { k with nextKeyIsSpecial := true }
  else if scancode = 0xE1 then { k with pauseSeqChars := 1 }
  else
    { k with specKeysDown := k.specKeysDown.set k.nextKeyIsSpecial (!k.nextKeyIsRelease) scancode }

/-- One round of the loop of `handle_interrupt_slow`: the byte read, and the event posted.  `table` has the
special codes and the normal ones. -/
def handleByte (table : Bool → UInt8 → κ) (k : Keyboard) (scancode : UInt8) :
    Keyboard × List (KeyEvent κ) :=
  if k.pauseSeqChars ≠ 0 then
    let n := k.pauseSeqChars + 1
    ({ k with pauseSeqChars := if n = 8 then 0 else n }, [])
  else
    let k := k.switch scancode
    -- the tail is common to all bytes but these three, responses among them
    if scancode ≠ 0xF0 ∧ scancode ≠ 0xE1 then
      if scancode ≠ 0xE0 then
        ({ k with nextKeyIsSpecial := false, nextKeyIsRelease := false },
          [⟨k.nextKeyIsRelease, table k.nextKeyIsSpecial scancode, k.specKeysDown⟩])
      else ({ k with nextKeyIsRelease := false }, [])
    else (k, [])

/-- `handle_interrupt_slow`, with the bytes that the controller has until it says that it has none. -/
def handleInterruptSlow (table : Bool → UInt8 → κ) : Keyboard → List UInt8 →
    Keyboard × List (KeyEvent κ)
  | k, [] => (k, [])
  | k, b :: bs =>
      let r := k.handleByte table b
      let r' := handleInterruptSlow table r.1 bs
      (r'.1, r.2 ++ r'.2)

/-- One interrupt after the other. -/
def interrupts (table : Bool → UInt8 → κ) : Keyboard → List (List UInt8) →
    Keyboard × List (KeyEvent κ)
  | k, [] => (k, [])
  | k, bytes :: rest =>
      let r := k.handleInterruptSlow table bytes
      let r' := interrupts table r.1 rest
      (r'.1, r.2 ++ r'.2)

end Keyboard

/-! ### The reference -/

/-- A key byte with its prefixes. -/
structure KeyUnit where
  special : Bool
  release : Bool
  code : UInt8
  deriving Repr, DecidableEq

/-- The bytes that are left when pause sequences and command responses are taken out; the first `n` are
the rest of a pause sequence. -/
def keyBytes : Nat → List UInt8 → List UInt8
  | _, [] => []
  | n + 1, _ :: bs => keyBytes n bs
  | 0, b :: bs =>
      if b = 0xE1 then keyBytes 7 bs
      else if b ∈ responses then keyBytes 0 bs
      else b :: keyBytes 0 bs

/-- The units of the stream, after the prefixes `p`. -/
def units : List UInt8 → List UInt8 → List KeyUnit
  | _, [] => []
  | p, b :: bs =>
      if b = 0xE0 ∨ b = 0xF0 then units (p ++ [b]) bs
      else ⟨decide (0xE0 ∈ p), decide (p.getLast? = some 0xF0), b⟩ :: units [] bs

/-- A press or a release of a modifier; the two keys with a logo are modifiers too. -/
def SpecialKeys.press (m : SpecialKeys) (u : KeyUnit) : SpecialKeys :=
  if u.code = 0x59 then { m with rightShift := !u.release }
  else if u.special then
    if u.code = 0x11 then { m with rightAlt := !u.release }
    else if u.code = 0x12 then { m with printScreenStart := !u.release }
    else if u.code = 0x14 then { m with rightControl := !u.release }
    else if u.code = 0x1F then { m with leftGui := !u.release }
    else if u.code = 0x27 then { m with rightGui := !u.release }
    else m
  else
    if u.code = 0x11 then { m with leftAlt := !u.release }
    else if u.code = 0x12 then { m with leftShift := !u.release }
    else if u.code = 0x14 then { m with leftControl := !u.release }
    else m

/-- The events of some units, where `set` says what a unit does to the modifiers. -/
def events {κ : Type*} (table : Bool → UInt8 → κ) (set : SpecialKeys → KeyUnit → SpecialKeys) :
    SpecialKeys → List KeyUnit → List (KeyEvent κ)
  | _, [] => []
  | m, u :: us => ⟨u.release, table u.special u.code, set m u⟩ :: events table set (set m u) us

/-- The prefixes that are left when there are no more bytes. -/
def leftover : List UInt8 → List UInt8 → List UInt8
  | p, [] => p
  | p, b :: bs => if b = 0xE0 ∨ b = 0xF0 then leftover (p ++ [b]) bs else leftover [] bs

/-- How many responses there are outside pause sequences. -/
def strayResponses : Nat → List UInt8 → Nat
  | _, [] => 0
  | n + 1, _ :: bs => strayResponses n bs
  | 0, b :: bs =>
      if b = 0xE1 then strayResponses 7 bs
      else if b ∈ responses then strayResponses 0 bs + 1
      else strayResponses 0 bs

/-- The press of a key with a logo. -/
def KeyUnit.PressesGui (u : KeyUnit) : Prop :=
  u.special = true ∧ u.release = false ∧ (u.code = 0x1F ∨ u.code = 0x27)

instance (u : KeyUnit) : Decidable u.PressesGui := inferInstanceAs (Decidable (_ ∧ _))

/-- The keyboard has decoded the bytes of some interrupts: their events, the modifiers down after them,
and the prefixes that are pending are those of the reference. -/
structure Decodes {κ : Type*} (table : Bool → UInt8 → κ) (bytes : List (List UInt8)) : Prop where
  events : (Keyboard.interrupts table {} bytes).2
    = events table SpecialKeys.press {} (units [] (keyBytes 0 bytes.flatten))
  modifiers : (Keyboard.interrupts table {} bytes).1.specKeysDown
    = (units [] (keyBytes 0 bytes.flatten)).foldl SpecialKeys.press {}
  special : (Keyboard.interrupts table {} bytes).1.nextKeyIsSpecial
    = decide (0xE0 ∈ leftover [] (keyBytes 0 bytes.flatten))
  release : (Keyboard.interrupts table {} bytes).1.nextKeyIsRelease
    = decide ((leftover [] (keyBytes 0 bytes.flatten)).getLast? = some 0xF0)

/-! ### One byte -/

section
variable {κ : Type*} {table : Bool → UInt8 → κ} {k : Keyboard} {n : Nat} {p : List UInt8}
  {m : SpecialKeys} {b : UInt8}

/-- What a unit does to the modifiers in the source. -/
def SpecialKeys.setBy (m : SpecialKeys) (u : KeyUnit) : SpecialKeys := m.set u.special (!u.release) u.code

/-- The counter of a pause sequence of which `n` bytes are to come. -/
def pauseCount (n : Nat) : Nat := if n = 0 then 0 else 8 - n

/-- The state machine stands in the stream: `n` bytes before the end of a pause sequence, or outside one;
after the prefixes `p`; with the modifiers `m`. -/
structure At (k : Keyboard) (n : Nat) (p : List UInt8) (m : SpecialKeys) : Prop where
  short : n ≤ 7
  pause : k.pauseSeqChars = pauseCount n
  special : k.nextKeyIsSpecial = decide (0xE0 ∈ p)
  release : k.nextKeyIsRelease = decide (p.getLast? = some 0xF0)
  modifiers : k.specKeysDown = m

/-- A byte inside a pause sequence. -/
theorem handleByte_pause (hn : n ≤ 6) (h : k.pauseSeqChars = pauseCount (n + 1)) :
    k.handleByte table b = ({ k with pauseSeqChars := pauseCount n }, []) := by
  have hcount : k.pauseSeqChars = 7 - n := by
    rw [h, pauseCount, if_neg (Nat.succ_ne_zero n)]
    omega
  rw [Keyboard.handleByte, if_pos (by omega)]
  dsimp only
  unfold pauseCount
  congr 2
  split
  · rw [if_pos (by omega)]
  · rw [if_neg (by omega)]
    omega

/-- The first byte of a pause sequence. -/
theorem handleByte_E1 (h : k.pauseSeqChars = 0) :
    k.handleByte table 0xE1 = ({ k with pauseSeqChars := pauseCount 7 }, []) := by
  rw [Keyboard.handleByte, if_neg (not_not.mpr h)]
  rfl

theorem handleByte_E0 (h : k.pauseSeqChars = 0) : k.handleByte table 0xE0
    = ({ k with nextKeyIsSpecial := true, nextKeyIsRelease := false }, []) := by
  rw [Keyboard.handleByte, if_neg (not_not.mpr h)]
  rfl

theorem handleByte_F0 (h : k.pauseSeqChars = 0) :
    k.handleByte table 0xF0 = ({ k with nextKeyIsRelease := true }, []) := by
  rw [Keyboard.handleByte, if_neg (not_not.mpr h)]
  rfl

/-- A response is taken for a key that is no modifier. -/
theorem handleByte_response (h : k.pauseSeqChars = 0) (hb : b ∈ responses) :
    k.handleByte table b = ({ k with nextKeyIsSpecial := false, nextKeyIsRelease := false },
      [⟨k.nextKeyIsRelease, table k.nextKeyIsSpecial b, k.specKeysDown⟩]) := by
  have hne : ∀ c ∈ responses, c ≠ 0xF0 ∧ c ≠ 0xE1 ∧ c ≠ 0xE0 := by decide +kernel
  obtain ⟨h1, h2, h3⟩ := hne b hb
  rw [Keyboard.handleByte, if_neg (not_not.mpr h), Keyboard.switch, if_pos hb]
  dsimp only
  rw [if_pos ⟨h1, h2⟩, if_pos h3]

/-- A key byte. -/
theorem handleByte_key (h : k.pauseSeqChars = 0) (hb : b ∉ responses) (h1 : b ≠ 0xE1) (h0 : b ≠ 0xE0)
    (hf : b ≠ 0xF0) :
    k.handleByte table b =
      ({ k with
          specKeysDown := k.specKeysDown.set k.nextKeyIsSpecial (!k.nextKeyIsRelease) b
          nextKeyIsSpecial := false
          nextKeyIsRelease := false },
        [⟨k.nextKeyIsRelease, table k.nextKeyIsSpecial b,
          k.specKeysDown.set k.nextKeyIsSpecial (!k.nextKeyIsRelease) b⟩]) := by
  rw [Keyboard.handleByte, if_neg (not_not.mpr h), Keyboard.switch, if_neg hb, if_neg hf, if_neg h0,
    if_neg h1]
  dsimp only
  rw [if_pos ⟨hf, h1⟩, if_pos h0]

/-! ### A stream without responses -/

/-- Without responses, the events are those of the units, with the modifiers as the source sets them. -/
theorem read_eq (bs : List UInt8) : ∀ {k : Keyboard} {n : Nat} {p : List UInt8} {m : SpecialKeys},
    At k n p m → strayResponses n bs = 0 →
    (k.handleInterruptSlow table bs).2 = events table SpecialKeys.setBy m (units p (keyBytes n bs))
      ∧ ∃ n', At (k.handleInterruptSlow table bs).1 n' (leftover p (keyBytes n bs))
        ((units p (keyBytes n bs)).foldl SpecialKeys.setBy m) := by
  induction bs with
  | nil =>
      intro k n p m h _
      cases n with
      | zero => exact ⟨rfl, 0, h⟩
      | succ n => exact ⟨rfl, n + 1, h⟩
  | cons b bs ih =>
      intro k n p m h hstray
      cases n with
      | succ n =>
          have hshort := h.short
          rw [Keyboard.handleInterruptSlow, handleByte_pause (by omega) h.pause]
          exact ih ⟨by omega, rfl, h.special, h.release, h.modifiers⟩ hstray
      | zero =>
          rw [strayResponses] at hstray
          rw [keyBytes, Keyboard.handleInterruptSlow]
          by_cases h1 : b = 0xE1
          · subst h1
            rw [if_pos rfl] at hstray ⊢
            rw [handleByte_E1 h.pause]
            exact ih ⟨Nat.le_refl 7, rfl, h.special, h.release, h.modifiers⟩ hstray
          rw [if_neg h1] at hstray ⊢
          by_cases hb : b ∈ responses
          · rw [if_pos hb] at hstray
            cases hstray
          rw [if_neg hb] at hstray ⊢
          rw [units, leftover]
          by_cases h0 : b = 0xE0
          · subst h0
            rw [if_pos (.inl rfl), if_pos (.inl rfl), handleByte_E0 h.pause]
            refine ih ⟨Nat.zero_le 7, h.pause, ?_, ?_, h.modifiers⟩ hstray
            · simp
            · simp
          by_cases hf : b = 0xF0
          · subst hf
            rw [if_pos (.inr rfl), if_pos (.inr rfl), handleByte_F0 h.pause]
            refine ih ⟨Nat.zero_le 7, h.pause, ?_, ?_, h.modifiers⟩ hstray
            · simp [h.special]
            · simp
          rw [if_neg (not_or.mpr ⟨h0, hf⟩), if_neg (not_or.mpr ⟨h0, hf⟩),
            handleByte_key h.pause hb h1 h0 hf, h.special, h.release, h.modifiers]
          obtain ⟨hev, hat⟩ := @ih
            { k with
              specKeysDown := m.set (decide (0xE0 ∈ p)) (!decide (p.getLast? = some 0xF0)) b
              nextKeyIsSpecial := false
              nextKeyIsRelease := false } 0 [] _
            ⟨Nat.zero_le 7, h.pause, rfl, rfl, rfl⟩ hstray
          refine ⟨?_, hat⟩
          dsimp only
          rw [hev]
          rfl

/-- Every byte outside a pause sequence but the three marks posts an event. -/
theorem read_length (bs : List UInt8) : ∀ {k : Keyboard} {n : Nat} (p : List UInt8),
    n ≤ 7 → k.pauseSeqChars = pauseCount n →
    (k.handleInterruptSlow table bs).2.length
      = (units p (keyBytes n bs)).length + strayResponses n bs := by
  induction bs with
  | nil => intro k n p _ _; cases n <;> rfl
  | cons b bs ih =>
      intro k n p hn hpause
      cases n with
      | succ n =>
          rw [Keyboard.handleInterruptSlow, handleByte_pause (by omega) hpause]
          exact ih p (by omega) rfl
      | zero =>
          rw [keyBytes, strayResponses, Keyboard.handleInterruptSlow]
          by_cases h1 : b = 0xE1
          · subst h1
            rw [if_pos rfl, if_pos rfl, handleByte_E1 hpause]
            exact ih p (Nat.le_refl 7) rfl
          rw [if_neg h1, if_neg h1]
          by_cases hb : b ∈ responses
          · rw [if_pos hb, if_pos hb, handleByte_response hpause hb]
            dsimp only
            have hrest := @ih { k with nextKeyIsSpecial := false, nextKeyIsRelease := false } 0 p
              (Nat.zero_le 7) hpause
            rw [List.length_append, List.length_singleton, hrest]
            omega
          rw [if_neg hb, if_neg hb, units]
          by_cases h0 : b = 0xE0
          · subst h0
            rw [if_pos (.inl rfl), handleByte_E0 hpause]
            exact ih _ (Nat.zero_le 7) hpause
          by_cases hf : b = 0xF0
          · subst hf
            rw [if_pos (.inr rfl), handleByte_F0 hpause]
            exact ih _ (Nat.zero_le 7) hpause
          rw [if_neg (not_or.mpr ⟨h0, hf⟩), handleByte_key hpause hb h1 h0 hf]
          dsimp only
          have hrest := @ih
            { k with
              specKeysDown := k.specKeysDown.set k.nextKeyIsSpecial (!k.nextKeyIsRelease) b
              nextKeyIsSpecial := false
              nextKeyIsRelease := false } 0 [] (Nat.zero_le 7) hpause
          rw [List.length_append, List.length_singleton, List.length_cons, hrest]
          omega

theorem read_append (bs cs : List UInt8) : ∀ {k : Keyboard},
    k.handleInterruptSlow table (bs ++ cs)
      = (((k.handleInterruptSlow table bs).1.handleInterruptSlow table cs).1,
        (k.handleInterruptSlow table bs).2
          ++ ((k.handleInterruptSlow table bs).1.handleInterruptSlow table cs).2) := by
  induction bs with
  | nil => intro k; rfl
  | cons b bs ih =>
      intro k
      rw [List.cons_append, Keyboard.handleInterruptSlow, ih]
      simp only [Keyboard.handleInterruptSlow, List.append_assoc]

/-- Where one interrupt ends and the next one begins makes no difference. -/
theorem interrupts_eq (bytes : List (List UInt8)) : ∀ {k : Keyboard},
    k.interrupts table bytes = k.handleInterruptSlow table bytes.flatten := by
  induction bytes with
  | nil => intro k; rfl
  | cons bs bytes ih =>
      intro k
      rw [List.flatten_cons, read_append, Keyboard.interrupts, ih]

/-! ### The modifiers -/

/-- The source sets all modifiers but the two with a logo. -/
theorem setBy_eq_press_iff {u : KeyUnit} (hl : m.leftGui = false) (hr : m.rightGui = false) :
    m.setBy u = m.press u ↔ ¬ u.PressesGui := by
  obtain ⟨special, release, code⟩ := u
  obtain ⟨ls, rs, lc, rc, la, ra, ps, lg, rg⟩ := m
  dsimp only at hl hr
  subst hl hr
  unfold SpecialKeys.setBy SpecialKeys.set KeyUnit.PressesGui SpecialKeys.press
  dsimp only
  by_cases h11 : code = 0x11
  · subst h11; cases special <;> simp
  by_cases h12 : code = 0x12
  · subst h12; cases special <;> simp
  by_cases h14 : code = 0x14
  · subst h14; cases special <;> simp
  by_cases h59 : code = 0x59
  · subst h59; simp
  rw [if_neg h11, if_neg h12, if_neg h14, if_neg h59, if_neg h59, if_neg h11, if_neg h12, if_neg h14,
    if_neg h11, if_neg h12, if_neg h14]
  cases special with
  | false => simp
  | true =>
      rw [if_pos rfl]
      by_cases h1f : code = 0x1F
      · subst h1f; cases release <;> simp
      by_cases h27 : code = 0x27
      · subst h27; cases release <;> simp
      rw [if_neg h1f, if_neg h27]
      simp [h1f, h27]

theorem setBy_gui {u : KeyUnit} (hl : m.leftGui = false) (hr : m.rightGui = false) :
    (m.setBy u).leftGui = false ∧ (m.setBy u).rightGui = false := by
  unfold SpecialKeys.setBy SpecialKeys.set
  repeat' split
  all_goals exact ⟨hl, hr⟩

/-- The two ways to set the modifiers give the same events as long as no key with a logo is pressed. -/
theorem events_eq_iff (us : List KeyUnit) : ∀ {m : SpecialKeys}, m.leftGui = false → m.rightGui = false →
    (events table SpecialKeys.setBy m us = events table SpecialKeys.press m us
      ↔ ∀ u ∈ us, ¬ u.PressesGui) := by
  induction us with
  | nil => intro m _ _; simp [events]
  | cons u us ih =>
      intro m hl hr
      have hiff := @setBy_eq_press_iff m u hl hr
      rw [events, events, List.forall_mem_cons, List.cons.injEq, KeyEvent.mk.injEq]
      by_cases hu : u.PressesGui
      · exact iff_of_false (fun h => hiff.mp h.1.2.2 hu) fun h => h.1 hu
      · have heq := hiff.mpr hu
        obtain ⟨hl', hr'⟩ := @setBy_gui m u hl hr
        rw [← heq, ih hl' hr']
        simp [hu]

theorem foldl_press (us : List KeyUnit) : ∀ {m : SpecialKeys}, m.leftGui = false → m.rightGui = false →
    (∀ u ∈ us, ¬ u.PressesGui) → us.foldl SpecialKeys.setBy m = us.foldl SpecialKeys.press m := by
  induction us with
  | nil => intro m _ _ _; rfl
  | cons u us ih =>
      intro m hl hr h
      obtain ⟨hu, hus⟩ := List.forall_mem_cons.mp h
      obtain ⟨hl', hr'⟩ := @setBy_gui m u hl hr
      rw [List.foldl_cons, List.foldl_cons, ih hl' hr' hus, (setBy_eq_press_iff hl hr).mpr hu]

end

/-- **Exactly which streams are decoded as they should be**, whatever the tables: those without a response
outside a pause sequence, and without the press of a key with a logo. -/
theorem keyboard_decodes_iff {κ : Type*} (table : Bool → UInt8 → κ) (bytes : List (List UInt8)) :
    Decodes table bytes ↔ strayResponses 0 bytes.flatten = 0
      ∧ ∀ u ∈ units [] (keyBytes 0 bytes.flatten), ¬ u.PressesGui := by
  have hstart : At {} 0 [] {} := ⟨Nat.zero_le 7, rfl, rfl, rfl, rfl⟩
  constructor
  · intro h
    have hev := h.events
    rw [interrupts_eq] at hev
    have hstray : strayResponses 0 bytes.flatten = 0 := by
      have hlen := congrArg List.length hev
      have hevents : ∀ (us : List KeyUnit) (m : SpecialKeys),
          (events table SpecialKeys.press m us).length = us.length := by
        intro us
        induction us with
        | nil => intro m; rfl
        | cons u us ih => intro m; rw [events, List.length_cons, List.length_cons, ih]
      rw [hevents, read_length _ [] (Nat.zero_le 7) rfl] at hlen
      omega
    refine ⟨hstray, ?_⟩
    rw [(read_eq _ hstart hstray).1] at hev
    exact (events_eq_iff _ rfl rfl).mp hev
  · rintro ⟨hstray, hgui⟩
    obtain ⟨hev, n, hat⟩ := @read_eq _ table bytes.flatten _ _ _ _ hstart hstray
    rw [← interrupts_eq] at hev hat
    refine ⟨?_, ?_, hat.special, hat.release⟩
    · rw [hev]
      exact (events_eq_iff _ rfl rfl).mpr hgui
    · rw [hat.modifiers]
      exact foldl_press _ rfl rfl hgui

/-- The release of the right control key, with an acknowledgement between its bytes: the acknowledgement
becomes a key that is released, and the control key the left one, pressed. -/
theorem response_posts_key :
    (Keyboard.interrupts Prod.mk {} [[0xE0, 0xF0, 0xFA, 0x14]]).2
      = [⟨true, (true, 0xFA), {}⟩, ⟨false, (false, 0x14), { leftControl := true }⟩]
    ∧ ¬ Decodes (fun special (code : UInt8) => (special, code)) [[0xE0, 0xF0, 0xFA, 0x14]] := by
  refine ⟨by decide, fun h => ?_⟩
  have hev := h.events
  revert hev
  decide

end Azalea.Device
