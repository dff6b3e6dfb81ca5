import Azalea.Support.Runs
import Azalea.User.CommandLine
import Azalea.User.ExecFile

/-!
# User — the simple shell

`count_command_details` and `parse_command` of `user/simple_shell/simple_shell.cpp`.  The first counts the
arguments of a command and the bytes they need, the second puts them in a buffer and pointers to them in a
table; both are kept for the next command.

* `countCommandDetails_eq`, `copyLoop_eq`: both scanners read a command as `scan` does.
* `run_isSome_iff`: what the second writes is one byte longer than what the first counts, if the command does
  not end in a character of an argument.
* `parses_iff`: after any earlier commands, a command is parsed as it should be exactly if it has an argument,
  ends in a character of it or finds a larger buffer, and `malloc` does not fail.
-/

namespace Azalea.User.Shell
open Azalea.Runs

/-! ### The source -/

/-- The characters of a command and its terminator.  A pointer into them is what is left from there on. -/
def memory (command : CString) : List UInt8 := command.chars ++ [0]

/-- `while (*command == ' ') command++;`  Nothing is returned if something past the terminator is read. -/
def skipSpaces : List UInt8 → Option (List UInt8)
  | [] => none
  | c :: rest => if c = spaceChar then skipSpaces rest else some (c :: rest)

/-- `while (*(command + 1) == ' ') command++;` -/
def skipRun : List UInt8 → Option (List UInt8)
  | c :: d :: rest => if d = spaceChar then skipRun (d :: rest) else some (c :: d :: rest)
  | _ => none

/-- The variables of `count_command_details`. -/
structure CountVars where
  command : List UInt8
  isInQuote : Bool
  numArgs : Nat
  argumentSpaceReqd : Nat

/-- One round of the loop of `count_command_details`, and whether there is another one after it. -/
def countRound (s : CountVars) : Option (Bool × CountVars) :=
  match s.command with
  | [] => none
  | c :: rest =>
      if c = quoteChar then do
        let next ← rest.head?
        if next = quoteChar then
          some (true, { s with command := rest.tail, argumentSpaceReqd := s.argumentSpaceReqd + 1 })
        else some (true, { s with command := rest, isInQuote := !s.isInQuote })
      else if c = spaceChar ∧ s.isInQuote = false then do
        let command ← skipRun (c :: rest)
        let next ← command.tail.head?
        if next = 0 then some (false, { s with command := command })
        else some (true, { s with
          command := command.tail
          numArgs := s.numArgs + 1
          argumentSpaceReqd := s.argumentSpaceReqd + 1 })
      else some (true, { s with command := rest, argumentSpaceReqd := s.argumentSpaceReqd + 1 })

/-- The loop of `count_command_details`, for at most so many rounds. -/
def countLoop : Nat → CountVars → Option (Bool × Nat × Nat)
  | 0, _ => none
  | fuel + 1, s => do
      let c ← s.command.head?
      if c = 0 then some (s.isInQuote, s.numArgs, s.argumentSpaceReqd)
      else
        let r ← countRound s
        if r.1 then countLoop fuel r.2 else some (r.2.isInQuote, r.2.numArgs, r.2.argumentSpaceReqd)

/-- `count_command_details`: its result, the number of arguments and the space they need.  A null pointer is
`none`. -/
def countCommandDetails : Option (List UInt8) → Option (Bool × Nat × Nat)
  | none => some (false, 1, 1)
  | some command => do
      let command ← skipSpaces command
      let r ← countLoop command.length ⟨command, false, 1, 1⟩
      some (!r.1, r.2)

/-- `xs[i] = a`.  Nothing is returned if this is outside of the block. -/
def writeAt {α : Type} (xs : List α) (i : Nat) (a : α) : Option (List α) :=
  if i < xs.length then some (xs.set i a) else none

/-- The table, the buffer, and where `parse_command` is in them.  A pointer into the buffer is its offset, and
a null pointer in the table is `none`. -/
structure Writer where
  argvTable : List (Option Nat)
  argvBuffer : List UInt8
  writePtr : Nat
  curArg : Nat

/-- `*(write_ptr + 1) = 0;` -/
def Writer.zeroAhead (w : Writer) : Option Writer := do
  let argvBuffer ← writeAt w.argvBuffer (w.writePtr + 1) 0
  some { w with argvBuffer := argvBuffer }

/-- `*write_ptr = c; write_ptr++;` -/
def Writer.putChar (w : Writer) (c : UInt8) : Option Writer := do
  let argvBuffer ← writeAt w.argvBuffer w.writePtr c
  some { w with argvBuffer := argvBuffer, writePtr := w.writePtr + 1 }

/-- Begin a new argument. -/
def Writer.beginArgument (w : Writer) : Option Writer := do
  let w ← w.putChar 0
  let argvTable ← writeAt w.argvTable (w.curArg + 1) (some w.writePtr)
  some { w with argvTable := argvTable, curArg := w.curArg + 1 }

/-- The variables of `parse_command`. -/
structure CopyVars where
  command : List UInt8
  isInQuote : Bool
  writer : Writer

/-- One round of the loop of `parse_command`, and whether there is another one after it. -/
def copyRound (s : CopyVars) : Option (Bool × CopyVars) := do
  let w ← s.writer.zeroAhead
  match s.command with
  | [] => none
  | c :: rest =>
      if c = quoteChar then do
        let next ← rest.head?
        if next = quoteChar then do
          let w ← w.putChar quoteChar
          some (true, { s with command := rest.tail, writer := w })
        else some (true, { command := rest, isInQuote := !s.isInQuote, writer := w })
      else if c = spaceChar ∧ s.isInQuote = false then do
        let command ← skipRun (c :: rest)
        let next ← command.tail.head?
        if next = 0 then some (false, { s with command := command, writer := w })
        else do
          let w ← w.beginArgument
          some (true, { s with command := command.tail, writer := w })
      else do
        let w ← w.putChar c
        some (true, { s with command := rest, writer := w })

/-- The loop of `parse_command`, for at most so many rounds. -/
def copyLoop : Nat → CopyVars → Option (Bool × Writer)
  | 0, _ => none
  | fuel + 1, s => do
      let c ← s.command.head?
      if c = 0 then some (s.isInQuote, s.writer)
      else
        let r ← copyRound s
        if r.1 then copyLoop fuel r.2 else some (r.2.isInQuote, r.2.writer)

/-- What is kept from one command to the next: the table and its size, and the buffer.  A null pointer points
to nothing. -/
structure ShellState where
  argvTable : List (Option Nat)
  argvTableSize : Nat
  argvBuffer : List UInt8
  deriving DecidableEq

/-- What `malloc` finds in the memory for the table and for the buffer, unless it fails. -/
structure Mallocs where
  table : Option (Nat → Option Nat)
  buffer : Option (Nat → UInt8)

/-- `malloc`. -/
def malloc {α : Type} (contents : Option (Nat → α)) (size : Nat) : List α :=
  match contents with
  | none => []
  | some f => (List.range size).map f

/-- The table `parse_command` uses. -/
def tableFor (mallocs : Mallocs) (s : ShellState) (numArgs : Nat) : List (Option Nat) :=
  if numArgs + 1 > s.argvTableSize then malloc mallocs.table (numArgs + 1) else s.argvTable

/-- The buffer `parse_command` uses. -/
def bufferFor (mallocs : Mallocs) (s : ShellState) (argvBufferSize reqdSpace : Nat) : List UInt8 :=
  if reqdSpace > argvBufferSize then malloc mallocs.buffer reqdSpace else s.argvBuffer

/-- `parse_command`: its result, and what is kept.  Nothing is returned if something outside of the table or
the buffer is written, or something past the end of the command is read. -/
def parseCommand (mallocs : Mallocs) (s : ShellState) (argvBufferSize : Nat) (command : CString) :
    Option (Bool × ShellState) := do
  let details ← countCommandDetails (some (memory command))
  let numArgs := details.2.1
  let argvTableSize := if numArgs + 1 > s.argvTableSize then numArgs + 1 else s.argvTableSize
  let argvBuffer := bufferFor mallocs s argvBufferSize details.2.2
  let argvTable ← writeAt (tableFor mallocs s numArgs) 0 (some 0)
  let argvTable ← writeAt argvTable numArgs none
  let start ← skipSpaces (memory command)
  let r ← copyLoop start.length ⟨start, false, ⟨argvTable, argvBuffer, 0, 0⟩⟩
  some (!r.1, ⟨r.2.argvTable, argvTableSize, r.2.argvBuffer⟩)

/-- The shell's variables at the beginning. -/
def ShellState.start : ShellState := ⟨[], 0, []⟩

/-- A call: what `malloc` finds, the size of the buffer as the caller passes it, and the command. -/
abbrev Call := Mallocs × Nat × CString

/-- A command is parsed. -/
def ShellState.step (s : ShellState) (call : Call) : Option ShellState :=
  (parseCommand call.1 s call.2.1 call.2.2).map Prod.snd

/-- The caller does not claim more than there is of the buffer. -/
def Tells (s : ShellState) (call : Call) : Prop := call.2.1 ≤ s.argvBuffer.length

/-! ### What is expected -/

/-- The table points to these strings in the buffer, each with its terminator, and then to nothing. -/
structure Points (table : List (Option Nat)) (buffer : List UInt8) (args : List (List UInt8)) : Prop where
  arg : ∀ k (hk : k < args.length), ∃ offset, table[k]? = some (some offset) ∧
    args[k] ++ [0] <+: buffer.drop offset
  null : table[args.length]? = some none

/-- Nothing is written outside of the table and the buffer, or read past the command; if the result is `true`,
the table holds the arguments, as many as have been counted. -/
def Parses (mallocs : Mallocs) (s : ShellState) (argvBufferSize : Nat) (command : CString) : Prop :=
  ∃ result s', parseCommand mallocs s argvBufferSize command = some (result, s') ∧
    (result = true →
      (countCommandDetails (some (memory command))).map (·.2.1) =
        some (splitArguments command.chars).length ∧
      Points s'.argvTable s'.argvBuffer (splitArguments command.chars))

/-! ### The scanners -/

section
variable {rest chars : List UInt8} {q : Bool}

theorem skipSpaces_spaces (hrest : rest.head? ≠ some spaceChar) :
    ∀ n, skipSpaces (List.replicate n spaceChar ++ rest ++ [0]) = some (rest ++ [0])
  | 0 => by
      cases rest with
      | nil => rfl
      | cons c rest => exact if_neg fun hc => hrest (congrArg some hc)
  | n + 1 => by
      rw [List.replicate_succ, List.cons_append, List.cons_append, skipSpaces, if_pos rfl,
        skipSpaces_spaces hrest n]

theorem skipRun_spaces (hrest : rest.head? ≠ some spaceChar) :
    ∀ n, skipRun (spaceChar :: (List.replicate n spaceChar ++ rest ++ [0])) =
      some (spaceChar :: (rest ++ [0]))
  | 0 => by
      cases rest with
      | nil => rfl
      | cons c rest => exact if_neg fun hc => hrest (congrArg some hc)
  | n + 1 => by
      rw [List.replicate_succ, List.cons_append, List.cons_append, skipRun, if_pos rfl,
        skipRun_spaces hrest n]

theorem scan_eq_nil_iff : scan q chars = [] ↔ chars = [] := by
  induction q, chars using scan_induct with
  | nil q => exact iff_of_true rfl rfl
  | doubled q rest _ => rw [scan_doubled]; simp
  | quote q rest hrest _ => rw [scan_quote hrest]; simp
  | spaces n rest hrest _ => rw [scan_spaces hrest]; simp [List.replicate_succ]
  | char q c rest hquote hspace _ => rw [scan_char hquote hspace]; simp

/-- The character after a position, which may be the terminator. -/
theorem exists_next (rest : List UInt8) : ∃ d, (rest ++ [0]).head? = some d ∧
    (rest.head? ≠ some quoteChar → d ≠ quoteChar) ∧ ((∀ c ∈ rest, c ≠ 0) → (d = 0 ↔ rest = [])) := by
  cases rest with
  | nil => exact ⟨0, rfl, fun _ => by decide, fun _ => iff_of_true rfl rfl⟩
  | cons d rest =>
      refine ⟨d, rfl, fun h hd => h (congrArg some hd), fun h => iff_of_false ?_ (List.cons_ne_nil d rest)⟩
      exact h d List.mem_cons_self

variable {c : UInt8} {numArgs space fuel : Nat}

theorem countLoop_succ {ptr : List UInt8} (hc : c ≠ 0) :
    countLoop (fuel + 1) ⟨c :: ptr, q, numArgs, space⟩ =
      (countRound ⟨c :: ptr, q, numArgs, space⟩).bind fun r =>
        if r.1 then countLoop fuel r.2 else some (r.2.isInQuote, r.2.numArgs, r.2.argumentSpaceReqd) :=
  if_neg hc

theorem countRound_doubled {ptr : List UInt8} :
    countRound ⟨quoteChar :: quoteChar :: ptr, q, numArgs, space⟩ =
      some (true, ⟨ptr, q, numArgs, space + 1⟩) := rfl

theorem countRound_quote (hrest : rest.head? ≠ some quoteChar) :
    countRound ⟨quoteChar :: (rest ++ [0]), q, numArgs, space⟩ =
      some (true, ⟨rest ++ [0], !q, numArgs, space⟩) := by
  obtain ⟨d, hd, hne, -⟩ := exists_next rest
  simp only [countRound, if_pos, hd, Option.bind_eq_bind, Option.bind_some, if_neg (hne hrest)]

theorem countRound_spaces (hrest : rest.head? ≠ some spaceChar) (hzero : ∀ c ∈ rest, c ≠ 0) (n : Nat) :
    countRound ⟨spaceChar :: (List.replicate n spaceChar ++ rest ++ [0]), false, numArgs, space⟩ =
      if rest = [] then some (false, ⟨spaceChar :: (rest ++ [0]), false, numArgs, space⟩)
      else some (true, ⟨rest ++ [0], false, numArgs + 1, space + 1⟩) := by
  obtain ⟨d, hd, -, hend⟩ := exists_next rest
  have hquote : spaceChar ≠ quoteChar := by decide
  simp only [countRound, if_neg hquote, and_self, if_pos, skipRun_spaces hrest, List.tail_cons, hd,
    Option.bind_eq_bind, Option.bind_some, hend hzero]

theorem countRound_char {ptr : List UInt8} (hquote : c ≠ quoteChar)
    (hspace : ¬ (c = spaceChar ∧ q = false)) :
    countRound ⟨c :: ptr, q, numArgs, space⟩ = some (true, ⟨ptr, q, numArgs, space + 1⟩) := by
  simp only [countRound, if_neg hquote, if_neg hspace]

/-- The first scanner reads a command as `scan` does, and counts the arguments and the bytes. -/
theorem countLoop_eq (q : Bool) (chars : List UInt8) :
    ∀ fuel, chars.length < fuel → (∀ c ∈ chars, c ≠ 0) → ∀ numArgs space,
      countLoop fuel ⟨chars ++ [0], q, numArgs, space⟩ = some (endsInQuote q (scan q chars),
        numArgs + gaps (scan q chars), space + text (scan q chars)) := by
  induction q, chars using scan_induct with
  | nil q =>
      rintro (_ | fuel) hfuel _ numArgs space
      · cases hfuel
      · rfl
  | doubled q rest ih =>
      rintro (_ | fuel) hfuel hzero numArgs space
      · cases hfuel
      · rw [List.cons_append, List.cons_append, countLoop_succ (by decide), countRound_doubled, scan_doubled]
        refine (ih fuel (by simp only [List.length_cons] at hfuel; omega)
          (fun c hc => hzero c (by simp [hc])) numArgs (space + 1)).trans ?_
        simp [gaps, text, endsInQuote, Nat.add_assoc]
  | quote q rest hrest ih =>
      rintro (_ | fuel) hfuel hzero numArgs space
      · cases hfuel
      · rw [List.cons_append, countLoop_succ (by decide), countRound_quote hrest, scan_quote hrest]
        refine (ih fuel (by simp only [List.length_cons] at hfuel; omega)
          (fun c hc => hzero c (by simp [hc])) numArgs space).trans ?_
        simp [gaps, text, endsInQuote]
  | spaces n rest hrest ih =>
      rintro (_ | fuel) hfuel hzero numArgs space
      · cases hfuel
      · have hzero' : ∀ c ∈ rest, c ≠ 0 := fun c hc => hzero c (by simp [hc])
        rw [scan_spaces hrest, List.replicate_succ, List.cons_append, List.cons_append,
          countLoop_succ (by decide), countRound_spaces hrest hzero']
        by_cases hnil : rest = []
        · subst hnil
          rfl
        · rw [if_neg hnil]
          refine (ih fuel (by simp at hfuel; omega) hzero' (numArgs + 1) (space + 1)).trans ?_
          simp [gaps, text, endsInQuote, scan_eq_nil_iff, hnil, Nat.add_assoc]
  | char q c rest hquote hspace ih =>
      rintro (_ | fuel) hfuel hzero numArgs space
      · cases hfuel
      · rw [List.cons_append, countLoop_succ (hzero c (by simp)), countRound_char hquote hspace,
          scan_char hquote hspace]
        refine (ih fuel (by simp only [List.length_cons] at hfuel; omega)
          (fun d hd => hzero d (by simp [hd])) numArgs (space + 1)).trans ?_
        simp [gaps, text, endsInQuote, Nat.add_assoc]

/-- What the second scanner does at an event, which may be the last one. -/
def Writer.event (w : Writer) (last : Bool) (e : Event) : Option Writer := do
  let w ← w.zeroAhead
  match e with
  | .quote => some w
  | .put c => w.putChar c
  | .space => if last then some w else w.beginArgument

/-- What it does at one event after the other. -/
def Writer.run : Writer → List Event → Option Writer
  | w, [] => some w
  | w, e :: es => (w.event es.isEmpty e).bind fun w => w.run es

variable {w : Writer}

theorem copyLoop_succ {ptr : List UInt8} (hc : c ≠ 0) :
    copyLoop (fuel + 1) ⟨c :: ptr, q, w⟩ =
      (copyRound ⟨c :: ptr, q, w⟩).bind fun r =>
        if r.1 then copyLoop fuel r.2 else some (r.2.isInQuote, r.2.writer) :=
  if_neg hc

theorem copyRound_doubled {ptr : List UInt8} (last : Bool) :
    copyRound ⟨quoteChar :: quoteChar :: ptr, q, w⟩ =
      (w.event last (.put quoteChar)).map fun w => (true, ⟨ptr, q, w⟩) := by
  simp only [copyRound, Writer.event, if_pos, List.head?_cons, List.tail_cons, Option.bind_eq_bind,
    Option.bind_some, Option.map_bind]
  exact congrArg (Option.bind _) (funext fun w => Option.map_eq_bind.symm)

theorem copyRound_quote (hrest : rest.head? ≠ some quoteChar) (last : Bool) :
    copyRound ⟨quoteChar :: (rest ++ [0]), q, w⟩ =
      (w.event last .quote).map fun w => (true, ⟨rest ++ [0], !q, w⟩) := by
  obtain ⟨d, hd, hne, -⟩ := exists_next rest
  simp only [copyRound, Writer.event, if_pos, hd, Option.bind_eq_bind, Option.bind_some, if_neg (hne hrest),
    Option.map_bind]
  rfl

theorem copyRound_spaces (hrest : rest.head? ≠ some spaceChar) (hzero : ∀ c ∈ rest, c ≠ 0) (n : Nat) :
    copyRound ⟨spaceChar :: (List.replicate n spaceChar ++ rest ++ [0]), false, w⟩ =
      (w.event rest.isEmpty .space).map fun w =>
        if rest = [] then (false, ⟨spaceChar :: (rest ++ [0]), false, w⟩)
        else (true, ⟨rest ++ [0], false, w⟩) := by
  obtain ⟨d, hd, -, hend⟩ := exists_next rest
  have hquote : spaceChar ≠ quoteChar := by decide
  simp only [copyRound, Writer.event, if_neg hquote, and_self, if_pos, skipRun_spaces hrest, List.tail_cons, hd,
    Option.bind_eq_bind, Option.bind_some, hend hzero, Option.map_bind, List.isEmpty_iff]
  refine congrArg (Option.bind _) (funext fun w => ?_)
  by_cases hnil : rest = []
  · simp [hnil]
  · simp only [hnil, if_false, Function.comp_apply]
    exact Option.map_eq_bind.symm

theorem copyRound_char {ptr : List UInt8} (hquote : c ≠ quoteChar) (hspace : ¬ (c = spaceChar ∧ q = false))
    (last : Bool) :
    copyRound ⟨c :: ptr, q, w⟩ = (w.event last (.put c)).map fun w => (true, ⟨ptr, q, w⟩) := by
  simp only [copyRound, Writer.event, if_neg hquote, if_neg hspace, Option.bind_eq_bind, Option.map_bind]
  exact congrArg (Option.bind _) (funext fun w => Option.map_eq_bind.symm)

/-- The second scanner, too, reads a command as `scan` does. -/
theorem copyLoop_eq (q : Bool) (chars : List UInt8) :
    ∀ fuel, chars.length < fuel → (∀ c ∈ chars, c ≠ 0) → ∀ w : Writer,
      copyLoop fuel ⟨chars ++ [0], q, w⟩ =
        (w.run (scan q chars)).map fun w => (endsInQuote q (scan q chars), w) := by
  induction q, chars using scan_induct with
  | nil q =>
      rintro (_ | fuel) hfuel _ w
      · cases hfuel
      · rfl
  | doubled q rest ih =>
      rintro (_ | fuel) hfuel hzero w
      · cases hfuel
      · rw [List.cons_append, List.cons_append, copyLoop_succ (by decide),
          copyRound_doubled (scan q rest).isEmpty, scan_doubled, Writer.run, Option.bind_map, Option.map_bind]
        exact congrArg (Option.bind _) (funext fun w =>
          ih fuel (by simp only [List.length_cons] at hfuel; omega) (fun c hc => hzero c (by simp [hc])) w)
  | quote q rest hrest ih =>
      rintro (_ | fuel) hfuel hzero w
      · cases hfuel
      · rw [List.cons_append, copyLoop_succ (by decide), copyRound_quote hrest (scan (!q) rest).isEmpty,
          scan_quote hrest, Writer.run, Option.bind_map, Option.map_bind]
        exact congrArg (Option.bind _) (funext fun w =>
          ih fuel (by simp only [List.length_cons] at hfuel; omega) (fun c hc => hzero c (by simp [hc])) w)
  | spaces n rest hrest ih =>
      rintro (_ | fuel) hfuel hzero w
      · cases hfuel
      · have hzero' : ∀ c ∈ rest, c ≠ 0 := fun c hc => hzero c (by simp [hc])
        have hempty : (scan false rest).isEmpty = rest.isEmpty := by
          rw [Bool.eq_iff_iff, List.isEmpty_iff, List.isEmpty_iff, scan_eq_nil_iff]
        rw [scan_spaces hrest, List.replicate_succ, List.cons_append, List.cons_append,
          copyLoop_succ (by decide), copyRound_spaces hrest hzero', Writer.run, Option.bind_map,
          Option.map_bind, hempty]
        refine congrArg (Option.bind _) (funext fun w => ?_)
        by_cases hnil : rest = []
        · subst hnil
          rfl
        · simp only [Function.comp_apply, if_neg hnil]
          exact ih fuel (by simp at hfuel; omega) hzero' w
  | char q c rest hquote hspace ih =>
      rintro (_ | fuel) hfuel hzero w
      · cases hfuel
      · rw [List.cons_append, copyLoop_succ (hzero c (by simp)),
          copyRound_char hquote hspace (scan q rest).isEmpty, scan_char hquote hspace, Writer.run,
          Option.bind_map, Option.map_bind]
        exact congrArg (Option.bind _) (funext fun w =>
          ih fuel (by simp only [List.length_cons] at hfuel; omega) (fun d hd => hzero d (by simp [hd])) w)

/-! ### Room -/

/-- The state after an event, if there is room for what is written. -/
def Writer.after (w : Writer) (last : Bool) (e : Event) : Writer :=
  let argvBuffer := w.argvBuffer.set (w.writePtr + 1) 0
  match e with
  | .quote => { w with argvBuffer := argvBuffer }
  | .put c => { w with argvBuffer := argvBuffer.set w.writePtr c, writePtr := w.writePtr + 1 }
  | .space =>
      if last then { w with argvBuffer := argvBuffer }
      else { argvTable := w.argvTable.set (w.curArg + 1) (some (w.writePtr + 1))
             argvBuffer := argvBuffer.set w.writePtr 0
             writePtr := w.writePtr + 1
             curArg := w.curArg + 1 }

theorem Writer.event_eq (w : Writer) (last : Bool) (e : Event) : w.event last e =
    if w.writePtr + 1 < w.argvBuffer.length ∧
        (e = .space ∧ last = false → w.curArg + 1 < w.argvTable.length) then some (w.after last e)
    else none := by
  by_cases hroom : w.writePtr + 1 < w.argvBuffer.length
  · have hlt : w.writePtr < w.argvBuffer.length := Nat.lt_of_succ_lt hroom
    cases e with
    | quote => simp [Writer.event, Writer.zeroAhead, writeAt, hroom, Writer.after]
    | put c => simp [Writer.event, Writer.zeroAhead, Writer.putChar, writeAt, hroom, hlt, Writer.after]
    | space =>
        cases last with
        | true => simp [Writer.event, Writer.zeroAhead, writeAt, hroom, Writer.after]
        | false =>
            by_cases htable : w.curArg + 1 < w.argvTable.length <;>
              simp [Writer.event, Writer.zeroAhead, Writer.beginArgument, Writer.putChar, writeAt, hroom, hlt,
                Writer.after, htable]
  · rw [if_neg fun h => hroom h.1]
    simp [Writer.event, Writer.zeroAhead, writeAt, hroom]

variable {last : Bool} {e : Event} {es : List Event} {w' : Writer}

@[simp] theorem length_after_buffer : (w.after last e).argvBuffer.length = w.argvBuffer.length := by
  cases e <;> cases last <;> simp [Writer.after]

@[simp] theorem length_after_table : (w.after last e).argvTable.length = w.argvTable.length := by
  cases e <;> cases last <;> simp [Writer.after]

theorem after_writePtr : (w.after last e).writePtr =
    w.writePtr + if e = .quote ∨ e = .space ∧ last = true then 0 else 1 := by
  cases e <;> cases last <;> simp [Writer.after]

theorem after_curArg : (w.after last e).curArg =
    w.curArg + if e = .space ∧ last = false then 1 else 0 := by
  cases e <;> cases last <;> simp [Writer.after]

/-- How far beyond its position something is written. -/
def reach (es : List Event) : Nat := text es + if EndsInChar es then 0 else 1

theorem endsInChar_cons (hes : es ≠ []) : EndsInChar (e :: es) ↔ EndsInChar es := by
  rw [EndsInChar, EndsInChar, List.getLast?_cons_of_ne_nil hes]

theorem reach_cons (hes : es ≠ []) :
    reach (e :: es) = (if e = .quote then 0 else 1) + reach es := by
  simp only [reach, text, hes, and_false, or_false, endsInChar_cons hes, Nat.add_assoc]

theorem reach_singleton : reach [e] = 1 := by
  cases e <;> simp [reach, text, EndsInChar]

theorem reach_pos : ∀ es : List Event, es ≠ [] → 0 < reach es
  | [], h => absurd rfl h
  | [e], _ => by rw [reach_singleton]; exact Nat.one_pos
  | e :: e' :: es, _ => by
      rw [reach_cons (List.cons_ne_nil e' es)]
      exact Nat.add_pos_right _ (reach_pos (e' :: es) (List.cons_ne_nil e' es))

/-- The events are gone through if and only if there is room in the buffer. -/
theorem run_isSome_iff (hes : es ≠ []) (htable : w.curArg + gaps es < w.argvTable.length) :
    (w.run es).isSome = true ↔ w.writePtr + reach es < w.argvBuffer.length := by
  induction es generalizing w with
  | nil => exact absurd rfl hes
  | cons e es ih =>
      rw [Writer.run, Writer.event_eq]
      by_cases hnil : es = []
      · subst hnil
        rw [reach_singleton]
        by_cases hroom : w.writePtr + 1 < w.argvBuffer.length <;> simp [hroom, Writer.run]
      · have hempty : es.isEmpty = false := by simpa using hnil
        have hgaps : gaps (e :: es) = (if e = .space then 1 else 0) + gaps es := by simp [gaps, hnil]
        rw [hgaps] at htable
        rw [hempty, reach_cons hnil]
        have hpos := reach_pos es hnil
        by_cases hroom : w.writePtr + 1 < w.argvBuffer.length
        · rw [if_pos ⟨hroom, fun h => by rw [if_pos h.1] at htable; omega⟩, Option.bind_some, ih hnil ?_]
          · rw [length_after_buffer, after_writePtr, Nat.add_assoc]
            simp
          · rw [length_after_table, after_curArg]
            simpa [Nat.add_assoc] using htable
        · rw [if_neg fun h => hroom h.1]
          refine iff_of_false (by simp) fun h => hroom ?_
          omega

/-! ### What is written -/

/-- Strings one after the other, each with its terminator. -/
def laid (args : List (List UInt8)) : List UInt8 := args.flatMap (· ++ [0])

/-- So many arguments are complete, and another one is begun. -/
structure Written (args : List (List UInt8)) (p : List UInt8) (w : Writer) : Prop where
  buffer : w.argvBuffer.take w.writePtr = laid args ++ p
  pos : w.writePtr = (laid args ++ p).length
  zero : w.writePtr = 0 ∨ w.argvBuffer[w.writePtr]? = some 0
  cur : w.curArg = args.length
  table : ∀ k ≤ args.length, w.argvTable[k]? = some (some (laid (args.take k)).length)

variable {args : List (List UInt8)} {p : List UInt8}

theorem take_set_ahead (xs : List UInt8) (n : Nat) (a : UInt8) : (xs.set (n + 1) a).take n = xs.take n := by
  rw [List.take_set, List.set_eq_of_length_le]
  exact Nat.le_succ_of_le (List.length_take_le n xs)

/-- A byte is put at a position, after the one behind it. -/
theorem take_set_both {xs : List UInt8} {n : Nat} (hroom : n + 1 < xs.length) (c : UInt8) :
    ((xs.set (n + 1) 0).set n c).take (n + 1) = xs.take n ++ [c] := by
  have hget : ((xs.set (n + 1) 0).set n c)[n]? = some c := by
    rw [List.getElem?_set_self]
    rw [List.length_set]
    exact Nat.lt_of_succ_lt hroom
  rw [List.take_add_one, hget, List.take_set, List.set_eq_of_length_le (List.length_take_le n _),
    take_set_ahead]
  rfl

theorem getElem?_set_both {xs : List UInt8} {n : Nat} (hroom : n + 1 < xs.length) (c : UInt8) :
    ((xs.set (n + 1) 0).set n c)[n + 1]? = some 0 := by
  rw [List.getElem?_set_ne (Nat.ne_of_lt (Nat.lt_succ_self n)), List.getElem?_set_self hroom]

/-- Nothing but the byte behind the position is written. -/
theorem Written.ahead (h : Written args p w) :
    Written args p { w with argvBuffer := w.argvBuffer.set (w.writePtr + 1) 0 } where
  buffer := (take_set_ahead _ _ _).trans h.buffer
  pos := h.pos
  zero := h.zero.imp_right fun hz =>
    (List.getElem?_set_ne (Nat.ne_of_gt (Nat.lt_succ_self _))).trans hz
  cur := h.cur
  table := h.table

theorem Written.put (h : Written args p w) (hroom : w.writePtr + 1 < w.argvBuffer.length) (c : UInt8) :
    Written args (p ++ [c]) (w.after last (.put c)) where
  buffer := by
    rw [← List.append_assoc, ← h.buffer]
    exact take_set_both hroom c
  pos := by
    rw [← List.append_assoc, List.length_append, ← h.pos]
    rfl
  zero := .inr (getElem?_set_both hroom c)
  cur := h.cur
  table := h.table

theorem laid_concat (args : List (List UInt8)) (p : List UInt8) :
    laid (args ++ [p]) = laid args ++ p ++ [0] := by
  rw [laid, List.flatMap_append, List.flatMap_singleton, List.append_assoc, laid]

theorem Written.begins (h : Written args p w) (hroom : w.writePtr + 1 < w.argvBuffer.length)
    (htable : w.curArg + 1 < w.argvTable.length) :
    Written (args ++ [p]) [] (w.after false .space) where
  buffer := by
    rw [List.append_nil, laid_concat, ← h.buffer]
    exact take_set_both hroom 0
  pos := by
    rw [List.append_nil, laid_concat, List.length_append, ← h.pos]
    rfl
  zero := .inr (getElem?_set_both hroom 0)
  cur := by
    rw [List.length_append, ← h.cur]
    rfl
  table := by
    intro k hk
    change (w.argvTable.set (w.curArg + 1) (some (w.writePtr + 1)))[k]? = _
    rcases Nat.lt_or_eq_of_le hk with hlt | rfl
    · have hle : k ≤ args.length := by
        rw [List.length_append] at hlt
        exact Nat.le_of_lt_succ hlt
      rw [List.getElem?_set_ne (by rw [h.cur]; omega), h.table k hle, List.take_append_of_le_length hle]
    · have hlaid : (laid (args ++ [p])).length = w.writePtr + 1 := by
        rw [laid_concat, List.length_append, ← h.pos]
        rfl
      rw [List.take_length, hlaid, List.length_append, ← h.cur]
      exact List.getElem?_set_self htable

/-- What is written when the events are gone through. -/
theorem Written.run (h : Written args p w) (hrun : w.run es = some w') :
    (∃ args' p', args' ++ [p'] = args ++ (strings es).modifyHead (p ++ ·) ∧ Written args' p' w') ∧
      w'.argvTable.length = w.argvTable.length ∧
      ∀ k, w.curArg + gaps es < k → w'.argvTable[k]? = w.argvTable[k]? := by
  induction es generalizing args p w with
  | nil =>
      obtain rfl := Option.some.inj hrun
      exact ⟨⟨args, p, by simp [strings], h⟩, rfl, fun _ _ => rfl⟩
  | cons e es ih =>
      obtain ⟨w₁, hevent, hrun⟩ := Option.bind_eq_some_iff.mp hrun
      rw [Writer.event_eq] at hevent
      split at hevent
      next hroom =>
        obtain rfl := Option.some.inj hevent
        cases e with
        | quote =>
            obtain ⟨hwritten, hlength, hframe⟩ := ih h.ahead hrun
            exact ⟨hwritten, hlength, fun k hk => hframe k (by simpa [gaps] using hk)⟩
        | put c =>
            obtain ⟨⟨args', p', heq, hwritten⟩, hlength, hframe⟩ := ih (h.put hroom.1 c) hrun
            refine ⟨⟨args', p', ?_, hwritten⟩, hlength, fun k hk => hframe k ?_⟩
            · rw [heq, strings, modifyHead_append_cons]
            · rw [gaps, if_neg (by simp), Nat.zero_add] at hk
              exact hk
        | space =>
            cases es with
            | nil =>
                obtain rfl := Option.some.inj hrun
                exact ⟨⟨args, p, by simp [strings], h.ahead⟩, rfl, fun _ _ => rfl⟩
            | cons e' es =>
                obtain ⟨⟨args', p', heq, hwritten⟩, hlength, hframe⟩ :=
                  ih (h.begins hroom.1 (hroom.2 ⟨rfl, rfl⟩)) hrun
                refine ⟨⟨args', p', ?_, hwritten⟩, hlength.trans length_after_table, fun k hk => ?_⟩
                · rw [heq, strings, if_neg (List.cons_ne_nil e' es), modifyHead_nil_append]
                  simp
                · have hk : w.curArg + 1 + gaps (e' :: es) < k := by
                    rw [gaps, if_pos ⟨rfl, List.cons_ne_nil e' es⟩] at hk
                    omega
                  exact (hframe k hk).trans (List.getElem?_set_ne (by omega))
      next => cases hevent

/-- What is written is what is expected, if something is. -/
theorem Written.points {all : List (List UInt8)} (h : Written args p w) (hall : args ++ [p] = all)
    (hpos : 0 < w.writePtr) (hnull : w.argvTable[all.length]? = some none) :
    Points w.argvTable w.argvBuffer all where
  null := hnull
  arg := by
    intro k hk
    have hle : k ≤ args.length := by
      rw [← hall, List.length_append] at hk
      exact Nat.le_of_lt_succ hk
    refine ⟨_, h.table k hle, ?_⟩
    have hzero := h.zero.resolve_left (Nat.ne_of_gt hpos)
    have htake : w.argvBuffer.take (w.writePtr + 1) = laid all := by
      rw [← hall, laid_concat, ← h.buffer, List.take_add_one, hzero]
      rfl
    have hsplit : laid all = laid (args.take k) ++ ((all[k] ++ [0]) ++ laid (all.drop (k + 1))) := by
      have hargs : args.take k = all.take k := by rw [← hall, List.take_append_of_le_length hle]
      conv_lhs => rw [← List.take_append_drop k all, List.drop_eq_getElem_cons hk]
      rw [hargs, laid, List.flatMap_append, List.flatMap_cons]
      rfl
    rw [← List.take_append_drop (w.writePtr + 1) w.argvBuffer, htake, hsplit, List.append_assoc,
      List.drop_left, List.append_assoc]
    exact List.prefix_append _ _

end

/-! ### A command -/

/-- The command from its first character that is not a space. -/
def trimmed (command : CString) : List UInt8 := command.chars.dropWhile (· = spaceChar)

/-- What the scanners see. -/
def scanned (command : CString) : List Event := scan false (trimmed command)

/-- The number of arguments that is counted. -/
def argumentCount (command : CString) : Nat := gaps (scanned command) + 1

/-- The space that is counted. -/
def spaceReqd (command : CString) : Nat := text (scanned command) + 1

section
variable {mallocs : Mallocs} {s s' : ShellState} {argvBufferSize : Nat} {command : CString}

theorem dropWhile_spaces {rest : List UInt8} (hrest : rest.head? ≠ some spaceChar) :
    ∀ n, (List.replicate n spaceChar ++ rest).dropWhile (· = spaceChar) = rest
  | 0 => by
      cases rest with
      | nil => rfl
      | cons c rest => exact List.dropWhile_cons_of_neg fun h => hrest (congrArg some (of_decide_eq_true h))
  | n + 1 => by
      rw [List.replicate_succ, List.cons_append, List.dropWhile_cons_of_pos (by decide),
        dropWhile_spaces hrest n]

theorem exists_trimmed (command : CString) :
    ∃ n, command.chars = List.replicate n spaceChar ++ trimmed command ∧
      (trimmed command).head? ≠ some spaceChar := by
  obtain ⟨n, rest, heq, hrest⟩ := exists_spaces command.chars
  have htrimmed : trimmed command = rest := by rw [trimmed, heq, dropWhile_spaces hrest n]
  exact ⟨n, htrimmed ▸ heq, htrimmed ▸ hrest⟩

theorem trimmed_noZero : ∀ c ∈ trimmed command, c ≠ 0 := fun c hc =>
  command.noZero c ((List.dropWhile_suffix _).subset hc)

theorem skipSpaces_memory : skipSpaces (memory command) = some (trimmed command ++ [0]) := by
  obtain ⟨n, heq, hrest⟩ := exists_trimmed command
  rw [memory, heq]
  exact skipSpaces_spaces hrest n

theorem countCommandDetails_eq : countCommandDetails (some (memory command)) =
    some (!endsInQuote false (scanned command), argumentCount command, spaceReqd command) := by
  have hloop := countLoop_eq false (trimmed command) (trimmed command ++ [0]).length (by simp)
    trimmed_noZero 1 1
  simp only [countCommandDetails, skipSpaces_memory, Option.bind_eq_bind, Option.bind_some, hloop]
  rw [Nat.add_comm 1, Nat.add_comm 1]
  rfl

/-- The writer `parse_command` begins with. -/
def firstWriter (mallocs : Mallocs) (s : ShellState) (argvBufferSize : Nat) (command : CString) : Writer where
  argvTable := ((tableFor mallocs s (argumentCount command)).set 0 (some 0)).set (argumentCount command) none
  argvBuffer := bufferFor mallocs s argvBufferSize (spaceReqd command)
  writePtr := 0
  curArg := 0

theorem parseCommand_eq : parseCommand mallocs s argvBufferSize command =
    if argumentCount command < (tableFor mallocs s (argumentCount command)).length then
      ((firstWriter mallocs s argvBufferSize command).run (scanned command)).map fun w =>
        (!endsInQuote false (scanned command), ⟨w.argvTable,
          if argumentCount command + 1 > s.argvTableSize then argumentCount command + 1 else s.argvTableSize,
          w.argvBuffer⟩)
    else none := by
  have hloop := copyLoop_eq false (trimmed command) (trimmed command ++ [0]).length (by simp) trimmed_noZero
  simp only [parseCommand, countCommandDetails_eq, skipSpaces_memory, Option.bind_eq_bind, Option.bind_some,
    hloop, Option.bind_map, writeAt]
  by_cases htable : argumentCount command < (tableFor mallocs s (argumentCount command)).length
  · rw [if_pos htable, if_pos (Nat.zero_lt_of_lt htable), Option.bind_some, List.length_set, if_pos htable,
      Option.bind_some]
    exact Option.map_eq_bind.symm
  · rw [if_neg htable]
    split
    next => rw [Option.bind_some, List.length_set, if_neg htable, Option.bind_none]
    next => rfl

theorem length_malloc {α : Type} (contents : Option (Nat → α)) (size : Nat) :
    (malloc contents size).length = if contents.isSome then size else 0 := by
  cases contents with
  | none => rfl
  | some f => exact (List.length_map _).trans List.length_range

/-- The table is long enough unless `malloc` fails, and as long as `argv_table_size` says. -/
theorem length_tableFor (hs : s.argvTable.length = s.argvTableSize) (numArgs : Nat) :
    (numArgs < (tableFor mallocs s numArgs).length ↔
      (numArgs + 1 > s.argvTableSize → mallocs.table.isSome = true)) ∧
    (numArgs < (tableFor mallocs s numArgs).length → (tableFor mallocs s numArgs).length =
      if numArgs + 1 > s.argvTableSize then numArgs + 1 else s.argvTableSize) := by
  by_cases hgrows : numArgs + 1 > s.argvTableSize
  · rw [tableFor, if_pos hgrows, if_pos hgrows, length_malloc]
    cases mallocs.table <;> simp [hgrows]
  · rw [tableFor, if_neg hgrows, if_neg hgrows, hs]
    exact ⟨iff_of_true (by omega) fun h => absurd h hgrows, fun _ => rfl⟩

theorem written_firstWriter
    (htable : argumentCount command < (tableFor mallocs s (argumentCount command)).length) :
    Written [] [] (firstWriter mallocs s argvBufferSize command) where
  buffer := rfl
  pos := rfl
  zero := .inl rfl
  cur := rfl
  table := by
    intro k hk
    obtain rfl := Nat.le_zero.mp hk
    change (((tableFor mallocs s (argumentCount command)).set 0 (some 0)).set
      (argumentCount command) none)[0]? = _
    rw [List.getElem?_set_ne (show argumentCount command ≠ 0 from Nat.succ_ne_zero _),
      List.getElem?_set_self (Nat.zero_lt_of_lt htable)]
    rfl

theorem length_firstWriter : (firstWriter mallocs s argvBufferSize command).argvTable.length =
    (tableFor mallocs s (argumentCount command)).length := by
  rw [firstWriter, List.length_set, List.length_set]

/-- In every state reached the table is as long as its size says. -/
theorem length_argvTable (h : Reach ShellState.step Tells ShellState.start s) :
    s.argvTable.length = s.argvTableSize := by
  refine h.invariant (I := fun s => s.argvTable.length = s.argvTableSize) rfl ?_
  rintro s ⟨mallocs, argvBufferSize, command⟩ s' hs - hstep
  obtain ⟨r, hr, rfl⟩ := Option.map_eq_some_iff.mp hstep
  rw [parseCommand_eq] at hr
  split at hr
  next htable =>
    obtain ⟨w, hrun, rfl⟩ := Option.map_eq_some_iff.mp hr
    obtain ⟨-, hlength, -⟩ := (written_firstWriter htable).run hrun
    exact (hlength.trans length_firstWriter).trans ((length_tableFor hs _).2 htable)
  next => cases hr

/-- What the code needs to parse a command: it has an argument, `malloc` does not fail, and it ends in a
character of an argument, unless a buffer is kept that is larger than what is counted. -/
def Suits (mallocs : Mallocs) (s : ShellState) (argvBufferSize : Nat) (command : CString) : Prop :=
  trimmed command ≠ [] ∧
    (argumentCount command + 1 > s.argvTableSize → mallocs.table.isSome = true) ∧
    if spaceReqd command > argvBufferSize then
      mallocs.buffer.isSome = true ∧ EndsInChar (scanned command)
    else EndsInChar (scanned command) ∨ spaceReqd command < s.argvBuffer.length

theorem reach_lt_iff (htells : argvBufferSize ≤ s.argvBuffer.length) :
    reach (scanned command) < (bufferFor mallocs s argvBufferSize (spaceReqd command)).length ↔
      if spaceReqd command > argvBufferSize then
        mallocs.buffer.isSome = true ∧ EndsInChar (scanned command)
      else EndsInChar (scanned command) ∨ spaceReqd command < s.argvBuffer.length := by
  have hspace : spaceReqd command = text (scanned command) + 1 := rfl
  rw [reach, bufferFor]
  by_cases hgrows : spaceReqd command > argvBufferSize
  · rw [if_pos hgrows, if_pos hgrows, length_malloc, hspace]
    cases mallocs.buffer <;> by_cases hends : EndsInChar (scanned command) <;> simp [hends]
  · rw [if_neg hgrows, if_neg hgrows]
    by_cases hends : EndsInChar (scanned command)
    · rw [if_pos hends]
      exact iff_of_true (by omega) (.inl hends)
    · rw [if_neg hends, or_iff_right hends, hspace]

/-- **Parsing a command.**  After any commands that were parsed before, and for every command, what
`parse_command` does is right if and only if the command suits. -/
theorem parses_iff (h : Reach ShellState.step Tells ShellState.start s)
    (htells : argvBufferSize ≤ s.argvBuffer.length) :
    Parses mallocs s argvBufferSize command ↔ Suits mallocs s argvBufferSize command := by
  obtain ⟨n, hchars, hhead⟩ := exists_trimmed command
  have hroom := (@length_tableFor mallocs s (length_argvTable h) (argumentCount command)).1
  rw [Parses, parseCommand_eq, Suits, ← hroom, ← reach_lt_iff htells, countCommandDetails_eq]
  by_cases htable : argumentCount command < (tableFor mallocs s (argumentCount command)).length
  · rw [if_pos htable]
    by_cases hblank : trimmed command = []
    · -- nothing is written, and there is no argument
      refine iff_of_false (fun ⟨result, s', hresult, hright⟩ => ?_) fun hs => hs.1 hblank
      have hnone : splitArguments command.chars = [] := by
        rw [hchars, splitArguments_scan, hblank]
        rfl
      have hscanned : scanned command = [] := by rw [scanned, hblank, scan_nil]
      rw [hscanned] at hresult
      obtain ⟨rfl, -⟩ := Prod.mk.inj (Option.some.inj hresult)
      have hcount := (hright rfl).1
      rw [hnone] at hcount
      exact absurd (Option.some.inj hcount) (Nat.succ_ne_zero _)
    · have hscanned : scanned command ≠ [] := mt scan_eq_nil_iff.mp hblank
      have hrun := run_isSome_iff (w := firstWriter mallocs s argvBufferSize command) hscanned (by
        rw [length_firstWriter]
        exact lt_of_le_of_lt (by rw [firstWriter, Nat.zero_add, argumentCount]; omega) htable)
      rw [and_iff_right hblank, and_iff_right htable]
      constructor
      · rintro ⟨result, s', hresult, -⟩
        obtain ⟨w, hw, -⟩ := Option.map_eq_some_iff.mp hresult
        have hlt := hrun.mp (Option.isSome_iff_exists.mpr ⟨w, hw⟩)
        rwa [firstWriter, Nat.zero_add] at hlt
      · intro hlt
        obtain ⟨w, hw⟩ := Option.isSome_iff_exists.mp (hrun.mpr (by rwa [firstWriter, Nat.zero_add]))
        obtain ⟨⟨args, p, hall, hwritten⟩, -, hframe⟩ := (written_firstWriter htable).run hw
        refine ⟨_, _, by rw [hw]; rfl, fun htrue => ?_⟩
        have hclosed : endsInQuote false (scanned command) = false := by simpa using htrue
        have hstrings := strings_scan n hblank hhead hclosed
        rw [← hchars] at hstrings
        rw [List.nil_append, modifyHead_nil_append] at hall
        have hcount : (splitArguments command.chars).length = argumentCount command := by
          rw [← hstrings, length_strings]
          rfl
        refine ⟨congrArg some hcount.symm, hwritten.points (hall.trans hstrings) ?_ ?_⟩
        · -- no argument is empty
          rw [hwritten.pos, List.length_pos_iff, ne_eq, List.append_eq_nil_iff]
          rintro ⟨hargs, rfl⟩
          have hmem : ([] : List UInt8) ∈ splitArguments command.chars := by
            rw [← hstrings]
            exact hall ▸ List.mem_append_right args (List.mem_singleton_self _)
          exact absurd rfl (of_decide_eq_true (List.mem_filter.mp hmem).2)
        · rw [hcount, hframe _ (by rw [firstWriter, argumentCount, Nat.zero_add]; exact Nat.lt_succ_self _)]
          exact List.getElem?_set_self (by rw [List.length_set]; exact htable)
  · rw [if_neg htable]
    exact iff_of_false (fun ⟨_, _, hresult, _⟩ => Option.some_ne_none _ hresult.symm) fun hs => htable hs.2.1

end

instance (mallocs : Mallocs) (s : ShellState) (argvBufferSize : Nat) (command : CString) :
    Decidable (Suits mallocs s argvBufferSize command) := inferInstanceAs (Decidable (_ ∧ _))

/-- Memory that has been zeroed. -/
def zeroed : Mallocs := ⟨some fun _ => none, some fun _ => 0⟩

/-- After `ab`, the command `'b c'  d''e`: the arguments are `b c` and `d'e`. -/
theorem quoted_parses :
    Parses zeroed ⟨[some 0, none], 2, [97, 98, 0]⟩ 0
      ⟨[39, 98, 32, 99, 39, 32, 32, 100, 39, 39, 101], by simp⟩ := by
  have hstep : ShellState.start.step (zeroed, 0, ⟨[97, 98], by simp⟩) =
      some ⟨[some 0, none], 2, [97, 98, 0]⟩ := by decide
  exact (parses_iff (.step _ .refl (Nat.zero_le _) hstep) (Nat.zero_le _)).mpr (by decide)

/-- `'a'` and `a` with a space after it: a byte is written behind the buffer.  A space: there is no argument,
but one is counted. -/
theorem not_parsed :
    ¬ Parses zeroed .start 0 ⟨[39, 97, 39], by simp⟩ ∧ ¬ Parses zeroed .start 0 ⟨[97, 32], by simp⟩ ∧
      ¬ Parses zeroed .start 0 ⟨[32], by simp⟩ := by
  have hquote : parseCommand zeroed .start 0 ⟨[39, 97, 39], by simp⟩ = none := by decide
  have hspace : parseCommand zeroed .start 0 ⟨[97, 32], by simp⟩ = none := by decide
  have hblank : parseCommand zeroed .start 0 ⟨[32], by simp⟩ =
      some (true, ⟨[some 0, none], 2, [0]⟩) := by decide
  refine ⟨fun ⟨_, _, h, _⟩ => ?_, fun ⟨_, _, h, _⟩ => ?_, fun ⟨result, s', h, hright⟩ => ?_⟩
  · exact Option.some_ne_none _ (h.symm.trans hquote)
  · exact Option.some_ne_none _ (h.symm.trans hspace)
  · obtain ⟨rfl, -⟩ := Prod.mk.inj (Option.some.inj (h.symm.trans hblank))
    exact absurd (hright rfl).1 (by decide)

end Azalea.User.Shell
