import Mathlib.Data.List.Basic

/-!
# User — command lines

What a command of the simple shell stands for.  Reading it from the left, each character is one to keep, an
unquoted space, or a quote that opens or closes (`events`); the arguments are what is between unquoted spaces
(`splitArguments`).

* `scan`: the events, with one space for a run of them; `scan_induct` is the induction over a command by what
  the two scanners of the shell do in one round.
* `strings_scan`: the strings between the spaces of `scan` are the arguments, if the quotes are closed and
  there is something in the command.
-/

namespace Azalea.User.Shell

/-- `'\''`. -/
def quoteChar : UInt8 := 39

/-- `' '`. -/
def spaceChar : UInt8 := 32

/-- What a character of a command, or a doubled quote, stands for. -/
inductive Event
  | quote
  | put (c : UInt8)
  | space
  deriving DecidableEq

def Event.isSpace (e : Event) : Bool := e == .space

/-- The character that an event puts into an argument. -/
def Event.char? : Event → Option UInt8
  | .put c => some c
  | _ => none

/-- The events of a command, from a position that is in quotes or not. -/
def events : Bool → List UInt8 → List Event
  | _, [] => []
  | inQuote, c :: rest =>
      if c = quoteChar then
        match rest with
        | [] => [.quote]
        | d :: rest' =>
            if d = quoteChar then .put quoteChar :: events inQuote rest'
            else .quote :: events (!inQuote) (d :: rest')
      else if c = spaceChar ∧ inQuote = false then .space :: events inQuote rest
      else .put c :: events inQuote rest

/-- The arguments: the command split at its unquoted spaces, without what is empty. -/
def splitArguments (command : List UInt8) : List (List UInt8) :=
  (((events false command).splitOnP Event.isSpace).map (List.filterMap Event.char?)).filter (· ≠ [])

/-- One space for each run of them. -/
def squeeze : List Event → List Event
  | [] => []
  | e :: es => if e = .space ∧ es.head? = some .space then squeeze es else e :: squeeze es

/-- The events, with one space for each run of them. -/
def scan (inQuote : Bool) (command : List UInt8) : List Event := squeeze (events inQuote command)

/-- Whether the end is in quotes. -/
def endsInQuote (inQuote : Bool) (es : List Event) : Bool :=
  es.foldl (fun q e => if e = .quote then !q else q) inQuote

/-! ### One event after the other -/

section
variable {inQuote : Bool} {c : UInt8} {rest command : List UInt8} {e : Event} {es : List Event}

theorem events_cons : events inQuote (c :: rest) =
    if c = quoteChar then
      if rest.head? = some quoteChar then .put quoteChar :: events inQuote rest.tail
      else .quote :: events (!inQuote) rest
    else if c = spaceChar ∧ inQuote = false then .space :: events inQuote rest
    else .put c :: events inQuote rest := by
  cases rest <;> simp [events]

theorem events_doubled :
    events inQuote (quoteChar :: quoteChar :: rest) = .put quoteChar :: events inQuote rest := by
  rw [events_cons, if_pos rfl, if_pos (List.head?_cons ..), List.tail_cons]

theorem events_quote (h : rest.head? ≠ some quoteChar) :
    events inQuote (quoteChar :: rest) = .quote :: events (!inQuote) rest := by
  rw [events_cons, if_pos rfl, if_neg h]

theorem events_space : events false (spaceChar :: rest) = .space :: events false rest := by
  rw [events_cons, if_neg (by decide), if_pos ⟨rfl, rfl⟩]

theorem events_char (hquote : c ≠ quoteChar) (hspace : ¬ (c = spaceChar ∧ inQuote = false)) :
    events inQuote (c :: rest) = .put c :: events inQuote rest := by
  rw [events_cons, if_neg hquote, if_neg hspace]

/-- What does not begin with a space does not begin with an event for one. -/
theorem events_head (h : command.head? ≠ some spaceChar) : (events inQuote command).head? ≠ some .space := by
  cases command with
  | nil => exact fun h => Option.some_ne_none _ h.symm
  | cons c rest =>
      have hc : c ≠ spaceChar := fun e => h (congrArg some e)
      rw [events_cons]
      split
      next => split <;> simp
      next => rw [if_neg fun hs => hc hs.1]; simp

theorem squeeze_put : squeeze (.put c :: es) = .put c :: squeeze es := by
  rw [squeeze, if_neg (by simp)]

theorem squeeze_quote : squeeze (.quote :: es) = .quote :: squeeze es := by
  rw [squeeze, if_neg (by simp)]

theorem squeeze_spaces (h : es.head? ≠ some .space) :
    ∀ n, squeeze (List.replicate (n + 1) .space ++ es) = .space :: squeeze es
  | 0 => by
      rw [List.replicate_one, List.singleton_append, squeeze, if_neg fun hs => h hs.2]
  | n + 1 => by
      rw [List.replicate_succ, List.cons_append, squeeze, if_pos ⟨rfl, rfl⟩, squeeze_spaces h n]

@[simp] theorem scan_nil : scan inQuote [] = [] := rfl

theorem scan_doubled :
    scan inQuote (quoteChar :: quoteChar :: rest) = .put quoteChar :: scan inQuote rest := by
  rw [scan, events_doubled, squeeze_put, scan]

theorem scan_quote (h : rest.head? ≠ some quoteChar) :
    scan inQuote (quoteChar :: rest) = .quote :: scan (!inQuote) rest := by
  rw [scan, events_quote h, squeeze_quote, scan]

theorem scan_char (hquote : c ≠ quoteChar) (hspace : ¬ (c = spaceChar ∧ inQuote = false)) :
    scan inQuote (c :: rest) = .put c :: scan inQuote rest := by
  rw [scan, events_char hquote hspace, squeeze_put, scan]

theorem events_spaces : ∀ n, events false (List.replicate n spaceChar ++ rest) =
    List.replicate n .space ++ events false rest
  | 0 => rfl
  | n + 1 => by
      rw [List.replicate_succ, List.cons_append, events_space, events_spaces n]
      rfl

theorem scan_spaces (h : rest.head? ≠ some spaceChar) (n : Nat) :
    scan false (List.replicate (n + 1) spaceChar ++ rest) = .space :: scan false rest := by
  rw [scan, events_spaces, squeeze_spaces (events_head h), scan]

end

/-- A run of spaces, and what comes after it. -/
theorem exists_spaces (command : List UInt8) :
    ∃ n rest, command = List.replicate n spaceChar ++ rest ∧ rest.head? ≠ some spaceChar := by
  induction command with
  | nil => exact ⟨0, [], rfl, nofun⟩
  | cons c command ih =>
      by_cases hc : c = spaceChar
      · obtain ⟨n, rest, rfl, hrest⟩ := ih
        exact ⟨n + 1, rest, by rw [hc, List.replicate_succ]; rfl, hrest⟩
      · exact ⟨0, c :: command, rfl, fun h => hc (Option.some.inj h)⟩

/-- Induction over a command, by the rounds of a scanner: it takes a doubled quote, a quote, a run of unquoted
spaces, or a character. -/
theorem scan_induct {motive : Bool → List UInt8 → Prop} (nil : ∀ q, motive q [])
    (doubled : ∀ q rest, motive q rest → motive q (quoteChar :: quoteChar :: rest))
    (quote : ∀ q rest, rest.head? ≠ some quoteChar → motive (!q) rest → motive q (quoteChar :: rest))
    (spaces : ∀ n rest, rest.head? ≠ some spaceChar → motive false rest →
      motive false (List.replicate (n + 1) spaceChar ++ rest))
    (char : ∀ q c rest, c ≠ quoteChar → ¬ (c = spaceChar ∧ q = false) → motive q rest →
      motive q (c :: rest)) (q : Bool) (command : List UInt8) : motive q command := by
  induction hlength : command.length using Nat.strongRecOn generalizing q command with
  | _ length ih =>
      cases command with
      | nil => exact nil q
      | cons c rest =>
          have hlt : ∀ (q : Bool) (r : List UInt8), r.length ≤ rest.length → motive q r := fun q r hr =>
            ih r.length (by rw [← hlength]; exact Nat.lt_succ_of_le hr) q r rfl
          by_cases hquote : c = quoteChar
          · subst hquote
            by_cases hnext : rest.head? = some quoteChar
            · obtain ⟨rest', rfl⟩ := List.head?_eq_some_iff.mp hnext
              exact doubled q rest' (hlt q rest' (Nat.le_succ _))
            · exact quote q rest hnext (hlt _ rest (Nat.le_refl _))
          · by_cases hspace : c = spaceChar ∧ q = false
            · obtain ⟨rfl, rfl⟩ := hspace
              obtain ⟨n, rest', rfl, hrest⟩ := exists_spaces rest
              refine spaces n rest' hrest (hlt false rest' ?_)
              rw [List.length_append]
              exact Nat.le_add_left _ _
            · exact char q c rest hquote hspace (hlt q rest (Nat.le_refl _))

/-! ### The strings between the spaces -/

/-- The strings that are put together; a space at the end does not begin one. -/
def strings : List Event → List (List UInt8)
  | [] => [[]]
  | .quote :: es => strings es
  | .put c :: es => (strings es).modifyHead (c :: ·)
  | .space :: es => if es = [] then [[]] else [] :: strings es

/-- The spaces that are not at the end. -/
def gaps : List Event → Nat
  | [] => 0
  | e :: es => (if e = .space ∧ es ≠ [] then 1 else 0) + gaps es

/-- The characters and the spaces that are not at the end. -/
def text : List Event → Nat
  | [] => 0
  | e :: es => (if e = .quote ∨ e = .space ∧ es = [] then 0 else 1) + text es

/-- The last event puts a character. -/
def EndsInChar (es : List Event) : Prop := ∃ e ∈ es.getLast?, e ≠ .quote ∧ e ≠ .space

instance (es : List Event) : Decidable (EndsInChar es) := inferInstanceAs (Decidable (∃ e ∈ es.getLast?, _))

/-- A string, unless it is empty. -/
def keep (p : List UInt8) (words : List (List UInt8)) : List (List UInt8) :=
  if p = [] then words else p :: words

/-- The strings that are not empty, when the first of them begins with `p`. -/
def wordsFrom (p : List UInt8) : List Event → List (List UInt8)
  | [] => keep p []
  | .quote :: es => wordsFrom p es
  | .put c :: es => wordsFrom (p ++ [c]) es
  | .space :: es => keep p (wordsFrom [] es)

section
variable {p : List UInt8} {es : List Event} {rest : List UInt8}

theorem filter_cons_keep (p : List UInt8) (ws : List (List UInt8)) :
    (p :: ws).filter (· ≠ []) = keep p (ws.filter (· ≠ [])) := by
  by_cases hp : p = [] <;> simp [keep, hp]

theorem modifyHead_nil_append (ws : List (List UInt8)) : ws.modifyHead ([] ++ ·) = ws := by
  cases ws <;> rfl

theorem modifyHead_append_cons (c : UInt8) (ws : List (List UInt8)) :
    (ws.modifyHead (c :: ·)).modifyHead (p ++ ·) = ws.modifyHead (p ++ [c] ++ ·) := by
  cases ws <;> simp

/-- What the events put between two spaces. -/
theorem pieces_filter : ∀ (es : List Event) (p : List UInt8),
    (((es.splitOnP Event.isSpace).map (List.filterMap Event.char?)).modifyHead (p ++ ·)).filter (· ≠ []) =
      wordsFrom p es
  | [], p => by
      rw [List.splitOnP_nil, wordsFrom, List.map_singleton, List.filterMap_nil, List.modifyHead_cons,
        List.append_nil, filter_cons_keep, List.filter_nil]
  | .quote :: es, p => by
      rw [wordsFrom, ← pieces_filter es p, List.splitOnP_cons_eq_if_modifyHead, if_neg (by decide)]
      cases es.splitOnP Event.isSpace <;> rfl
  | .put c :: es, p => by
      rw [wordsFrom, ← pieces_filter es (p ++ [c]), List.splitOnP_cons_eq_if_modifyHead,
        if_neg (show ¬ (Event.put c).isSpace = true from Bool.false_ne_true), ← modifyHead_append_cons]
      cases es.splitOnP Event.isSpace <;> rfl
  | .space :: es, p => by
      rw [wordsFrom, ← pieces_filter es [], List.splitOnP_cons_eq_if_modifyHead,
        if_pos (show Event.space.isSpace = true from rfl), List.map_cons, List.filterMap_nil,
        List.modifyHead_cons, List.append_nil, filter_cons_keep, modifyHead_nil_append]

theorem splitArguments_eq (command : List UInt8) :
    splitArguments command = wordsFrom [] (events false command) := by
  rw [← pieces_filter, modifyHead_nil_append, splitArguments]

theorem strings_filter : ∀ (es : List Event) (p : List UInt8),
    ((strings es).modifyHead (p ++ ·)).filter (· ≠ []) = wordsFrom p es
  | [], p => by
      rw [strings, wordsFrom, List.modifyHead_cons, List.append_nil, filter_cons_keep, List.filter_nil]
  | .quote :: es, p => strings_filter es p
  | .put c :: es, p => by rw [strings, wordsFrom, modifyHead_append_cons, strings_filter es]
  | .space :: es, p => by
      rw [strings, wordsFrom, ← strings_filter es [], modifyHead_nil_append]
      split
      next hes => rw [hes, List.modifyHead_cons, List.append_nil, filter_cons_keep]; rfl
      next => rw [List.modifyHead_cons, List.append_nil, filter_cons_keep]

theorem wordsFrom_squeeze : ∀ (es : List Event) (p : List UInt8), wordsFrom p (squeeze es) = wordsFrom p es
  | [], _ => rfl
  | .quote :: es, p => by rw [squeeze_quote, wordsFrom, wordsFrom, wordsFrom_squeeze es]
  | .put c :: es, p => by rw [squeeze_put, wordsFrom, wordsFrom, wordsFrom_squeeze es]
  | .space :: es, p => by
      rw [squeeze]
      split
      next h =>
        obtain ⟨es, rfl⟩ := List.head?_eq_some_iff.mp h.2
        rw [wordsFrom_squeeze (.space :: es), wordsFrom, wordsFrom, wordsFrom]
        rfl
      next => rw [wordsFrom, wordsFrom, wordsFrom_squeeze es]

theorem wordsFrom_spaces : ∀ n, wordsFrom [] (List.replicate n .space ++ es) = wordsFrom [] es
  | 0 => rfl
  | n + 1 => by
      rw [List.replicate_succ, List.cons_append, wordsFrom, wordsFrom_spaces n]
      rfl

/-- Leading spaces do not count, and neither does the length of a run of spaces. -/
theorem splitArguments_scan (n : Nat) (rest : List UInt8) :
    splitArguments (List.replicate n spaceChar ++ rest) = (strings (scan false rest)).filter (· ≠ []) := by
  rw [splitArguments_eq, events_spaces, wordsFrom_spaces, scan, ← wordsFrom_squeeze, ← strings_filter,
    modifyHead_nil_append]

theorem length_strings (es : List Event) : (strings es).length = gaps es + 1 := by
  induction es with
  | nil => rfl
  | cons e es ih =>
      cases e with
      | quote => simpa [strings, gaps] using ih
      | put c => simpa [strings, gaps] using ih
      | space =>
          by_cases hes : es = []
          · subst hes
            rfl
          · rw [strings, if_neg hes, List.length_cons, ih, gaps, if_pos ⟨rfl, hes⟩]
            omega

/-- No string is empty, if the quotes are closed: after an opening quote there is a character that is not
a quote, and after a space one that is not a space. -/
theorem strings_ne_nil (q : Bool) (command : List UInt8) :
    ∀ p : List UInt8, endsInQuote q (scan q command) = false →
      (p ≠ [] ∨ q = false ∧ command ≠ [] ∧ command.head? ≠ some spaceChar ∨
        q = true ∧ command.head? ≠ some quoteChar) →
      ∀ word ∈ (strings (scan q command)).modifyHead (p ++ ·), word ≠ [] := by
  induction q, command using scan_induct with
  | nil q =>
      intro p hclosed hp word hword
      have hp : p ≠ [] := by
        rcases hp with hp | ⟨-, hne, -⟩ | ⟨rfl, -⟩
        · exact hp
        · exact absurd rfl hne
        · cases hclosed
      obtain rfl := List.mem_singleton.mp hword
      simpa using hp
  | doubled q rest ih =>
      intro p hclosed _
      rw [scan_doubled] at hclosed ⊢
      rw [strings, modifyHead_append_cons]
      exact ih (p ++ [quoteChar]) hclosed (.inl (by simp))
  | quote q rest hrest ih =>
      intro p hclosed hp
      rw [scan_quote hrest] at hclosed ⊢
      refine ih p hclosed ?_
      cases q with
      | false => exact .inr (.inr ⟨rfl, hrest⟩)
      | true =>
          rcases hp with hp | ⟨h, -⟩ | ⟨-, hne⟩
          · exact .inl hp
          · cases h
          · exact absurd rfl hne
  | spaces n rest hrest ih =>
      intro p hclosed hp word hword
      have hp : p ≠ [] := by
        rcases hp with hp | ⟨-, -, hne⟩ | ⟨h, -⟩
        · exact hp
        · exact absurd rfl hne
        · cases h
      rw [scan_spaces hrest] at hclosed hword
      rw [strings] at hword
      split at hword
      next =>
        obtain rfl := List.mem_singleton.mp hword
        simpa using hp
      next hes =>
        rcases List.mem_cons.mp hword with rfl | hword
        · simpa using hp
        · refine ih [] hclosed (.inr (.inl ⟨rfl, ?_, hrest⟩)) word ?_
          · rintro rfl
            exact hes rfl
          · rwa [modifyHead_nil_append]
  | char q c rest hquote hspace ih =>
      intro p hclosed _
      rw [scan_char hquote hspace] at hclosed ⊢
      rw [strings, modifyHead_append_cons]
      exact ih (p ++ [c]) hclosed (.inl (by simp))

/-- **The arguments.**  If the quotes are closed, they are the strings that are put together. -/
theorem strings_scan (n : Nat) (hne : rest ≠ []) (hhead : rest.head? ≠ some spaceChar)
    (hclosed : endsInQuote false (scan false rest) = false) :
    strings (scan false rest) = splitArguments (List.replicate n spaceChar ++ rest) := by
  rw [splitArguments_scan, List.filter_eq_self.mpr]
  intro word hword
  have h := strings_ne_nil false rest [] hclosed (.inr (.inl ⟨rfl, hne, hhead⟩)) word
    (by rwa [modifyHead_nil_append])
  exact decide_eq_true h

end

end Azalea.User.Shell
