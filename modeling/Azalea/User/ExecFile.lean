import Azalea.Support.Bytes
import Azalea.Syscall.Validation

/-!
# User — starting a program from a file

`exec_file` of libazalea (`user/libs/libazalea/processes/exec_file.cpp`), which loads a program and puts its
arguments and its environment in a block of memory, which is mapped in the new process at `0x0F200000`.

* `execFile_iff`: when all fits in the block, the arguments and the environment are laid out there, one after
  the other, if and only if the environment of the calling process begins with the strings that are given.
-/

namespace Azalea.User

open Azalea.Memory
open Azalea.Syscall (ErrCode)

/-! ### Strings -/

/-- The characters of a string that ends with a zero. -/
structure CString where
  chars : List UInt8
  noZero : ∀ c ∈ chars, c ≠ 0

namespace CString

def strlen (x : CString) : Nat := x.chars.length

/-- The bytes of the string; from its end on they are zero. -/
def bytes (x : CString) : Bytes := fun i => x.chars.getD i 0

end CString

/-! ### The layout -/

/-- `MEM_PAGE_SIZE`. -/
def memPageSize : Nat := 2097152

/-- Where the block is in the new process. -/
def argsBase : Nat := 0x0F200000

/-- The block, and the address in the calling process at which the next string is written. -/
structure Placing where
  block : Bytes
  writePtr : Nat

/-- `args_and_env_idx[index] = value`.  Nothing is returned if this is outside of the block. -/
def putPointer (size : Nat) (block : Bytes) (index value : Nat) : Option Bytes :=
  if 8 * index + 8 ≤ size then some (store block (8 * index) 8 value) else none

section
variable (pagePtr size : Nat)

/-- The body of both loops: a pointer, and the string that it points to, if there is one. -/
def placeString (index : Nat) (string : Option CString) (s : Placing) : Option Placing := do
  let block ← putPointer size s.block index (argsBase + (s.writePtr - pagePtr))
  let x ← string
  if s.writePtr - pagePtr + (x.strlen + 1) ≤ size then
    some ⟨blit block (s.writePtr - pagePtr) x.bytes 0 (x.strlen + 1), s.writePtr + (x.strlen + 1)⟩
  else none

/-- Strings, whose pointers stand from an index on. -/
def placeStrings (first : Nat) (string : Nat → Option CString) : Nat → Placing → Option Placing
  | 0, s => some s
  | n + 1, s => do
      let s ← placeStrings first string n s
      placeString pagePtr size (first + n) (string n) s

/-- The block after both loops.  The strings of the environment are those of `environ`. -/
def layOut (filename : CString) (argv : List CString) (envc : Nat) (environ : Option (List CString))
    (block : Bytes) : Option Bytes := do
  let argc := argv.length + 1
  let s ← placeStrings pagePtr size 0 (fun i => if i = 0 then some filename else argv[i - 1]?) argc
    ⟨block, pagePtr + (argc + 1) * 8 + (envc + 1) * 8⟩
  let block ← putPointer size s.block argc 0
  let s ← placeStrings pagePtr size (argc + 1) (fun i => (environ.getD [])[i]?) envc ⟨block, s.writePtr⟩
  putPointer size s.block (argc + envc + 1) 0

end

/-! ### The function -/

/-- The results of the calls, in their order, and the address of the memory that is allocated. -/
structure Calls where
  openHandle : ErrCode
  readFileHeader : ErrCode
  createProcess : ErrCode
  loadElfFile : ErrCode
  allocateBackingMemory : ErrCode
  mapMemory : ErrCode
  setStartupParams : ErrCode
  startProcess : ErrCode
  pagePtr : Nat

/-- What the new process has: the parameters of its start, and the block of this size. -/
structure Startup where
  argc : Nat
  argv : Nat
  environ : Nat
  size : Nat
  block : Bytes

/-- `args_and_env_space`. -/
def argsAndEnvSpace (nameLength : UInt16) (argv env : List CString) : Nat :=
  nameLength.toNat + 1 + 2 * 8 + (argv.map fun x => x.strlen + 1 + 8).sum + 8 +
    (env.map fun x => x.strlen + 1 + 8).sum

/-- `pages_reqd`, which has 32 bits. -/
def pagesReqd (space : Nat) : UInt32 := UInt32.ofNat ((space - 1) / memPageSize + 1)

/-- The length of the mapping, `pages_reqd * MEM_PAGE_SIZE`; this has 32 bits, too. -/
def mappedSize (space : Nat) : Nat := (pagesReqd space * 2097152).toNat

/-- If the call has failed, so has the function. -/
def checked (result : ErrCode) (rest : Option (ErrCode × Option Startup)) :
    Option (ErrCode × Option Startup) :=
  if result ≠ .noError then some (result, none) else rest

/-- The environment that is given, or else that of the calling process. -/
def givenEnv (envp environ : Option (List CString)) : List CString := (envp <|> environ).getD []

/-- The parameters of the new process, with its block. -/
def startup (nameLength : UInt16) (args env : List CString) (block : Bytes) : Startup where
  argc := args.length + 1
  argv := argsBase
  environ := argsBase + (args.length + 2) * 8
  size := mappedSize (argsAndEnvSpace nameLength args env)
  block := block

/-- `exec_file`: its result, and what the new process has, once this is laid out.  A null pointer is
`none`; nothing is returned if a null string is read or something outside of the block is written. -/
def execFile (calls : Calls) (filename : Option CString) (nameLength : UInt16) (procHandle : Option Unit)
    (argv envp environ : Option (List CString)) (block : Bytes) : Option (ErrCode × Option Startup) :=
  match filename, procHandle with
  | some filename, some _ =>
      let args := argv.getD []
      let env := givenEnv envp environ
      let space := argsAndEnvSpace nameLength args env
      checked calls.openHandle <| checked calls.readFileHeader <| checked calls.createProcess <|
        checked calls.loadElfFile <|
          if pagesReqd space = 0 then some (.unknown, none)
          else checked calls.allocateBackingMemory <| checked calls.mapMemory do
            let block ← layOut calls.pagePtr ((pagesReqd space).toNat * memPageSize) filename args env.length
              environ block
            let result := if calls.setStartupParams ≠ .noError then calls.setStartupParams
              else calls.startProcess
            some (result, some (startup nameLength args env block))
  | _, _ => some (.invalidParam, none)

/-! ### What should be there -/

/-- The string stands at this offset, with its zero. -/
def Holds (block : Bytes) (off : Nat) (x : CString) : Prop := ∀ i, i ≤ x.strlen → block (off + i) = x.bytes i

namespace Startup

variable (st : Startup)

/-- The pointer at an address of the new process. -/
def pointerAt (addr : Nat) : Nat := load st.block (addr - argsBase) 8

/-- These bytes lie in the block. -/
def InBlock (addr length : Nat) : Prop := argsBase ≤ addr ∧ addr + length ≤ argsBase + st.size

/-- An array of pointers to the strings, with a null pointer after the last. -/
structure Listed (array : Nat) (xs : List CString) : Prop where
  inside : st.InBlock array (8 * (xs.length + 1))
  null : st.pointerAt (array + 8 * xs.length) = 0
  strings : ∀ i x, xs[i]? = some x → st.InBlock (st.pointerAt (array + 8 * i)) (x.strlen + 1) ∧
    Holds st.block (st.pointerAt (array + 8 * i) - argsBase) x

/-- The places of the strings of an array: where they begin, and how many bytes they have. -/
def stringPlaces (array : Nat) (xs : List CString) : List (Nat × Nat) :=
  xs.mapIdx fun i x => (st.pointerAt (array + 8 * i), x.strlen + 1)

/-- The places of the arrays and of all strings. -/
def places (args env : List CString) : List (Nat × Nat) :=
  (st.argv, 8 * (args.length + 1)) :: (st.environ, 8 * (env.length + 1)) ::
    (st.stringPlaces st.argv args ++ st.stringPlaces st.environ env)

/-- The arguments and the environment are laid out in the block. -/
structure Laid (args env : List CString) : Prop where
  argc : st.argc = args.length
  argv : st.Listed st.argv args
  environ : st.Listed st.environ env
  apart : (st.places args env).Pairwise fun a b => a.1 + a.2 ≤ b.1 ∨ b.1 + b.2 ≤ a.1

end Startup

/-- The bytes of some strings, with their zeros. -/
def span (xs : List CString) : Nat := (xs.map fun x => x.strlen + 1).sum

/-- The bytes of the arrays and of the strings. -/
def total (args env : List CString) : Nat :=
  8 * (args.length + 1) + 8 * (env.length + 1) + span args + span env

/-- No call before the layout fails. -/
structure Calls.Ready (calls : Calls) : Prop where
  openHandle : calls.openHandle = .noError
  readFileHeader : calls.readFileHeader = .noError
  createProcess : calls.createProcess = .noError
  loadElfFile : calls.loadElfFile = .noError
  allocateBackingMemory : calls.allocateBackingMemory = .noError
  mapMemory : calls.mapMemory = .noError

/-- Whatever is laid out for the new process are the name and the arguments and the given environment. -/
def LaysOut (calls : Calls) (filename : CString) (nameLength : UInt16)
    (argv envp environ : Option (List CString)) (block : Bytes) : Prop :=
  ∃ result st, execFile calls (some filename) nameLength (some ()) argv envp environ block = some (result, st) ∧
    ∀ s, st = some s → s.Laid (filename :: argv.getD []) (givenEnv envp environ)

section
variable {pagePtr size first start n off : Nat} {string : Nat → Option CString} {s s' : Placing}
  {xs ys : List CString} {x y : CString} {block block' : Bytes}

/-! ### Strings in memory -/

theorem getElem?_concat_length : (xs ++ [x])[xs.length]? = some x := by
  rw [List.getElem?_append_right (Nat.le_refl _), Nat.sub_self, List.getElem?_cons_zero]

theorem bytes_strlen (x : CString) : x.bytes x.strlen = 0 := by
  rw [CString.bytes, CString.strlen, List.getD_eq_getElem?_getD, List.getElem?_eq_none (Nat.le_refl _),
    Option.getD_none]

theorem bytes_ne_zero {i : Nat} (h : i < x.strlen) : x.bytes i ≠ 0 := by
  rw [CString.bytes, List.getD_eq_getElem?_getD, List.getElem?_eq_getElem h, Option.getD_some]
  exact x.noZero _ (List.getElem_mem h)

/-- What stands at an offset is one string. -/
theorem Holds.unique (h : Holds block off x) (h' : Holds block off y) : x = y := by
  have hlength : x.strlen = y.strlen := by
    refine Nat.le_antisymm (Nat.le_of_not_lt fun hlt => ?_) (Nat.le_of_not_lt fun hlt => ?_)
    · have hzero := h' y.strlen (Nat.le_refl _)
      rw [bytes_strlen, h y.strlen (Nat.le_of_lt hlt)] at hzero
      exact bytes_ne_zero hlt hzero
    · have hzero := h x.strlen (Nat.le_refl _)
      rw [bytes_strlen, h' x.strlen (Nat.le_of_lt hlt)] at hzero
      exact bytes_ne_zero hlt hzero
  obtain ⟨cs, hcs⟩ := x
  obtain ⟨ds, hds⟩ := y
  have hchars : cs = ds := List.ext_getElem hlength fun i hi hi' => by
    have heq := (h i (Nat.le_of_lt hi)).symm.trans (h' i (Nat.le_of_lt hi'))
    change cs.getD i 0 = ds.getD i 0 at heq
    rwa [List.getD_eq_getElem?_getD, List.getD_eq_getElem?_getD, List.getElem?_eq_getElem hi,
      List.getElem?_eq_getElem hi', Option.getD_some, Option.getD_some] at heq
  subst hchars
  rfl

theorem Holds.congr (h : Holds block off x) (heq : ∀ k, off ≤ k → k < off + (x.strlen + 1) → block' k = block k) :
    Holds block' off x := fun i hi => (heq (off + i) (Nat.le_add_right _ _) (by omega)).trans (h i hi)

theorem span_nil : span [] = 0 := rfl

theorem span_append (xs ys : List CString) : span (xs ++ ys) = span xs + span ys := by
  rw [span, List.map_append, List.sum_append, span, span]

theorem span_singleton (x : CString) : span [x] = x.strlen + 1 := Nat.add_zero _

theorem span_take_le (xs : List CString) (i : Nat) : span (xs.take i) ≤ span xs := by
  have hsplit : span xs = span (xs.take i) + span (xs.drop i) := by
    rw [← span_append, List.take_append_drop]
  omega

/-- A string ends before those after it. -/
theorem span_take_add_le {i : Nat} (hget : xs[i]? = some x) : span (xs.take i) + (x.strlen + 1) ≤ span xs := by
  obtain ⟨hlt, rfl⟩ := List.getElem?_eq_some_iff.1 hget
  have hsucc := span_take_le xs (i + 1)
  rw [List.take_succ_eq_append_getElem hlt, span_append, span_singleton] at hsucc
  exact hsucc

/-! ### The loops -/

/-- Pointers stand from an index on, and the strings they point to from an offset on. -/
def Placed (first start : Nat) (xs : List CString) (block : Bytes) : Prop :=
  ∀ i x, xs[i]? = some x → load block (8 * (first + i)) 8 = argsBase + (start + span (xs.take i)) ∧
    Holds block (start + span (xs.take i)) x

/-- Nothing else is changed than pointers and strings at these places. -/
def Elsewhere (first n start length : Nat) (block block' : Bytes) : Prop :=
  ∀ k, ¬ (8 * first ≤ k ∧ k < 8 * (first + n)) → ¬ (start ≤ k ∧ k < start + length) → block' k = block k

theorem Placed.congr (h : Placed first start xs block)
    (hpointers : ∀ k, 8 * first ≤ k → k < 8 * (first + xs.length) → block' k = block k)
    (hstrings : ∀ k, start ≤ k → k < start + span xs → block' k = block k) :
    Placed first start xs block' := by
  intro i x hget
  obtain ⟨hpointer, hholds⟩ := h i x hget
  have hi := (List.getElem?_eq_some_iff.1 hget).1
  have hend := span_take_add_le hget
  refine ⟨?_, hholds.congr fun k hk hlt => hstrings k (by omega) (by omega)⟩
  rw [← hpointer]
  exact load_congr fun j hj => hpointers _ (by omega) (by omega)

/-- The block with one more pointer and its string. -/
def putOne (block : Bytes) (first start : Nat) (xs : List CString) (x : CString) : Bytes :=
  blit (store block (8 * (first + xs.length)) 8 (argsBase + (start + span xs))) (start + span xs) x.bytes 0
    (x.strlen + 1)

theorem putOne_other {k : Nat} (hpointer : ¬ (8 * (first + xs.length) ≤ k ∧ k < 8 * (first + xs.length) + 8))
    (hstring : ¬ (start + span xs ≤ k ∧ k < start + span xs + (x.strlen + 1))) :
    putOne block first start xs x k = block k :=
  (blit_of_not_mem hstring).trans (store_of_not_mem hpointer _)

theorem putOne_pointer (hroom : 8 * (first + xs.length) + 8 ≤ start) (hsize : start + span xs ≤ size)
    (hbound : size < 2 ^ 54) :
    load (putOne block first start xs x) (8 * (first + xs.length)) 8 = argsBase + (start + span xs) := by
  have hread : load (putOne block first start xs x) (8 * (first + xs.length)) 8 =
      load (store block (8 * (first + xs.length)) 8 (argsBase + (start + span xs)))
        (8 * (first + xs.length)) 8 := load_congr fun i hi => blit_of_not_mem (by omega)
  rw [hread, load_store, argsBase]
  exact Nat.mod_eq_of_lt (by omega)

theorem putOne_holds : Holds (putOne block first start xs x) (start + span xs) x := by
  intro i hi
  rw [putOne, blit_of_mem (Nat.lt_succ_of_le hi), Nat.zero_add]

/-- One more string is placed. -/
theorem Placed.putOne (h : Placed first start xs block) (hroom : 8 * (first + xs.length) + 8 ≤ start)
    (hsize : start + span xs ≤ size) (hbound : size < 2 ^ 54) :
    Placed first start (xs ++ [x]) (putOne block first start xs x) := by
  intro i y hget
  by_cases hi : i < xs.length
  · rw [List.getElem?_append_left hi] at hget
    rw [List.take_append_of_le_length (Nat.le_of_lt hi)]
    exact h.congr (fun k hk hlt => putOne_other (by omega) (by omega))
      (fun k hk hlt => putOne_other (by omega) (by omega)) i y hget
  · have hlt := (List.getElem?_eq_some_iff.1 hget).1
    rw [List.length_append, List.length_singleton] at hlt
    obtain rfl : i = xs.length := by omega
    rw [getElem?_concat_length] at hget
    obtain rfl := Option.some.inj hget
    rw [List.take_left]
    exact ⟨putOne_pointer hroom hsize hbound, putOne_holds⟩

theorem placeString_some {index : Nat} {o : Option CString} (h : placeString pagePtr size index o s = some s') :
    ∃ x, o = some x ∧ 8 * index + 8 ≤ size ∧ s.writePtr - pagePtr + (x.strlen + 1) ≤ size ∧
      s' = ⟨blit (store s.block (8 * index) 8 (argsBase + (s.writePtr - pagePtr))) (s.writePtr - pagePtr)
        x.bytes 0 (x.strlen + 1), s.writePtr + (x.strlen + 1)⟩ := by
  rw [placeString] at h
  obtain ⟨block, hpointer, h⟩ := Option.bind_eq_some_iff.1 h
  obtain ⟨x, hstring, h⟩ := Option.bind_eq_some_iff.1 h
  rw [putPointer] at hpointer
  split at hpointer
  case isFalse => exact absurd hpointer.symm (Option.some_ne_none block)
  case isTrue hinside =>
    obtain rfl := Option.some.inj hpointer
    split at h
    case isFalse => exact absurd h.symm (Option.some_ne_none s')
    case isTrue hfits => exact ⟨x, hstring, hinside, hfits, (Option.some.inj h).symm⟩

theorem placeString_eq {index : Nat} (hinside : 8 * index + 8 ≤ size)
    (hfits : s.writePtr - pagePtr + (x.strlen + 1) ≤ size) :
    placeString pagePtr size index (some x) s =
      some ⟨blit (store s.block (8 * index) 8 (argsBase + (s.writePtr - pagePtr))) (s.writePtr - pagePtr)
        x.bytes 0 (x.strlen + 1), s.writePtr + (x.strlen + 1)⟩ := by
  rw [placeString, putPointer, if_pos hinside]
  exact if_pos hfits

/-- What a loop has placed. -/
structure Looped (pagePtr first start : Nat) (string : Nat → Option CString) (n : Nat) (block : Bytes)
    (s' : Placing) (xs : List CString) : Prop where
  length : xs.length = n
  strings : ∀ i, i < n → string i = xs[i]?
  writePtr : s'.writePtr = pagePtr + (start + span xs)
  placed : Placed first start xs s'.block
  elsewhere : Elsewhere first n start (span xs) block s'.block

theorem placeStrings_some (hbound : size < 2 ^ 54) (hroom : 8 * (first + n) ≤ start)
    (h : placeStrings pagePtr size first string n ⟨block, pagePtr + start⟩ = some s') :
    ∃ xs, Looped pagePtr first start string n block s' xs := by
  induction n generalizing s' with
  | zero =>
      obtain rfl := Option.some.inj h
      exact ⟨[], rfl, fun i hi => absurd hi (Nat.not_lt_zero i), rfl,
        fun i x hget => absurd hget.symm (Option.some_ne_none x), fun k _ _ => rfl⟩
  | succ n ih =>
      rw [placeStrings] at h
      obtain ⟨s₁, hfirst, hone⟩ := Option.bind_eq_some_iff.1 h
      obtain ⟨xs, hlength, hstrings, hptr, hplaced, helse⟩ := ih (by omega) hfirst
      obtain ⟨x, hx, hinside, hfits, rfl⟩ := placeString_some hone
      rw [hptr, Nat.add_sub_cancel_left] at hfits
      rw [hptr, Nat.add_sub_cancel_left, ← hlength]
      refine ⟨xs ++ [x], ?_, fun i hi => ?_, ?_, ?_, fun k hpointer hstring => ?_⟩
      · rw [List.length_append, List.length_singleton]
      · by_cases hlt : i < n
        · rw [hstrings i hlt, List.getElem?_append_left (hlength.symm ▸ hlt)]
        · obtain rfl : i = n := by omega
          rw [hx, ← hlength, getElem?_concat_length]
      · rw [span_append, span_singleton]
        change pagePtr + (start + span xs) + (x.strlen + 1) = _
        omega
      · exact hplaced.putOne (by omega) (Nat.le_of_add_right_le hfits) hbound
      · rw [span_append, span_singleton] at hstring
        exact (putOne_other (by omega) (by omega)).trans (helse k (by omega) (by omega))

/-- When all strings are there and fit, the loop comes to its end. -/
theorem placeStrings_returns (hlength : xs.length = n) (hstrings : ∀ i, i < n → string i = xs[i]?)
    (hbound : size < 2 ^ 54) (hroom : 8 * (first + n) ≤ start) (hfits : start + span xs ≤ size) (m : Nat)
    (hm : m ≤ n) : ∃ s', placeStrings pagePtr size first string m ⟨block, pagePtr + start⟩ = some s' := by
  induction m with
  | zero => exact ⟨_, rfl⟩
  | succ m ih =>
      obtain ⟨s₁, hrun⟩ := ih (Nat.le_of_succ_le hm)
      obtain ⟨ys, hys, hstrings', hptr, -, -⟩ := placeStrings_some hbound (by omega) hrun
      have htake : ys = xs.take m := by
        refine List.ext_getElem? fun i => ?_
        by_cases hi : i < m
        · rw [← hstrings' i hi, hstrings i (by omega), List.getElem?_take_of_lt hi]
        · rw [List.getElem?_eq_none (by omega), List.getElem?_eq_none]
          rw [List.length_take]
          omega
      have hlt : m < xs.length := by omega
      have hend := span_take_add_le (List.getElem?_eq_getElem hlt)
      have hfits₁ : s₁.writePtr - pagePtr + (xs[m].strlen + 1) ≤ size := by
        rw [hptr, Nat.add_sub_cancel_left, htake]
        omega
      have hone := placeString_eq (by omega : 8 * (first + m) + 8 ≤ size) hfits₁
      rw [← List.getElem?_eq_getElem hlt, ← hstrings m (by omega)] at hone
      have hstep : ∃ s', placeString pagePtr size (first + m) (string m) s₁ = some s' := ⟨_, hone⟩
      obtain ⟨s', hstep⟩ := hstep
      exact ⟨s', by rw [placeStrings, hrun, Option.bind_eq_bind, Option.bind_some, hstep]⟩

/-! ### The layout -/

theorem putPointer_some {index value : Nat} (h : putPointer size block index value = some block') :
    8 * index + 8 ≤ size ∧ block' = store block (8 * index) 8 value := by
  rw [putPointer] at h
  split at h
  case isTrue hinside => exact ⟨hinside, (Option.some.inj h).symm⟩
  case isFalse => exact absurd h.symm (Option.some_ne_none block')

/-- Where the strings begin. -/
def stringsStart (argc envc : Nat) : Nat := (argc + 1) * 8 + (envc + 1) * 8

/-- The block when all is placed. -/
structure Finished (args env : List CString) (block : Bytes) : Prop where
  argsPlaced : Placed 0 (stringsStart args.length env.length) args block
  argsNull : load block (8 * args.length) 8 = 0
  envPlaced : Placed (args.length + 1) (stringsStart args.length env.length + span args) env block
  envNull : load block (8 * (args.length + env.length + 1)) 8 = 0

theorem load_null (block : Bytes) (off : Nat) : load (store block off 8 0) off 8 = 0 := by
  rw [load_store, Nat.zero_mod]

/-- The null pointers stand where neither a pointer nor a string is. -/
theorem Placed.null (h : Placed first start xs block) {index : Nat} (hroom : 8 * index + 8 ≤ start)
    (hindex : index < first ∨ first + xs.length ≤ index) :
    Placed first start xs (store block (8 * index) 8 0) :=
  h.congr (fun k hk hlt => store_of_not_mem (by omega) 0) fun k hk hlt => store_of_not_mem (by omega) 0

theorem argument_eq (filename : CString) (argv : List CString) (i : Nat) :
    (if i = 0 then some filename else argv[i - 1]?) = (filename :: argv)[i]? := by
  cases i with
  | zero => rfl
  | succ i => rfl

/-- Strings that are all those of a list are the list. -/
theorem eq_of_strings (hlength : xs.length = ys.length) (h : ∀ i, i < ys.length → ys[i]? = xs[i]?) : xs = ys :=
  List.ext_getElem? fun i => by
    by_cases hi : i < ys.length
    · exact (h i hi).symm
    · rw [List.getElem?_eq_none (by omega), List.getElem?_eq_none (by omega)]

variable {filename : CString} {argv : List CString} {environ : Option (List CString)} {envc : Nat}

theorem layOut_some (hbound : size < 2 ^ 54)
    (h : layOut pagePtr size filename argv envc environ block = some block') :
    ∃ env, env.length = envc ∧ env <+: environ.getD [] ∧ Finished (filename :: argv) env block' := by
  rw [layOut, Nat.add_assoc] at h
  obtain ⟨s₁, hfirst, hrest⟩ := Option.bind_eq_some_iff.1 h
  obtain ⟨block₁, hnull, hrest⟩ := Option.bind_eq_some_iff.1 hrest
  obtain ⟨s₂, hsecond, hlast⟩ := Option.bind_eq_some_iff.1 hrest
  clear h hrest
  obtain ⟨args, hargs⟩ := placeStrings_some hbound (by omega) hfirst
  have hlist : args = filename :: argv := eq_of_strings hargs.length fun i hi => by
    rw [← hargs.strings i hi, argument_eq]
  have hlength : args.length = argv.length + 1 := hargs.length
  obtain ⟨-, rfl⟩ := putPointer_some hnull
  rw [hargs.writePtr] at hsecond
  obtain ⟨env, henv⟩ := placeStrings_some hbound (by omega) hsecond
  obtain ⟨-, rfl⟩ := putPointer_some hlast
  have hcount := henv.length
  have hplaced := hargs.placed
  have hplaced₂ := henv.placed
  have helse := henv.elsewhere
  have hstart : stringsStart args.length env.length = (argv.length + 1 + 1) * 8 + (envc + 1) * 8 := by
    rw [stringsStart, hlength, hcount]
  rw [← hstart] at hplaced hplaced₂ helse
  rw [← hlength] at hplaced₂ helse ⊢
  have hbegin : stringsStart args.length env.length = (args.length + 1) * 8 + (env.length + 1) * 8 := rfl
  have hafter : ∀ k, k < 8 * (args.length + 1) ∨ stringsStart args.length env.length ≤ k ∧
      k < stringsStart args.length env.length + span args →
        s₂.block k = store s₁.block (8 * args.length) 8 0 k :=
    fun k hk => helse k (by omega) (by omega)
  rw [← hlist, ← hcount]
  refine ⟨env, rfl, ?_, ?_, ?_, ?_, ?_⟩
  · refine List.prefix_iff_getElem?.2 fun i hi => ?_
    rw [henv.strings i (hcount ▸ hi), List.getElem?_eq_getElem hi]
  · have hnulled := hplaced.null (by omega : 8 * args.length + 8 ≤ _) (by omega)
    have hkept := hnulled.congr (fun k hk hlt => hafter k (by omega)) fun k hk hlt => hafter k (by omega)
    exact hkept.null (by omega) (by omega)
  · rw [load_store_of_disjoint 0 (by omega), ← load_null s₁.block (8 * args.length)]
    exact load_congr fun i hi => hafter _ (by omega)
  · exact hplaced₂.null (by omega) (by omega)
  · exact load_null _ _

theorem putPointer_eq {index value : Nat} (h : 8 * index + 8 ≤ size) :
    putPointer size block index value = some (store block (8 * index) 8 value) := if_pos h

/-- When all fits, the strings that `environ` begins with are placed. -/
theorem layOut_returns {env : List CString} (hbound : size < 2 ^ 54) (henv : env <+: environ.getD [])
    (hfits : total (filename :: argv) env ≤ size) :
    ∃ block', layOut pagePtr size filename argv env.length environ block = some block' := by
  rw [total, List.length_cons] at hfits
  obtain ⟨s₁, hfirst⟩ := @placeStrings_returns pagePtr size 0
    ((argv.length + 1 + 1) * 8 + (env.length + 1) * 8) (argv.length + 1)
    (fun i => if i = 0 then some filename else argv[i - 1]?) (filename :: argv) block rfl
    (fun i _ => argument_eq filename argv i) hbound (by omega) (by omega) _ (Nat.le_refl _)
  obtain ⟨args, hargs⟩ := placeStrings_some hbound (by omega) hfirst
  have hlist : args = filename :: argv := eq_of_strings hargs.length fun i hi => by
    rw [← hargs.strings i hi, argument_eq]
  obtain ⟨s₂, hsecond⟩ := @placeStrings_returns pagePtr size (argv.length + 1 + 1)
    ((argv.length + 1 + 1) * 8 + (env.length + 1) * 8 + span args) env.length
    (fun i => (environ.getD [])[i]?) env (store s₁.block (8 * (argv.length + 1)) 8 0) rfl
    (fun i hi => by rw [List.prefix_iff_getElem?.1 henv i hi, List.getElem?_eq_getElem hi])
    hbound (by omega) (by rw [hlist]; omega) _ (Nat.le_refl _)
  refine ⟨store s₂.block (8 * (argv.length + 1 + env.length + 1)) 8 0, ?_⟩
  rw [layOut, Nat.add_assoc, hfirst, Option.bind_eq_bind, Option.bind_some, putPointer_eq (by omega),
    Option.bind_eq_bind, Option.bind_some, hargs.writePtr, hsecond, Option.bind_some]
  exact putPointer_eq (by omega)

/-! ### The places -/

/-- Strings that stand one after the other. -/
def run : Nat → List CString → List (Nat × Nat)
  | _, [] => []
  | start, x :: xs => (start, x.strlen + 1) :: run (start + (x.strlen + 1)) xs

theorem span_cons (x : CString) (xs : List CString) : span (x :: xs) = x.strlen + 1 + span xs := List.sum_cons

theorem getElem?_run (start : Nat) (xs : List CString) (i : Nat) :
    (run start xs)[i]? = xs[i]?.map fun x => (start + span (xs.take i), x.strlen + 1) := by
  induction xs generalizing start i with
  | nil => rfl
  | cons x xs ih =>
      cases i with
      | zero => rfl
      | succ i =>
          rw [run, List.getElem?_cons_succ, List.getElem?_cons_succ, ih, List.take_succ_cons, span_cons,
            Nat.add_assoc]

theorem mem_run {p : Nat × Nat} (h : p ∈ run start xs) : start ≤ p.1 ∧ p.1 + p.2 ≤ start + span xs := by
  induction xs generalizing start with
  | nil => exact absurd h List.not_mem_nil
  | cons x xs ih =>
      rw [span_cons]
      rcases List.mem_cons.1 h with rfl | h
      · exact ⟨Nat.le_refl _, by dsimp only; omega⟩
      · have hlater := ih h
        omega

theorem pairwise_run (start : Nat) (xs : List CString) :
    (run start xs).Pairwise fun a b => a.1 + a.2 ≤ b.1 ∨ b.1 + b.2 ≤ a.1 := by
  induction xs generalizing start with
  | nil => exact List.Pairwise.nil
  | cons x xs ih => exact List.pairwise_cons.2 ⟨fun p hp => Or.inl (mem_run hp).1, ih _⟩

/-- The places of placed strings. -/
theorem stringPlaces_eq {st : Startup} (h : Placed first start xs st.block) :
    st.stringPlaces (argsBase + 8 * first) xs = run (argsBase + start) xs := by
  refine List.ext_getElem? fun i => ?_
  rw [getElem?_run, Startup.stringPlaces, List.getElem?_mapIdx]
  cases hget : xs[i]? with
  | none => rfl
  | some x =>
      rw [Option.map_some, Option.map_some, Startup.pointerAt,
        show argsBase + 8 * first + 8 * i - argsBase = 8 * (first + i) by omega, (h i x hget).1,
        Nat.add_assoc]

/-- An array of placed strings. -/
theorem listed {st : Startup} (h : Placed first start xs st.block)
    (hnull : load st.block (8 * (first + xs.length)) 8 = 0) (hinside : 8 * (first + xs.length) + 8 ≤ st.size)
    (hfits : start + span xs ≤ st.size) : st.Listed (argsBase + 8 * first) xs := by
  have hat : ∀ i, st.pointerAt (argsBase + 8 * first + 8 * i) = load st.block (8 * (first + i)) 8 := fun i => by
    rw [Startup.pointerAt, show argsBase + 8 * first + 8 * i - argsBase = 8 * (first + i) by omega]
  refine ⟨⟨Nat.le_add_right _ _, by omega⟩, (hat _).trans hnull, fun i x hget => ?_⟩
  obtain ⟨hpointer, hholds⟩ := h i x hget
  have hend := span_take_add_le hget
  rw [hat, hpointer, Nat.add_sub_cancel_left]
  exact ⟨⟨Nat.le_add_right _ _, by omega⟩, hholds⟩

/-- What is finished is laid out. -/
theorem Finished.laid {args env : List CString} {st : Startup} (h : Finished args env st.block)
    (hargc : st.argc = args.length) (hargv : st.argv = argsBase)
    (henviron : st.environ = argsBase + 8 * (args.length + 1)) (hfits : total args env ≤ st.size) :
    st.Laid args env := by
  have hbegin : stringsStart args.length env.length = (args.length + 1) * 8 + (env.length + 1) * 8 := rfl
  have hargv₀ : st.argv = argsBase + 8 * 0 := hargv
  have hargsNull := h.argsNull
  have henvNull := h.envNull
  rw [total] at hfits
  rw [← Nat.zero_add args.length] at hargsNull
  rw [Nat.add_right_comm] at henvNull
  refine ⟨hargc, ?_, ?_, ?_⟩
  · rw [hargv₀]
    exact listed h.argsPlaced hargsNull (by omega) (by omega)
  · rw [henviron]
    exact listed h.envPlaced henvNull (by omega) (by omega)
  · rw [Startup.places, hargv₀, henviron, stringPlaces_eq h.argsPlaced, stringPlaces_eq h.envPlaced]
    refine List.pairwise_cons.2 ⟨fun p hp => Or.inl ?_, List.pairwise_cons.2 ⟨fun p hp => Or.inl ?_,
      List.pairwise_append.2 ⟨pairwise_run _ _, pairwise_run _ _, fun p hp q hq => Or.inl ?_⟩⟩⟩
    · rcases List.mem_cons.1 hp with rfl | hp
      · dsimp only
        omega
      · rcases List.mem_append.1 hp with hp | hp
        · have hin := mem_run hp
          dsimp only
          omega
        · have hin := mem_run hp
          dsimp only
          omega
    · rcases List.mem_append.1 hp with hp | hp
      · have hin := mem_run hp
        dsimp only
        omega
      · have hin := mem_run hp
        dsimp only
        omega
    · have hin := mem_run hp
      have hin' := mem_run hq
      omega

/-! ### The main result -/

theorem mappedSize_le (space : Nat) : mappedSize space ≤ (pagesReqd space).toNat * memPageSize := by
  rw [mappedSize, UInt32.toNat_mul]
  exact Nat.mod_le _ _

theorem window_lt (space : Nat) : (pagesReqd space).toNat * memPageSize < 2 ^ 54 := by
  have hlt := (pagesReqd space).toNat_lt
  rw [memPageSize]
  omega

theorem pagesReqd_ne_zero {space : Nat} (h : 0 < mappedSize space) : pagesReqd space ≠ 0 := by
  intro hzero
  rw [mappedSize, hzero] at h
  exact absurd h (by decide)

theorem checked_noError {result : ErrCode} {rest : Option (ErrCode × Option Startup)}
    (h : result = .noError) : checked result rest = rest := if_neg fun hne => hne h

variable {calls : Calls} {nameLength : UInt16} {arguments envp : Option (List CString)}

theorem execFile_ready (hready : calls.Ready)
    (hpages : pagesReqd (argsAndEnvSpace nameLength (arguments.getD []) (givenEnv envp environ)) ≠ 0) :
    ∃ result, execFile calls (some filename) nameLength (some ()) arguments envp environ block =
      (layOut calls.pagePtr ((pagesReqd (argsAndEnvSpace nameLength (arguments.getD [])
        (givenEnv envp environ))).toNat * memPageSize) filename (arguments.getD [])
        (givenEnv envp environ).length environ block).map fun block =>
          (result, some (startup nameLength (arguments.getD []) (givenEnv envp environ) block)) := by
  refine ⟨if calls.setStartupParams ≠ .noError then calls.setStartupParams else calls.startProcess, ?_⟩
  rw [execFile]
  dsimp only
  rw [checked_noError hready.openHandle, checked_noError hready.readFileHeader,
    checked_noError hready.createProcess, checked_noError hready.loadElfFile, if_neg hpages,
    checked_noError hready.allocateBackingMemory, checked_noError hready.mapMemory]
  rw [Option.map_eq_bind]
  rfl

/-- If a call before the layout fails, nothing is laid out. -/
theorem execFile_not_ready (h : ¬ calls.Ready) :
    ∃ result, execFile calls (some filename) nameLength (some ()) arguments envp environ block =
      some (result, none) := by
  rw [execFile]
  dsimp only
  by_cases hopen : calls.openHandle = .noError
  case neg => exact ⟨_, if_pos hopen⟩
  rw [checked_noError hopen]
  by_cases hheader : calls.readFileHeader = .noError
  case neg => exact ⟨_, if_pos hheader⟩
  rw [checked_noError hheader]
  by_cases hcreate : calls.createProcess = .noError
  case neg => exact ⟨_, if_pos hcreate⟩
  rw [checked_noError hcreate]
  by_cases hload : calls.loadElfFile = .noError
  case neg => exact ⟨_, if_pos hload⟩
  rw [checked_noError hload]
  by_cases hpages : pagesReqd (argsAndEnvSpace nameLength (arguments.getD []) (givenEnv envp environ)) = 0
  case pos => exact ⟨_, if_pos hpages⟩
  rw [if_neg hpages]
  by_cases hallocate : calls.allocateBackingMemory = .noError
  case neg => exact ⟨_, if_pos hallocate⟩
  rw [checked_noError hallocate]
  by_cases hmap : calls.mapMemory = .noError
  case neg => exact ⟨_, if_pos hmap⟩
  exact absurd ⟨hopen, hheader, hcreate, hload, hallocate, hmap⟩ h

/-- An environment that is laid out where another was placed is that. -/
theorem Finished.env_unique {args env env' : List CString} {st : Startup} (h : Finished args env st.block)
    (henviron : st.environ = argsBase + 8 * (args.length + 1)) (hlaid : st.Listed st.environ env')
    (hlength : env.length = env'.length) : env' = env := by
  refine eq_of_strings hlength.symm fun i hi => ?_
  have hget : env[i]? = some env[i] := List.getElem?_eq_getElem hi
  have hget' : env'[i]? = some env'[i] := List.getElem?_eq_getElem (hlength ▸ hi)
  obtain ⟨hpointer, hholds⟩ := h.envPlaced i _ hget
  have hholds' := (hlaid.strings i _ hget').2
  rw [Startup.pointerAt, henviron,
    show argsBase + 8 * (args.length + 1) + 8 * i - argsBase = 8 * (args.length + 1 + i) by omega, hpointer,
    Nat.add_sub_cancel_left] at hholds'
  rw [hget, hget', hholds.unique hholds']

/-- An environment is laid out only if `environ` begins with it. -/
theorem LaysOut.begins (hfits : total (filename :: arguments.getD []) (givenEnv envp environ) ≤
    mappedSize (argsAndEnvSpace nameLength (arguments.getD []) (givenEnv envp environ)))
    (h : LaysOut calls filename nameLength arguments envp environ block) (hready : calls.Ready) :
    givenEnv envp environ <+: environ.getD [] := by
  have hpos : 0 < mappedSize (argsAndEnvSpace nameLength (arguments.getD []) (givenEnv envp environ)) := by
    rw [total] at hfits
    omega
  obtain ⟨result, st, hrun, hlaid⟩ := h
  obtain ⟨result', heq⟩ :=
    @execFile_ready block filename environ calls nameLength arguments envp hready (pagesReqd_ne_zero hpos)
  rw [heq] at hrun
  obtain ⟨block', hlayout, hst⟩ := Option.map_eq_some_iff.1 hrun
  obtain ⟨-, rfl⟩ := Prod.mk.inj hst
  obtain ⟨env, hlength, hbegins, hfinished⟩ := layOut_some (window_lt _) hlayout
  have henviron : (startup nameLength (arguments.getD []) (givenEnv envp environ) block').environ =
      argsBase + 8 * ((filename :: arguments.getD []).length + 1) := by
    rw [startup]
    dsimp only
    rw [List.length_cons]
    omega
  rw [hfinished.env_unique henviron (hlaid _ rfl).environ hlength]
  exact hbegins

/-- Where `environ` begins with it, all is laid out. -/
theorem laysOut_of_begins (hfits : total (filename :: arguments.getD []) (givenEnv envp environ) ≤
    mappedSize (argsAndEnvSpace nameLength (arguments.getD []) (givenEnv envp environ)))
    (hready : calls.Ready) (hgiven : givenEnv envp environ <+: environ.getD []) :
    LaysOut calls filename nameLength arguments envp environ block := by
  have hpos : 0 < mappedSize (argsAndEnvSpace nameLength (arguments.getD []) (givenEnv envp environ)) := by
    rw [total] at hfits
    omega
  have hbound := window_lt (argsAndEnvSpace nameLength (arguments.getD []) (givenEnv envp environ))
  have hwindow := mappedSize_le (argsAndEnvSpace nameLength (arguments.getD []) (givenEnv envp environ))
  obtain ⟨block', hlayout⟩ := @layOut_returns calls.pagePtr _ block filename (arguments.getD []) environ _
    hbound hgiven (Nat.le_trans hfits hwindow)
  obtain ⟨result, heq⟩ :=
    @execFile_ready block filename environ calls nameLength arguments envp hready (pagesReqd_ne_zero hpos)
  rw [hlayout] at heq
  refine ⟨result, _, heq, fun s hs => ?_⟩
  obtain rfl := Option.some.inj hs
  obtain ⟨env, hlength, hbegins, hfinished⟩ := layOut_some hbound hlayout
  have henv : env = givenEnv envp environ :=
    (List.prefix_of_prefix_length_le hbegins hgiven (Nat.le_of_eq hlength)).eq_of_length hlength
  rw [henv] at hfinished
  refine Finished.laid hfinished rfl rfl ?_ hfits
  rw [startup]
  dsimp only
  rw [List.length_cons]
  omega

/-- The arguments and the given environment are laid out just if `environ` begins with that environment, or
a call fails before. -/
theorem execFile_iff (hfits : total (filename :: arguments.getD []) (givenEnv envp environ) ≤
    mappedSize (argsAndEnvSpace nameLength (arguments.getD []) (givenEnv envp environ))) :
    LaysOut calls filename nameLength arguments envp environ block ↔
      (calls.Ready → givenEnv envp environ <+: environ.getD []) := by
  refine ⟨LaysOut.begins hfits, fun hgiven => ?_⟩
  by_cases hready : calls.Ready
  · exact laysOut_of_begins hfits hready (hgiven hready)
  · obtain ⟨result, heq⟩ :=
      @execFile_not_ready block filename environ calls nameLength arguments envp hready
    exact ⟨result, none, heq, fun s hs => absurd hs.symm (Option.some_ne_none s)⟩

end

/-! ### A program -/

/-- A string of one character. -/
def oneChar (c : UInt8) (h : c ≠ 0) : CString := ⟨[c], List.forall_mem_singleton.2 h⟩

def exampleCalls : Calls :=
  ⟨.noError, .noError, .noError, .noError, .noError, .noError, .noError, .noError, 0x200000⟩

/-- `a b`, in the environment of the calling process. -/
theorem example_laysOut : LaysOut exampleCalls (oneChar 97 (by decide)) 1 (some [oneChar 98 (by decide)]) none
    (some [oneChar 99 (by decide)]) fun _ => 0 :=
  (execFile_iff (by decide)).2 fun _ => List.prefix_refl _

/-- `a`, with an environment that is not that of the calling process. -/
theorem given_not_laysOut : ¬ LaysOut exampleCalls (oneChar 97 (by decide)) 1 none
    (some [oneChar 100 (by decide)]) (some [oneChar 99 (by decide)]) fun _ => 0 := by
  intro h
  obtain ⟨rest, hrest⟩ := LaysOut.begins (by decide) h ⟨rfl, rfl, rfl, rfl, rfl, rfl⟩
  have hchars := congrArg CString.chars (List.head_eq_of_cons_eq hrest)
  exact absurd hchars (by decide)

end Azalea.User
