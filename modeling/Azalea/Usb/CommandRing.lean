import Azalea.Usb.TrbQueue

/-!
# Usb — command completions

`trb_command_ring` (`devices/usb/controllers/usb_xhci_trb_ring.cpp`): `queue_command` keeps each command in
the queue of the slot its TRB was put in, and `retrieve_command` looks a completed one up by the physical
address of the TRB, which is the controller's to give.

The queues are compared with one list of all the commands outstanding (`Outstanding`).
`retrieve_command` answers as that list does when the address is that of a slot or far from the ring
(`commandRing_iff`).  The index is a quotient cut to 32 bits, and is let through up to the number of slots
itself: the address just after the ring is looked up outside the array of queues.
-/

namespace Azalea.Usb
open Azalea.Runs

/-- `convert_phys_to_position`. -/
def convertPhysToPosition (segmentSize : BitVec 16) (trbRingBasePhys physTrbAddr : BitVec 64) :
    BitVec 32 :=
  let posn := ((physTrbAddr - trbRingBasePhys) / 16).setWidth 32
  if segmentSize.setWidth 32 < posn then ~~~0 else posn

/-- A `trb_command_ring`; the commands are of type `γ`. -/
structure CommandRing (γ : Type) where
  generic : GenericRing
  /-- The element at `k` is in the array if `k` is less than `segment_size`. -/
  commandQueues : Nat → List γ

/-- What is asked of a command ring. -/
inductive CommandInput (γ : Type) where
  | queue (newCommand : γ)
  | completion (commandTrbPhysAddr : BitVec 64)

/-- What it answers. -/
inductive CommandOutput (γ : Type) where
  | queued (result : Bool)
  | retrieved (result : Option γ)
  deriving DecidableEq

namespace CommandRing

variable {γ : Type} (generatedTrb : γ → Trb) (segmentSize : BitVec 16) (base : BitVec 64)

/-- `trb_command_ring::trb_command_ring`. -/
def new : CommandRing γ where
  generic := .new segmentSize.toNat base
  commandQueues _ := []

/-- `queue_command`.  Nothing is returned if an element outside of the array of queues is used. -/
def queueCommand (c : CommandRing γ) (newCommand : γ) : Option (CommandRing γ × Bool) :=
  match queueTrb .command c.generic (some (generatedTrb newCommand)) with
  | none => some (c, false)
  | some (queuePosn, generic) =>
      if queuePosn < segmentSize.toNat then
        some (⟨generic, Function.update c.commandQueues queuePosn
          (c.commandQueues queuePosn ++ [newCommand])⟩, true)
      else none

/-- `retrieve_command`; as for `queueCommand`. -/
def retrieveCommand (c : CommandRing γ) (commandTrbPhysAddr : BitVec 64) :
    Option (CommandRing γ × Option γ) :=
  let posn := convertPhysToPosition segmentSize base commandTrbPhysAddr
  if posn = ~~~0 then some (c, none)
  else if posn.toNat < segmentSize.toNat then
    match c.commandQueues posn.toNat with
    | [] => some (c, none)
    | result :: rest =>
        some ({ c with commandQueues := Function.update c.commandQueues posn.toNat rest }, some result)
  else none

def step (c : CommandRing γ) : CommandInput γ → Option (CommandRing γ × CommandOutput γ)
  | .queue newCommand =>
      (c.queueCommand generatedTrb segmentSize newCommand).map fun r => (r.1, .queued r.2)
  | .completion addr => (c.retrieveCommand segmentSize base addr).map fun r => (r.1, .retrieved r.2)

end CommandRing

/-- The slot that starts at an address. -/
def slotAt (segmentSize : BitVec 16) (base addr : BitVec 64) : Option Nat :=
  (List.range segmentSize.toNat).find? fun slot => addr = base + BitVec.ofNat 64 (16 * slot)

/-- What `convert_phys_to_position` is to return: the slot that starts at the address, or ~0. -/
def positionOf (segmentSize : BitVec 16) (base addr : BitVec 64) : BitVec 32 :=
  match slotAt segmentSize base addr with
  | some slot => BitVec.ofNat 32 slot
  | none => ~~~0

/-- A command ring that remembers the commands queued and not yet retrieved, oldest first, each with its
slot. -/
structure Outstanding (γ : Type) where
  generic : GenericRing
  commands : List (Nat × γ)

namespace Outstanding

variable {γ : Type} (generatedTrb : γ → Trb) (segmentSize : BitVec 16) (base : BitVec 64)

def new : Outstanding γ := ⟨.new segmentSize.toNat base, []⟩

/-- A completion is for the oldest command of the slot at its address. -/
def step (a : Outstanding γ) : CommandInput γ → Outstanding γ × CommandOutput γ
  | .queue newCommand =>
      match queueTrb .command a.generic (some (generatedTrb newCommand)) with
      | none => (a, .queued false)
      | some (slot, generic) => (⟨generic, a.commands ++ [(slot, newCommand)]⟩, .queued true)
  | .completion addr =>
      match slotAt segmentSize base addr with
      | none => (a, .retrieved none)
      | some slot =>
          ({ a with commands := a.commands.eraseP (·.1 = slot) },
            .retrieved ((a.commands.find? (·.1 = slot)).map Prod.snd))

end Outstanding

/-- The address is that of a slot, or, going by the low 36 bits of its distance from the base, at least one
slot past the end of the ring. -/
def SlotOrFar (segmentSize : BitVec 16) (base addr : BitVec 64) : Prop :=
  (∃ slot < segmentSize.toNat, addr = base + BitVec.ofNat 64 (16 * slot)) ∨
    16 * (segmentSize.toNat + 1) ≤ (addr - base).toNat % 2 ^ 36

section

variable {γ : Type} {generatedTrb : γ → Trb} {segmentSize : BitVec 16} {base addr : BitVec 64}

theorem toNat_sub_of_slot {slot : Nat} (hslot : slot < segmentSize.toNat)
    (haddr : addr = base + BitVec.ofNat 64 (16 * slot)) : (addr - base).toNat = 16 * slot := by
  have hsize := segmentSize.isLt
  rw [haddr, BitVec.add_comm, BitVec.add_sub_cancel, BitVec.toNat_ofNat, Nat.mod_eq_of_lt (by omega)]

theorem slotAt_eq_some_iff {slot : Nat} :
    slotAt segmentSize base addr = some slot ↔
      slot < segmentSize.toNat ∧ addr = base + BitVec.ofNat 64 (16 * slot) := by
  rw [slotAt, List.find?_range_eq_some]
  constructor
  · rintro ⟨haddr, hlt, -⟩
    exact ⟨List.mem_range.mp hlt, of_decide_eq_true haddr⟩
  · rintro ⟨hlt, haddr⟩
    refine ⟨decide_eq_true haddr, List.mem_range.mpr hlt, ?_⟩
    intro j hj
    have hne : addr ≠ base + BitVec.ofNat 64 (16 * j) := by
      intro heq
      have h := toNat_sub_of_slot hlt haddr
      rw [toNat_sub_of_slot (hj.trans hlt) heq] at h
      omega
    simpa using hne

theorem slotAt_eq_none_iff :
    slotAt segmentSize base addr = none ↔
      ∀ slot < segmentSize.toNat, addr ≠ base + BitVec.ofNat 64 (16 * slot) := by
  rw [Option.eq_none_iff_forall_ne_some]
  exact ⟨fun h slot hlt heq => h slot (slotAt_eq_some_iff.mpr ⟨hlt, heq⟩),
    fun h slot heq => h slot (slotAt_eq_some_iff.mp heq).1 (slotAt_eq_some_iff.mp heq).2⟩

/-- The quotient is cut to 32 bits. -/
theorem toNat_posn : (((addr - base) / 16).setWidth 32).toNat = (addr - base).toNat % 2 ^ 36 / 16 := by
  rw [BitVec.toNat_setWidth, BitVec.toNat_udiv]
  have h16 : (16 : BitVec 64).toNat = 16 := rfl
  rw [h16]
  omega

theorem convertPhysToPosition_eq :
    convertPhysToPosition segmentSize base addr =
      if segmentSize.toNat < (addr - base).toNat % 2 ^ 36 / 16 then ~~~0
      else BitVec.ofNat 32 ((addr - base).toNat % 2 ^ 36 / 16) := by
  have hsize : (segmentSize.setWidth 32).toNat = segmentSize.toNat := by simp; omega
  simp only [convertPhysToPosition, BitVec.lt_def, hsize, toNat_posn]
  rw [← toNat_posn, BitVec.ofNat_toNat, BitVec.setWidth_eq]

theorem convertPhysToPosition_of_slot {slot : Nat}
    (h : slotAt segmentSize base addr = some slot) :
    convertPhysToPosition segmentSize base addr = BitVec.ofNat 32 slot := by
  obtain ⟨hlt, haddr⟩ := slotAt_eq_some_iff.mp h
  have hsize := segmentSize.isLt
  have hposn : (addr - base).toNat % 2 ^ 36 / 16 = slot := by
    rw [toNat_sub_of_slot hlt haddr]
    omega
  rw [convertPhysToPosition_eq, hposn, if_neg (by omega)]

/-- Anything up to `segment_size` is let through. -/
theorem convertPhysToPosition_eq_top_iff :
    convertPhysToPosition segmentSize base addr = ~~~0 ↔
      16 * (segmentSize.toNat + 1) ≤ (addr - base).toNat % 2 ^ 36 := by
  have hsize := segmentSize.isLt
  rw [convertPhysToPosition_eq]
  split
  next hfar => exact iff_of_true rfl (by omega)
  next hnear =>
    refine iff_of_false ?_ (by omega)
    intro htop
    have hposn := congrArg BitVec.toNat htop
    rw [BitVec.toNat_ofNat, Nat.mod_eq_of_lt (by omega)] at hposn
    have hmax : (~~~0 : BitVec 32).toNat = 2 ^ 32 - 1 := by decide
    omega

theorem convertPhysToPosition_eq_iff :
    convertPhysToPosition segmentSize base addr = positionOf segmentSize base addr ↔
      SlotOrFar segmentSize base addr := by
  unfold positionOf
  cases hslot : slotAt segmentSize base addr with
  | some slot =>
      exact iff_of_true (convertPhysToPosition_of_slot hslot)
        (.inl ⟨slot, slotAt_eq_some_iff.mp hslot⟩)
  | none =>
      have hnone : ¬ ∃ slot < segmentSize.toNat, addr = base + BitVec.ofNat 64 (16 * slot) := by
        rintro ⟨slot, hlt, haddr⟩
        exact slotAt_eq_none_iff.mp hslot slot hlt haddr
      rw [convertPhysToPosition_eq_top_iff, SlotOrFar, or_iff_right hnone]

theorem filter_eraseP_self {α : Type} (p : α → Bool) (l : List α) :
    (l.eraseP p).filter p = (l.filter p).tail := by
  induction l with
  | nil => rfl
  | cons b l ih => cases hb : p b <;> simp [hb, ih]

theorem filter_eraseP_of_ne {α : Type} {p q : α → Bool} (h : ∀ b, q b → ¬ p b) (l : List α) :
    (l.eraseP p).filter q = l.filter q := by
  rcases List.exists_or_eq_self_of_eraseP p l with heq | ⟨b, l₁, l₂, -, hb, hl, herased⟩
  · rw [heq]
  · have hq : q b = false := Bool.eq_false_iff.mpr fun hq => h b hq hb
    rw [hl] at herased ⊢
    simp [herased, hq]

/-- Each queue holds what is outstanding in its slot. -/
structure Queued (segmentSize : BitVec 16) (c : CommandRing γ) (a : Outstanding γ) : Prop where
  generic : c.generic = a.generic
  ok : a.generic.Ok segmentSize.toNat
  queues : ∀ k, c.commandQueues k = (a.commands.filter (·.1 = k)).map Prod.snd

theorem Queued.new (hn : 1 < segmentSize.toNat) :
    Queued segmentSize (CommandRing.new segmentSize base : CommandRing γ) (.new segmentSize base) where
  generic := rfl
  ok := .new hn
  queues _ := rfl

theorem Queued.queue (generatedTrb : γ → Trb) (base : BitVec 64) {c : CommandRing γ}
    {a : Outstanding γ} (h : Queued segmentSize c a) (newCommand : γ) :
    ∃ c' a' o, c.step generatedTrb segmentSize base (.queue newCommand) = some (c', o) ∧
      a.step generatedTrb segmentSize base (.queue newCommand) = (a', o) ∧
      Queued segmentSize c' a' := by
  simp only [CommandRing.step, CommandRing.queueCommand, Outstanding.step, h.generic]
  cases hq : queueTrb .command a.generic (some (generatedTrb newCommand)) with
  | none => exact ⟨c, a, _, rfl, rfl, h⟩
  | some r =>
      obtain ⟨slot, generic⟩ := r
      obtain ⟨rfl, hok, -, -⟩ := h.ok.queueTrb_some hq
      have hlt := h.ok.enqueuePtr
      dsimp only
      rw [if_pos (by omega)]
      refine ⟨_, _, _, rfl, rfl, rfl, hok, ?_⟩
      intro k
      by_cases hk : k = a.generic.enqueuePtr
      · simp [hk, h.queues]
      · simp [Function.update_of_ne hk, h.queues, Ne.symm hk]

theorem Queued.completion (generatedTrb : γ → Trb) {c : CommandRing γ} {a : Outstanding γ}
    (h : Queued segmentSize c a) (haddr : SlotOrFar segmentSize base addr) :
    ∃ c' a' o, c.step generatedTrb segmentSize base (.completion addr) = some (c', o) ∧
      a.step generatedTrb segmentSize base (.completion addr) = (a', o) ∧
      Queued segmentSize c' a' := by
  simp only [CommandRing.step, CommandRing.retrieveCommand, Outstanding.step,
    convertPhysToPosition_eq_iff.mpr haddr, positionOf]
  cases hslot : slotAt segmentSize base addr with
  | none => exact ⟨c, a, _, rfl, rfl, h⟩
  | some slot =>
      have hlt := (slotAt_eq_some_iff.mp hslot).1
      have hsize := segmentSize.isLt
      have hposn : (BitVec.ofNat 32 slot).toNat = slot := by
        rw [BitVec.toNat_ofNat, Nat.mod_eq_of_lt (by omega)]
      have htop : BitVec.ofNat 32 slot ≠ ~~~0 := by
        intro heq
        rw [heq] at hposn
        have hmax : (~~~0 : BitVec 32).toNat = 2 ^ 32 - 1 := by decide
        omega
      dsimp only
      rw [if_neg htop, hposn, if_pos hlt]
      have hoption := congrArg List.head? (h.queues slot)
      rw [List.head?_map, List.head?_filter] at hoption
      have herased : ∀ k, ((a.commands.eraseP (·.1 = slot)).filter (·.1 = k)).map Prod.snd =
          if k = slot then (c.commandQueues slot).tail else c.commandQueues k := by
        intro k
        split
        next hk => rw [hk, filter_eraseP_self, List.map_tail, h.queues]
        next hk =>
          rw [filter_eraseP_of_ne, h.queues]
          simp only [decide_eq_true_eq]
          rintro b rfl
          exact hk
      rw [← hoption]
      cases hqueue : c.commandQueues slot with
      | nil =>
          rw [hqueue] at herased
          refine ⟨c, { a with commands := a.commands.eraseP (·.1 = slot) }, _, rfl, rfl, h.generic,
            h.ok, ?_⟩
          intro k
          rw [herased]
          split
          next hk => rw [hk, hqueue, List.tail_nil]
          next => rfl
      | cons result rest =>
          rw [hqueue] at herased
          refine ⟨{ c with commandQueues := Function.update c.commandQueues slot rest },
            { a with commands := a.commands.eraseP (·.1 = slot) }, _, rfl, rfl, h.generic, h.ok, ?_⟩
          intro k
          rw [herased]
          split
          next hk => simp only [hk, Function.update_self, List.tail_cons]
          next hk => exact Function.update_of_ne hk _ _

/-- `convert_phys_to_position` is right about exactly the addresses that are those of slots or far from the
ring.  In a run in which all completions are for such addresses no element outside of the array of queues
is used, and each completion is for the oldest command outstanding in its slot. -/
theorem commandRing_iff (generatedTrb : γ → Trb) (segmentSize : BitVec 16) (base : BitVec 64) :
    (∀ addr, convertPhysToPosition segmentSize base addr = positionOf segmentSize base addr ↔
      SlotOrFar segmentSize base addr) ∧
    (1 < segmentSize.toNat → ∀ inputs : List (CommandInput γ),
      (∀ addr, .completion addr ∈ inputs → SlotOrFar segmentSize base addr) →
      ∃ os, outputs (CommandRing.step generatedTrb segmentSize base) (.new segmentSize base) inputs =
          some os ∧
        outputs (fun a i => some (Outstanding.step generatedTrb segmentSize base a i))
          (.new segmentSize base) inputs = some os) := by
  refine ⟨fun addr => convertPhysToPosition_eq_iff, fun hn inputs hok => ?_⟩
  refine outputs_eq_of_lockstep (R := Queued segmentSize)
    (P := fun i => ∀ addr, i = .completion addr → SlotOrFar segmentSize base addr) ?_ (.new hn) ?_
  · intro c a i h hi
    cases i with
    | queue newCommand =>
        obtain ⟨c', a', o, hc, ha, h'⟩ := h.queue generatedTrb base newCommand
        exact ⟨c', a', o, hc, congrArg some ha, h'⟩
    | completion addr =>
        obtain ⟨c', a', o, hc, ha, h'⟩ := h.completion generatedTrb (hi addr rfl)
        exact ⟨c', a', o, hc, congrArg some ha, h'⟩
  · rintro _ hmem addr rfl
    exact hok addr hmem

end

instance (segmentSize : BitVec 16) (base addr : BitVec 64) :
    Decidable (SlotOrFar segmentSize base addr) :=
  inferInstanceAs (Decidable (_ ∨ _))

/-- Two commands that are completed, and a completion for an address below the ring. -/
def completed : List (CommandInput Nat) :=
  [.queue 7, .queue 8, .completion 0x1010, .completion 0x1000, .completion 0x1000, .completion 0]

theorem commandRing_iff_completed :
    outputs (CommandRing.step (fun _ => noOpCmd) 4 0x1000) (.new 4 0x1000) completed =
      outputs (fun a i => some (Outstanding.step (fun _ => noOpCmd) 4 0x1000 a i)) (.new 4 0x1000)
        completed := by
  have hok : ∀ addr, .completion addr ∈ completed → SlotOrFar 4 0x1000 addr := by
    intro addr hmem
    simp only [completed, List.mem_cons, List.not_mem_nil, CommandInput.completion.injEq, reduceCtorEq,
      or_false, false_or] at hmem
    rcases hmem with rfl | rfl | rfl | rfl <;> decide
  obtain ⟨os, hcode, hspec⟩ := (commandRing_iff (fun _ => noOpCmd) 4 0x1000).2 (by decide) completed hok
  rw [hcode, hspec]

/-- The address just after a ring of two slots is given the number of a third one, and the queue looked at
is not in the array. -/
theorem convertPhysToPosition_past_end :
    (¬ ∀ segmentSize base addr,
      convertPhysToPosition segmentSize base addr = positionOf segmentSize base addr) ∧
    outputs (CommandRing.step (fun _ : Nat => noOpCmd) 2 0) (.new 2 0) [.completion 32] = none := by
  refine ⟨fun h => absurd (h 2 0 32) (by decide), by decide⟩

end Azalea.Usb
