import Azalea.Support.Runs
import Azalea.Syscall.Validation

/-!
# Block — devices and the proxy

What every block device shares (`devices/device_interface.h`, `devices/block/block_interface.h`): the
status a device reports, and the arguments of `read_blocks` and `write_blocks`.  Block numbers and
lengths are 64-bit words, and wrap where the source's do.

`block_proxy_device` (`devices/block/proxy/block_proxy.cpp`) presents a window of a parent device as a
device of its own.  The parent is known by the number of its blocks, and by the status it reports when
it is asked; what it does with a request is its own affair, so a call on the proxy is refused or
answered by the request it passes on.

* `Confines`: in every state of the proxy, a request passed on is the caller's, moved by the start of the
  window, and lies in the window and in the parent.
* `newProxy_confines_iff`: for which windows that is so.
-/

namespace Azalea.Block
open Azalea.Syscall (ErrCode)

/-- `DEV_STATUS`. -/
inductive DevStatus where
  | ok
  | failed
  | reset
  | stopped
  | starting
  | stopping
  | unknown
  deriving Repr, DecidableEq

/-- `read_blocks` or `write_blocks`. -/
inductive Access where
  | read
  | write
  deriving Repr, DecidableEq

/-- The arguments of a call.  The buffer is its address. -/
structure Request where
  startBlock : UInt64
  numBlocks : UInt64
  buffer : UInt64
  bufferLength : UInt64
  deriving Repr, DecidableEq

/-- The blocks of a request are among the first `n`. -/
def Request.Inside (r : Request) (n : UInt64) : Prop :=
  r.startBlock.toNat + r.numBlocks.toNat ≤ n.toNat

instance (r : Request) (n : UInt64) : Decidable (r.Inside n) := inferInstanceAs (Decidable (_ ≤ _))

/-- `block_proxy_device`.  A parent is the number of its blocks. -/
structure Proxy where
  parent : Option UInt64
  startBlock : UInt64
  numBlocks : UInt64
  status : DevStatus
  deriving Repr, DecidableEq

/-- The status the constructor leaves. -/
def newStatus (parent : Option UInt64) (startBlock numBlocks : UInt64) : DevStatus :=
  match parent with
  | none => .failed
  | some blocks =>
      if numBlocks = 0 then .failed
      else if startBlock > blocks ∨ startBlock + numBlocks > blocks then .failed
      else .starting

/-- The constructor. -/
def newProxy (parent : Option UInt64) (startBlock numBlocks : UInt64) : Proxy where
  parent := parent
  startBlock := startBlock
  numBlocks := numBlocks
  status := newStatus parent startBlock numBlocks

namespace Proxy

/-- `get_device_status`: the proxy's own, or the parent's if the proxy's is fine. -/
def getDeviceStatus (p : Proxy) (parentStatus : DevStatus) : DevStatus :=
  if p.status = .ok then parentStatus else p.status

def setDeviceStatus (p : Proxy) (parentStatus new : DevStatus) : Proxy :=
  if p.getDeviceStatus parentStatus ≠ .failed then { p with status := new } else p

def start (p : Proxy) (parentStatus : DevStatus) : Proxy := p.setDeviceStatus parentStatus .ok

def stop (p : Proxy) (parentStatus : DevStatus) : Proxy := p.setDeviceStatus parentStatus .stopped

def reset (p : Proxy) (parentStatus : DevStatus) : Proxy := p.setDeviceStatus parentStatus .stopped

/-- How a call ends: with an error of the proxy's, with the parent's answer to a request, or at a failed
assertion. -/
inductive Answer where
  | refused (e : ErrCode)
  | passed (a : Access) (r : Request)
  | halted
  deriving Repr, DecidableEq

/-- The body `read_blocks` and `write_blocks` share. -/
def passUp (p : Proxy) (parentStatus : DevStatus) (a : Access) (r : Request) : Answer :=
  if p.getDeviceStatus parentStatus ≠ .ok then .refused .deviceFailed
  else if r.startBlock ≥ p.numBlocks ∨ r.numBlocks > p.numBlocks
      ∨ r.startBlock + r.numBlocks > p.numBlocks then
    .refused .invalidParam
  else match p.parent with
    | none => .halted
    | some _ => .passed a { r with startBlock := r.startBlock + p.startBlock }

def readBlocks (p : Proxy) (parentStatus : DevStatus) (r : Request) : Answer :=
  p.passUp parentStatus .read r

def writeBlocks (p : Proxy) (parentStatus : DevStatus) (r : Request) : Answer :=
  p.passUp parentStatus .write r

/-- A call on the proxy that is not a request. -/
inductive Act where
  | start
  | stop
  | reset
  deriving Repr, DecidableEq

/-- One call, with the status the parent has then. -/
def step (p : Proxy) : Act × DevStatus → Option Proxy
  | (.start, s) => some (p.start s)
  | (.stop, s) => some (p.stop s)
  | (.reset, s) => some (p.reset s)

end Proxy

open Proxy Runs

/-- The answer to `r` by a proxy on `start`, `count` keeps to the window and to a parent of `blocks`
blocks. -/
def Kept (blocks start count : UInt64) (a : Access) (r : Request) : Answer → Prop
  | .refused _ => True
  | .halted => False
  | .passed a' r' =>
      r.Inside count ∧ a' = a ∧ r'.startBlock.toNat = start.toNat + r.startBlock.toNat
        ∧ r' = { r with startBlock := r'.startBlock }
        ∧ r'.startBlock.toNat + r'.numBlocks.toNat ≤ start.toNat + count.toNat
        ∧ r'.Inside blocks

/-- Whatever the proxy has been through and its parent reports, the answers to all requests are kept. -/
def Confines (parent : Option UInt64) (start count : UInt64) : Prop :=
  ∀ p, Reach Proxy.step anyInput (newProxy parent start count) p → ∀ (s : DevStatus) (r : Request),
    Kept (parent.getD 0) start count .read r (p.readBlocks s r)
      ∧ Kept (parent.getD 0) start count .write r (p.writeBlocks s r)

section
variable {parent : Option UInt64} {blocks start count : UInt64} {p : Proxy} {s : DevStatus} {a : Access}
  {r : Request}

/-- What no call changes: the window, and that a refused construction has failed. -/
structure Built (parent : Option UInt64) (start count : UInt64) (p : Proxy) : Prop where
  device : p.parent = parent
  startBlock : p.startBlock = start
  numBlocks : p.numBlocks = count
  failed : newStatus parent start count = .failed → p.status = .failed

theorem newProxy_built : Built parent start count (newProxy parent start count) :=
  ⟨rfl, rfl, rfl, id⟩

theorem Built.setDeviceStatus {new : DevStatus} (h : Built parent start count p) :
    Built parent start count (p.setDeviceStatus s new) := by
  unfold Proxy.setDeviceStatus
  split
  next hs =>
    refine ⟨h.device, h.startBlock, h.numBlocks, fun hf => absurd ?_ hs⟩
    simp [getDeviceStatus, h.failed hf]
  next => exact h

theorem Built.step {i : Proxy.Act × DevStatus} {p' : Proxy} (h : Built parent start count p)
    (hs : p.step i = some p') : Built parent start count p' := by
  obtain ⟨act, s⟩ := i
  cases act with
  | start => cases hs; exact h.setDeviceStatus
  | stop => cases hs; exact h.setDeviceStatus
  | reset => cases hs; exact h.setDeviceStatus

theorem Built.of_reach (h : Reach Proxy.step anyInput (newProxy parent start count) p) :
    Built parent start count p :=
  h.invariant newProxy_built fun _ _ _ hb _ hs => hb.step hs

/-- The constructor accepts a window that, as far as its sum shows, lies in the parent. -/
theorem newStatus_ne_failed_iff : newStatus parent start count ≠ .failed ↔ ∃ blocks,
    parent = some blocks ∧ count.toNat ≠ 0 ∧ start.toNat ≤ blocks.toNat
      ∧ (start.toNat + count.toNat) % 2 ^ 64 ≤ blocks.toNat := by
  cases parent with
  | none => simp [newStatus]
  | some blocks =>
      have h0 : count = 0 ↔ count.toNat = 0 := by rw [← UInt64.toNat_inj]; rfl
      simp only [newStatus, h0, gt_iff_lt, UInt64.lt_iff_toNat_lt, UInt64.toNat_add]
      split
      · simp_all
      · split <;> simp <;> omega

/-- What is passed on, and when. -/
theorem passUp_eq_passed_iff {a' : Access} {r' : Request} : p.passUp s a r = .passed a' r' ↔
    p.getDeviceStatus s = .ok ∧ p.parent ≠ none
      ∧ r.startBlock.toNat < p.numBlocks.toNat ∧ r.numBlocks.toNat ≤ p.numBlocks.toNat
      ∧ (r.startBlock.toNat + r.numBlocks.toNat) % 2 ^ 64 ≤ p.numBlocks.toNat
      ∧ a' = a ∧ r' = { r with startBlock := r.startBlock + p.startBlock } := by
  simp only [passUp, ge_iff_le, gt_iff_lt, UInt64.le_iff_toNat_le, UInt64.lt_iff_toNat_lt,
    UInt64.toNat_add]
  split
  next hs => simp [hs]
  next hs =>
    split
    next hr => simp; omega
    next hr =>
      have hr' := not_or.mp hr
      have hr'' := not_or.mp hr'.2
      cases hp : p.parent with
      | none => simp
      | some blocks =>
          simp only [Answer.passed.injEq]
          constructor
          · rintro ⟨rfl, rfl⟩
            exact ⟨not_not.mp hs, by simp, by omega, by omega, by omega, rfl, rfl⟩
          · rintro ⟨-, -, -, -, -, rfl, rfl⟩
            exact ⟨rfl, rfl⟩

theorem passUp_ne_halted (h : Built parent start count p) : p.passUp s a r ≠ .halted := by
  unfold passUp
  split
  · simp
  next hs =>
    split
    · simp
    · have hp : p.parent ≠ none := by
        intro hn
        have hf := h.failed (by rw [← h.device, hn]; rfl)
        exact hs (by simp [getDeviceStatus, hf])
      cases h : p.parent with
      | none => exact absurd h hp
      | some blocks => simp

/-- The answers are kept: no sum wraps. -/
theorem Built.kept (h : Built parent start count p)
    (hok : newStatus parent start count = .failed
      ∨ start.toNat + count.toNat < 2 ^ 64 ∧ count.toNat ≤ 2 ^ 63) :
    Kept (parent.getD 0) start count a r (p.passUp s a r) := by
  cases hans : p.passUp s a r with
  | refused e => trivial
  | halted => exact absurd hans (passUp_ne_halted h)
  | passed a' r' =>
      obtain ⟨hs, -, h1, h2, h3, rfl, rfl⟩ := passUp_eq_passed_iff.mp hans
      have hnew : newStatus parent start count ≠ .failed := by
        intro hf
        simp [getDeviceStatus, h.failed hf] at hs
      obtain ⟨blocks, rfl, -, hle, hsum⟩ := newStatus_ne_failed_iff.mp hnew
      obtain ⟨hlt, hhalf⟩ := hok.resolve_left hnew
      rw [h.numBlocks] at h1 h2 h3
      have hin : r.Inside count := by unfold Request.Inside; omega
      have hmove : (r.startBlock + p.startBlock).toNat = start.toNat + r.startBlock.toNat := by
        rw [UInt64.toNat_add, h.startBlock]
        omega
      unfold Request.Inside at hin
      refine ⟨hin, rfl, hmove, rfl, ?_, ?_⟩
      · simp only [hmove]; omega
      · simp only [Request.Inside, hmove, Option.getD_some]; omega

/-- A proxy that was accepted can be started, and then passes on what its tests let through. -/
theorem readBlocks_started {r' : Request} (hnew : newStatus parent start count ≠ .failed)
    (h1 : r.startBlock.toNat < count.toNat) (h2 : r.numBlocks.toNat ≤ count.toNat)
    (h3 : (r.startBlock.toNat + r.numBlocks.toNat) % 2 ^ 64 ≤ count.toNat)
    (hr' : r' = { r with startBlock := r.startBlock + start }) :
    ∃ p, Reach Proxy.step anyInput (newProxy parent start count) p
      ∧ p.readBlocks .ok r = .passed .read r' := by
  refine ⟨(newProxy parent start count).start .ok, .step (.start, .ok) .refl trivial rfl, ?_⟩
  obtain ⟨blocks, rfl, -⟩ := newStatus_ne_failed_iff.mp hnew
  have hstart : newStatus (some blocks) start count = .starting := by
    simp only [newStatus] at hnew ⊢
    split at hnew
    · cases hnew rfl
    next h0 =>
      split at hnew
      · cases hnew rfl
      next hw => rw [if_neg h0, if_neg hw]
  have hrun : (newProxy (some blocks) start count).start .ok
      = { newProxy (some blocks) start count with status := .ok } := by
    simp [Proxy.start, Proxy.setDeviceStatus, getDeviceStatus, newProxy, hstart]
  rw [hrun]
  exact passUp_eq_passed_iff.mpr ⟨rfl, by simp [newProxy], h1, h2, h3, rfl, hr'⟩

/-- The proxy is confined to its window unless the constructor accepts one whose end, or the end of a
request within its own tests, does not fit in 64 bits. -/
theorem newProxy_confines_iff (parent : Option UInt64) (start count : UInt64) :
    Confines parent start count ↔ newStatus parent start count = .failed
      ∨ start.toNat + count.toNat < 2 ^ 64 ∧ count.toNat ≤ 2 ^ 63 := by
  constructor
  · intro h
    by_contra hbad
    obtain ⟨hnew, hbad⟩ := not_or.mp hbad
    obtain ⟨blocks, rfl, h0, hle, hsum⟩ := newStatus_ne_failed_iff.mp hnew
    have hc := count.toNat_lt
    have hb := blocks.toNat_lt
    have hlast : (count - 1).toNat = count.toNat - 1 := by
      rw [UInt64.toNat_sub]
      have h1 : (1 : UInt64).toNat = 1 := rfl
      omega
    by_cases hend : start.toNat + count.toNat < 2 ^ 64
    · -- the last block and as many as the window has: the sum wraps below the window's size
      obtain ⟨p, hp, hans⟩ := @readBlocks_started (some blocks) start count
        ⟨count - 1, count, 0, 0⟩ _ hnew (by simp only [hlast]; omega) (Nat.le_refl _)
        (by simp only [hlast]; omega) rfl
      have hk := (h p hp .ok ⟨count - 1, count, 0, 0⟩).1
      rw [hans] at hk
      obtain ⟨hin, -⟩ := hk
      simp only [Request.Inside, hlast] at hin
      omega
    · -- the window's own end has wrapped: its last block is not in the parent
      obtain ⟨p, hp, hans⟩ := @readBlocks_started (some blocks) start count
        ⟨count - 1, 1, 0, 0⟩ _ hnew (by simp only [hlast]; omega)
        (by have h1 : (1 : UInt64).toNat = 1 := rfl; simp only [h1]; omega)
        (by have h1 : (1 : UInt64).toNat = 1 := rfl; simp only [hlast, h1]; omega) rfl
      have hk := (h p hp .ok ⟨count - 1, 1, 0, 0⟩).1
      rw [hans] at hk
      obtain ⟨-, -, hmove, -, -, hin⟩ := hk
      have h1 : (1 : UInt64).toNat = 1 := rfl
      simp only [Request.Inside, hmove, hlast, Option.getD_some, h1] at hin
      omega
  · intro hok p hp s r
    have hb := Built.of_reach hp
    exact ⟨hb.kept hok, hb.kept hok⟩

/-- A parent of ten blocks, a proxy on all of it but the first block and far beyond: block 20 of the
proxy is block 21 of the parent. -/
theorem newProxy_beyond_parent : newStatus (some 10) 1 0xffffffffffffffff = .starting
    ∧ ((newProxy (some 10) 1 0xffffffffffffffff).start .ok).readBlocks .ok ⟨20, 1, 4096, 512⟩
      = .passed .read ⟨21, 1, 4096, 512⟩
    ∧ ¬ Confines (some 10) 1 0xffffffffffffffff := by
  refine ⟨by decide, by decide, fun h => ?_⟩
  have hk := (h _ (.step (.start, .ok) .refl trivial rfl) .ok ⟨20, 1, 4096, 512⟩).1
  obtain ⟨-, -, -, -, -, hin⟩ := hk
  revert hin
  decide

end

end Azalea.Block
