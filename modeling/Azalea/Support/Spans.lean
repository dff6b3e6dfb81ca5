import Mathlib.Algebra.Order.Ring.Nat

/-!
# Support — spans of a memory with wrapping addresses

A memory is a function from addresses of `w` bits.  `load` reads a span of it, `store` writes one, and
`storeAll` writes several, one after the other.  Spans are given by their offsets from a common base, which
may be anywhere: addresses wrap, and offsets up to `2 ^ w` do not meet.

* `load_store_same`, `load_store_apart`: what is stored is read back, and spans apart from it are as they
  were.
* `load_add`: a span is the spans it is made of.
-/

namespace Azalea.Spans

variable {w : Nat} {β : Type*}

/-- The `n` values from `p` on. -/
def load (mem : BitVec w → β) (p : BitVec w) (n : Nat) : List β :=
  (List.range n).map fun i => mem (p + BitVec.ofNat w i)

/-- Put `bs` at `p`. -/
def store (mem : BitVec w → β) (p : BitVec w) (bs : List β) : BitVec w → β := fun a =>
  bs[(a - p).toNat]?.getD (mem a)

def storeAll (mem : BitVec w → β) (spans : List (BitVec w × List β)) : BitVec w → β :=
  spans.foldl (fun m s => store m s.1 s.2) mem

variable {mem mem' : BitVec w → β} {p b : BitVec w} {bs : List β} {o o' n x : Nat}

@[simp] theorem storeAll_nil : storeAll mem [] = mem := rfl

@[simp] theorem storeAll_cons (s : BitVec w × List β) (spans : List (BitVec w × List β)) :
    storeAll mem (s :: spans) = storeAll (store mem s.1 s.2) spans := rfl

@[simp] theorem length_load : (load mem p n).length = n := by simp [load]

@[simp] theorem load_zero : load mem p 0 = [] := rfl

theorem load_congr (h : ∀ i < n, mem (p + BitVec.ofNat w i) = mem' (p + BitVec.ofNat w i)) :
    load mem p n = load mem' p n :=
  List.map_congr_left fun i hi => h i (List.mem_range.1 hi)

theorem load_add (m : Nat) :
    load mem p (m + n) = load mem p m ++ load mem (p + BitVec.ofNat w m) n := by
  rw [load, List.range_add, List.map_append, List.map_map]
  refine congrArg _ (List.map_congr_left fun i _ => ?_)
  rw [Function.comp_apply, BitVec.ofNat_add, BitVec.add_assoc]

theorem load_succ : load mem p (n + 1) = mem p :: load mem (p + 1) n := by
  rw [load, List.range_succ_eq_map, List.map_cons, List.map_map, BitVec.ofNat_eq_ofNat, BitVec.add_zero]
  refine congrArg _ (List.map_congr_left fun i _ => ?_)
  rw [Function.comp_apply, Nat.succ_eq_one_add, BitVec.ofNat_add, BitVec.add_assoc]

theorem load_offset_add (m : Nat) :
    load mem (b + BitVec.ofNat w o) (m + n)
      = load mem (b + BitVec.ofNat w o) m ++ load mem (b + BitVec.ofNat w (o + m)) n := by
  rw [load_add, BitVec.add_assoc, ← BitVec.ofNat_add]

theorem load_eq_of_getElem? (hlen : bs.length = n)
    (h : ∀ i < n, bs[i]? = some (mem (p + BitVec.ofNat w i))) : load mem p n = bs := by
  refine List.ext_getElem? fun i => ?_
  by_cases hi : i < n
  · rw [h i hi, load, List.getElem?_map, List.getElem?_range hi, Option.map_some]
  · rw [List.getElem?_eq_none (by simpa using Nat.not_lt.1 hi),
      List.getElem?_eq_none (by rw [hlen]; exact Nat.not_lt.1 hi)]

/-- The place of one offset seen from another. -/
theorem offset_sub (ho : o < 2 ^ w) (hx : x < 2 ^ w) :
    ((b + BitVec.ofNat w x) - (b + BitVec.ofNat w o)).toNat = if o ≤ x then x - o else 2 ^ w + x - o := by
  have hsub : (b + BitVec.ofNat w x) - (b + BitVec.ofNat w o) = BitVec.ofNat w x - BitVec.ofNat w o := by
    rw [← BitVec.sub_sub, BitVec.add_comm b, BitVec.add_sub_cancel]
  rw [hsub, BitVec.toNat_sub, BitVec.toNat_ofNat, BitVec.toNat_ofNat, Nat.mod_eq_of_lt ho,
    Nat.mod_eq_of_lt hx]
  split
  · next hle =>
    rw [show 2 ^ w - o + x = (x - o) + 2 ^ w by omega, Nat.add_mod_right]
    exact Nat.mod_eq_of_lt (by omega)
  · next hlt =>
    rw [show 2 ^ w - o + x = 2 ^ w + x - o by omega]
    exact Nat.mod_eq_of_lt (by omega)

theorem store_inside (h : o + bs.length ≤ 2 ^ w) {i : Nat} (hi : i < bs.length) :
    store mem (b + BitVec.ofNat w o) bs (b + BitVec.ofNat w (o + i)) = bs.get ⟨i, hi⟩ := by
  have hsub := @offset_sub w b o (o + i) (by omega) (by omega)
  rw [if_pos (Nat.le_add_right o i), Nat.add_sub_cancel_left] at hsub
  rw [store, hsub, List.getElem?_eq_getElem hi]
  rfl

theorem store_outside (h : o + bs.length ≤ 2 ^ w) (hx : x < 2 ^ w) (hout : x < o ∨ o + bs.length ≤ x) :
    store mem (b + BitVec.ofNat w o) bs (b + BitVec.ofNat w x) = mem (b + BitVec.ofNat w x) := by
  by_cases hempty : bs = []
  · subst hempty
    rfl
  have hpos : 0 < bs.length := List.length_pos_iff.2 hempty
  have hsub := @offset_sub w b o x (by omega) hx
  have hbeyond : bs.length ≤ ((b + BitVec.ofNat w x) - (b + BitVec.ofNat w o)).toNat := by
    rw [hsub]
    split <;> omega
  rw [store, List.getElem?_eq_none hbeyond]
  rfl

/-- A store leaves an address that is none of its own. -/
theorem store_of_forall_ne {a : BitVec w} (h : ∀ i < bs.length, a ≠ p + BitVec.ofNat w i) :
    store mem p bs a = mem a := by
  have hbeyond : bs.length ≤ (a - p).toNat := by
    by_contra hlt
    refine h _ (Nat.not_le.1 hlt) ?_
    rw [BitVec.ofNat_toNat, BitVec.setWidth_eq, BitVec.add_comm, BitVec.sub_add_cancel]
  rw [store, List.getElem?_eq_none hbeyond]
  rfl

theorem load_store_same (h : o + bs.length ≤ 2 ^ w) :
    load (store mem (b + BitVec.ofNat w o) bs) (b + BitVec.ofNat w o) bs.length = bs := by
  refine load_eq_of_getElem? rfl fun i hi => ?_
  rw [BitVec.add_assoc, ← BitVec.ofNat_add, store_inside h hi, List.getElem?_eq_getElem hi]
  rfl

theorem load_store_apart (h : o + bs.length ≤ 2 ^ w) (h' : o' + n ≤ 2 ^ w)
    (hapart : o' + n ≤ o ∨ o + bs.length ≤ o') :
    load (store mem (b + BitVec.ofNat w o) bs) (b + BitVec.ofNat w o') n
      = load mem (b + BitVec.ofNat w o') n := by
  refine load_congr fun i hi => ?_
  rw [BitVec.add_assoc, ← BitVec.ofNat_add]
  exact store_outside h (by omega) (by omega)

end Azalea.Spans
