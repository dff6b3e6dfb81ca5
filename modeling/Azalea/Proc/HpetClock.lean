import Mathlib.Tactic.Ring
import Azalea.Proc.TimedWaits

/-!
# Proc — the clock in nanoseconds

`time_hpet_cur_value`, `time_hpet_compute_wait` and `time_hpet_stall` (`processor/timing/hpet.cpp`).  The
HPET counts periods of some femtoseconds.  `time_hpet_cur_value` takes the period in picoseconds, rounded
down, and multiplies before it divides: there are 64 bits for a time in picoseconds.

* `hpet_clock_iff`: the clock is right up to a counter value if and only if the time there fits in 64 bits
  in picoseconds, and a stall is long enough if and only if the counter does not wrap around before its
  end.
-/

namespace Azalea.Proc.Timed

/-- `max_period_fs`. -/
def maxPeriodFs : Nat := 0x05F5E100

/-- `time_hpet_compute_wait`. -/
def timeHpetComputeWait (period waitInNs : Nat) : Nat := waitInNs * 1000000 % 2 ^ 64 / period

/-- The loop of `time_hpet_stall`: `curCount` has been read, and `reads` are the counts at the next reads.
The counts are not cut off, as the register is.  The answer is the count at the read the loop ends
with. -/
def stallLoop (endCount : Nat) : Nat → List Nat → Option Nat
  | curCount, reads =>
      if endCount > curCount % 2 ^ 64 then
        match reads with
        | [] => none
        | next :: reads => stallLoop endCount next reads
      else some curCount

/-- `time_hpet_stall`, called at some count. -/
def timeHpetStall (period waitInNs start : Nat) (reads : List Nat) : Option Nat :=
  stallLoop ((start % 2 ^ 64 + timeHpetComputeWait period waitInNs) % 2 ^ 64) start reads

/-- The clock up to a counter value: it goes forwards, is never ahead of the time, and is at more than half
of it, less a nanosecond.  The time is in femtoseconds. -/
structure ClockRight (period counter : Nat) : Prop where
  forwards : ∀ a b, a ≤ b → b ≤ counter →
    timeHpetCurValue period a true ≤ timeHpetCurValue period b true
  notAhead : ∀ a ≤ counter, timeHpetCurValue period a true * 1000000 ≤ a * period
  notFarBehind : ∀ a ≤ counter, a * period < 2 * ((timeHpetCurValue period a true + 1) * 1000000)

/-- A wait computed in counter units: it is not too long, and short by less than a period. -/
def WaitRight (period waitInNs : Nat) : Prop :=
  timeHpetComputeWait period waitInNs * period ≤ waitInNs * 1000000 ∧
    waitInNs * 1000000 < timeHpetComputeWait period waitInNs * period + period

/-- Every stall from a count lasts as long as it should, less a period. -/
def StallRight (period waitInNs start : Nat) : Prop :=
  ∀ reads stop, (∀ count ∈ reads, start ≤ count) →
    timeHpetStall period waitInNs start reads = some stop →
      waitInNs * 1000000 < (stop - start) * period + period

variable {period counter waitInNs start : Nat}

theorem curValue_eq (h : counter * (period / 1000) < 2 ^ 64) :
    timeHpetCurValue period counter true = counter * (period / 1000) / 1000 := by
  rw [timeHpetCurValue, if_pos rfl, Nat.mod_eq_of_lt h]

/-- As long as the picoseconds fit, the clock is right. -/
theorem clockRight_of_fits (hperiod : 1000 ≤ period) (h : counter * (period / 1000) < 2 ^ 64) :
    ClockRight period counter := by
  have hfits : ∀ a ≤ counter, a * (period / 1000) < 2 ^ 64 := fun a ha =>
    (Nat.mul_le_mul_right _ ha).trans_lt h
  refine ⟨fun a b hab hb => timeHpetCurValue_mono hab (hfits b hb), fun a ha => ?_, fun a ha => ?_⟩
  · rw [curValue_eq (hfits a ha)]
    calc a * (period / 1000) / 1000 * 1000000
        = a * (period / 1000) / 1000 * 1000 * 1000 := by ring
      _ ≤ a * (period / 1000) * 1000 := Nat.mul_le_mul_right _ (Nat.div_mul_le_self _ _)
      _ = a * (period / 1000 * 1000) := by ring
      _ ≤ a * period := Nat.mul_le_mul_left _ (Nat.div_mul_le_self _ _)
  · rw [curValue_eq (hfits a ha)]
    -- A period of 1000 fs or more is less than twice what is left of it in picoseconds.
    have hhalf : period ≤ 2000 * (period / 1000) := by omega
    have hround : a * (period / 1000) < (a * (period / 1000) / 1000 + 1) * 1000 := by omega
    calc a * period ≤ a * (2000 * (period / 1000)) := Nat.mul_le_mul_left _ hhalf
      _ = a * (period / 1000) * 2000 := by ring
      _ < (a * (period / 1000) / 1000 + 1) * 1000 * 2000 := by omega
      _ = 2 * ((a * (period / 1000) / 1000 + 1) * 1000000) := by ring

/-- Where the picoseconds overflow for the first time, the clock goes back. -/
theorem not_clockRight_of_overflow (hperiod : 1000 ≤ period) (hmax : period ≤ maxPeriodFs)
    (h : 2 ^ 64 ≤ counter * (period / 1000)) : ¬ ClockRight period counter := by
  intro hright
  have hpos : 0 < period / 1000 := Nat.div_pos hperiod (by decide)
  have hsmall : period / 1000 ≤ 100000 := Nat.div_le_of_le_mul hmax
  -- The last value before the overflow, and the first after it.
  obtain ⟨last, hlast⟩ : ∃ last, last = (2 ^ 64 - 1) / (period / 1000) := ⟨_, rfl⟩
  have hfits : last * (period / 1000) < 2 ^ 64 := by
    have := Nat.div_mul_le_self (2 ^ 64 - 1) (period / 1000)
    rw [← hlast] at this
    omega
  have hover : 2 ^ 64 ≤ (last + 1) * (period / 1000) := by
    have := Nat.lt_mul_div_succ (2 ^ 64 - 1) hpos
    rw [← hlast, Nat.mul_comm] at this
    omega
  have hreached : last + 1 ≤ counter := by
    refine Nat.succ_le_of_lt (Nat.lt_of_mul_lt_mul_right (a := period / 1000) ?_)
    exact hfits.trans_le h
  have hback := hright.forwards last (last + 1) (Nat.le_succ last) hreached
  rw [curValue_eq hfits, timeHpetCurValue, if_pos rfl] at hback
  rw [Nat.succ_mul] at hover hback
  omega

theorem clockRight_iff (hperiod : 1000 ≤ period) (hmax : period ≤ maxPeriodFs) :
    ClockRight period counter ↔ counter * (period / 1000) < 2 ^ 64 :=
  ⟨fun h => Nat.lt_of_not_le fun hover => not_clockRight_of_overflow hperiod hmax hover h,
    clockRight_of_fits hperiod⟩

/-! ### Waits -/

theorem waitRight (hperiod : 0 < period) (hwait : waitInNs * 1000000 < 2 ^ 64) :
    WaitRight period waitInNs := by
  rw [WaitRight, timeHpetComputeWait, Nat.mod_eq_of_lt hwait]
  refine ⟨Nat.div_mul_le_self _ _, ?_⟩
  exact Nat.lt_div_mul_add hperiod

/-- The loop ends with a count that has been read, and at which the register has got to the end. -/
theorem stallLoop_eq_some {endCount curCount stop : Nat} {reads : List Nat}
    (h : stallLoop endCount curCount reads = some stop) :
    endCount ≤ stop % 2 ^ 64 ∧ stop ∈ curCount :: reads := by
  induction reads generalizing curCount with
  | nil =>
      unfold stallLoop at h
      split at h
      · cases h
      next hend =>
        obtain rfl := Option.some.inj h
        exact ⟨Nat.le_of_not_lt hend, List.mem_cons_self⟩
  | cons next reads ih =>
      unfold stallLoop at h
      split at h
      · obtain ⟨hend, hmem⟩ := ih h
        exact ⟨hend, List.mem_cons_of_mem _ hmem⟩
      next hend =>
        obtain rfl := Option.some.inj h
        exact ⟨Nat.le_of_not_lt hend, List.mem_cons_self⟩

/-- The end of the stall is reached after as many counts as the wait has, if the register does not wrap
around. -/
theorem stallRight_of_fits (hperiod : 0 < period) (hwait : waitInNs * 1000000 < 2 ^ 64)
    (hfits : start % 2 ^ 64 + timeHpetComputeWait period waitInNs < 2 ^ 64) :
    StallRight period waitInNs start := by
  intro reads stop hreads h
  rw [timeHpetStall, Nat.mod_eq_of_lt hfits] at h
  obtain ⟨hend, hmem⟩ := stallLoop_eq_some h
  have hstart : start ≤ stop := by
    rcases List.mem_cons.mp hmem with rfl | hmem
    · exact Nat.le_refl _
    · exact hreads stop hmem
  have hcounts : timeHpetComputeWait period waitInNs ≤ stop - start := by omega
  exact (waitRight hperiod hwait).2.trans_le
    (Nat.add_le_add_right (Nat.mul_le_mul_right period hcounts) period)

/-- If it wraps around, the stall ends at once. -/
theorem not_stallRight_of_wrap (hwait : waitInNs * 1000000 < 2 ^ 64)
    (hwrap : 2 ^ 64 ≤ start % 2 ^ 64 + timeHpetComputeWait period waitInNs) :
    ¬ StallRight period waitInNs start := by
  intro hright
  have hunits : timeHpetComputeWait period waitInNs ≤ waitInNs * 1000000 := by
    rw [timeHpetComputeWait, Nat.mod_eq_of_lt hwait]
    exact Nat.div_le_self _ _
  have hend : ¬ (start % 2 ^ 64 + timeHpetComputeWait period waitInNs) % 2 ^ 64 > start % 2 ^ 64 := by
    omega
  have hstop : timeHpetStall period waitInNs start [] = some start := by
    rw [timeHpetStall, stallLoop, if_neg hend]
  have hshort := hright [] start (fun _ h => absurd h List.not_mem_nil) hstop
  rw [Nat.sub_self, Nat.zero_mul, Nat.zero_add] at hshort
  have hzero : timeHpetComputeWait period waitInNs = 0 := by
    rw [timeHpetComputeWait, Nat.mod_eq_of_lt hwait]
    exact Nat.div_eq_of_lt hshort
  omega

/-- **The clock in nanoseconds**, for every period of 1000 fs or more that is accepted: the clock is right
up to a counter value if and only if the counter times the period in picoseconds fits in 64 bits; every
wait that fits in 64 bits in femtoseconds is computed right; and every stall of that length from a count is
long enough if and only if the counter does not wrap around on the way. -/
theorem hpet_clock_iff {period : Nat} (hperiod : 1000 ≤ period) (hmax : period ≤ maxPeriodFs) :
    (∀ counter, ClockRight period counter ↔ counter * (period / 1000) < 2 ^ 64) ∧
      ∀ waitInNs, waitInNs * 1000000 < 2 ^ 64 → WaitRight period waitInNs ∧
        ∀ start, StallRight period waitInNs start ↔
          start % 2 ^ 64 + waitInNs * 1000000 / period < 2 ^ 64 := by
  have hpos : 0 < period := Nat.lt_of_lt_of_le (by decide) hperiod
  refine ⟨fun counter => clockRight_iff hperiod hmax, fun waitInNs hwait =>
    ⟨waitRight hpos hwait, fun start => ?_⟩⟩
  have hunits : timeHpetComputeWait period waitInNs = waitInNs * 1000000 / period := by
    rw [timeHpetComputeWait, Nat.mod_eq_of_lt hwait]
  rw [← hunits]
  exact ⟨fun h => Nat.lt_of_not_le fun hwrap => not_stallRight_of_wrap hwait hwrap h,
    stallRight_of_fits hpos hwait⟩

/-- A clock of 10 MHz. -/
theorem hpet_clock_10MHz : ClockRight 100000000 184467440737095 ∧ WaitRight 100000000 50000 :=
  have h := @hpet_clock_iff 100000000 (by decide) (by decide)
  ⟨(h.1 184467440737095).mpr (by decide), (h.2 50000 (by decide)).1⟩

/-- After 213 days and a half the time fits in 64 bits in nanoseconds, and the clock has gone back.  A
stall that begins just before the counter wraps around ends at once. -/
theorem hpet_clock_fails :
    (184467440737096 * 100000000 / 1000000 < 2 ^ 64 ∧ ¬ ClockRight 100000000 184467440737096) ∧
      ¬ StallRight 100000000 50000 (2 ^ 64 - 1) :=
  ⟨⟨by decide, not_clockRight_of_overflow (by decide) (by decide) (by decide)⟩,
    not_stallRight_of_wrap (by decide) (by decide)⟩

end Azalea.Proc.Timed
