import Mathlib.Tactic

/-! # Counters that are reloaded

A counter goes down by one at each tick; a tick that finds it at zero reloads it. The tick of the reload is a tick of
its own, so a counter that is reloaded with `n` stands at zero every `n + 1` ticks.
-/

namespace Countdown

def tick (reload : ℕ) : ℕ → ℕ
  | 0 => reload
  | count + 1 => count

/-- The counter after so many ticks. -/
def after (reload count : ℕ) : ℕ → ℕ
  | 0 => count
  | ticks + 1 => tick reload (after reload count ticks)

variable {reload count first second ticks : ℕ}

theorem after_add (more : ℕ) :
    after reload count (first + more) = after reload (after reload count first) more := by
  induction more with
  | zero => rfl
  | succ more ih => exact congrArg (tick reload) ih

/-- Until it has run out the counter goes down by one at a time. -/
theorem after_of_le (early : ticks ≤ count) : after reload count ticks = count - ticks := by
  induction ticks with
  | zero => rfl
  | succ ticks ih =>
    obtain ⟨rest, left⟩ := Nat.exists_eq_add_of_lt early
    rw [after, ih (by omega), show count - ticks = rest + 1 by omega, tick]
    omega

theorem after_count : after reload count count = 0 := by
  rw [after_of_le le_rfl, Nat.sub_self]

/-- After the reload. -/
theorem after_zero (ranOut : after reload count first = 0) (more : ℕ) :
    after reload count (first + (more + 1)) = after reload reload more := by
  rw [Nat.add_comm more, ← Nat.add_assoc, after_add, after, ranOut, tick]

/-- One period after it stood at zero the counter stands at zero again. -/
theorem after_period (ranOut : after reload count first = 0) : after reload count (first + (reload + 1)) = 0 := by
  rw [after_zero ranOut, after_count]

/-- In between it does not. -/
theorem after_ne_zero {between : ℕ} (ranOut : after reload count first = 0) (later : first < between)
    (early : between < first + (reload + 1)) : after reload count between ≠ 0 := by
  obtain ⟨more, rfl⟩ := Nat.exists_eq_add_of_lt later
  rw [Nat.add_assoc, after_zero ranOut, after_of_le (by omega)]
  omega

/-- So the next time it stands at zero is one tick later than it was reloaded for. -/
theorem next_zero (ranOut : after reload count first = 0) (again : after reload count second = 0)
    (later : first < second) (running : ∀ between, first < between → between < second → after reload count between ≠ 0) :
    second = first + (reload + 1) := by
  rcases Nat.lt_trichotomy second (first + (reload + 1)) with early | same | late
  · exact absurd again (after_ne_zero ranOut later early)
  · exact same
  · exact absurd (after_period ranOut) (running _ (by omega) late)

end Countdown
