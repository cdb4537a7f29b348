import Sysdarft.Library.Countdown
import Sysdarft.Model.ClockThread
import Sysdarft.Proofs.PortStreams

/-! # The period of the clock

The loop of the clock spends one turn on the reload and as many as the scale on counting down, so the requests of a
setting come one turn later than the scale says, whatever the counter held when the setting was written.
-/

namespace Sysdarft

open Effects

namespace ClockThread

/-- The thread after so many turns in which the setting is left unchanged: no other is written, and every request
returns. -/
def after (thread : ClockThread) (turns : ℕ) : ClockThread := (updateTime true)^[turns] thread

theorem updateTime_eq (thread : ClockThread) :
    thread.updateTime true =
      { thread with scale_count := Countdown.tick thread.clock.interruption_scale.toNat thread.scale_count } := by
  obtain ⟨clock, count⟩ := thread
  cases count with
  | zero => simp [updateTime, Countdown.tick]
  | succ count => simp [updateTime, Countdown.tick]

theorem after_eq (thread : ClockThread) (turns : ℕ) :
    thread.after turns =
      { thread with
        scale_count := Countdown.after thread.clock.interruption_scale.toNat thread.scale_count turns } := by
  induction turns with
  | zero => rfl
  | succ turns ih =>
    rw [after] at ih ⊢
    rw [Function.iterate_succ_apply', ih, updateTime_eq]
    rfl

end ClockThread

/-- A setting that the port accepts. -/
structure RealTimeClock.Periodic (clock : RealTimeClock) : Prop where
  number : 0x20 ≤ clock.interruption_number.toNat ∧ clock.interruption_number.toNat ≤ 0xFF
  scale : 1 ≤ clock.interruption_scale.toNat

instance (clock : RealTimeClock) : Decidable clock.Periodic :=
  decidable_of_iff ((0x20 ≤ clock.interruption_number.toNat ∧ clock.interruption_number.toNat ≤ 0xFF) ∧
    1 ≤ clock.interruption_scale.toNat) ⟨fun both => ⟨both.1, both.2⟩, fun periodic => ⟨periodic.number, periodic.scale⟩⟩

/-- What an accepted write to the port leaves behind. -/
theorem RealTimeClock.requestWrite_periodic {clock : RealTimeClock} {device : DeviceIndex} {machine after : Machine}
    (accepted : clock.requestWrite device RTC_SET_INTERRUPT machine = .ok true after) :
    ∃ settled : RealTimeClock, settled.Periodic ∧
      ∃ before : Machine, after = before.withController device (.clock settled) := by
  have apart : RTC_SET_INTERRUPT ≠ RTC_CURRENT_TIME := by decide
  rw [requestWrite, if_neg apart, if_pos rfl] at accepted
  obtain ⟨data, before, -, accepted⟩ := bind_eq_ok.mp accepted
  rw [run_ite] at accepted
  split_ifs at accepted with number scale
  · cases accepted
  · cases accepted
  cases accepted
  refine ⟨_, ⟨?_, Nat.one_le_iff_ne_zero.mpr fun zero => scale (BitVec.eq_of_toNat_eq zero)⟩, before, rfl⟩
  simp only [Bool.or_eq_true, decide_eq_true_eq, not_or, BitVec.le_def, BitVec.lt_def, not_le, not_lt] at number
  exact ⟨number.1, (BitVec.toNat_and ..).trans_le Nat.and_le_right⟩

namespace ClockThread

variable {thread : ClockThread}

/-- The turn makes a request of the setting. -/
def Requests (thread : ClockThread) (turn : ℕ) : Prop :=
  (thread.after turn).request = some thread.clock.interruption_number

theorem requests_iff (periodic : thread.clock.Periodic) (turn : ℕ) :
    thread.Requests turn ↔
      Countdown.after thread.clock.interruption_scale.toNat thread.scale_count turn = 0 := by
  have low : 0x1F < thread.clock.interruption_number := periodic.number.1
  have high : thread.clock.interruption_number < BitVec.ofNat 64 MAX_INTERRUPTION_ENTRY :=
    Nat.lt_succ_of_le periodic.number.2
  rw [Requests, after_eq, request]
  simp only [if_pos (And.intro low high)]
  split_ifs with running
  · exact iff_of_false nofun running
  · exact iff_of_true rfl (not_not.mp running)

/-- Two consecutive requests are as many turns apart as the scale says. -/
def PeriodKept (thread : ClockThread) : Prop :=
  ∀ first second, first < second → thread.Requests first → thread.Requests second →
    (∀ between, first < between → between < second → ¬ thread.Requests between) →
      second = first + thread.clock.interruption_scale.toNat

/-- They are one turn more apart. -/
theorem next_request {first second : ℕ} (periodic : thread.clock.Periodic) (later : first < second)
    (requested : thread.Requests first) (again : thread.Requests second)
    (running : ∀ between, first < between → between < second → ¬ thread.Requests between) :
    second = first + (thread.clock.interruption_scale.toNat + 1) := by
  simp only [requests_iff periodic] at requested again running
  exact Countdown.next_zero requested again later running

/-- The first two requests of any setting are too far apart. -/
theorem not_periodKept (periodic : thread.clock.Periodic) : ¬ thread.PeriodKept := by
  intro kept
  have ranOut : Countdown.after thread.clock.interruption_scale.toNat thread.scale_count thread.scale_count = 0 :=
    Countdown.after_count
  have apart := kept thread.scale_count _ (Nat.lt_add_of_pos_right (Nat.succ_pos _))
    ((requests_iff periodic _).mpr ranOut) ((requests_iff periodic _).mpr (Countdown.after_period ranOut))
    fun between later early => (requests_iff periodic _).not.mpr (Countdown.after_ne_zero ranOut later early)
  omega

/-- Interruption `0x20` at every turn. -/
def everyTurn : ClockThread where
  clock := { startTime := 0, machineTime := 0, interruption_number := 0x20, interruption_scale := 1 }
  scale_count := 0

theorem not_periodKept_everyTurn : everyTurn.clock.Periodic ∧ ¬ everyTurn.PeriodKept :=
  ⟨by decide, not_periodKept (by decide)⟩

/-- A setting of every turn makes a request every second turn. -/
theorem not_every_periodKept : ¬ ∀ thread : ClockThread, thread.clock.Periodic → thread.PeriodKept := by
  intro every
  have apart := every everyTurn (by decide) 0 2 (by decide) rfl rfl fun between later early => by
    obtain rfl : between = 1 := by omega
    exact nofun
  exact absurd apart (by decide)

end ClockThread

end Sysdarft
