import Sysdarft.Model.Construction
import Sysdarft.Proofs.PortStreams

/-! # The time of the clock

A write to port `0x70` moves the start time, and a read adds the time since the clock was attached. So the guest's
time runs on from the value written as if it had been written when the machine was powered on.
-/

namespace Sysdarft

open Effects

variable {machine : Machine} {device : DeviceIndex} {clock : RealTimeClock} {host : Host}

/-! ## Accesses of the port -/

/-- A clock at a place in the device list with nothing in its streams, found first for the port of the time. -/
structure Machine.HasClock (machine : Machine) (device : DeviceIndex) (clock : RealTimeClock) : Prop where
  present : machine.device_list[device]? = some { controller := .clock clock, device_buffer := fun _ => [] }
  first : ∀ earlier < device, ∀ other, machine.device_list[earlier]? = some other →
    ¬ other.controller.ports.contains RTC_CURRENT_TIME

theorem Machine.HasClock.provides (attached : machine.HasClock device clock) :
    machine.Provides RTC_CURRENT_TIME device { controller := .clock clock, device_buffer := fun _ => [] } :=
  ⟨attached.present, by simp [Controller.ports], attached.first⟩

theorem Machine.HasClock.stream (attached : machine.HasClock device clock) (port : Word) :
    machine.stream device port = [] := Machine.stream_of_device attached.present

theorem Machine.HasClock.withController (attached : machine.HasClock device clock) (updated : RealTimeClock) :
    (machine.withController device (.clock updated)).HasClock device updated := by
  constructor
  · simp [Machine.withController, attached.present]
  · intro earlier before other present
    have apart : device ≠ earlier := Nat.ne_of_gt before
    rw [Machine.withController, List.getElem?_modify_ne _ _ apart] at present
    exact attached.first earlier before other present

/-- What the guest does on port `0x70`. -/
inductive TimeAccess where
  | read
  | write (seconds : Word)

/-- The part of a 64-bit `IN` or `OUT` between its operands. -/
def TimeAccess.perform (host : Host) : TimeAccess → CPU (Option Word)
  | read => do
    let device ← hubIns host RTC_CURRENT_TIME
    return some (← popStream64 device RTC_CURRENT_TIME)
  | write seconds => do
    hubOuts host RTC_CURRENT_TIME (LittleEndian.bytes 8 seconds.toNat)
    return none

theorem perform_read (attached : machine.HasClock device clock) (granted : host.allocates 8) :
    TimeAccess.read.perform host machine = .ok (some (clock.time host.now)) machine := by
  have empty := attached.stream RTC_CURRENT_TIME
  have answer : (Controller.clock clock).answer host machine.image_files RTC_CURRENT_TIME =
      some (LittleEndian.bytes 8 (clock.time host.now).toNat) := by
    rw [Controller.answer, RealTimeClock.answer, if_pos rfl]
  have length : (LittleEndian.bytes 8 (clock.time host.now).toNat).length = 8 := LittleEndian.length_bytes ..
  have queued := hubIns_answered empty attached.provides answer (by rw [length]; exact granted)
  have popped := popStream64_append attached.present RTC_CURRENT_TIME
    (LittleEndian.bytes 8 (clock.time host.now).toNat) [] length
  rw [List.append_nil, Machine.withStream_nil empty, ofNat_value_bytes] at popped
  rw [TimeAccess.perform, bind_ok queued, bind_ok popped]
  rfl

theorem perform_write (attached : machine.HasClock device clock) (granted : host.allocates 8) (seconds : Word) :
    (TimeAccess.write seconds).perform host machine =
      .ok none (machine.withController device (.clock { clock with startTime := seconds * 1000000000 })) := by
  have register : (Controller.clock clock).requestWrite host device RTC_CURRENT_TIME =
      popStream64 device RTC_CURRENT_TIME >>= fun value =>
        setController device (.clock { clock with startTime := value * 1000000000 }) >>= fun _ => return true := by
    rw [Controller.requestWrite, RealTimeClock.requestWrite, if_pos rfl]
  rw [TimeAccess.perform, bind_ok (hubOuts_popped (attached.stream _) attached.provides granted seconds register)]
  rfl

/-- Without memory for the stream nothing happens. -/
theorem perform_starved (attached : machine.HasClock device clock) (refused : ¬ host.allocates 8) (access : TimeAccess) :
    access.perform host machine = .error .badAllocation machine := by
  have query := queryDevice_provided attached.provides
  have starved (data : List Byte) (length : data.length = 8) :
      insertStream host device RTC_CURRENT_TIME data machine = .error .badAllocation machine := by
    rw [insertStream_apply, attached.stream, List.length_nil, Nat.zero_add, length, if_neg refused]
  cases access with
  | read =>
    apply bind_error
    rw [hubIns, bind_ok query]
    apply bind_error
    change RealTimeClock.requestRead host device clock RTC_CURRENT_TIME machine = _
    rw [RealTimeClock.requestRead, if_pos rfl]
    exact bind_error (starved _ (LittleEndian.length_bytes ..))
  | write seconds =>
    apply bind_error
    rw [hubOuts, bind_ok query]
    exact bind_error (starved _ (LittleEndian.length_bytes ..))

/-! ## What was set -/

/-- A time in nanoseconds, and the time of the host at which the clock was set to it. -/
structure TimeSetting where
  value : ℤ
  setAt : Word

namespace TimeSetting

/-- The time that was set and the time since, in whole seconds. -/
def shows (setting : TimeSetting) (now : Word) : Word :=
  BitVec.ofInt 64 ((setting.value + (now.toInt - setting.setAt.toInt)) / 1000000000)

/-- The clock as it is attached shows the time of the host. -/
def attached (boot : Word) : TimeSetting where
  value := boot.toInt
  setAt := boot

theorem shows_attached (boot now : Word) : (attached boot).shows now = BitVec.ofInt 64 (now.toInt / 1000000000) := by
  rw [shows, attached, add_sub_cancel]

/-- The setting after an access. A write for which the host has no memory sets nothing. -/
def next (setting : TimeSetting) (host : Host) : TimeAccess → TimeSetting
  | .read => setting
  | .write seconds =>
    if host.allocates 8 then { value := seconds.toInt * 1000000000, setAt := host.now } else setting

/-- The time that the clock works out for the setting. -/
def counted (setting : TimeSetting) (boot now : Word) : ℤ := setting.value + (now.toInt - boot.toInt)

/-- That time lies between the epoch and the end of the host's 64-bit time. -/
def Fits (setting : TimeSetting) (boot now : Word) : Prop :=
  0 ≤ setting.counted boot now ∧ setting.counted boot now < 2 ^ 63

/-- The clock was set within a second of its attachment, and not later in the second than it is read. -/
def Prompt (setting : TimeSetting) (boot now : Word) : Prop :=
  let delay := setting.setAt.toInt - boot.toInt
  let part := setting.counted boot now % 1000000000
  delay ≤ part ∧ part < delay + 1000000000

instance (setting : TimeSetting) (boot now : Word) : Decidable (setting.Fits boot now) :=
  inferInstanceAs (Decidable (_ ∧ _))

instance (setting : TimeSetting) (boot now : Word) : Decidable (setting.Prompt boot now) :=
  inferInstanceAs (Decidable (_ ∧ _))

end TimeSetting

/-- The clock runs from the attachment, with the start time that was set. -/
structure RealTimeClock.SetTo (clock : RealTimeClock) (boot : Word) (setting : TimeSetting) : Prop where
  startTime : clock.startTime = BitVec.ofInt 64 setting.value
  machineTime : clock.machineTime = boot

variable {boot now : Word} {setting : TimeSetting}

theorem RealTimeClock.SetTo.time_eq (set : clock.SetTo boot setting) (fits : setting.Fits boot now) :
    clock.time now = BitVec.ofInt 64 (setting.counted boot now / 1000000000) := by
  have whole : (clock.startTime + (now - clock.machineTime)).toInt = setting.counted boot now := by
    rw [set.startTime, set.machineTime, BitVec.toInt_add, BitVec.toInt_sub, BitVec.toInt_ofInt, Int.add_bmod_bmod,
      Int.bmod_add_bmod]
    obtain ⟨low, high⟩ := fits
    exact Int.bmod_eq_of_le (by rw [← TimeSetting.counted]; omega) (by rw [← TimeSetting.counted]; omega)
  rw [time, whole, Int.tdiv_eq_ediv_of_nonneg fits.1]

/-- A time of the host's range shows as the setting exactly when it was set promptly. -/
theorem RealTimeClock.SetTo.time_eq_shows_iff (set : clock.SetTo boot setting) (fits : setting.Fits boot now) :
    clock.time now = setting.shows now ↔ setting.Prompt boot now := by
  have bounds (word : Word) : -2 ^ 63 ≤ word.toInt ∧ word.toInt < 2 ^ 63 := ⟨word.le_toInt, word.toInt_lt⟩
  have set' := bounds setting.setAt
  have boot' := bounds boot
  obtain ⟨low, high⟩ := fits
  have since : setting.value + (now.toInt - setting.setAt.toInt) =
      setting.counted boot now - (setting.setAt.toInt - boot.toInt) := by
    rw [TimeSetting.counted]
    omega
  rw [set.time_eq ⟨low, high⟩, TimeSetting.shows, since, ← BitVec.toInt_inj, BitVec.toInt_ofInt, BitVec.toInt_ofInt,
    Int.bmod_eq_of_le, Int.bmod_eq_of_le, TimeSetting.Prompt]
  all_goals omega

/-! ## Histories -/

/-- The accesses of a guest in order, each with what the host is at that time: its clock and its memory. -/
abbrev TimeHistory := List (Host × TimeAccess)

def Machine.accessed (machine : Machine) (history : TimeHistory) : Machine :=
  history.foldl (fun machine event => final (event.2.perform event.1 machine)) machine

def TimeSetting.after (setting : TimeSetting) (history : TimeHistory) : TimeSetting :=
  history.foldl (fun setting event => setting.next event.1 event.2) setting

/-- A clock of the machine that keeps a setting since its attachment. -/
def Machine.RunsClock (machine : Machine) (device : DeviceIndex) (boot : Word) (setting : TimeSetting) : Prop :=
  ∃ clock : RealTimeClock, machine.HasClock device clock ∧ clock.SetTo boot setting

theorem Machine.RunsClock.step (runs : machine.RunsClock device boot setting) (host : Host) (access : TimeAccess) :
    (final (access.perform host machine)).RunsClock device boot (setting.next host access) := by
  obtain ⟨clock, attached, set⟩ := runs
  by_cases granted : host.allocates 8
  · cases access with
    | read =>
      rw [perform_read attached granted]
      exact ⟨clock, attached, set⟩
    | write seconds =>
      rw [perform_write attached granted, TimeSetting.next, if_pos granted]
      refine ⟨_, attached.withController _, ?_, set.machineTime⟩
      change seconds * 1000000000 = _
      rw [BitVec.ofInt_mul, BitVec.ofInt_toInt]
      rfl
  · rw [perform_starved attached granted]
    cases access with
    | read => exact ⟨clock, attached, set⟩
    | write seconds =>
      rw [TimeSetting.next, if_neg granted]
      exact ⟨clock, attached, set⟩

theorem Machine.RunsClock.run (runs : machine.RunsClock device boot setting) (history : TimeHistory) :
    (machine.accessed history).RunsClock device boot (setting.after history) := by
  induction history generalizing machine setting with
  | nil => exact runs
  | cons event history ih => exact ih (runs.step event.1 event.2)

/-- Every read of a history that the host has memory for, with the setting before it and its time. -/
def TimeHistory.EveryRead (history : TimeHistory) (setting : TimeSetting) (P : TimeSetting → Word → Prop) : Prop :=
  ∀ earlier host later, history = earlier ++ (host, .read) :: later → host.allocates 8 →
    P (setting.after earlier) host.now

/-- Every read of a history returns the time set last and the time since. -/
def KeepsTime (machine : Machine) (setting : TimeSetting) (history : TimeHistory) : Prop :=
  ∀ earlier host later, history = earlier ++ (host, .read) :: later → ∀ shown after,
    TimeAccess.read.perform host (machine.accessed earlier) = .ok (some shown) after →
      shown = (setting.after earlier).shows host.now

theorem keepsTime_iff_everyRead (runs : machine.RunsClock device boot setting) (history : TimeHistory)
    (fits : history.EveryRead setting fun setting now => setting.Fits boot now) :
    KeepsTime machine setting history ↔ history.EveryRead setting fun setting now => setting.Prompt boot now := by
  constructor
  · intro right earlier host later split granted
    obtain ⟨clock, attached, set⟩ := runs.run earlier
    have shown := right earlier host later split _ _ (perform_read attached granted)
    exact (set.time_eq_shows_iff (fits earlier host later split granted)).mp shown
  · intro prompt earlier host later split shown after done
    obtain ⟨clock, attached, set⟩ := runs.run earlier
    by_cases granted : host.allocates 8
    · cases (perform_read attached granted).symm.trans done
      exact (set.time_eq_shows_iff (fits earlier host later split granted)).mpr (prompt earlier host later split granted)
    · cases (perform_starved attached granted _).symm.trans done

/-- From the attachment on, a history whose reads all show a time of the host's range that was set promptly is kept;
among those of the host's range there is no other. -/
theorem keepsTime_iff {first boot : Word} (attached : machine.HasClock device clock) (started : clock.startTime = first)
    (booted : clock.machineTime = boot) (history : TimeHistory) :
    ((history.EveryRead (.attached first) fun setting now => setting.Fits boot now ∧ setting.Prompt boot now) →
      KeepsTime machine (.attached first) history) ∧
    ((history.EveryRead (.attached first) fun setting now => setting.Fits boot now) →
      (KeepsTime machine (.attached first) history ↔
        history.EveryRead (.attached first) fun setting now => setting.Prompt boot now)) := by
  have runs : machine.RunsClock device boot (.attached first) := by
    refine ⟨clock, attached, ?_, booted⟩
    rw [started, TimeSetting.attached, BitVec.ofInt_toInt]
  refine ⟨fun both => ?_, keepsTime_iff_everyRead runs history⟩
  refine (keepsTime_iff_everyRead runs history fun earlier host later split granted => ?_).mpr ?_
  · exact (both earlier host later split granted).1
  · exact fun earlier host later split granted => (both earlier host later split granted).2

/-- `add_device` of the clock attaches it with both its times at the time of the host. -/
theorem addClock_hasClock (starts : host.startsThread)
    (others : ∀ other ∈ machine.device_list, ¬ other.controller.ports.contains RTC_CURRENT_TIME) :
    ∃ after, addClock host machine = .ok () after ∧ after.HasClock machine.device_list.length
      { startTime := host.now, machineTime := host.now, interruption_number := 0, interruption_scale := 0 } := by
  rw [addClock, starts]
  refine ⟨_, rfl, ⟨by simp, fun earlier before other present => ?_⟩⟩
  rw [List.getElem?_append_left before] at present
  exact others other (List.mem_of_getElem? present)

/-- The host at a time. -/
def Host.atTime (now : Word) : Host := { Host.ample with now := now }

theorem powerOn_hasClock :
    Machine.powerOn.HasClock 0 { startTime := 0, machineTime := 0, interruption_number := 0, interruption_scale := 0 } where
  present := rfl
  first := fun earlier before => absurd before (Nat.not_lt_zero earlier)

/-- A time that is set when the machine is powered on, and read five seconds later. -/
theorem keepsTime_powerOn :
    KeepsTime Machine.powerOn (.attached 0) [(.atTime 0, .write 100), (.atTime 5000000000, .read)] := by
  apply (keepsTime_iff powerOn_hasClock rfl rfl _).1
  intro earlier host later split _
  rcases earlier with _ | ⟨event, _ | ⟨event', rest⟩⟩
  · simp at split
  · simp only [List.cons_append, List.nil_append, List.cons.injEq, Prod.mk.injEq] at split
    obtain ⟨rfl, ⟨rfl, -⟩, -⟩ := split
    decide
  · simp at split

/-- A time that is set ten seconds after that and read at once is shown ten seconds late. -/
theorem not_keepsTime : ¬ ∀ (machine : Machine) (device : DeviceIndex) (clock : RealTimeClock) (history : TimeHistory),
    machine.HasClock device clock → clock.startTime = clock.machineTime →
      KeepsTime machine (.attached clock.startTime) history := by
  intro every
  have shown := every Machine.powerOn 0 _ [(.atTime 10000000000, .write 0), (.atTime 10000000000, .read)] powerOn_hasClock
    rfl [(.atTime 10000000000, .write 0)] (.atTime 10000000000) [] rfl 10 _ rfl
  exact absurd shown (by decide)

end Sysdarft
