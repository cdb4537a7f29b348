import Sysdarft.Proofs.OperandAccess

/-! # Port streams

What the requests of a device do to the stream of a port, and when a port instruction leaves every
stream empty. Data is queued before the device decides, so a refused write, a write of the wrong
length and a read of the wrong length leave bytes behind that the next instruction on the port finds.
-/

namespace Sysdarft

open Effects

/-! ## Streams and controllers as fields -/

/-- The machine with another stream of a port. -/
def Machine.withStream (machine : Machine) (device : DeviceIndex) (port : Word) (bytes : List Byte) : Machine :=
  { machine with
    device_list := machine.device_list.modify device fun found =>
      { found with device_buffer := Function.update found.device_buffer port bytes } }

/-- The machine with another controller of a device. -/
def Machine.withController (machine : Machine) (device : DeviceIndex) (controller : Controller) : Machine :=
  { machine with
    device_list := machine.device_list.modify device fun found => { found with controller := controller } }

@[simp] theorem setStream_apply (device : DeviceIndex) (port : Word) (bytes : List Byte) (machine : Machine) :
    setStream device port bytes machine = .ok () (machine.withStream device port bytes) := rfl

@[simp] theorem setController_apply (device : DeviceIndex) (controller : Controller) (machine : Machine) :
    setController device controller machine = .ok () (machine.withController device controller) := rfl

variable {machine : Machine} {device : DeviceIndex} {port : Word} {found : ExternalDevice}

theorem Machine.stream_of_device (present : machine.device_list[device]? = some found) :
    machine.stream device port = found.device_buffer port := by
  rw [Machine.stream, present]

/-- A stream that was written reads back; the others are as before. -/
theorem Machine.stream_withStream (present : machine.device_list[device]? = some found) (bytes : List Byte)
    (other : DeviceIndex) (otherPort : Word) :
    (machine.withStream device port bytes).stream other otherPort =
      if other = device ∧ otherPort = port then bytes else machine.stream other otherPort := by
  simp only [Machine.stream, Machine.withStream, List.getElem?_modify]
  by_cases same : other = device
  · subst same
    by_cases samePort : otherPort = port
    · simp [present, samePort]
    · simp [present, samePort]
  · have apart : device ≠ other := Ne.symm same
    simp only [apart, same, if_false, false_and]
    cases machine.device_list[other]? <;> rfl

/-- Writing a stream twice is writing it once. -/
theorem Machine.withStream_withStream (machine : Machine) (device : DeviceIndex) (port : Word)
    (first second : List Byte) :
    (machine.withStream device port first).withStream device port second = machine.withStream device port second := by
  simp only [Machine.withStream, List.modify_modify_eq]
  congr 2
  funext found
  simp only [Function.comp_apply, Function.update_idem]

/-- Writing what the stream holds changes nothing. -/
theorem Machine.withStream_self (machine : Machine) (device : DeviceIndex) (port : Word) :
    machine.withStream device port (machine.stream device port) = machine := by
  have same : machine.device_list.modify device (fun found =>
      { found with device_buffer := Function.update found.device_buffer port (machine.stream device port) }) =
      machine.device_list := by
    apply List.ext_getElem?
    intro index
    rw [List.getElem?_modify]
    by_cases reached : device = index
    · subst reached
      cases present : machine.device_list[device]? with
      | none => simp
      | some found => simp [Machine.stream, present]
    · simp only [reached, if_false]
      cases machine.device_list[index]? <;> rfl
  simp only [Machine.withStream, same]

@[simp] theorem Machine.stream_withController (machine : Machine) (device : DeviceIndex) (controller : Controller)
    (other : DeviceIndex) (otherPort : Word) :
    (machine.withController device controller).stream other otherPort = machine.stream other otherPort := by
  simp only [Machine.stream, Machine.withController, List.getElem?_modify]
  cases machine.device_list[other]? with
  | none => rfl
  | some found =>
    by_cases same : device = other
    · simp [same]
    · simp [same]

/-! ## Reading a stream -/

/-- `pop` of as many bytes as the stream begins with. -/
theorem popStream_append (present : machine.device_list[device]? = some found) (port : Word)
    (front rest : List Byte) :
    popStream device port front.length (machine.withStream device port (front ++ rest)) =
      .ok front (machine.withStream device port rest) := by
  induction front with
  | nil => rfl
  | cons byte front ih =>
    have holds : (machine.withStream device port (byte :: front ++ rest)).stream device port =
        byte :: (front ++ rest) := by
      simp [Machine.stream_withStream present]
    simp only [List.length_cons, popStream, bind_apply, get_apply, holds, setStream_apply,
      Machine.withStream_withStream, ih, pure_apply]

/-- `pop` of more bytes than there are empties the stream before it throws. -/
theorem popStream_short (present : machine.device_list[device]? = some found) (bytes : List Byte) {count : ℕ}
    (short : bytes.length < count) :
    popStream device port count (machine.withStream device port bytes) =
      .error (.deviceIOError "Device buffer is empty") (machine.withStream device port []) := by
  induction bytes generalizing count with
  | nil =>
    obtain ⟨rest, rfl⟩ : ∃ rest, count = rest + 1 := ⟨count - 1, by omega⟩
    have holds : (machine.withStream device port []).stream device port = [] := by
      simp [Machine.stream_withStream present]
    simp only [popStream, bind_apply, get_apply, holds, throw_apply]
  | cons byte bytes ih =>
    obtain ⟨rest, rfl⟩ : ∃ rest, count = rest + 1 := ⟨count - 1, by omega⟩
    have holds : (machine.withStream device port (byte :: bytes)).stream device port = byte :: bytes := by
      simp [Machine.stream_withStream present]
    have fewer : bytes.length < rest := by
      rw [List.length_cons] at short
      omega
    simp only [popStream, bind_apply, get_apply, holds, setStream_apply, Machine.withStream_withStream, ih fewer]

/-- `pop<uint64_t>` on a stream of at least eight bytes. -/
theorem popStream64_append (present : machine.device_list[device]? = some found) (port : Word)
    (front rest : List Byte) (whole : front.length = 8) :
    popStream64 device port (machine.withStream device port (front ++ rest)) =
      .ok (BitVec.ofNat 64 (LittleEndian.value front)) (machine.withStream device port rest) := by
  have popped := popStream_append present port front rest
  rw [whole] at popped
  simp only [popStream64, bind_apply, popped, pure_apply]

theorem popStream64_short (present : machine.device_list[device]? = some found) (bytes : List Byte)
    (short : bytes.length < 8) :
    popStream64 device port (machine.withStream device port bytes) =
      .error (.deviceIOError "Device buffer is empty") (machine.withStream device port []) := by
  simp only [popStream64, bind_apply, popStream_short present bytes short]

/-- `insert` appends, or the host refuses the memory. -/
theorem insertStream_apply (host : Host) (device : DeviceIndex) (port : Word) (data : List Byte) (machine : Machine) :
    insertStream host device port data machine =
      if host.allocates ((machine.stream device port).length + data.length) then
        .ok () (machine.withStream device port (machine.stream device port ++ data))
      else .error .badAllocation machine := by
  simp only [insertStream, bind_apply, get_apply, allocate]
  split_ifs <;> rfl

/-! ## What a device answers -/

/-- The bytes a drive queues on a read request, if it accepts the request. -/
def DiskImager.answer (host : Host) (disk : DiskImager) (files : String → ImageFile) (port : Word) : Option (List Byte) :=
  let start_off := disk.start_sector * 512
  let length := disk.sector_count * 512
  if port = disk.drive.port .REG_SIZE then some (LittleEndian.bytes 8 (disk.device_size.toNat / 512))
  else if port = disk.drive.port .CMD_REQUEST_RD ∧ disk.transferInRange ∧ host.seeks start_off ∧
      host.transfers start_off length = length.toNat then some (disk.contents (files disk.file_name))
  else none

def RealTimeClock.answer (host : Host) (clock : RealTimeClock) (port : Word) : Option (List Byte) :=
  if port = RTC_CURRENT_TIME then some (LittleEndian.bytes 8 (clock.time host.now).toNat) else none

def Controller.answer (host : Host) (files : String → ImageFile) (port : Word) : Controller → Option (List Byte)
  | disk imager => imager.answer host files port
  | clock rtc => rtc.answer host port

theorem insertStream_then_cases (host : Host) (device : DeviceIndex) (port : Word) (data : List Byte)
    (machine : Machine) :
    (host.allocates ((machine.stream device port).length + data.length) ∧
      (insertStream host device port data >>= fun _ => return true) machine =
        .ok true (machine.withStream device port (machine.stream device port ++ data))) ∨
    ¬ host.allocates ((machine.stream device port).length + data.length) ∧
      (insertStream host device port data >>= fun _ => return true) machine = .error .badAllocation machine := by
  rw [bind_apply, insertStream_apply]
  split_ifs with granted
  · exact .inl ⟨granted, rfl⟩
  · exact .inr ⟨granted, rfl⟩

/-- A read request queues the answer or is refused, unless the host is out of memory. -/
theorem Controller.requestRead_cases (host : Host) (device : DeviceIndex) (port : Word) (controller : Controller)
    (machine : Machine) :
    (∃ bytes, controller.answer host machine.image_files port = some bytes ∧
      host.allocates ((machine.stream device port).length + bytes.length) ∧
      controller.requestRead host device port machine =
        .ok true (machine.withStream device port (machine.stream device port ++ bytes))) ∨
    (controller.answer host machine.image_files port = none ∧
      controller.requestRead host device port machine = .ok false machine) ∨
    (∀ bytes, controller.answer host machine.image_files port = some bytes →
        machine.stream device port = [] → ¬ host.allocates bytes.length) ∧
      controller.requestRead host device port machine = .error .badAllocation machine := by
  have starved {port : Word} {bytes : List Byte}
      (refused : ¬ host.allocates ((machine.stream device port).length + bytes.length)) :
      ∀ answered, some bytes = some answered → machine.stream device port = [] → ¬ host.allocates answered.length := by
    rintro answered same empty
    rw [empty, List.length_nil, Nat.zero_add] at refused
    rw [← Option.some.inj same]
    exact refused
  cases controller with
  | disk imager =>
    simp only [Controller.requestRead, Controller.answer, DiskImager.requestRead, DiskImager.answer]
    by_cases size : port = imager.drive.port .REG_SIZE
    · simp only [size, if_true]
      rcases insertStream_then_cases host device (imager.drive.port .REG_SIZE)
        (LittleEndian.bytes 8 (imager.device_size.toNat / 512)) machine with ⟨enough, queued⟩ | ⟨short, refused⟩
      · exact .inl ⟨_, rfl, enough, queued⟩
      · exact .inr (.inr ⟨starved short, refused⟩)
    · simp only [size, if_false]
      -- A refusal before the transfer is made changes nothing.
      by_cases command : port = imager.drive.port .CMD_REQUEST_RD
      swap
      · simp only [command, false_and, if_false]
        exact .inr (.inl ⟨trivial, rfl⟩)
      by_cases range : imager.transferInRange
      swap
      · simp only [command, range, Bool.false_eq_true, false_and, and_false, if_false, Bool.not_false, if_true]
        exact .inr (.inl ⟨trivial, rfl⟩)
      by_cases seeks : host.seeks (imager.start_sector * 512)
      swap
      · simp only [command, range, seeks, Bool.false_eq_true, false_and, and_false, if_false, Bool.not_false,
          Bool.not_true, if_true]
        exact .inr (.inl ⟨trivial, rfl⟩)
      by_cases granted : host.allocates (imager.sector_count * 512).toNat
      swap
      · right
        right
        simp only [command, range, seeks, Bool.not_true, Bool.false_eq_true, if_true, if_false, allocate, granted,
          bind_apply, throw_apply, true_and]
        refine ⟨?_, trivial⟩
        intro bytes answered _
        obtain ⟨-, same⟩ := Option.ite_none_right_eq_some.mp answered
        rw [← Option.some.inj same, DiskImager.contents, FlatMemory.length_read]
        exact granted
      by_cases moved : host.transfers (imager.start_sector * 512) (imager.sector_count * 512) =
          (imager.sector_count * 512).toNat
      swap
      · simp only [command, range, seeks, granted, moved, Bool.not_true, Bool.false_eq_true, if_true, if_false, allocate,
          and_false, ne_eq, not_false_eq_true, pure_bind]
        exact .inr (.inl ⟨trivial, rfl⟩)
      simp only [command, range, seeks, granted, moved, Bool.not_true, Bool.false_eq_true, if_true, if_false, allocate,
        and_true, ne_eq, not_true_eq_false, pure_bind, bind_apply, get_apply]
      rcases insertStream_then_cases host device (imager.drive.port .CMD_REQUEST_RD)
        (imager.contents (machine.image_files imager.file_name)) machine with ⟨enough, queued⟩ | ⟨short, refused⟩
      · exact .inl ⟨_, rfl, enough, queued⟩
      · exact .inr (.inr ⟨starved short, refused⟩)
  | clock rtc =>
    simp only [Controller.requestRead, Controller.answer, RealTimeClock.requestRead, RealTimeClock.answer]
    by_cases time : port = RTC_CURRENT_TIME
    · simp only [time, if_true]
      rcases insertStream_then_cases host device RTC_CURRENT_TIME
        (LittleEndian.bytes 8 (rtc.time host.now).toNat) machine with ⟨enough, queued⟩ | ⟨short, refused⟩
      · exact .inl ⟨_, rfl, enough, queued⟩
      · exact .inr (.inr ⟨starved short, refused⟩)
    · simp only [time, if_false]
      exact .inr (.inl ⟨trivial, rfl⟩)

/-! ## What a device takes -/

/-- The checks of a write request: the range, the length of the data, and the host's part. -/
def DiskImager.AcceptsWrite (host : Host) (disk : DiskImager) (amount : ℕ) : Prop :=
  let start_off := disk.start_sector * 512
  let length := disk.sector_count * 512
  disk.transferInRange ∧ length.toNat = amount ∧ host.seeks start_off ∧ host.transfers start_off length = length.toNat

/-- Whether a drive empties the stream of a port that holds so many bytes. -/
def DiskImager.takes (host : Host) (disk : DiskImager) (port : Word) (amount : ℕ) : Prop :=
  if port = disk.drive.port .REG_START_SEC ∨ port = disk.drive.port .REG_SEC_COUNT then amount ≤ 8
  else amount = 0 ∨ port = disk.drive.port .CMD_REQUEST_WR ∧ disk.AcceptsWrite host amount

def RealTimeClock.takes (port : Word) (amount : ℕ) : Prop :=
  if port = RTC_CURRENT_TIME ∨ port = RTC_SET_INTERRUPT then amount ≤ 8 else amount = 0

def Controller.takes (host : Host) (port : Word) (amount : ℕ) : Controller → Prop
  | disk imager => imager.takes host port amount
  | clock _ => RealTimeClock.takes port amount

theorem keeps_setController (device : DeviceIndex) (controller : Controller) :
    Keeps Machine.stream (setController device controller) := by
  intro machine
  funext other otherPort
  exact Machine.stream_withController ..

/-- A command of at most eight bytes is popped whole, whatever the device then makes of it. -/
theorem popStream64_empties (present : machine.device_list[device]? = some found) {bytes : List Byte}
    (short : bytes.length ≤ 8) {use : Word → CPU Bool} (keeps : ∀ value, Keeps Machine.stream (use value)) :
    (final ((popStream64 device port >>= use) (machine.withStream device port bytes))).stream =
      (machine.withStream device port []).stream := by
  rcases Nat.lt_or_ge bytes.length 8 with less | enough
  · rw [bind_error (popStream64_short present bytes less)]
    rfl
  · have popped := popStream64_append present port bytes [] (by omega)
    rw [List.append_nil] at popped
    rw [bind_ok popped]
    exact keeps _ _

/-- The machine after bytes were written to the image of a drive. -/
def Machine.withImage (machine : Machine) (disk : DiskImager) (bytes : List Byte) : Machine :=
  { machine with
    image_files := Function.update machine.image_files disk.file_name
      { machine.image_files disk.file_name with
        contents := FlatMemory.write (machine.image_files disk.file_name).contents
          (disk.start_sector * 512).toNat bytes } }

@[simp] theorem DiskImager.writeImage_apply (disk : DiskImager) (bytes : List Byte) (machine : Machine) :
    disk.writeImage bytes machine = .ok () (machine.withImage disk bytes) := rfl

theorem DiskDrive.port_inj (drive : DiskDrive) (first second : DiskPort) :
    drive.port first = drive.port second ↔ first = second := by
  cases drive <;> cases first <;> cases second <;> decide

/-- A write request writes the whole stream and clears it, or is refused with the stream as it was. -/
theorem DiskImager.requestWrite_cases (host : Host) (imager : DiskImager) (device : DeviceIndex) (machine : Machine)
    (granted : host.allocates (machine.stream device (imager.drive.port .CMD_REQUEST_WR)).length) :
    let port := imager.drive.port .CMD_REQUEST_WR
    let bytes := machine.stream device port
    (imager.AcceptsWrite host bytes.length ∧ imager.requestWrite host device port machine =
      .ok true ((machine.withImage imager bytes).withStream device port [])) ∨
    (¬ imager.AcceptsWrite host bytes.length ∧ ∃ after, imager.requestWrite host device port machine = .ok false after ∧
      after.device_list = machine.device_list) := by
  intro port bytes
  have start : port ≠ imager.drive.port .REG_START_SEC := by
    rw [Ne, DiskDrive.port_inj]
    decide
  have count : port ≠ imager.drive.port .REG_SEC_COUNT := by
    rw [Ne, DiskDrive.port_inj]
    decide
  have known : machine.stream device port = bytes := rfl
  have command : port = imager.drive.port .CMD_REQUEST_WR := rfl
  rw [← command, known] at granted
  simp only [DiskImager.requestWrite, if_neg start, if_neg count, ← command, if_true]
  by_cases range : imager.transferInRange
  swap
  · right
    refine ⟨fun accepted => range accepted.1, machine, ?_, rfl⟩
    simp only [range, Bool.not_false, if_true, pure_apply]
  by_cases whole : (imager.sector_count * 512).toNat = bytes.length
  swap
  · right
    refine ⟨fun accepted => whole accepted.2.1, machine, ?_, rfl⟩
    simp only [range, Bool.not_true, Bool.false_eq_true, if_false, bind_apply, get_apply, known, allocate, granted, if_true,
      pure_apply, ne_eq, whole, not_false_eq_true]
  by_cases seeks : host.seeks (imager.start_sector * 512)
  swap
  · right
    refine ⟨fun accepted => seeks accepted.2.2.1, machine, ?_, rfl⟩
    simp only [range, Bool.not_true, Bool.false_eq_true, if_false, bind_apply, get_apply, known, allocate, granted, if_true,
      pure_apply, ne_eq, whole, not_true_eq_false, seeks, Bool.not_false]
  by_cases moved : host.transfers (imager.start_sector * 512) (imager.sector_count * 512) =
      (imager.sector_count * 512).toNat
  swap
  · right
    refine ⟨fun accepted => moved accepted.2.2.2, machine.withImage imager
      (bytes.take (host.transfers (imager.start_sector * 512) (imager.sector_count * 512))), ?_, rfl⟩
    rw [whole] at moved
    simp only [range, Bool.not_true, Bool.false_eq_true, if_false, bind_apply, get_apply, known, allocate, granted, if_true,
      pure_apply, ne_eq, whole, not_true_eq_false, seeks, DiskImager.writeImage_apply, moved, not_false_eq_true]
  left
  refine ⟨⟨range, whole, seeks, moved⟩, ?_⟩
  rw [whole] at moved
  simp only [range, Bool.not_true, Bool.false_eq_true, if_false, bind_apply, get_apply, known, allocate, granted, if_true,
    pure_apply, ne_eq, whole, not_true_eq_false, seeks, DiskImager.writeImage_apply, moved, List.take_length,
    setStream_apply]

theorem Machine.stream_eq_of_device_list {first second : Machine} (same : first.device_list = second.device_list) :
    first.stream = second.stream := by
  funext device port
  rw [Machine.stream, Machine.stream, same]

theorem DiskImager.requestWrite_empties (host : Host) (imager : DiskImager)
    (present : machine.device_list[device]? = some found) {bytes : List Byte} (granted : host.allocates bytes.length)
    (taken : imager.takes host port bytes.length) :
    (final (imager.requestWrite host device port (machine.withStream device port bytes))).stream =
      (machine.withStream device port []).stream := by
  have register (update : Word → DiskImager) : ∀ value : Word, Keeps Machine.stream
      (setController device (.disk (update value)) >>= fun _ => (return true : CPU Bool)) :=
    fun value => keeps_bind (keeps_setController device _) fun _ => keeps_pure true
  rw [DiskImager.takes] at taken
  by_cases start : port = imager.drive.port .REG_START_SEC
  · rw [if_pos (.inl start)] at taken
    rw [DiskImager.requestWrite, if_pos start]
    exact popStream64_empties present taken (register fun value => { imager with start_sector := value })
  by_cases count : port = imager.drive.port .REG_SEC_COUNT
  · rw [if_pos (.inr count)] at taken
    rw [DiskImager.requestWrite, if_neg start, if_pos count]
    exact popStream64_empties present taken (register fun value => { imager with sector_count := value })
  rw [if_neg (not_or.mpr ⟨start, count⟩)] at taken
  have holds : (machine.withStream device port bytes).stream device port = bytes := by
    simp [Machine.stream_withStream present]
  by_cases command : port = imager.drive.port .CMD_REQUEST_WR
  · subst command
    rcases imager.requestWrite_cases host device (machine.withStream device (imager.drive.port .CMD_REQUEST_WR) bytes)
      (by rw [holds]; exact granted) with ⟨-, written⟩ | ⟨refused, after, outcome, kept⟩
    · rw [written, final_ok]
      apply Machine.stream_eq_of_device_list
      have once := machine.withStream_withStream device (imager.drive.port .CMD_REQUEST_WR) bytes []
      have list := congrArg Machine.device_list once
      exact list
    · rw [outcome, final_ok, Machine.stream_eq_of_device_list kept]
      rw [holds] at refused
      rcases taken with empty | ⟨-, accepted⟩
      · rw [List.length_eq_zero_iff.mp empty]
      · exact absurd accepted refused
  · rcases taken with empty | ⟨isCommand, -⟩
    · rw [DiskImager.requestWrite, if_neg start, if_neg count, if_neg command, List.length_eq_zero_iff.mp empty]
      rfl
    · exact absurd isCommand command

theorem RealTimeClock.requestWrite_empties (clock : RealTimeClock)
    (present : machine.device_list[device]? = some found) {bytes : List Byte}
    (taken : RealTimeClock.takes port bytes.length) :
    (final (clock.requestWrite device port (machine.withStream device port bytes))).stream =
      (machine.withStream device port []).stream := by
  rw [RealTimeClock.takes] at taken
  by_cases time : port = RTC_CURRENT_TIME
  · rw [if_pos (.inl time)] at taken
    rw [RealTimeClock.requestWrite, if_pos time]
    apply popStream64_empties present taken
    intro value
    exact keeps_bind (keeps_setController device _) fun _ => keeps_pure true
  by_cases interrupt : port = RTC_SET_INTERRUPT
  · rw [if_pos (.inr interrupt)] at taken
    rw [RealTimeClock.requestWrite, if_neg time, if_pos interrupt]
    apply popStream64_empties present taken
    intro value
    apply keeps_ite (keeps_pure false)
    apply keeps_ite (keeps_pure false)
    exact keeps_bind (keeps_setController device _) fun _ => keeps_pure true
  · rw [if_neg (not_or.mpr ⟨time, interrupt⟩)] at taken
    rw [RealTimeClock.requestWrite, if_neg time, if_neg interrupt, List.length_eq_zero_iff.mp taken]
    rfl

theorem Controller.requestWrite_empties (host : Host) (controller : Controller)
    (present : machine.device_list[device]? = some found) {bytes : List Byte} (granted : host.allocates bytes.length)
    (taken : controller.takes host port bytes.length) :
    (final (controller.requestWrite host device port (machine.withStream device port bytes))).stream =
      (machine.withStream device port []).stream := by
  cases controller with
  | disk imager => exact imager.requestWrite_empties host present granted taken
  | clock rtc => exact rtc.requestWrite_empties present taken

/-! ## The hub -/

/-- The device that answers for a port, with its place in the list. -/
def Machine.Provides (machine : Machine) (port : Word) (device : DeviceIndex) (found : ExternalDevice) : Prop :=
  machine.device_list[device]? = some found ∧ found.controller.ports.contains port ∧
    ∀ earlier < device, ∀ other, machine.device_list[earlier]? = some other →
      ¬ other.controller.ports.contains port

theorem queryDevice_provided (provided : machine.Provides port device found) :
    queryDevice port machine = .ok (device, found) machine := by
  obtain ⟨present, provides, first⟩ := provided
  obtain ⟨inside, same⟩ := List.getElem?_eq_some_iff.mp present
  have search : machine.device_list.findIdx? (fun found => found.controller.ports.contains port) = some device := by
    rw [List.findIdx?_eq_some_iff_getElem]
    refine ⟨inside, by rw [same]; exact provides, ?_⟩
    intro earlier before
    exact first earlier before _ (List.getElem?_eq_getElem _)
  simp only [queryDevice, bind_apply, get_apply, search, present, pure_apply]

theorem queryDevice_cases (port : Word) (machine : Machine) :
    (∃ device found, machine.Provides port device found ∧ queryDevice port machine = .ok (device, found) machine) ∨
      queryDevice port machine =
        .error (.noSuchDevice ("Device providing IO port " ++ toString port.toNat ++ " not found!")) machine := by
  cases search : machine.device_list.findIdx? fun found => found.controller.ports.contains port with
  | none =>
    right
    simp only [queryDevice, bind_apply, get_apply, search, throw_apply]
  | some index =>
    left
    obtain ⟨inside, provides, first⟩ := List.findIdx?_eq_some_iff_getElem.mp search
    have provided : machine.Provides port index machine.device_list[index] := by
      refine ⟨List.getElem?_eq_getElem inside, provides, ?_⟩
      intro earlier before other present
      obtain ⟨_, same⟩ := List.getElem?_eq_some_iff.mp present
      rw [← same]
      exact first earlier before
    exact ⟨index, _, provided, queryDevice_provided provided⟩

/-- No byte is left in any stream. -/
def Machine.StreamsEmpty (machine : Machine) : Prop :=
  ∀ device port, machine.stream device port = []

theorem Machine.StreamsEmpty.of_stream {first second : Machine} (empty : first.StreamsEmpty)
    (same : second.stream = first.stream) : second.StreamsEmpty := by
  intro device port
  rw [same]
  exact empty device port

theorem Machine.withStream_nil (empty : machine.stream device port = []) :
    machine.withStream device port [] = machine := by
  nth_rewrite 1 [← empty]
  exact machine.withStream_self device port

/-- Between instructions, a read request leaves exactly the device's answer in the stream. -/
theorem hubIns_cases (host : Host) (port : Word) (empty : machine.StreamsEmpty) :
    (∃ device found bytes, machine.Provides port device found ∧
      found.controller.answer host machine.image_files port = some bytes ∧ host.allocates bytes.length ∧
      hubIns host port machine = .ok device (machine.withStream device port bytes)) ∨
    ∃ fault, hubIns host port machine = .error fault machine := by
  simp only [hubIns, bind_apply]
  rcases queryDevice_cases port machine with ⟨device, found, provided, query⟩ | missing
  · simp only [query]
    rcases found.controller.requestRead_cases host device port machine with
      ⟨bytes, answer, granted, queued⟩ | ⟨-, refused⟩ | ⟨-, failed⟩
    · rw [empty device port, List.nil_append] at queued
      rw [empty device port, List.length_nil, Nat.zero_add] at granted
      simp only [queued, if_true, pure_apply]
      exact .inl ⟨device, found, bytes, provided, answer, granted, rfl⟩
    · simp only [refused, Bool.false_eq_true, if_false, throw_apply]
      exact .inr ⟨_, rfl⟩
    · simp only [failed]
      exact .inr ⟨_, rfl⟩
  · simp only [missing]
    exact .inr ⟨_, rfl⟩

/-- Data that the device takes leaves no byte behind. -/
theorem hubOuts_empties (host : Host) (port : Word) (data : List Byte) (empty : machine.StreamsEmpty)
    (taken : ∀ device found, machine.Provides port device found → found.controller.takes host port data.length) :
    (final (hubOuts host port data machine)).StreamsEmpty := by
  simp only [hubOuts, bind_apply]
  rcases queryDevice_cases port machine with ⟨device, found, provided, query⟩ | missing
  · simp only [query, insertStream_apply, empty device port, List.length_nil, Nat.zero_add, List.nil_append]
    by_cases granted : host.allocates data.length
    · simp only [granted, if_true]
      have emptied := found.controller.requestWrite_empties host provided.1 granted (taken device found provided)
      apply empty.of_stream
      rw [Machine.withStream_nil (empty device port)] at emptied
      rw [← emptied]
      cases found.controller.requestWrite host device port (machine.withStream device port data) with
      | ok accepted after => cases accepted <;> rfl
      | error fault after => rfl
    · simp only [granted, Bool.false_eq_true, if_false]
      exact empty
  · simp only [missing]
    exact empty

/-! ## Port instructions -/

/-- The instructions that address a port. -/
inductive PortInstruction where
  | in_ | out | ins | outs
deriving DecidableEq, Repr

def PortInstruction.mnemonic : PortInstruction → Mnemonic
  | in_ => .in_
  | out => .out
  | ins => .ins
  | outs => .outs

/-- How many bytes an instruction moves. -/
def PortInstruction.amount (instruction : PortInstruction) (machine : Machine) : ℕ :=
  match instruction with
  | in_ | out => 8
  | ins | outs => (machine.registers.load FER3).toNat

/-- The device gives exactly as many bytes as are read, or takes all that are written. -/
def PortInstruction.Matches (instruction : PortInstruction) (host : Host) (machine : Machine) (port : Word)
    (controller : Controller) : Prop :=
  match instruction with
  | in_ | ins =>
    ∀ bytes, controller.answer host machine.image_files port = some bytes → bytes.length = instruction.amount machine
  | out | outs => controller.takes host port (instruction.amount machine)

/-- A write gets as far as the hub when its data can be read. -/
def PortInstruction.Reaches (instruction : PortInstruction) (host : Host) (machine : Machine) (arguments : Arguments) :
    Prop :=
  match instruction with
  | in_ | ins => True
  | out => ∃ data, arguments.getVal 1 machine = .ok data machine
  | outs =>
    host.allocates (machine.registers.load FER3).toNat = true ∧
      ∃ data, readMemory (machine.registers.DataBase + machine.registers.DataPointer) (machine.registers.load FER3)
        machine = .ok data machine

/-- The condition under which a port instruction leaves no byte behind. -/
def PortInstruction.Settles (instruction : PortInstruction) (host : Host) (machine : Machine)
    (arguments : Arguments) : Prop :=
  instruction.Reaches host machine arguments → ∀ port device found, arguments.getVal 0 machine = .ok port machine →
    machine.Provides port device found →
    instruction.Matches host machine port found.controller

def PortInstruction.run (instruction : PortInstruction) (host : Host) (arguments : Arguments) : CPU Unit :=
  dispatch host
    { opcode := instruction.mnemonic.opcode, width := arguments.width, operands := arguments.operands }

theorem PortInstruction.run_eq (instruction : PortInstruction) (host : Host) (arguments : Arguments) :
    instruction.run host arguments =
      match instruction with
      | in_ => Sysdarft.in_ host arguments
      | out => Sysdarft.out host arguments
      | ins => Sysdarft.ins host arguments
      | outs => Sysdarft.outs host arguments := by
  cases instruction <;>
    simp only [run, dispatch, lookupProcedure, mnemonic, findOpcode_opcode, Option.bind_some, executorMap, pure_bind]

theorem in_empties (host : Host) (arguments : Arguments) (empty : machine.StreamsEmpty)
    (settles : PortInstruction.in_.Settles host machine arguments) :
    (final (in_ host arguments machine)).StreamsEmpty := by
  simp only [in_, bind_apply]
  rcases keeps_all_cases (keeps_argument arguments 0) machine with ⟨port, value⟩ | ⟨fault, failed⟩
  · simp only [value]
    rcases hubIns_cases host port empty with ⟨device, found, bytes, provided, answer, -, queued⟩ | ⟨fault, failed⟩
    · have whole := settles trivial port device found value provided bytes answer
      have popped := popStream64_append provided.1 port bytes [] whole
      rw [List.append_nil, Machine.withStream_nil (empty device port)] at popped
      simp only [queued, popped]
      apply empty.of_stream
      apply Machine.stream_eq_of_device_list
      exact congrArg Prod.fst (keeps_devices_argument arguments 1 _ machine)
    · simp only [failed]
      exact empty
  · simp only [failed]
    exact empty

theorem out_empties (host : Host) (arguments : Arguments) (empty : machine.StreamsEmpty)
    (settles : PortInstruction.out.Settles host machine arguments) :
    (final (out host arguments machine)).StreamsEmpty := by
  simp only [out, bind_apply]
  rcases keeps_all_cases (keeps_argument arguments 0) machine with ⟨port, value⟩ | ⟨fault, failed⟩
  · simp only [value]
    rcases keeps_all_cases (keeps_argument arguments 1) machine with ⟨data, known⟩ | ⟨fault, failed⟩
    · simp only [known]
      apply hubOuts_empties host port _ empty
      intro device found provided
      rw [LittleEndian.length_bytes]
      exact settles ⟨data, known⟩ port device found value provided
    · simp only [failed]
      exact empty
  · simp only [failed]
    exact empty

theorem ins_empties (host : Host) (arguments : Arguments) (empty : machine.StreamsEmpty)
    (settles : PortInstruction.ins.Settles host machine arguments) :
    (final (ins host arguments machine)).StreamsEmpty := by
  simp only [ins, bind_apply, getRegisters, get_apply, pure_apply]
  rcases keeps_all_cases (keeps_argument arguments 0) machine with ⟨port, value⟩ | ⟨fault, failed⟩
  · simp only [value]
    rcases hubIns_cases host port empty with ⟨device, found, bytes, provided, answer, granted, queued⟩ | ⟨fault, failed⟩
    · have whole : bytes.length = (machine.registers.load FER3).toNat :=
        settles trivial port device found value provided bytes answer
      have holds : (machine.withStream device port bytes).stream device port = bytes := by
        simp [Machine.stream_withStream provided.1]
      rw [whole] at granted
      simp only [queued, holds, whole, ne_eq, not_true_eq_false, if_false, bind_apply, allocate, granted, if_true,
        pure_apply,
        setStream_apply, Machine.withStream_withStream, Machine.withStream_nil (empty device port)]
      apply empty.of_stream
      apply Machine.stream_eq_of_device_list
      exact congrArg Prod.fst (keeps_devices_writeMemory _ bytes _ machine)
    · simp only [failed]
      exact empty
  · simp only [failed]
    exact empty

theorem outs_empties (host : Host) (arguments : Arguments) (empty : machine.StreamsEmpty)
    (settles : PortInstruction.outs.Settles host machine arguments) :
    (final (outs host arguments machine)).StreamsEmpty := by
  simp only [outs, bind_apply, getRegisters, get_apply, pure_apply]
  rcases keeps_all_cases (keeps_argument arguments 0) machine with ⟨port, value⟩ | ⟨fault, failed⟩
  · simp only [value, allocate]
    by_cases granted : host.allocates (machine.registers.load FER3).toNat
    · simp only [granted, if_true, pure_apply]
      rcases readMemory_cases machine (machine.registers.DataBase + machine.registers.DataPointer)
        (host.allocates_lt _ granted) with read | ⟨fault, failed⟩
      · simp only [read]
        apply hubOuts_empties host port _ empty
        intro device found provided
        rw [FlatMemory.length_read]
        exact settles ⟨granted, _, read⟩ port device found value provided
      · simp only [failed]
        exact empty
    · simp only [granted, Bool.false_eq_true, if_false, throw_apply]
      exact empty
  · simp only [failed]
    exact empty

/-- One port instruction whose data matches leaves no byte behind, however it ends. -/
theorem PortInstruction.run_empties (instruction : PortInstruction) (host : Host) (arguments : Arguments)
    (empty : machine.StreamsEmpty) (settles : instruction.Settles host machine arguments) :
    (final (instruction.run host arguments machine)).StreamsEmpty := by
  rw [run_eq]
  cases instruction with
  | in_ => exact in_empties host arguments empty settles
  | out => exact out_empties host arguments empty settles
  | ins => exact ins_empties host arguments empty settles
  | outs => exact outs_empties host arguments empty settles

/-! ## Runs -/

/-- The states that port instructions with matching data lead to, with anything in between that
leaves the devices alone. -/
inductive SettledRun (start : Machine) : Machine → Prop where
  | start : SettledRun start start
  | port {machine : Machine} (earlier : SettledRun start machine) (instruction : PortInstruction) (host : Host)
      (arguments : Arguments) (settles : instruction.Settles host machine arguments) :
      SettledRun start (final (instruction.run host arguments machine))
  | other {machine after : Machine} (earlier : SettledRun start machine)
      (untouched : after.device_list = machine.device_list) : SettledRun start after

theorem SettledRun.empties {start : Machine} (fresh : start.StreamsEmpty) (run : SettledRun start machine) :
    machine.StreamsEmpty := by
  induction run with
  | start => exact fresh
  | port earlier instruction host arguments settles ih => exact instruction.run_empties host arguments ih settles
  | other earlier untouched ih => exact ih.of_stream (Machine.stream_eq_of_device_list untouched)

/-- What a read instruction delivers between instructions: the device's answer and nothing else. -/
def Machine.Delivers (machine : Machine) (host : Host) (arguments : Arguments) (bytes : List Byte) : Prop :=
  (bytes.length = 8 → PortInstruction.in_.run host arguments machine =
    arguments.setVal 1 (BitVec.ofNat 64 (LittleEndian.value bytes)) machine) ∧
  (bytes.length = (machine.registers.load FER3).toNat → PortInstruction.ins.run host arguments machine =
    writeMemory (machine.registers.DataBase + machine.registers.DataPointer) bytes
      (machine.registers.load FER3) machine)

theorem hubIns_answered {host : Host} {bytes : List Byte} (empty : machine.stream device port = [])
    (provided : machine.Provides port device found)
    (answer : found.controller.answer host machine.image_files port = some bytes) (granted : host.allocates bytes.length) :
    hubIns host port machine = .ok device (machine.withStream device port bytes) := by
  simp only [hubIns, bind_apply, queryDevice_provided provided]
  rcases found.controller.requestRead_cases host device port machine with
    ⟨queued, known, -, success⟩ | ⟨refused, -⟩ | ⟨starved, -⟩
  · rw [empty, List.nil_append] at success
    obtain rfl : bytes = queued := Option.some.inj (answer.symm.trans known)
    simp only [success, if_true, pure_apply]
  · rw [answer] at refused
    exact absurd refused (Option.some_ne_none bytes)
  · exact absurd granted (starved bytes answer empty)

/-- A 64-bit value read back from its bytes. -/
theorem ofNat_value_bytes (data : Word) : BitVec.ofNat 64 (LittleEndian.value (LittleEndian.bytes 8 data.toNat)) = data := by
  apply BitVec.eq_of_toNat_eq
  rw [LittleEndian.value_bytes, BitVec.toNat_ofNat]
  exact (Nat.mod_eq_of_lt (lt_of_le_of_lt (Nat.mod_le ..) data.isLt)).trans (Nat.mod_eq_of_lt data.isLt)

/-- `hubOuts` of a 64-bit value that the device pops and keeps. -/
theorem hubOuts_popped {host : Host} {update : Word → Controller} (empty : machine.stream device port = [])
    (provided : machine.Provides port device found) (granted : host.allocates 8) (data : Word)
    (register : found.controller.requestWrite host device port =
      popStream64 device port >>= fun value => setController device (update value) >>= fun _ => return true) :
    hubOuts host port (LittleEndian.bytes 8 data.toNat) machine =
      .ok () (machine.withController device (update data)) := by
  have popped := popStream64_append provided.1 port (LittleEndian.bytes 8 data.toNat) [] (LittleEndian.length_bytes ..)
  rw [List.append_nil, Machine.withStream_nil empty, ofNat_value_bytes] at popped
  simp only [hubOuts, bind_apply, queryDevice_provided provided, insertStream_apply, empty, List.length_nil, Nat.zero_add,
    LittleEndian.length_bytes, granted, if_true, List.nil_append, register, popped, setController_apply, pure_apply]

theorem Machine.delivers {host : Host} {arguments : Arguments} {bytes : List Byte}
    (empty : machine.stream device port = []) (value : arguments.getVal 0 machine = .ok port machine)
    (provided : machine.Provides port device found)
    (answer : found.controller.answer host machine.image_files port = some bytes) (granted : host.allocates bytes.length) :
    machine.Delivers host arguments bytes := by
  have queued := hubIns_answered empty provided answer granted
  constructor
  · intro whole
    have popped := popStream64_append provided.1 port bytes [] whole
    rw [List.append_nil, Machine.withStream_nil empty] at popped
    rw [PortInstruction.run_eq]
    simp only [in_, bind_apply, value, queued, popped]
  · intro whole
    have holds : (machine.withStream device port bytes).stream device port = bytes := by
      simp [Machine.stream_withStream provided.1]
    rw [whole] at granted
    rw [PortInstruction.run_eq]
    simp only [ins, bind_apply, getRegisters, get_apply, pure_apply, value, queued, holds, whole, ne_eq,
      not_true_eq_false, if_false, allocate, granted, if_true, setStream_apply, Machine.withStream_withStream,
      Machine.withStream_nil empty]

/-- The answer of the *SIZE* port is the number of sectors. -/
theorem DiskImager.answer_size (host : Host) (disk : DiskImager) (files : String → ImageFile) :
    disk.answer host files (disk.drive.port .REG_SIZE) = some (LittleEndian.bytes 8 (disk.device_size.toNat / 512)) := by
  simp only [DiskImager.answer, if_true]

/-- In a run in which the data of every port instruction matches, no stream holds a byte between
instructions; a read delivers the device's answer whatever failed before it, and the *SIZE* port of a
drive reads as its number of sectors. -/
theorem portStreams_settled (start machine : Machine) (fresh : start.StreamsEmpty) (run : SettledRun start machine) :
    machine.StreamsEmpty ∧
    ∀ (host : Host) (arguments : Arguments) (port : Word) (device : DeviceIndex) (found : ExternalDevice),
      arguments.getVal 0 machine = .ok port machine → machine.Provides port device found →
      (∀ bytes, found.controller.answer host machine.image_files port = some bytes →
        host.allocates bytes.length → machine.Delivers host arguments bytes) ∧
      (∀ imager, found.controller = .disk imager → port = imager.drive.port .REG_SIZE → host.allocates 8 →
        PortInstruction.in_.run host arguments machine = arguments.setVal 1 (imager.device_size / 512) machine) := by
  have empty := run.empties fresh
  refine ⟨empty, ?_⟩
  intro host arguments port device found value provided
  refine ⟨fun bytes answer granted => machine.delivers (empty device port) value provided answer granted, ?_⟩
  rintro imager isDisk rfl granted
  have answer : found.controller.answer host machine.image_files (imager.drive.port .REG_SIZE) =
      some (LittleEndian.bytes 8 (imager.device_size.toNat / 512)) := by
    rw [isDisk]
    exact imager.answer_size host machine.image_files
  have delivered :=
    (machine.delivers (empty device _) value provided answer (by rw [LittleEndian.length_bytes]; exact granted)).1
    (LittleEndian.length_bytes ..)
  have sectors : BitVec.ofNat 64 (LittleEndian.value (LittleEndian.bytes 8 (imager.device_size.toNat / 512))) =
      imager.device_size / 512 := by
    have bound := imager.device_size.isLt
    apply BitVec.eq_of_toNat_eq
    rw [LittleEndian.value_bytes, BitVec.toNat_ofNat, BitVec.toNat_udiv]
    change imager.device_size.toNat / 512 % 256 ^ 8 % 2 ^ 64 = imager.device_size.toNat / 512
    omega
  rw [← sectors]
  exact delivered

/-- A hard disk of two sectors, as it is attached. -/
def DiskImager.twoSectors : DiskImager where
  drive := .hardDisk
  file_name := "disk"
  start_sector := 0
  sector_count := 0
  device_size := 1024

def ExternalDevice.twoSectors : ExternalDevice where
  controller := .disk .twoSectors
  device_buffer := fun _ => []

def Machine.withDrive : Machine := { Machine.powerOn with device_list := [.twoSectors] }

theorem Machine.withDrive_fresh : Machine.withDrive.StreamsEmpty := by
  intro device port
  cases device with
  | zero => rfl
  | succ device => rfl

/-- The operands of `IN .64bit <$64(0x136)>, <%FER0>`. -/
def sizeArguments : Arguments where
  width := Width.w64.bcd
  operands := [.constant 0x136 Width.w64.bcd, .ofRegister (registerOf .w64 0)]

/-- The operands of `OUT .64bit <$64(0x136)>, <$64(7)>`. -/
def resizeArguments : Arguments where
  width := Width.w64.bcd
  operands := [.constant 0x136 Width.w64.bcd, .constant 7 Width.w64.bcd]

theorem portStreams_settled_withDrive :
    Machine.withDrive.StreamsEmpty ∧
      PortInstruction.in_.run Host.ample sizeArguments Machine.withDrive =
        sizeArguments.setVal 1 (1024 / 512) Machine.withDrive := by
  obtain ⟨empty, delivers⟩ := portStreams_settled Machine.withDrive Machine.withDrive Machine.withDrive_fresh .start
  have provided : Machine.withDrive.Provides 0x136 0 .twoSectors := by
    refine ⟨rfl, rfl, ?_⟩
    intro earlier before
    exact absurd before (Nat.not_lt_zero earlier)
  have sized := (delivers Host.ample sizeArguments 0x136 0 .twoSectors rfl provided).2 .twoSectors rfl rfl rfl
  exact ⟨empty, sized⟩

/-- The write to the *SIZE* port is refused, and its bytes stay in the stream. -/
theorem not_streamsEmpty_refused :
    Machine.withDrive.StreamsEmpty ∧
      ¬ (final (PortInstruction.out.run Host.ample resizeArguments Machine.withDrive)).StreamsEmpty := by
  refine ⟨Machine.withDrive_fresh, ?_⟩
  intro empty
  have left : (final (PortInstruction.out.run Host.ample resizeArguments Machine.withDrive)).stream 0 0x136 =
      [7, 0, 0, 0, 0, 0, 0, 0] := by
    rw [PortInstruction.run_eq]
    rfl
  rw [empty 0 0x136] at left
  simp at left

end Sysdarft
