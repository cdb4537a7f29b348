import Sysdarft.Proofs.PortStreams
import Sysdarft.Proofs.StepFaults

/-! # Exceptions of the hub and the devices

A port access ends in one of the two exceptions of devices, or the host refuses the memory for a buffer. The
refusals are told from the state before the access.
-/

namespace Sysdarft

open Effects

/-! ## Only these exceptions -/

def Fault.OfDevice : Fault → Prop
  | deviceIOError _ | noSuchDevice _ | badAllocation | undefined => True
  | _ => False

theorem throwsOnly_setStream {kind : Fault → Prop} (device : DeviceIndex) (port : Word) (bytes : List Byte) :
    ThrowsOnly kind (setStream device port bytes) := throwsOnly_of_returns (returns_modify _)

theorem throwsOnly_setController {kind : Fault → Prop} (device : DeviceIndex) (controller : Controller) :
    ThrowsOnly kind (setController device controller) := throwsOnly_of_returns (returns_modify _)

theorem throwsOnly_allocate (host : Host) (size : ℕ) : ThrowsOnly Fault.OfDevice (allocate host size) :=
  throwsOnly_ite (throwsOnly_pure _) (throwsOnly_throw trivial)

theorem throwsOnly_insertStream (host : Host) (device : DeviceIndex) (port : Word) (data : List Byte) :
    ThrowsOnly Fault.OfDevice (insertStream host device port data) :=
  throwsOnly_get_bind fun _ => throwsOnly_bind (throwsOnly_allocate host _) fun _ => throwsOnly_setStream _ _ _

theorem throwsOnly_popStream {kind : Fault → Prop} (known : ∀ message, kind (.deviceIOError message))
    (device : DeviceIndex) (port : Word) (count : ℕ) : ThrowsOnly kind (popStream device port count) := by
  induction count with
  | zero => exact throwsOnly_pure _
  | succ count ih =>
    refine throwsOnly_get_bind fun machine => ?_
    cases machine.stream device port with
    | nil => exact throwsOnly_throw (known _)
    | cons byte rest =>
      exact throwsOnly_bind (throwsOnly_setStream _ _ _) fun _ => throwsOnly_bind ih fun _ => throwsOnly_pure _

theorem throwsOnly_popStream64 {kind : Fault → Prop} (known : ∀ message, kind (.deviceIOError message))
    (device : DeviceIndex) (port : Word) : ThrowsOnly kind (popStream64 device port) :=
  throwsOnly_bind (throwsOnly_popStream known device port 8) fun _ => throwsOnly_pure _

theorem throwsOnly_requestRead (host : Host) (device : DeviceIndex) (port : Word) (controller : Controller) :
    ThrowsOnly Fault.OfDevice (controller.requestRead host device port) := by
  have queues (data : List Byte) : ThrowsOnly Fault.OfDevice (do insertStream host device port data; return true) :=
    throwsOnly_bind (throwsOnly_insertStream host device port data) fun _ => throwsOnly_pure _
  cases controller with
  | disk imager =>
    refine throwsOnly_ite (queues _) (throwsOnly_ite ?_ (throwsOnly_pure _))
    refine throwsOnly_ite (throwsOnly_pure _) (throwsOnly_ite (throwsOnly_pure _) ?_)
    refine throwsOnly_bind (throwsOnly_allocate host _) fun _ => throwsOnly_ite (throwsOnly_pure _) ?_
    exact throwsOnly_get_bind fun machine => queues _
  | clock rtc => exact throwsOnly_ite (queues _) (throwsOnly_pure _)

theorem throwsOnly_requestWrite (host : Host) (device : DeviceIndex) (port : Word) (controller : Controller) :
    ThrowsOnly Fault.OfDevice (controller.requestWrite host device port) := by
  have popped {use : Word → CPU Bool} (used : ∀ value, ThrowsOnly Fault.OfDevice (use value)) :
      ThrowsOnly Fault.OfDevice (popStream64 device port >>= use) :=
    throwsOnly_bind (throwsOnly_popStream64 (fun _ => trivial) device port) used
  have stores (controller : Controller) : ThrowsOnly Fault.OfDevice (do setController device controller; return true) :=
    throwsOnly_bind (throwsOnly_setController device controller) fun _ => throwsOnly_pure _
  cases controller with
  | disk imager =>
    refine throwsOnly_ite (popped fun _ => stores _) (throwsOnly_ite (popped fun _ => stores _)
      (throwsOnly_ite (throwsOnly_ite (throwsOnly_pure _) ?_) (throwsOnly_pure _)))
    refine throwsOnly_get_bind fun machine => throwsOnly_bind (throwsOnly_allocate host _) fun _ =>
      throwsOnly_ite (throwsOnly_pure _) (throwsOnly_ite (throwsOnly_pure _) ?_)
    refine throwsOnly_bind (throwsOnly_of_returns (returns_modify _)) fun _ => throwsOnly_ite (throwsOnly_pure _) ?_
    exact throwsOnly_bind (throwsOnly_setStream _ _ _) fun _ => throwsOnly_pure _
  | clock rtc =>
    refine throwsOnly_ite (popped fun _ => stores _) (throwsOnly_ite (popped fun data => ?_) (throwsOnly_pure _))
    exact throwsOnly_ite (throwsOnly_pure _) (throwsOnly_ite (throwsOnly_pure _) (stores _))

theorem throwsOnly_queryDevice (port : Word) : ThrowsOnly Fault.OfDevice (queryDevice port) := by
  intro machine fault failed
  rcases queryDevice_cases port machine with ⟨device, found, -, query⟩ | missing
  · rw [query] at failed
    cases failed
  · rw [missing] at failed
    cases failed
    trivial

theorem throwsOnly_hubIns (host : Host) (port : Word) : ThrowsOnly Fault.OfDevice (hubIns host port) :=
  throwsOnly_bind (throwsOnly_queryDevice port) fun found =>
    throwsOnly_bind (throwsOnly_requestRead host found.1 port found.2.controller) fun _ =>
      throwsOnly_ite (throwsOnly_pure _) (throwsOnly_throw trivial)

theorem throwsOnly_hubOuts (host : Host) (port : Word) (data : List Byte) :
    ThrowsOnly Fault.OfDevice (hubOuts host port data) :=
  throwsOnly_bind (throwsOnly_queryDevice port) fun found =>
    throwsOnly_bind (throwsOnly_insertStream host found.1 port data) fun _ =>
      throwsOnly_bind (throwsOnly_requestWrite host found.1 port found.2.controller) fun _ =>
        throwsOnly_ite (throwsOnly_pure _) (throwsOnly_throw trivial)

theorem throwsOnly_inRequest (host : Host) (port : Word) : ThrowsOnly Fault.OfDevice (inRequest host port) :=
  throwsOnly_bind (throwsOnly_hubIns host port) fun device => throwsOnly_popStream64 (fun _ => trivial) device port

theorem throwsOnly_insRequest (host : Host) (port cx : Word) : ThrowsOnly Fault.OfDevice (insRequest host port cx) :=
  throwsOnly_bind (throwsOnly_hubIns host port) fun _ => throwsOnly_get_bind fun _ =>
    throwsOnly_ite (throwsOnly_throw trivial) (throwsOnly_bind (throwsOnly_allocate host _) fun _ => throwsOnly_pure _)

/-! ## Refused buffers -/

/-- The host refuses the memory to append bytes to a stream. -/
def Machine.Refuses (machine : Machine) (host : Host) (device : DeviceIndex) (port : Word) (size : ℕ) : Prop :=
  ¬ host.allocates ((machine.stream device port).length + size)

/-- The host refuses the memory that a read request needs: for the answer, or for the sectors on their way. -/
def Controller.RefusesRead (host : Host) (machine : Machine) (device : DeviceIndex) (port : Word) : Controller → Prop
  | disk imager =>
    let start_off := imager.start_sector * 512
    let length := imager.sector_count * 512
    (port = imager.drive.port .REG_SIZE ∧ machine.Refuses host device port 8) ∨
      (port = imager.drive.port .CMD_REQUEST_RD ∧ imager.transferInRange ∧ host.seeks start_off ∧
        (¬ host.allocates length.toNat ∨
          (host.transfers start_off length = length.toNat ∧ machine.Refuses host device port length.toNat)))
  | clock _ => port = RTC_CURRENT_TIME ∧ machine.Refuses host device port 8

variable {host : Host} {machine : Machine} {device : DeviceIndex} {port : Word}

theorem insertStream_loses_iff (data : List Byte) :
    EndsIn Fault.Lost (insertStream host device port data machine) ↔ machine.Refuses host device port data.length := by
  rw [insertStream_apply, Machine.Refuses]
  split_ifs with granted
  · exact iff_of_false (endsIn_ok _ _) (not_not.mpr granted)
  · exact iff_of_true ((endsIn_error _ _).mpr ⟨rfl, nofun⟩) granted

theorem queues_loses_iff (data : List Byte) :
    EndsIn Fault.Lost ((insertStream host device port data >>= fun _ => return true) machine) ↔
      machine.Refuses host device port data.length := by
  rw [endsIn_bind, insertStream_loses_iff]
  refine or_iff_left ?_
  rintro ⟨_, after, -, failed⟩
  exact endsIn_ok _ _ failed

theorem allocate_loses_iff (size : ℕ) : EndsIn Fault.Lost (allocate host size machine) ↔ ¬ host.allocates size := by
  rw [allocate]
  split_ifs with granted
  · exact iff_of_false (endsIn_ok _ _) (not_not.mpr granted)
  · exact iff_of_true ((endsIn_error _ _).mpr ⟨rfl, (by rintro ⟨⟩)⟩) granted

theorem requestRead_loses_iff (controller : Controller) :
    EndsIn Fault.Lost (controller.requestRead host device port machine) ↔
      controller.RefusesRead host machine device port := by
  cases controller with
  | disk imager =>
    simp only [Controller.requestRead, DiskImager.requestRead, Controller.RefusesRead]
    by_cases size : port = imager.drive.port .REG_SIZE
    · have command : port ≠ imager.drive.port .CMD_REQUEST_RD := by
        rw [size, Ne, DiskDrive.port_inj]
        decide
      rw [if_pos size, queues_loses_iff, LittleEndian.length_bytes]
      exact ⟨fun refused => .inl ⟨size, refused⟩, fun either => either.elim And.right fun other => absurd other.1 command⟩
    · rw [if_neg size]
      simp only [size, false_and, false_or]
      by_cases command : port = imager.drive.port .CMD_REQUEST_RD
      swap
      · rw [if_neg command]
        exact iff_of_false (endsIn_ok _ _) fun other => command other.1
      rw [if_pos command]
      by_cases range : imager.transferInRange
      swap
      · simp only [range, Bool.not_false, if_true, Bool.false_eq_true, false_and, and_false, iff_false]
        exact endsIn_ok _ _
      by_cases seeks : host.seeks (imager.start_sector * 512)
      swap
      · simp only [range, seeks, Bool.not_true, Bool.not_false, if_true, Bool.false_eq_true, if_false, false_and, and_false,
          iff_false]
        exact endsIn_ok _ _
      simp only [range, seeks, Bool.not_true, Bool.false_eq_true, if_false, command, true_and]
      by_cases granted : host.allocates (imager.sector_count * 512).toNat
      swap
      · exact iff_of_true (endsIn_bind.mpr (.inl ((allocate_loses_iff _).mpr granted))) (.inl granted)
      have passed : allocate host (imager.sector_count * 512).toNat machine = .ok () machine := by
        simp only [allocate, granted, if_true, pure_apply]
      rw [bind_ok passed]
      simp only [granted, not_true_eq_false, false_or]
      by_cases moved : host.transfers (imager.start_sector * 512) (imager.sector_count * 512) =
          (imager.sector_count * 512).toNat
      swap
      · simp only [moved, ne_eq, not_false_eq_true, if_true, false_and, iff_false]
        exact endsIn_ok _ _
      have sized : (imager.contents (machine.image_files imager.file_name)).length =
          (imager.sector_count * 512).toNat := FlatMemory.length_read ..
      simp only [moved, ne_eq, not_true_eq_false, if_false, true_and]
      rw [← sized]
      exact queues_loses_iff _
  | clock rtc =>
    simp only [Controller.requestRead, RealTimeClock.requestRead, Controller.RefusesRead]
    by_cases time : port = RTC_CURRENT_TIME
    · rw [if_pos time, queues_loses_iff, LittleEndian.length_bytes]
      simp only [time, true_and]
    · rw [if_neg time]
      exact iff_of_false (endsIn_ok _ _) fun other => time other.1

/-- The host refuses the memory to read a port. -/
def Machine.RefusesIns (machine : Machine) (host : Host) (port : Word) : Prop :=
  ∃ device found, machine.Provides port device found ∧ found.controller.RefusesRead host machine device port

/-- The host refuses the memory to write bytes to a port. -/
def Machine.RefusesOuts (machine : Machine) (host : Host) (port : Word) (size : ℕ) : Prop :=
  ∃ device found, machine.Provides port device found ∧ machine.Refuses host device port size

/-- One device provides a port. -/
theorem provided_iff {found : ExternalDevice} (provided : machine.Provides port device found)
    (property : DeviceIndex → ExternalDevice → Prop) :
    (∃ device found, machine.Provides port device found ∧ property device found) ↔ property device found := by
  constructor
  · rintro ⟨other, found', provided', holds⟩
    have same := (queryDevice_provided provided').symm.trans (queryDevice_provided provided)
    cases same
    exact holds
  · exact fun holds => ⟨device, found, provided, holds⟩

theorem not_provided {message : String} (missing : queryDevice port machine = .error (.noSuchDevice message) machine)
    (property : DeviceIndex → ExternalDevice → Prop) :
    ¬ ∃ device found, machine.Provides port device found ∧ property device found := by
  rintro ⟨device, found, provided, -⟩
  rw [queryDevice_provided provided] at missing
  cases missing

/-- An accepted or refused request by itself loses nothing. -/
theorem answered_loses {α : Type} {accepted : Bool} {message : String} {value : α} :
    ¬ EndsIn Fault.Lost ((if accepted then return value else throw (.deviceIOError message) : CPU α) machine) := by
  cases accepted
  · rw [if_neg (by decide), throw_apply, endsIn_error]
    exact fun lost => absurd lost.1 nofun
  · exact endsIn_ok _ _

theorem hubIns_loses_iff : EndsIn Fault.Lost (hubIns host port machine) ↔ machine.RefusesIns host port := by
  rw [Machine.RefusesIns]
  rcases queryDevice_cases port machine with ⟨device, found, provided, query⟩ | missing
  · rw [provided_iff provided, hubIns, bind_ok query, endsIn_bind, requestRead_loses_iff]
    refine or_iff_left ?_
    rintro ⟨accepted, after, -, failed⟩
    exact answered_loses failed
  · rw [hubIns, bind_error missing, endsIn_error]
    exact iff_of_false (fun lost => absurd lost.1 (by rintro ⟨⟩)) (not_provided missing _)

/-- A hub that answers has queued the answer. -/
theorem hubIns_ok {after : Machine} (done : hubIns host port machine = .ok device after) :
    ∃ found bytes, machine.Provides port device found ∧ found.controller.answer host machine.image_files port = some bytes ∧
      host.allocates ((machine.stream device port).length + bytes.length) ∧
      after = machine.withStream device port (machine.stream device port ++ bytes) := by
  obtain ⟨⟨index, found⟩, middle, query, done⟩ := bind_eq_ok.mp done
  obtain ⟨accepted, last, requested, done⟩ := bind_eq_ok.mp done
  rcases queryDevice_cases port machine with ⟨index', found', provided, query'⟩ | missing
  · cases query.symm.trans query'
    rcases found.controller.requestRead_cases host index port machine with
      ⟨bytes, answer, granted, queued⟩ | ⟨-, refused⟩ | ⟨-, failed⟩
    · cases requested.symm.trans queued
      cases done
      exact ⟨found, bytes, provided, answer, granted, rfl⟩
    · cases requested.symm.trans refused
      cases done
    · cases requested.symm.trans failed
  · cases query.symm.trans missing

theorem inRequest_loses_iff : EndsIn Fault.Lost (inRequest host port machine) ↔ machine.RefusesIns host port := by
  rw [inRequest, endsIn_bind, hubIns_loses_iff]
  refine or_iff_left ?_
  rintro ⟨index, after, -, failed⟩
  exact not_endsIn_of_throwsOnly (throwsOnly_popStream64 (fun _ lost => absurd lost.1 nofun) index port) after failed

/-- The buffer for what was queued is no larger than the stream that was granted for it. -/
theorem insRequest_loses_iff (cx : Word) :
    EndsIn Fault.Lost (insRequest host port cx machine) ↔ machine.RefusesIns host port := by
  rw [insRequest, endsIn_bind, hubIns_loses_iff]
  refine or_iff_left ?_
  rintro ⟨index, after, done, failed⟩
  obtain ⟨found, bytes, provided, -, granted, rfl⟩ := hubIns_ok done
  rw [bind_ok (get_apply _)] at failed
  have holds : ((machine.withStream index port (machine.stream index port ++ bytes)).stream index port).length =
      (machine.stream index port).length + bytes.length := by
    simp [Machine.stream_withStream provided.1]
  split_ifs at failed with mismatch
  · rw [throw_apply, endsIn_error] at failed
    exact absurd failed.1 (by rintro ⟨⟩)
  · rw [holds] at failed
    simp only [allocate, granted, if_true, pure_bind, pure_apply] at failed
    exact endsIn_ok _ _ failed

/-- No device answers with nothing. -/
theorem Controller.answer_pos {controller : Controller} {files : String → ImageFile} {bytes : List Byte}
    (answer : controller.answer host files port = some bytes) : 0 < bytes.length := by
  cases controller with
  | disk imager =>
    rw [Controller.answer, DiskImager.answer] at answer
    split_ifs at answer with size command
    · cases answer
      rw [LittleEndian.length_bytes]
      decide
    · cases answer
      have range := command.2.1
      rw [DiskImager.contents, FlatMemory.length_read, Nat.pos_iff_ne_zero]
      intro zero
      simp only [DiskImager.transferInRange, Bool.and_eq_true, Bool.not_eq_true', beq_eq_false_iff_ne] at range
      exact range.1.2 (BitVec.eq_of_toNat_eq zero)
  | clock rtc =>
    rw [Controller.answer, RealTimeClock.answer] at answer
    split_ifs at answer
    cases answer
    rw [LittleEndian.length_bytes]
    decide

/-- So a block that is read is not empty. -/
theorem insRequest_pos {cx : Word} {after : Machine} {result : DeviceIndex × List Byte}
    (done : insRequest host port cx machine = .ok result after) : 0 < cx.toNat := by
  obtain ⟨index, middle, queued, done⟩ := bind_eq_ok.mp done
  obtain ⟨found, bytes, provided, answer, -, rfl⟩ := hubIns_ok queued
  rw [bind_ok (get_apply _)] at done
  split_ifs at done with mismatch
  · cases done
  · have holds : ((machine.withStream index port (machine.stream index port ++ bytes)).stream index port).length =
        (machine.stream index port).length + bytes.length := by
      simp [Machine.stream_withStream provided.1]
    have some := Controller.answer_pos answer
    rw [holds] at mismatch
    omega

theorem requestWrite_loses (controller : Controller) (granted : host.allocates (machine.stream device port).length) :
    ¬ EndsIn Fault.Lost (controller.requestWrite host device port machine) := by
  have popped {use : Word → CPU Bool} (used : ∀ value, ThrowsOnly (fun fault => ¬ fault.Lost) (use value)) :
      ¬ EndsIn Fault.Lost ((popStream64 device port >>= use) machine) :=
    not_endsIn_of_throwsOnly
      (throwsOnly_bind (throwsOnly_popStream64 (fun _ lost => absurd lost.1 nofun) device port) used) _
  have stores (controller : Controller) :
      ThrowsOnly (fun fault => ¬ fault.Lost) (do setController device controller; return true) :=
    throwsOnly_bind (throwsOnly_setController device controller) fun _ => throwsOnly_pure _
  cases controller with
  | disk imager =>
    by_cases command : port = imager.drive.port .CMD_REQUEST_WR
    · subst command
      rw [Controller.requestWrite]
      rcases imager.requestWrite_cases host device machine granted with ⟨-, written⟩ | ⟨-, after, refused, -⟩
      · rw [written]
        exact endsIn_ok _ _
      · rw [refused]
        exact endsIn_ok _ _
    · rw [Controller.requestWrite, DiskImager.requestWrite]
      split_ifs
      · exact popped fun _ => stores _
      · exact popped fun _ => stores _
      · exact endsIn_ok _ _
  | clock rtc =>
    rw [Controller.requestWrite, RealTimeClock.requestWrite]
    split_ifs
    · exact popped fun _ => stores _
    · exact popped fun _ => throwsOnly_ite (throwsOnly_pure _) (throwsOnly_ite (throwsOnly_pure _) (stores _))
    · exact endsIn_ok _ _

theorem hubOuts_loses_iff (data : List Byte) :
    EndsIn Fault.Lost (hubOuts host port data machine) ↔ machine.RefusesOuts host port data.length := by
  rw [Machine.RefusesOuts]
  rcases queryDevice_cases port machine with ⟨device, found, provided, query⟩ | missing
  · rw [provided_iff provided fun device _ => machine.Refuses host device port data.length, hubOuts, bind_ok query,
      endsIn_bind, insertStream_loses_iff]
    refine or_iff_left ?_
    rintro ⟨_, after, inserted, failed⟩
    rw [insertStream_apply] at inserted
    split_ifs at inserted with granted
    cases inserted
    have holds : ((machine.withStream device port (machine.stream device port ++ data)).stream device port).length =
        (machine.stream device port).length + data.length := by
      simp [Machine.stream_withStream provided.1]
    rcases endsIn_bind.mp failed with early | ⟨accepted, after, -, late⟩
    · exact requestWrite_loses _ (by rw [holds]; exact granted) early
    · exact answered_loses late
  · rw [hubOuts, bind_error missing, endsIn_error]
    exact iff_of_false (fun lost => absurd lost.1 (by rintro ⟨⟩))
      (not_provided missing fun device _ => machine.Refuses host device port data.length)

end Sysdarft
