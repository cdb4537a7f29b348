import Sysdarft.Model.Construction
import Sysdarft.Proofs.PortStreams
import Sysdarft.Proofs.ProcedureFrame

/-! # Drives and their image files

Which image file a port instruction can look at or change. The constructor attaches a drive under a
file name; a port instruction finds the drive by its port. The second floppy drive is attached with the
file of the first, so its transfers go to the wrong image; every other port instruction keeps to the
image of the drive it addresses.
-/

namespace Sysdarft

open Effects

/-- Exchange all image files but one. -/
def Machine.otherFiles (file_name : String) (files : String → ImageFile) (machine : Machine) : Machine :=
  { machine with image_files := Function.update files file_name (machine.image_files file_name) }

/-- A program that neither looks at nor changes any image file but one: had the others been different,
it would do the same and leave them as they were. -/
def TouchesOnly (file_name : String) (program : CPU Unit) (machine : Machine) : Prop :=
  ∀ files, Commutes (Machine.otherFiles file_name files) program machine

/-- In particular the other images are unchanged. -/
theorem TouchesOnly.unchanged {file_name other : String} {program : CPU Unit} {machine : Machine}
    (touches : TouchesOnly file_name program machine) (apart : other ≠ file_name) :
    (final (program machine)).image_files other = machine.image_files other := by
  have same : Machine.otherFiles file_name machine.image_files machine = machine := by
    simp only [Machine.otherFiles, Function.update_eq_self]
  have commute := touches machine.image_files
  rw [Commutes, same] at commute
  rw [commute]
  cases program machine with
  | ok a after => exact Function.update_of_ne apart ..
  | error fault after => exact Function.update_of_ne apart ..

variable {file_name : String} {files : String → ImageFile} {machine : Machine}

/-! ## Programs that use no file -/

theorem commutes_readMemory (address size : Word) :
    Commutes (Machine.otherFiles file_name files) (readMemory address size) machine := by
  simp only [Commutes, readMemory, Machine.otherFiles]
  cases machine.memory.paged.readMemory address size <;> rfl

theorem commutes_writeMemory (address : Word) (source : List Byte) (size : Word) :
    Commutes (Machine.otherFiles file_name files) (writeMemory address source size) machine := by
  simp only [Commutes, writeMemory, Machine.otherFiles]
  split <;> rfl

theorem commutes_asStackOverflow {α : Type} {access : CPU α}
    (commutes : Commutes (Machine.otherFiles file_name files) access machine) :
    Commutes (Machine.otherFiles file_name files) (asStackOverflow access) machine := by
  apply commutes_tryCatch commutes
  intro fault after _
  cases fault <;> exact commutes_throw _

theorem commutes_popMemoryFrom (base offset size : Word) :
    Commutes (Machine.otherFiles file_name files) (popMemoryFrom base offset size) machine :=
  commutes_bind (commutes_asStackOverflow (commutes_readMemory _ _)) fun _ _ _ => commutes_pure _

theorem commutes_getRegisters : Commutes (Machine.otherFiles file_name files) getRegisters machine := rfl

theorem commutes_selectRegister (widthBCD index : Byte) :
    Commutes (Machine.otherFiles file_name files) (selectRegister widthBCD index) machine := by
  rw [selectRegister]
  split
  · exact commutes_pure _
  · exact commutes_ite (fun _ => commutes_throw _) fun _ => commutes_throw _

theorem commutes_getVal (operand : Operand) :
    Commutes (Machine.otherFiles file_name files) operand.getVal machine := by
  cases operand with
  | register widthBCD index =>
    exact commutes_bind (commutes_selectRegister widthBCD index) fun _ _ _ =>
      commutes_bind commutes_getRegisters fun _ _ _ => commutes_pure _
  | constant value width => exact commutes_pure value
  | memory address widthBCD =>
    rw [Operand.getVal]
    split
    · exact commutes_throw _
    · exact commutes_bind (commutes_popMemoryFrom 0 address _) fun _ _ _ => commutes_pure _

theorem commutes_setVal (value : Word) (operand : Operand) :
    Commutes (Machine.otherFiles file_name files) (operand.setVal value) machine := by
  cases operand with
  | register widthBCD index =>
    exact commutes_bind (commutes_selectRegister widthBCD index) fun _ _ _ => commutes_modify rfl
  | constant constant width => exact commutes_throw _
  | memory address widthBCD =>
    rw [Operand.setVal]
    split
    · exact commutes_throw _
    · exact commutes_writeMemory address _ _

theorem commutes_operand (arguments : Arguments) (index : ℕ) :
    Commutes (Machine.otherFiles file_name files) (arguments.operand index) machine := by
  rw [Arguments.operand]
  split
  · exact commutes_pure _
  · exact commutes_throw _

theorem commutes_argument (arguments : Arguments) (index : ℕ) :
    Commutes (Machine.otherFiles file_name files) (arguments.getVal index) machine :=
  commutes_bind (commutes_operand arguments index) fun operand _ _ => commutes_getVal operand

theorem commutes_setArgument (arguments : Arguments) (index : ℕ) (value : Word) :
    Commutes (Machine.otherFiles file_name files) (arguments.setVal index value) machine :=
  commutes_bind (commutes_operand arguments index) fun operand _ _ => commutes_setVal value operand

/-! ## Requests -/

theorem commutes_allocate (host : Host) (size : ℕ) :
    Commutes (Machine.otherFiles file_name files) (allocate host size) machine :=
  commutes_ite (fun _ => commutes_pure _) fun _ => commutes_throw _

theorem commutes_insertStream (host : Host) (device : DeviceIndex) (port : Word) (data : List Byte) :
    Commutes (Machine.otherFiles file_name files) (insertStream host device port data) machine :=
  commutes_get_bind rfl (commutes_bind (commutes_allocate host _) fun _ _ _ => commutes_modify rfl)

theorem commutes_popStream (device : DeviceIndex) (port : Word) (count : ℕ) :
    Commutes (Machine.otherFiles file_name files) (popStream device port count) machine := by
  induction count generalizing machine with
  | zero => exact commutes_pure _
  | succ count ih =>
    apply commutes_get_bind rfl
    split
    · exact commutes_throw _
    · exact commutes_bind (commutes_modify rfl) fun _ _ _ => commutes_bind ih fun _ _ _ => commutes_pure _

theorem commutes_popStream64 (device : DeviceIndex) (port : Word) :
    Commutes (Machine.otherFiles file_name files) (popStream64 device port) machine :=
  commutes_bind (commutes_popStream device port 8) fun _ _ _ => commutes_pure _

theorem commutes_setController (device : DeviceIndex) (controller : Controller) :
    Commutes (Machine.otherFiles file_name files) (setController device controller) machine := commutes_modify rfl

/-- A drive refuses to read, or reads the given file. -/
theorem commutes_diskRead {disk : DiskImager} {port : Word}
    (keeps : disk.transferInRange → port = disk.drive.port .CMD_REQUEST_RD → disk.file_name = file_name) (host : Host)
    (device : DeviceIndex) :
    Commutes (Machine.otherFiles file_name files) (disk.requestRead host device port) machine := by
  refine commutes_ite (fun _ => ?_) fun _ => commutes_ite (fun command => ?_) fun _ => commutes_pure _
  · exact commutes_bind (commutes_insertStream host device port _) fun _ _ _ => commutes_pure _
  refine commutes_ite (fun _ => commutes_pure _) fun accepted => commutes_ite (fun _ => commutes_pure _) fun _ => ?_
  have range : disk.transferInRange := by
    simpa using accepted
  obtain rfl := keeps range command
  refine commutes_bind (commutes_allocate host _) fun _ _ _ => commutes_ite (fun _ => commutes_pure _) fun _ => ?_
  apply commutes_get_bind
  · simp only [Machine.otherFiles, Function.update_self]
  · exact commutes_bind (commutes_insertStream host device port _) fun _ _ _ => commutes_pure _

theorem commutes_writeImage (disk : DiskImager) (bytes : List Byte) :
    Commutes (Machine.otherFiles disk.file_name files) (disk.writeImage bytes) machine := by
  apply commutes_modify
  simp only [Machine.otherFiles, Function.update_self, Function.update_idem]

/-- It refuses to write, or writes what is in the stream to the given file. -/
theorem commutes_diskWrite {disk : DiskImager} {port : Word} {device : DeviceIndex}
    (keeps : disk.transferInRange → port = disk.drive.port .CMD_REQUEST_WR →
      (machine.stream device port).length = (disk.sector_count * 512).toNat → disk.file_name = file_name)
    (host : Host) :
    Commutes (Machine.otherFiles file_name files) (disk.requestWrite host device port) machine := by
  refine commutes_ite (fun _ => ?_) fun _ => commutes_ite (fun _ => ?_) fun _ =>
    commutes_ite (fun command => ?_) fun _ => commutes_pure _
  · exact commutes_bind (commutes_popStream64 device port) fun _ _ _ =>
      commutes_bind (commutes_setController device _) fun _ _ _ => commutes_pure _
  · exact commutes_bind (commutes_popStream64 device port) fun _ _ _ =>
      commutes_bind (commutes_setController device _) fun _ _ _ => commutes_pure _
  refine commutes_ite (fun _ => commutes_pure _) fun accepted => ?_
  have range : disk.transferInRange := by
    simpa using accepted
  refine commutes_get_bind rfl (commutes_bind (commutes_allocate host _) fun _ _ _ => ?_)
  refine commutes_ite (fun _ => commutes_pure _) fun whole => commutes_ite (fun _ => commutes_pure _) fun _ => ?_
  obtain rfl := keeps range command (not_not.mp whole).symm
  refine commutes_bind (commutes_writeImage disk _) fun _ _ _ => commutes_ite (fun _ => commutes_pure _) fun _ => ?_
  exact commutes_bind (commutes_modify rfl) fun _ _ _ => commutes_pure _

theorem commutes_clockRead (clock : RealTimeClock) (host : Host) (device : DeviceIndex) (port : Word) :
    Commutes (Machine.otherFiles file_name files) (clock.requestRead host device port) machine :=
  commutes_ite (fun _ => commutes_bind (commutes_insertStream host device port _) fun _ _ _ => commutes_pure _)
    fun _ => commutes_pure _

theorem commutes_clockWrite (clock : RealTimeClock) (device : DeviceIndex) (port : Word) :
    Commutes (Machine.otherFiles file_name files) (clock.requestWrite device port) machine := by
  refine commutes_ite (fun _ => ?_) fun _ => commutes_ite (fun _ => ?_) fun _ => commutes_pure _
  · exact commutes_bind (commutes_popStream64 device port) fun _ _ _ =>
      commutes_bind (commutes_setController device _) fun _ _ _ => commutes_pure _
  · refine commutes_bind (commutes_popStream64 device port) fun _ _ _ => ?_
    refine commutes_ite (fun _ => commutes_pure _) fun _ => commutes_ite (fun _ => commutes_pure _) fun _ => ?_
    exact commutes_bind (commutes_setController device _) fun _ _ _ => commutes_pure _

theorem commutes_requestRead {controller : Controller} {port : Word}
    (keeps : ∀ imager, controller = .disk imager → imager.transferInRange →
      port = imager.drive.port .CMD_REQUEST_RD → imager.file_name = file_name) (host : Host) (device : DeviceIndex) :
    Commutes (Machine.otherFiles file_name files) (controller.requestRead host device port) machine := by
  cases controller with
  | disk imager => exact commutes_diskRead (keeps imager rfl) host device
  | clock rtc => exact commutes_clockRead rtc host device port

theorem commutes_requestWrite {controller : Controller} {port : Word} {device : DeviceIndex}
    (keeps : ∀ imager, controller = .disk imager → imager.transferInRange →
      port = imager.drive.port .CMD_REQUEST_WR →
      (machine.stream device port).length = (imager.sector_count * 512).toNat → imager.file_name = file_name)
    (host : Host) :
    Commutes (Machine.otherFiles file_name files) (controller.requestWrite host device port) machine := by
  cases controller with
  | disk imager => exact commutes_diskWrite (keeps imager rfl) host
  | clock rtc => exact commutes_clockWrite rtc device port

/-! ## Port instructions -/

theorem commutes_queryDevice (port : Word) :
    Commutes (Machine.otherFiles file_name files) (queryDevice port) machine := by
  apply commutes_get_bind rfl
  dsimp only
  split
  · exact commutes_throw _
  · split
    · exact commutes_pure _
    · exact commutes_throw _

theorem queryDevice_ok {port : Word} {device : DeviceIndex} {found : ExternalDevice} {after : Machine}
    (success : queryDevice port machine = .ok (device, found) after) :
    machine.Provides port device found ∧ after = machine := by
  rcases queryDevice_cases port machine with ⟨_, _, provided, query⟩ | missing
  · rw [query] at success
    cases success
    exact ⟨provided, rfl⟩
  · rw [missing] at success
    cases success

/-- The instruction makes a transfer of the drive: it is for the command port of its direction, in range, and a write
brings the stream to the length of the transfer. -/
def DiskImager.Transfers (disk : DiskImager) (instruction : PortInstruction) (machine : Machine) (device : DeviceIndex)
    (port : Word) : Prop :=
  disk.transferInRange ∧
    match instruction with
    | .in_ | .ins => port = disk.drive.port .CMD_REQUEST_RD
    | .out | .outs =>
      port = disk.drive.port .CMD_REQUEST_WR ∧
        (machine.stream device port).length + instruction.amount machine = (disk.sector_count * 512).toNat

/-- Whichever drive answers for a port with a transfer works on the file. -/
def Machine.PortKeepsTo (machine : Machine) (file_name : String) (instruction : PortInstruction) (port : Word) : Prop :=
  ∀ device found imager, machine.Provides port device found → found.controller = .disk imager →
    imager.Transfers instruction machine device port → imager.file_name = file_name

theorem commutes_hubIns {port : Word} (keeps : ∀ device found imager, machine.Provides port device found →
      found.controller = .disk imager → imager.transferInRange → port = imager.drive.port .CMD_REQUEST_RD →
      imager.file_name = file_name) (host : Host) :
    Commutes (Machine.otherFiles file_name files) (hubIns host port) machine := by
  refine commutes_bind (commutes_queryDevice port) ?_
  rintro ⟨device, found⟩ after success
  obtain ⟨provided, rfl⟩ := queryDevice_ok success
  have works (imager : DiskImager) := keeps device found imager provided
  refine commutes_bind (commutes_requestRead works host device) fun _ _ _ => ?_
  exact commutes_ite (fun _ => commutes_pure _) fun _ => commutes_throw _

theorem commutes_hubOuts {port : Word} {data : List Byte} (keeps : ∀ device found imager,
      machine.Provides port device found → found.controller = .disk imager → imager.transferInRange →
      port = imager.drive.port .CMD_REQUEST_WR →
      (machine.stream device port).length + data.length = (imager.sector_count * 512).toNat →
      imager.file_name = file_name) (host : Host) :
    Commutes (Machine.otherFiles file_name files) (hubOuts host port data) machine := by
  refine commutes_bind (commutes_queryDevice port) ?_
  rintro ⟨device, found⟩ after success
  obtain ⟨provided, rfl⟩ := queryDevice_ok success
  refine commutes_bind (commutes_insertStream host device port data) fun _ state inserted => ?_
  rw [insertStream_apply] at inserted
  split_ifs at inserted
  obtain rfl := (EStateM.Result.ok.inj inserted).2
  refine commutes_bind (commutes_requestWrite ?_ host) fun _ _ _ =>
    commutes_ite (fun _ => commutes_pure _) fun _ => commutes_throw _
  intro imager kind range command whole
  rw [Machine.stream_withStream provided.1, if_pos ⟨rfl, rfl⟩, List.length_append] at whole
  exact keeps device found imager provided kind range command whole

/-- A port instruction touches the file that the drive of its port works on. -/
theorem PortInstruction.touchesOnly (instruction : PortInstruction) (host : Host) (arguments : Arguments)
    (keeps : ∀ port, arguments.getVal 0 machine = .ok port machine → machine.PortKeepsTo file_name instruction port) :
    TouchesOnly file_name (instruction.run host arguments) machine := by
  intro files
  have addressed {port : Word} {after : Machine} (value : arguments.getVal 0 machine = .ok port after) :
      machine = after ∧ machine.PortKeepsTo file_name instruction port := by
    obtain rfl := keeps_all_ok (keeps_argument arguments 0) value
    exact ⟨rfl, keeps port value⟩
  rw [run_eq]
  cases instruction with
  | in_ =>
    refine commutes_bind (commutes_argument arguments 0) fun port after value => ?_
    obtain ⟨rfl, keepsTo⟩ := addressed value
    refine commutes_bind (commutes_hubIns ?_ host) fun device _ _ => ?_
    · exact fun device found imager provided kind range command => keepsTo device found imager provided kind ⟨range, command⟩
    exact commutes_bind (commutes_popStream64 device port) fun data _ _ => commutes_setArgument arguments 1 data
  | out =>
    refine commutes_bind (commutes_argument arguments 0) fun port after value => ?_
    obtain ⟨rfl, keepsTo⟩ := addressed value
    refine commutes_bind (commutes_argument arguments 1) fun data after known => ?_
    obtain rfl := keeps_all_ok (keeps_argument arguments 1) known
    refine commutes_hubOuts (fun device found imager provided kind range command whole => ?_) host
    rw [LittleEndian.length_bytes] at whole
    exact keepsTo device found imager provided kind ⟨range, command, whole⟩
  | ins =>
    refine commutes_bind commutes_getRegisters fun registers after same => ?_
    obtain rfl := keeps_all_ok keeps_getRegisters same
    refine commutes_bind (commutes_argument arguments 0) fun port after value => ?_
    obtain ⟨rfl, keepsTo⟩ := addressed value
    refine commutes_bind (commutes_hubIns ?_ host) fun device _ _ => ?_
    · exact fun device found imager provided kind range command => keepsTo device found imager provided kind ⟨range, command⟩
    refine commutes_get_bind rfl (commutes_ite (fun _ => commutes_throw _) fun _ => ?_)
    refine commutes_bind (commutes_allocate host _) fun _ _ _ => commutes_bind (commutes_modify rfl) fun _ _ _ => ?_
    exact commutes_writeMemory _ _ _
  | outs =>
    refine commutes_bind commutes_getRegisters fun registers after same => ?_
    obtain ⟨rfl, rfl⟩ := EStateM.Result.ok.inj same
    refine commutes_bind (commutes_argument arguments 0) fun port after value => ?_
    obtain ⟨rfl, keepsTo⟩ := addressed value
    refine commutes_bind (commutes_allocate host _) fun _ after granted => ?_
    have small : (machine.registers.load FER3).toNat < 2 ^ 63 := by
      rw [allocate] at granted
      split_ifs at granted with answered
      · exact host.allocates_lt _ answered
      · cases granted
    obtain rfl := (keeps_all_ok (keeps_allocate host _) granted).symm
    refine commutes_bind (commutes_readMemory _ _) fun data after read => ?_
    rcases readMemory_cases machine (machine.registers.DataBase + machine.registers.DataPointer) small with
      done | ⟨fault, failed⟩
    case inr =>
      rw [failed] at read
      cases read
    obtain ⟨rfl, rfl⟩ := EStateM.Result.ok.inj (done.symm.trans read)
    refine commutes_hubOuts (fun device found imager provided kind range command whole => ?_) host
    rw [FlatMemory.length_read] at whole
    exact keepsTo device found imager provided kind ⟨range, command, whole⟩

/-! ## Wiring -/

/-- Which drive a controller is and which file it has open. -/
def Controller.wiring : Controller → Option (DiskDrive × String)
  | disk imager => some (imager.drive, imager.file_name)
  | clock _ => none

/-- The wiring of all devices, in order. -/
def Machine.wiring (machine : Machine) : List (Option (DiskDrive × String)) :=
  machine.device_list.map (·.controller.wiring)

variable {device : DeviceIndex}

theorem keeps_wiring_setStream (device : DeviceIndex) (port : Word) (bytes : List Byte) :
    Keeps Machine.wiring (setStream device port bytes) := by
  intro machine
  apply List.ext_getElem?
  intro index
  simp only [setStream_apply, final_ok, Machine.wiring, Machine.withStream, List.getElem?_map, List.getElem?_modify]
  cases machine.device_list[index]? with
  | none => rfl
  | some found => by_cases same : device = index <;> simp [same]

theorem keeps_wiring_insertStream (host : Host) (device : DeviceIndex) (port : Word) (data : List Byte) :
    Keeps Machine.wiring (insertStream host device port data) :=
  keeps_bind keeps_get fun _ => keeps_bind (keeps_allocate host _) fun _ => keeps_wiring_setStream device port _

theorem keeps_wiring_popStream (device : DeviceIndex) (port : Word) (count : ℕ) :
    Keeps Machine.wiring (popStream device port count) := by
  induction count with
  | zero => exact keeps_pure _
  | succ count ih =>
    refine keeps_bind keeps_get fun machine => ?_
    split
    · exact keeps_throw _
    · exact keeps_bind (keeps_wiring_setStream device port _) fun _ => keeps_bind ih fun _ => keeps_pure _

theorem keeps_wiring_popStream64 (device : DeviceIndex) (port : Word) :
    Keeps Machine.wiring (popStream64 device port) :=
  keeps_bind (keeps_wiring_popStream device port 8) fun _ => keeps_pure _

/-- A controller replaced by one of the same wiring. -/
theorem wiring_setController (machine : Machine) (device : DeviceIndex) (controller : Controller)
    (same : machine.wiring[device]? = some controller.wiring) :
    (final (setController device controller machine)).wiring = machine.wiring := by
  apply List.ext_getElem?
  intro index
  simp only [setController_apply, final_ok, Machine.wiring, Machine.withController, List.getElem?_map,
    List.getElem?_modify]
  by_cases reached : device = index
  · subst reached
    rw [Machine.wiring, List.getElem?_map] at same
    rw [same]
    cases present : machine.device_list[device]? with
    | none =>
      rw [present] at same
      cases same
    | some found => simp
  · cases machine.device_list[index]? <;> simp [reached]

/-- Requests never rewire a device. -/
theorem wiring_requestWrite (host : Host) (port : Word) {controller : Controller}
    (same : machine.wiring[device]? = some controller.wiring) :
    (final (controller.requestWrite host device port machine)).wiring = machine.wiring := by
  have assign (updated : Controller) (unchanged : updated.wiring = controller.wiring) (state : Machine)
      (kept : state.wiring = machine.wiring) :
      (final ((setController device updated >>= fun _ => (return true : CPU Bool)) state)).wiring = state.wiring := by
    have stored := wiring_setController state device updated (by rw [kept, same, unchanged])
    exact stored
  cases controller with
  | disk imager =>
    rw [Controller.requestWrite, DiskImager.requestWrite]
    by_cases start : port = imager.drive.port .REG_START_SEC
    · rw [if_pos start]
      refine kept_bind (keeps_wiring_popStream64 device port) fun _ state kept => ?_
      apply assign
      · rfl
      · exact kept
    by_cases count : port = imager.drive.port .REG_SEC_COUNT
    · rw [if_neg start, if_pos count]
      refine kept_bind (keeps_wiring_popStream64 device port) fun _ state kept => ?_
      apply assign
      · rfl
      · exact kept
    rw [if_neg start, if_neg count]
    refine keeps_ite (keeps_ite (keeps_pure _) ?_) (keeps_pure _) machine
    refine keeps_bind keeps_get fun state => keeps_bind (keeps_allocate host _) fun _ => ?_
    refine keeps_ite (keeps_pure _) (keeps_ite (keeps_pure _) (keeps_bind (fun _ => rfl) fun _ => ?_))
    exact keeps_ite (keeps_pure _) (keeps_bind (keeps_wiring_setStream device port []) fun _ => keeps_pure _)
  | clock rtc =>
    rw [Controller.requestWrite, RealTimeClock.requestWrite]
    by_cases time : port = RTC_CURRENT_TIME
    · rw [if_pos time]
      refine kept_bind (keeps_wiring_popStream64 device port) fun _ state kept => ?_
      apply assign
      · simp only [Controller.wiring]
      · exact kept
    by_cases interrupt : port = RTC_SET_INTERRUPT
    · rw [if_neg time, if_pos interrupt]
      refine kept_bind (keeps_wiring_popStream64 device port) fun value state kept => ?_
      split_ifs
      · rfl
      · rfl
      · apply assign
        · rfl
        · exact kept
    · rw [if_neg time, if_neg interrupt]
      rfl

theorem keeps_wiring_requestRead (host : Host) (device : DeviceIndex) (port : Word) (controller : Controller) :
    Keeps Machine.wiring (controller.requestRead host device port) := by
  intro machine
  rcases controller.requestRead_cases host device port machine with ⟨bytes, -, -, queued⟩ | ⟨-, refused⟩ | ⟨-, failed⟩
  · rw [queued]
    exact keeps_wiring_setStream device port _ machine
  · rw [refused]
    rfl
  · rw [failed]
    rfl

theorem Machine.Provides.wiring {port : Word} {found : ExternalDevice} (provided : machine.Provides port device found) :
    machine.wiring[device]? = some found.controller.wiring := by
  rw [Machine.wiring, List.getElem?_map, provided.1]
  rfl

theorem keeps_wiring_hubIns (host : Host) (port : Word) : Keeps Machine.wiring (hubIns host port) := by
  refine keeps_bind (keeps_queryDevice port) fun found => ?_
  refine keeps_bind (keeps_wiring_requestRead host found.1 port found.2.controller) fun accepted => ?_
  exact keeps_ite (keeps_pure _) (keeps_throw _)

theorem keeps_wiring_hubOuts (host : Host) (port : Word) (data : List Byte) :
    Keeps Machine.wiring (hubOuts host port data) := by
  intro machine
  rw [hubOuts, bind_apply]
  rcases queryDevice_cases port machine with ⟨device, found, provided, query⟩ | missing
  · rw [query]
    refine kept_bind (keeps_wiring_insertStream host device port data) fun _ state kept => ?_
    have same : state.wiring[device]? = some found.controller.wiring := by
      rw [kept]
      exact provided.wiring
    have requested := wiring_requestWrite host port same
    rw [bind_apply]
    cases outcome : found.controller.requestWrite host device port state with
    | ok accepted after =>
      rw [outcome] at requested
      cases accepted <;> exact requested
    | error fault after =>
      rw [outcome] at requested
      exact requested
  · rw [missing]
    rfl

/-- Port instructions never rewire a device. -/
theorem PortInstruction.keeps_wiring (instruction : PortInstruction) (host : Host) (arguments : Arguments) :
    Keeps Machine.wiring (instruction.run host arguments) := by
  have devices {program : CPU Unit} (kept : Keeps Machine.devices program) : Keeps Machine.wiring program :=
    fun state => congrArg (fun devices => devices.1.map fun found => found.controller.wiring) (kept state)
  rw [run_eq]
  cases instruction with
  | in_ =>
    refine keeps_bind (keeps_argument arguments 0) fun port => keeps_bind (keeps_wiring_hubIns host port) fun device => ?_
    exact keeps_bind (keeps_wiring_popStream64 device port) fun data => devices (keeps_devices_argument arguments 1 data)
  | out =>
    refine keeps_bind (keeps_argument arguments 0) fun port => keeps_bind (keeps_argument arguments 1) fun data => ?_
    exact keeps_wiring_hubOuts host port _
  | ins =>
    refine keeps_bind keeps_getRegisters fun registers => keeps_bind (keeps_argument arguments 0) fun port => ?_
    refine keeps_bind (keeps_wiring_hubIns host port) fun device => keeps_bind keeps_get fun state => ?_
    refine keeps_ite (keeps_throw _) (keeps_bind (keeps_allocate host _) fun _ => ?_)
    exact keeps_bind (keeps_wiring_setStream device port []) fun _ => devices (keeps_devices_writeMemory _ _ _)
  | outs =>
    refine keeps_bind keeps_getRegisters fun registers => keeps_bind (keeps_argument arguments 0) fun port => ?_
    refine keeps_bind (keeps_allocate host _) fun _ => keeps_bind (keeps_readMemory _ _) fun data => ?_
    exact keeps_wiring_hubOuts host port data

/-! ## The constructor -/

/-- The file a drive is opened with. Both floppy drives get the image of the first. -/
def DiskDrive.opened (hdd fda : String) : DiskDrive → String
  | hardDisk => hdd
  | floppyA => fda
  | floppyB => fda

/-- The image file named for a drive. -/
def DiskDrive.image (hdd fda fdb : String) : DiskDrive → String
  | hardDisk => hdd
  | floppyA => fda
  | floppyB => fdb

/-- Every drive of a machine has the file open that the constructor gave it. -/
def Machine.WiredAs (machine : Machine) (hdd fda : String) : Prop :=
  ∀ drive file_name, some (drive, file_name) ∈ machine.wiring → file_name = drive.opened hdd fda

theorem addDisk_wired {host : Host} {drive : DiskDrive} {hdd fda : String} {after : Machine}
    (wired : machine.WiredAs hdd fda) (added : addDisk host drive (drive.opened hdd fda) machine = .ok () after) :
    after.WiredAs hdd fda := by
  simp only [addDisk, run_ite, throw_apply, bind_apply, get_apply, addDevice, modify_apply] at added
  split_ifs at added
  cases added
  intro other file_name member
  simp only [Machine.wiring, List.map_append, List.mem_append, List.map_cons, List.map_nil, List.mem_singleton,
    Controller.wiring, Option.some.injEq, Prod.mk.injEq] at member
  rcases member with earlier | ⟨rfl, rfl⟩
  · exact wired other file_name earlier
  · rfl

theorem attach_wired {host : Host} {named : String} (drive : DiskDrive) {hdd fda : String} {after : Machine}
    (wired : machine.WiredAs hdd fda) (added : attach host named drive (drive.opened hdd fda) machine = .ok () after) :
    after.WiredAs hdd fda := by
  rw [attach, run_ite] at added
  split_ifs at added
  · exact addDisk_wired wired added
  · cases added
    exact wired

/-- The wiring of a constructed machine. -/
theorem construct_wired {host : Host} {memory : GuestMemory} {bios : List Byte} {hdd fda fdb : String} {built : Machine}
    (success : construct host bios hdd fda fdb (Machine.blank memory files) = .ok () built) : built.WiredAs hdd fda := by
  obtain ⟨_, loaded, written, success⟩ := bind_eq_ok.mp success
  have blank : loaded.WiredAs hdd fda := by
    have kept := keeps_devices_writeMemory (BitVec.ofNat 64 BIOS_START) bios
      (BitVec.ofNat 64 (if bios.length > BIOS_SIZE then BIOS_SIZE else bios.length)) (Machine.blank memory files)
    rw [written] at kept
    have list : loaded.device_list = [] := congrArg Prod.fst kept
    intro drive file_name member
    rw [Machine.wiring, list] at member
    cases member
  obtain ⟨_, withDisk, added, success⟩ := bind_eq_ok.mp success
  have first := attach_wired .hardDisk blank added
  obtain ⟨_, withFloppyA, added, success⟩ := bind_eq_ok.mp success
  have second := attach_wired .floppyA first added
  obtain ⟨_, withFloppyB, added, success⟩ := bind_eq_ok.mp success
  have third := attach_wired .floppyB second added
  simp only [addClock, addDevice, run_ite, throw_apply, modify_apply] at success
  split_ifs at success
  cases success
  intro drive file_name member
  simp only [Machine.wiring, List.map_append, List.mem_append, List.map_cons, List.map_nil, List.mem_singleton,
    Controller.wiring, reduceCtorEq, or_false] at member
  exact third drive file_name member

/-! ## Runs -/

/-- The states that port instructions lead to, with anything in between that leaves the devices alone. -/
inductive PortRun (start : Machine) : Machine → Prop where
  | start : PortRun start start
  | port {machine : Machine} (earlier : PortRun start machine) (instruction : PortInstruction) (host : Host)
      (arguments : Arguments) : PortRun start (final (instruction.run host arguments machine))
  | other {machine after : Machine} (earlier : PortRun start machine)
      (untouched : after.device_list = machine.device_list) : PortRun start after

theorem PortRun.wiring {start : Machine} (run : PortRun start machine) : machine.wiring = start.wiring := by
  induction run with
  | start => rfl
  | port earlier instruction host arguments ih => exact (instruction.keeps_wiring host arguments _).trans ih
  | other earlier untouched ih =>
    rw [Machine.wiring, untouched]
    exact ih

/-- The instruction makes no transfer of the second floppy drive. -/
def Machine.SparesFloppyB (machine : Machine) (instruction : PortInstruction) (port : Word) : Prop :=
  ∀ device found imager, machine.Provides port device found → found.controller = .disk imager →
    imager.drive = .floppyB → ¬ imager.Transfers instruction machine device port

theorem DiskDrive.ports_disjoint {first second : DiskDrive} {port : Word} (left : port ∈ first.ports)
    (right : port ∈ second.ports) : first = second := by
  revert left right
  cases first <;> cases second <;> simp [DiskDrive.ports, DiskDrive.port] <;> rintro (rfl | rfl | rfl | rfl | rfl) <;> decide

/-- The device that answers for a port of a drive keeps to the image of that drive, unless it is the
second floppy drive making a transfer. -/
theorem Machine.WiredAs.keepsTo {hdd fda : String} (fdb : String) (wired : machine.WiredAs hdd fda) {drive : DiskDrive}
    {instruction : PortInstruction} {port : Word} (member : port ∈ drive.ports)
    (spares : machine.SparesFloppyB instruction port) :
    machine.PortKeepsTo (drive.image hdd fda fdb) instruction port := by
  intro device found imager provided kind transfers
  have provides := provided.2.1
  rw [kind, List.contains_iff_mem] at provides
  obtain rfl := DiskDrive.ports_disjoint member provides
  have file : imager.file_name = imager.drive.opened hdd fda := by
    apply wired
    have entry := provided.wiring
    rw [kind] at entry
    exact List.mem_of_getElem? entry
  cases which : imager.drive with
  | hardDisk => rw [file, which, DiskDrive.opened, DiskDrive.image]
  | floppyA => rw [file, which, DiskDrive.opened, DiskDrive.image]
  | floppyB => exact absurd transfers (spares device found imager provided kind which)

/-- Drives that were constructed with three different images do not interfere: from any state of a run,
an instruction addressed to a port of a drive touches only the image of that drive, and the other two
images are unchanged, as long as it is no transfer of the second floppy drive. -/
theorem drives_apart (built machine : Machine) (memory : GuestMemory) (files : String → ImageFile) (builder : Host)
    (bios : List Byte) (hdd fda fdb : String) (distinct : hdd ≠ fda ∧ hdd ≠ fdb ∧ fda ≠ fdb)
    (success : construct builder bios hdd fda fdb (Machine.blank memory files) = .ok () built)
    (run : PortRun built machine) (instruction : PortInstruction) (host : Host) (arguments : Arguments)
    (drive : DiskDrive) (port : Word) (addressed : arguments.getVal 0 machine = .ok port machine)
    (member : port ∈ drive.ports) (spares : machine.SparesFloppyB instruction port) :
    TouchesOnly (drive.image hdd fda fdb) (instruction.run host arguments) machine ∧
    ∀ other, other ≠ drive → (final (instruction.run host arguments machine)).image_files (other.image hdd fda fdb) =
      machine.image_files (other.image hdd fda fdb) := by
  have wired : machine.WiredAs hdd fda := by
    intro drive file_name entry
    rw [run.wiring] at entry
    exact construct_wired success drive file_name entry
  have touches : TouchesOnly (drive.image hdd fda fdb) (instruction.run host arguments) machine := by
    apply instruction.touchesOnly host arguments
    intro found known
    rw [addressed] at known
    obtain rfl : port = found := by
      injection known
    exact wired.keepsTo fdb member spares
  refine ⟨touches, fun other apart => touches.unchanged ?_⟩
  obtain ⟨first, second, third⟩ := distinct
  cases drive <;> cases other <;> first | exact absurd rfl apart | skip
  · exact first.symm
  · exact second.symm
  · exact first
  · exact third.symm
  · exact second
  · exact third

/-- A machine with three images of two sectors, all bytes one. -/
def Machine.threeDrives : Machine :=
  final (construct Host.ample [] "hdd" "fda" "fdb"
    (Machine.blank GuestMemory.cleared fun _ => { size := 1024, contents := fun _ => 1 }))

theorem construct_threeDrives :
    construct Host.ample [] "hdd" "fda" "fdb"
      (Machine.blank GuestMemory.cleared fun _ => { size := 1024, contents := fun _ => 1 }) =
      .ok () Machine.threeDrives := rfl

/-- The operands of `OUT .64bit` to a port of a drive. -/
def DiskDrive.setting (drive : DiskDrive) (port : DiskPort) (value : Word) : Arguments where
  width := Width.w64.bcd
  operands := [.constant (drive.port port) Width.w64.bcd, .constant value Width.w64.bcd]

/-- The operand of `OUTS .64bit` to the *WRITE* port of a drive. -/
def DiskDrive.writing (drive : DiskDrive) : Arguments where
  width := Width.w64.bcd
  operands := [.constant (drive.port .CMD_REQUEST_WR) Width.w64.bcd]

/-- The three drives, of which one is set to its first sector, with a sector of zeros ready in memory. -/
def Machine.readyToWrite (drive : DiskDrive) : Machine :=
  let started := final (PortInstruction.out.run Host.ample (drive.setting .REG_START_SEC 0) Machine.threeDrives)
  let counted := final (PortInstruction.out.run Host.ample (drive.setting .REG_SEC_COUNT 1) started)
  { counted with registers := { Machine.powerOn.registers with FullyExtendedRegister := fun _ => 512 } }

theorem run_readyToWrite (drive : DiskDrive) : PortRun Machine.threeDrives (Machine.readyToWrite drive) := by
  have started : PortRun Machine.threeDrives _ := .port .start .out Host.ample (drive.setting .REG_START_SEC 0)
  exact .other (.port started .out Host.ample (drive.setting .REG_SEC_COUNT 1)) rfl

/-- The same when the sector has been written. -/
def Machine.withSector (drive : DiskDrive) : Machine :=
  final (PortInstruction.outs.run Host.ample drive.writing (Machine.readyToWrite drive))

/-- A sector written to the first floppy drive changes its image and no other. -/
theorem drives_apart_floppyA :
    ((Machine.readyToWrite .floppyA).image_files "fda").contents 0 = 1 ∧
      ((Machine.withSector .floppyA).image_files "fda").contents 0 = 0 ∧
      (Machine.withSector .floppyA).image_files "hdd" = (Machine.readyToWrite .floppyA).image_files "hdd" ∧
      (Machine.withSector .floppyA).image_files "fdb" = (Machine.readyToWrite .floppyA).image_files "fdb" := by
  have spares : (Machine.readyToWrite .floppyA).SparesFloppyB .outs (DiskDrive.floppyA.port .CMD_REQUEST_WR) := by
    rintro device found imager provided kind which ⟨-, command, -⟩
    rw [which] at command
    exact absurd command (by decide)
  have others := (drives_apart Machine.threeDrives (Machine.readyToWrite .floppyA) GuestMemory.cleared _ Host.ample []
    "hdd" "fda" "fdb" (by decide) construct_threeDrives (run_readyToWrite .floppyA) .outs Host.ample
    DiskDrive.floppyA.writing .floppyA _ rfl (by decide) spares).2
  have hdd := others .hardDisk (by decide)
  have fdb := others .floppyB (by decide)
  simp only [DiskDrive.image] at hdd fdb
  refine ⟨by decide +kernel, by decide +kernel, ?_⟩
  rw [Machine.withSector]
  exact ⟨hdd, fdb⟩

/-- The same sector written to the second floppy drive changes the image of the first. -/
theorem not_drives_apart_floppyB :
    construct Host.ample [] "hdd" "fda" "fdb"
        (Machine.blank GuestMemory.cleared fun _ => { size := 1024, contents := fun _ => 1 }) =
      .ok () Machine.threeDrives ∧
    PortRun Machine.threeDrives (Machine.readyToWrite .floppyB) ∧
    DiskDrive.floppyB.writing.getVal 0 (Machine.readyToWrite .floppyB) =
      .ok (DiskDrive.floppyB.port .CMD_REQUEST_WR) (Machine.readyToWrite .floppyB) ∧
    (final (PortInstruction.outs.run Host.ample DiskDrive.floppyB.writing
      (Machine.readyToWrite .floppyB))).image_files "fda" ≠ (Machine.readyToWrite .floppyB).image_files "fda" := by
  refine ⟨construct_threeDrives, run_readyToWrite .floppyB, rfl, ?_⟩
  intro same
  have written : ((Machine.withSector .floppyB).image_files "fda").contents 0 = 0 := by decide +kernel
  have before : ((Machine.readyToWrite .floppyB).image_files "fda").contents 0 = 1 := by decide +kernel
  rw [Machine.withSector, same, before] at written
  exact absurd written (by decide)

end Sysdarft
