import Sysdarft.Proofs.PortStreams

/-! # Block devices as sector arrays

A transfer sets the start sector and the sector count of a drive and then moves a block between guest
memory and the image. Over any sequence of transfers a drive behaves as an array: a read delivers the
bytes written last, or the initial image where nothing was written.
-/

namespace Sysdarft

open Effects

/-! ## A drive that is attached -/

/-- A drive at a place in the device list with nothing in its streams, found first for its ports. -/
structure Machine.HasDrive (machine : Machine) (device : DeviceIndex) (imager : DiskImager) : Prop where
  present : machine.device_list[device]? = some { controller := .disk imager, device_buffer := fun _ => [] }
  first : ∀ earlier < device, ∀ other, machine.device_list[earlier]? = some other →
    ∀ port ∈ imager.drive.ports, ¬ other.controller.ports.contains port

/-- What happened elsewhere left a drive, its ports and its image alone. -/
structure Machine.DriveKept (device : DeviceIndex) (before after : Machine) : Prop where
  same : after.device_list[device]? = before.device_list[device]?
  earlier : ∀ index < device, (after.device_list[index]?).map (·.controller.ports) =
    (before.device_list[index]?).map (·.controller.ports)
  image : ∀ imager buffer, before.device_list[device]? = some { controller := .disk imager, device_buffer := buffer } →
    after.image_files imager.file_name = before.image_files imager.file_name

variable {machine : Machine} {device : DeviceIndex} {imager : DiskImager} {host : Host}

theorem DiskDrive.port_mem (drive : DiskDrive) (port : DiskPort) : drive.port port ∈ drive.ports := by
  cases port <;> simp [DiskDrive.ports]

theorem Machine.HasDrive.provides (attached : machine.HasDrive device imager) (port : DiskPort) :
    machine.Provides (imager.drive.port port) device { controller := .disk imager, device_buffer := fun _ => [] } := by
  have member := imager.drive.port_mem port
  refine ⟨attached.present, ?_, ?_⟩
  · rw [List.contains_iff_mem]
    exact member
  · intro earlier before other present
    exact attached.first earlier before other present _ member

theorem Machine.HasDrive.stream (attached : machine.HasDrive device imager) (port : Word) :
    machine.stream device port = [] := Machine.stream_of_device attached.present

theorem Machine.HasDrive.kept {after : Machine} (attached : machine.HasDrive device imager)
    (kept : Machine.DriveKept device machine after) :
    after.HasDrive device imager ∧ after.image_files imager.file_name = machine.image_files imager.file_name := by
  refine ⟨⟨kept.same.trans attached.present, ?_⟩, kept.image imager _ attached.present⟩
  intro earlier before other present port member provides
  have ports := kept.earlier earlier before
  rw [present, Option.map_some] at ports
  obtain ⟨previous, found, samePorts⟩ := Option.map_eq_some_iff.mp ports.symm
  exact attached.first earlier before previous found port member (by rw [samePorts]; exact provides)

/-- Setting the registers of a drive leaves it attached. -/
theorem Machine.HasDrive.withController (attached : machine.HasDrive device imager) (updated : DiskImager)
    (same : updated.drive = imager.drive) : (machine.withController device (.disk updated)).HasDrive device updated := by
  constructor
  · simp [Machine.withController, attached.present]
  · intro earlier before other present port member
    have apart : device ≠ earlier := Nat.ne_of_gt before
    rw [Machine.withController, List.getElem?_modify_ne _ _ apart] at present
    rw [same] at member
    exact attached.first earlier before other present port member

/-! ## One port instruction -/

/-- What a host has to do for a device of a size: grant buffers, seek inside the image and transfer
whole blocks. -/
structure Host.Serves (host : Host) (size : Word) : Prop where
  allocates : ∀ amount ≤ size.toNat, host.allocates amount
  seeks : ∀ offset : Word, offset.toNat < size.toNat → host.seeks offset
  transfers : ∀ offset length : Word, offset.toNat + length.toNat ≤ size.toNat →
    host.transfers offset length = length.toNat

/-- `hubOuts` on a register port hands the value to the drive. -/
theorem hubOuts_register {port : DiskPort} {update : Word → DiskImager} (attached : machine.HasDrive device imager)
    (granted : host.allocates 8) (data : Word)
    (register : imager.requestWrite host device (imager.drive.port port) =
      popStream64 device (imager.drive.port port) >>= fun value =>
        setController device (.disk (update value)) >>= fun _ => return true) :
    hubOuts host (imager.drive.port port) (LittleEndian.bytes 8 data.toNat) machine =
      .ok () (machine.withController device (.disk (update data))) :=
  hubOuts_popped (attached.stream _) (attached.provides port) granted data register

theorem out_start (attached : machine.HasDrive device imager) (granted : host.allocates 8) {arguments : Arguments}
    {value : Word} (port : arguments.getVal 0 machine = .ok (imager.drive.port .REG_START_SEC) machine)
    (data : arguments.getVal 1 machine = .ok value machine) :
    PortInstruction.out.run host arguments machine =
      .ok () (machine.withController device (.disk { imager with start_sector := value })) := by
  have register : imager.requestWrite host device (imager.drive.port .REG_START_SEC) =
      popStream64 device (imager.drive.port .REG_START_SEC) >>= fun value =>
        setController device (.disk { imager with start_sector := value }) >>= fun _ => return true := by
    simp only [DiskImager.requestWrite, if_true]
  rw [PortInstruction.run_eq]
  simp only [out, bind_apply, port, data]
  exact hubOuts_register attached granted value register

theorem out_count (attached : machine.HasDrive device imager) (granted : host.allocates 8) {arguments : Arguments}
    {value : Word} (port : arguments.getVal 0 machine = .ok (imager.drive.port .REG_SEC_COUNT) machine)
    (data : arguments.getVal 1 machine = .ok value machine) :
    PortInstruction.out.run host arguments machine =
      .ok () (machine.withController device (.disk { imager with sector_count := value })) := by
  have apart : imager.drive.port .REG_SEC_COUNT ≠ imager.drive.port .REG_START_SEC := by
    rw [Ne, DiskDrive.port_inj]
    decide
  have register : imager.requestWrite host device (imager.drive.port .REG_SEC_COUNT) =
      popStream64 device (imager.drive.port .REG_SEC_COUNT) >>= fun value =>
        setController device (.disk { imager with sector_count := value }) >>= fun _ => return true := by
    simp only [DiskImager.requestWrite, if_neg apart, if_true]
  rw [PortInstruction.run_eq]
  simp only [out, bind_apply, port, data]
  exact hubOuts_register attached granted value register

/-! ## The block of a transfer -/

/-- The drive is set to a block of its sectors. -/
structure DiskImager.SetTo (imager : DiskImager) (start count : ℕ) : Prop where
  start_sector : imager.start_sector = BitVec.ofNat 64 start
  sector_count : imager.sector_count = BitVec.ofNat 64 count
  nonempty : 1 ≤ count
  inside : start + count ≤ imager.device_size.toNat / 512

namespace DiskImager.SetTo

variable {start count : ℕ}

theorem fits (set : imager.SetTo start count) : start * 512 + count * 512 ≤ imager.device_size.toNat := by
  have inside := set.inside
  omega

theorem length_le (set : imager.SetTo start count) : count * 512 ≤ imager.device_size.toNat :=
  (Nat.le_add_left ..).trans set.fits

theorem length_pos (set : imager.SetTo start count) : 0 < count * 512 := by
  have nonempty := set.nonempty
  omega

theorem toNat_offset (set : imager.SetTo start count) : (imager.start_sector * 512).toNat = start * 512 := by
  have fits := set.fits
  have bound := imager.device_size.isLt
  rw [set.start_sector, BitVec.toNat_mul, BitVec.toNat_ofNat]
  change start % 2 ^ 64 * 512 % 2 ^ 64 = start * 512
  omega

theorem toNat_length (set : imager.SetTo start count) : (imager.sector_count * 512).toNat = count * 512 := by
  have fits := set.fits
  have bound := imager.device_size.isLt
  rw [set.sector_count, BitVec.toNat_mul, BitVec.toNat_ofNat]
  change count % 2 ^ 64 * 512 % 2 ^ 64 = count * 512
  omega

/-- The 64-bit checks of the drive pass. -/
theorem inRange (set : imager.SetTo start count) : imager.transferInRange := by
  have fits := set.fits
  have bound := imager.device_size.isLt
  have nonempty := set.nonempty
  have offset := set.toNat_offset
  have length := set.toNat_length
  have ended : ((imager.start_sector + imager.sector_count) * 512).toNat = start * 512 + count * 512 := by
    rw [set.start_sector, set.sector_count, BitVec.toNat_mul, BitVec.toNat_add, BitVec.toNat_ofNat, BitVec.toNat_ofNat]
    change (start % 2 ^ 64 + count % 2 ^ 64) % 2 ^ 64 * 512 % 2 ^ 64 = _
    omega
  have summed : (imager.start_sector * 512 + imager.sector_count * 512).toNat = start * 512 + count * 512 := by
    rw [BitVec.toNat_add, offset, length]
    omega
  have some : imager.sector_count * 512 ≠ 0 := by
    intro zero
    rw [zero] at length
    change 0 = count * 512 at length
    omega
  simp only [DiskImager.transferInRange, Bool.and_eq_true, Bool.not_eq_true', decide_eq_false_iff_not, BitVec.lt_def,
    ended, summed, beq_eq_false_iff_ne]
  exact ⟨⟨not_lt.mpr fits, some⟩, not_lt.mpr fits⟩

theorem accepts (set : imager.SetTo start count) (serves : host.Serves imager.device_size) :
    imager.AcceptsWrite host (count * 512) := by
  have fits := set.fits
  have nonempty := set.nonempty
  refine ⟨set.inRange, set.toNat_length, serves.seeks _ ?_, serves.transfers _ _ ?_⟩
  · rw [set.toNat_offset]
    omega
  · rw [set.toNat_offset, set.toNat_length]
    exact fits

theorem answers (set : imager.SetTo start count) (serves : host.Serves imager.device_size) (files : String → ImageFile) :
    imager.answer host files (imager.drive.port .CMD_REQUEST_RD) =
      some (FlatMemory.read (files imager.file_name).contents (start * 512) (count * 512)) := by
  obtain ⟨range, -, seeks, moved⟩ := set.accepts serves
  have apart : imager.drive.port .CMD_REQUEST_RD ≠ imager.drive.port .REG_SIZE := by
    rw [Ne, DiskDrive.port_inj]
    decide
  simp only [DiskImager.answer, if_neg apart, range, seeks, moved, and_self, if_true, DiskImager.contents, set.toNat_offset,
    set.toNat_length]

end DiskImager.SetTo

/-- The guest's buffer: its place in memory and its length in bytes. -/
structure Machine.Buffer (machine : Machine) (amount : ℕ) : Prop where
  length : (machine.registers.load FER3).toNat = amount
  inside : (machine.registers.DataBase + machine.registers.DataPointer).toNat + amount ≤ machine.memory.total

/-- The address of the guest's buffer, `DB:DP`. -/
def Machine.buffer (machine : Machine) : ℕ := (machine.registers.DataBase + machine.registers.DataPointer).toNat

variable {start count : ℕ} {arguments : Arguments}

/-- `INS` from a drive that is set to a block stores the block of the image in the guest's buffer. -/
theorem ins_block (attached : machine.HasDrive device imager) (set : imager.SetTo start count)
    (serves : host.Serves imager.device_size) (buffer : machine.Buffer (count * 512))
    (port : arguments.getVal 0 machine = .ok (imager.drive.port .CMD_REQUEST_RD) machine) :
    PortInstruction.ins.run host arguments machine =
      .ok () (machine.overwrite machine.buffer
        (FlatMemory.read (machine.image_files imager.file_name).contents (start * 512) (count * 512))) := by
  have granted : host.allocates
      (FlatMemory.read (machine.image_files imager.file_name).contents (start * 512) (count * 512)).length := by
    rw [FlatMemory.length_read]
    exact serves.allocates _ set.length_le
  have delivered := (machine.delivers (attached.stream _) port (attached.provides .CMD_REQUEST_RD)
    (set.answers serves machine.image_files) granted).2 (by rw [FlatMemory.length_read, buffer.length])
  rw [delivered]
  apply writeMemory_inside
  · rw [buffer.length]
    exact buffer.inside
  · rw [buffer.length]
    exact set.length_pos
  · rw [FlatMemory.length_read, buffer.length]

/-- `OUTS` to a drive that is set to a block writes the guest's buffer to the block of the image. -/
theorem outs_block (attached : machine.HasDrive device imager) (set : imager.SetTo start count)
    (serves : host.Serves imager.device_size) (buffer : machine.Buffer (count * 512))
    (port : arguments.getVal 0 machine = .ok (imager.drive.port .CMD_REQUEST_WR) machine) :
    PortInstruction.outs.run host arguments machine =
      .ok () (machine.withImage imager (FlatMemory.read machine.memory.peek machine.buffer (count * 512))) := by
  have granted := serves.allocates (count * 512) set.length_le
  have provided := attached.provides .CMD_REQUEST_WR
  have empty := attached.stream (imager.drive.port .CMD_REQUEST_WR)
  have read : readMemory (machine.registers.DataBase + machine.registers.DataPointer) (machine.registers.load FER3)
      machine = .ok (FlatMemory.read machine.memory.peek machine.buffer (count * 512)) machine := by
    rw [readMemory_inside (by rw [buffer.length]; exact buffer.inside) (by rw [buffer.length]; exact set.length_pos),
      buffer.length]
    rfl
  have holds : (machine.withStream device (imager.drive.port .CMD_REQUEST_WR)
      (FlatMemory.read machine.memory.peek machine.buffer (count * 512))).stream device
        (imager.drive.port .CMD_REQUEST_WR) = FlatMemory.read machine.memory.peek machine.buffer (count * 512) := by
    simp [Machine.stream_withStream provided.1]
  have written := imager.requestWrite_cases host device (machine.withStream device (imager.drive.port .CMD_REQUEST_WR)
    (FlatMemory.read machine.memory.peek machine.buffer (count * 512)))
    (by rw [holds, FlatMemory.length_read]; exact granted)
  simp only [holds, FlatMemory.length_read] at written
  rcases written with ⟨-, success⟩ | ⟨refused, -⟩
  · have emptied : ((machine.withStream device (imager.drive.port .CMD_REQUEST_WR)
        (FlatMemory.read machine.memory.peek machine.buffer (count * 512))).withImage imager
          (FlatMemory.read machine.memory.peek machine.buffer (count * 512))).withStream device
            (imager.drive.port .CMD_REQUEST_WR) [] =
        machine.withImage imager (FlatMemory.read machine.memory.peek machine.buffer (count * 512)) := by
      have streams : (machine.withImage imager
          (FlatMemory.read machine.memory.peek machine.buffer (count * 512))).stream device
            (imager.drive.port .CMD_REQUEST_WR) = [] := empty
      have commute : (machine.withStream device (imager.drive.port .CMD_REQUEST_WR)
          (FlatMemory.read machine.memory.peek machine.buffer (count * 512))).withImage imager
            (FlatMemory.read machine.memory.peek machine.buffer (count * 512)) =
          (machine.withImage imager (FlatMemory.read machine.memory.peek machine.buffer (count * 512))).withStream device
            (imager.drive.port .CMD_REQUEST_WR)
            (FlatMemory.read machine.memory.peek machine.buffer (count * 512)) := rfl
      rw [commute, Machine.withStream_withStream, Machine.withStream_nil streams]
    rw [emptied] at success
    rw [PortInstruction.run_eq]
    simp only [outs, bind_apply, getRegisters, get_apply, pure_apply, port, allocate, buffer.length, granted, if_true, read,
      hubOuts, queryDevice_provided provided, insertStream_apply, empty, List.length_nil, Nat.zero_add,
      FlatMemory.length_read, List.nil_append, Controller.requestWrite, success]
  · exact absurd (set.accepts serves) refused

/-! ## Transfers -/

/-- A transfer of sectors: the bytes of a write, or none for a read. -/
structure Transfer where
  start : ℕ
  count : ℕ
  data : Option (List Byte)

namespace Transfer

/-- A block of at least one sector of a device of a size in bytes. -/
def Legal (transfer : Transfer) (size : Word) : Prop :=
  1 ≤ transfer.count ∧ transfer.start + transfer.count ≤ size.toNat / 512

def instruction (transfer : Transfer) : PortInstruction :=
  if transfer.data.isSome then .outs else .ins

def command (transfer : Transfer) : DiskPort :=
  if transfer.data.isSome then .CMD_REQUEST_WR else .CMD_REQUEST_RD

end Transfer

/-- The byte at a position after a history of transfers, newest first: the byte written last, or the
byte of the initial image. -/
def lastWritten (initial : ℕ → Byte) : List Transfer → ℕ → Byte
  | [], position => initial position
  | transfer :: earlier, position =>
    match transfer.data with
    | none => lastWritten initial earlier position
    | some bytes =>
      if transfer.start * 512 ≤ position then
        (bytes[position - transfer.start * 512]?).getD (lastWritten initial earlier position)
      else lastWritten initial earlier position

theorem lastWritten_read (initial : ℕ → Byte) (transfer : Transfer) (earlier : List Transfer)
    (reads : transfer.data = none) : lastWritten initial (transfer :: earlier) = lastWritten initial earlier := by
  funext position
  simp only [lastWritten, reads]

theorem lastWritten_write (initial : ℕ → Byte) (transfer : Transfer) (earlier : List Transfer) {bytes : List Byte}
    (writes : transfer.data = some bytes) :
    lastWritten initial (transfer :: earlier) =
      FlatMemory.write (lastWritten initial earlier) (transfer.start * 512) bytes := by
  funext position
  simp only [lastWritten, writes, FlatMemory.write]
  by_cases below : position < transfer.start * 512
  · rw [if_neg (not_le.mpr below), if_pos below]
  · rw [if_pos (not_lt.mp below), if_neg below]

/-- The three port instructions of a transfer, with the states a guest executes them in. -/
structure Issue where
  startHost : Host
  startArguments : Arguments
  startReady : Machine
  countHost : Host
  countArguments : Arguments
  countReady : Machine
  blockHost : Host
  blockArguments : Arguments
  blockReady : Machine

namespace Issue

def setStart (issue : Issue) : EStateM.Result Fault Machine Unit :=
  PortInstruction.out.run issue.startHost issue.startArguments issue.startReady

def setCount (issue : Issue) : EStateM.Result Fault Machine Unit :=
  PortInstruction.out.run issue.countHost issue.countArguments issue.countReady

def moveBlock (issue : Issue) (transfer : Transfer) : EStateM.Result Fault Machine Unit :=
  transfer.instruction.run issue.blockHost issue.blockArguments issue.blockReady

/-- The instructions name the ports of the drive, the start, the count and a buffer in memory, and what
the guest does between them leaves the drive alone. -/
structure Performs (issue : Issue) (drive : DiskDrive) (device : DeviceIndex) (size : Word) (transfer : Transfer)
    (machine : Machine) : Prop where
  startServes : issue.startHost.Serves size
  startKept : Machine.DriveKept device machine issue.startReady
  startPort : issue.startArguments.getVal 0 issue.startReady = .ok (drive.port .REG_START_SEC) issue.startReady
  startValue : issue.startArguments.getVal 1 issue.startReady = .ok (BitVec.ofNat 64 transfer.start) issue.startReady
  countServes : issue.countHost.Serves size
  countKept : Machine.DriveKept device (final issue.setStart) issue.countReady
  countPort : issue.countArguments.getVal 0 issue.countReady = .ok (drive.port .REG_SEC_COUNT) issue.countReady
  countValue : issue.countArguments.getVal 1 issue.countReady = .ok (BitVec.ofNat 64 transfer.count) issue.countReady
  blockServes : issue.blockHost.Serves size
  blockKept : Machine.DriveKept device (final issue.setCount) issue.blockReady
  blockPort : issue.blockArguments.getVal 0 issue.blockReady = .ok (drive.port transfer.command) issue.blockReady
  buffer : issue.blockReady.Buffer (transfer.count * 512)
  data : ∀ bytes, transfer.data = some bytes →
    bytes = FlatMemory.read issue.blockReady.memory.peek issue.blockReady.buffer (transfer.count * 512)

/-- No instruction of the transfer fails. -/
def Succeeds (issue : Issue) (transfer : Transfer) : Prop :=
  (∃ after, issue.setStart = .ok () after) ∧ (∃ after, issue.setCount = .ok () after) ∧
    ∃ after, issue.moveBlock transfer = .ok () after

end Issue

/-- A sequence of transfers, newest first. A failed instruction does not end it. -/
inductive Transfers (drive : DiskDrive) (device : DeviceIndex) (size : Word) (first : Machine) :
    List Transfer → Machine → Prop where
  | start : Transfers drive device size first [] first
  | next {history : List Transfer} {machine : Machine} (earlier : Transfers drive device size first history machine)
      (transfer : Transfer) (legal : transfer.Legal size) (issue : Issue)
      (performs : issue.Performs drive device size transfer machine) :
      Transfers drive device size first (transfer :: history) (final (issue.moveBlock transfer))

/-- A drive is attached and its image has the given contents. -/
structure Machine.HoldsImage (machine : Machine) (device : DeviceIndex) (drive : DiskDrive) (file_name : String)
    (size : Word) (contents : ℕ → Byte) : Prop where
  drive : ∃ imager, machine.HasDrive device imager ∧ imager.drive = drive ∧ imager.file_name = file_name ∧
    imager.device_size = size
  contents : (machine.image_files file_name).contents = contents

variable {drive : DiskDrive} {file_name : String} {size : Word} {contents : ℕ → Byte} {transfer : Transfer}
  {issue : Issue}

/-- After the two register writes the drive is set to the block, and nothing else about it changed. -/
theorem Issue.Performs.set (performs : issue.Performs drive device size transfer machine) (legal : transfer.Legal size)
    (holds : machine.HoldsImage device drive file_name size contents) :
    (∃ after, issue.setStart = .ok () after) ∧ (∃ after, issue.setCount = .ok () after) ∧
    ∃ imager, issue.blockReady.HasDrive device imager ∧ imager.drive = drive ∧ imager.file_name = file_name ∧
      imager.device_size = size ∧ imager.SetTo transfer.start transfer.count ∧
      (issue.blockReady.image_files file_name).contents = contents := by
  obtain ⟨⟨imager, attached, rfl, rfl, rfl⟩, image⟩ := holds
  have eight : 8 ≤ imager.device_size.toNat := by
    obtain ⟨nonempty, inside⟩ := legal
    omega
  obtain ⟨startAttached, startImage⟩ := attached.kept performs.startKept
  have started : issue.setStart = .ok () (issue.startReady.withController device
      (.disk { imager with start_sector := BitVec.ofNat 64 transfer.start })) :=
    out_start startAttached (performs.startServes.allocates 8 eight) performs.startPort performs.startValue
  have countKept := performs.countKept
  rw [started, final_ok] at countKept
  obtain ⟨countAttached, countImage⟩ := (startAttached.withController
    { imager with start_sector := BitVec.ofNat 64 transfer.start } rfl).kept countKept
  have counted : issue.setCount = .ok () (issue.countReady.withController device
      (.disk { imager with start_sector := BitVec.ofNat 64 transfer.start
                           sector_count := BitVec.ofNat 64 transfer.count })) :=
    out_count countAttached (performs.countServes.allocates 8 eight) performs.countPort performs.countValue
  have blockKept := performs.blockKept
  rw [counted, final_ok] at blockKept
  obtain ⟨blockAttached, blockImage⟩ := (countAttached.withController
    { imager with start_sector := BitVec.ofNat 64 transfer.start, sector_count := BitVec.ofNat 64 transfer.count }
      rfl).kept blockKept
  refine ⟨⟨_, started⟩, ⟨_, counted⟩, _, blockAttached, rfl, rfl, rfl, ⟨rfl, rfl, legal.1, legal.2⟩, ?_⟩
  have unchanged := blockImage.trans (countImage.trans startImage)
  exact (congrArg ImageFile.contents unchanged).trans image

/-- One transfer succeeds: a read stores the block of the image, a write replaces it. -/
theorem Issue.Performs.block (performs : issue.Performs drive device size transfer machine) (legal : transfer.Legal size)
    (holds : machine.HoldsImage device drive file_name size contents) :
    issue.Succeeds transfer ∧
    (transfer.data = none →
      FlatMemory.read (final (issue.moveBlock transfer)).memory.peek issue.blockReady.buffer (transfer.count * 512) =
          FlatMemory.read contents (transfer.start * 512) (transfer.count * 512) ∧
        (final (issue.moveBlock transfer)).HoldsImage device drive file_name size contents) ∧
    (∀ bytes, transfer.data = some bytes → bytes.length = transfer.count * 512 ∧
      (final (issue.moveBlock transfer)).HoldsImage device drive file_name size
        (FlatMemory.write contents (transfer.start * 512) bytes)) := by
  obtain ⟨started, counted, imager, attached, rfl, rfl, rfl, set, image⟩ := performs.set legal holds
  cases kind : transfer.data with
  | none =>
    have command : transfer.command = .CMD_REQUEST_RD := by
      rw [Transfer.command, kind]
      rfl
    have port := performs.blockPort
    rw [command] at port
    have moved : issue.moveBlock transfer = .ok () (issue.blockReady.overwrite issue.blockReady.buffer
        (FlatMemory.read contents (transfer.start * 512) (transfer.count * 512))) := by
      rw [← image, Issue.moveBlock, Transfer.instruction, kind]
      exact ins_block attached set performs.blockServes performs.buffer port
    refine ⟨⟨started, counted, _, moved⟩, fun _ => ?_, fun bytes writes => nomatch writes⟩
    rw [moved, final_ok]
    refine ⟨?_, ⟨imager, ⟨attached.present, attached.first⟩, rfl, rfl, rfl⟩, image⟩
    have inside := performs.buffer.inside
    have view : (issue.blockReady.overwrite issue.blockReady.buffer
        (FlatMemory.read contents (transfer.start * 512) (transfer.count * 512))).memory.peek =
        FlatMemory.write issue.blockReady.memory.peek issue.blockReady.buffer
          (FlatMemory.read contents (transfer.start * 512) (transfer.count * 512)) := by
      apply GuestMemory.peek_overwrite
      rw [FlatMemory.length_read]
      exact inside
    rw [view]
    exact FlatMemory.read_write_whole FlatMemory.length_read
  | some bytes =>
    have command : transfer.command = .CMD_REQUEST_WR := by
      rw [Transfer.command, kind]
      rfl
    have port := performs.blockPort
    rw [command] at port
    have moved : issue.moveBlock transfer = .ok () (issue.blockReady.withImage imager bytes) := by
      rw [performs.data bytes kind, Issue.moveBlock, Transfer.instruction, kind]
      exact outs_block attached set performs.blockServes performs.buffer port
    refine ⟨⟨started, counted, _, moved⟩, (fun reads => nomatch reads), ?_⟩
    rintro written writes
    obtain rfl := Option.some.inj writes
    rw [moved, final_ok]
    refine ⟨?_, ⟨imager, ⟨attached.present, attached.first⟩, rfl, rfl, rfl⟩, ?_⟩
    · rw [performs.data bytes kind, FlatMemory.length_read]
    · simp only [Machine.withImage, Function.update_self, set.toNat_offset, image]

/-- The drive stays attached through any sequence of transfers, and its image is what the history says. -/
theorem Transfers.holds {first : Machine} {history : List Transfer}
    (start : first.HoldsImage device drive file_name size contents)
    (run : Transfers drive device size first history machine) :
    machine.HoldsImage device drive file_name size (lastWritten contents history) := by
  induction run with
  | start => exact start
  | next earlier transfer legal issue performs ih =>
    obtain ⟨-, reads, writes⟩ := performs.block legal ih
    cases kind : transfer.data with
    | none =>
      rw [lastWritten_read _ _ _ kind]
      exact (reads kind).2
    | some bytes =>
      rw [lastWritten_write _ _ _ kind]
      exact (writes bytes kind).2

/-- Over any sequence of transfers a drive is an array of sectors: the next transfer succeeds, a read
delivers the bytes written last, and the image is afterwards what it was except for the block of a
write, which holds the guest's bytes. -/
theorem transfers_sectorArray (drive : DiskDrive) (device : DeviceIndex) (file_name : String) (size : Word)
    (initial : ℕ → Byte) (first machine : Machine) (history : List Transfer)
    (start : first.HoldsImage device drive file_name size initial)
    (run : Transfers drive device size first history machine)
    (transfer : Transfer) (legal : transfer.Legal size) (issue : Issue)
    (performs : issue.Performs drive device size transfer machine) :
    issue.Succeeds transfer ∧
    (transfer.data = none →
      FlatMemory.read (final (issue.moveBlock transfer)).memory.peek issue.blockReady.buffer (transfer.count * 512) =
        FlatMemory.read (lastWritten initial history) (transfer.start * 512) (transfer.count * 512)) ∧
    ((final (issue.moveBlock transfer)).image_files file_name).contents = lastWritten initial (transfer :: history) ∧
    (∀ position, position < transfer.start * 512 ∨ (transfer.start + transfer.count) * 512 ≤ position →
      ((final (issue.moveBlock transfer)).image_files file_name).contents position =
        (machine.image_files file_name).contents position) := by
  have holds := run.holds start
  obtain ⟨succeeds, reads, writes⟩ := performs.block legal holds
  refine ⟨succeeds, fun kind => (reads kind).1, ?_⟩
  rw [holds.contents]
  cases kind : transfer.data with
  | none =>
    have kept := (reads kind).2.contents
    rw [lastWritten_read _ _ _ kind, kept]
    exact ⟨rfl, fun _ _ => rfl⟩
  | some bytes =>
    obtain ⟨length, after⟩ := writes bytes kind
    rw [lastWritten_write _ _ _ kind, after.contents]
    refine ⟨rfl, fun position outside => FlatMemory.write_outside ?_⟩
    rw [length, ← Nat.add_mul]
    exact outside

theorem Machine.DriveKept.of_devices {before after : Machine} (device : DeviceIndex)
    (same : after.devices = before.devices) : Machine.DriveKept device before after := by
  have list : after.device_list = before.device_list := congrArg Prod.fst same
  have files : after.image_files = before.image_files := congrArg Prod.snd same
  exact ⟨by rw [list], fun _ _ => by rw [list], fun _ _ _ => by rw [files]⟩

theorem Host.ample_serves : Host.ample.Serves 1024 where
  allocates amount small := decide_eq_true (small.trans (by decide))
  seeks offset small := decide_eq_true (small.trans (by decide))
  transfers _ _ _ := rfl

/-- A transfer of the first sector. -/
def Transfer.firstSector (data : Option (List Byte)) : Transfer where
  start := 0
  count := 1
  data := data

/-- A sector to move in the buffer at address zero. -/
def guestRegisters : Registers := { Machine.powerOn.registers with FullyExtendedRegister := fun _ => 512 }

/-- The instructions of such a transfer of the hard disk, with the memory from address zero on as the buffer. -/
def Issue.firstSector (machine : Machine) (memory : GuestMemory) (command : DiskPort) : Issue :=
  let operands (port : DiskPort) (value : Word) : Arguments :=
    { width := Width.w64.bcd
      operands := [.constant (DiskDrive.hardDisk.port port) Width.w64.bcd, .constant value Width.w64.bcd] }
  let countReady := final (PortInstruction.out.run Host.ample (operands .REG_START_SEC 0) machine)
  let counted := final (PortInstruction.out.run Host.ample (operands .REG_SEC_COUNT 1) countReady)
  { startHost := Host.ample
    startArguments := operands .REG_START_SEC 0
    startReady := machine
    countHost := Host.ample
    countArguments := operands .REG_SEC_COUNT 1
    countReady := countReady
    blockHost := Host.ample
    blockArguments :=
      { width := Width.w64.bcd, operands := [.constant (DiskDrive.hardDisk.port command) Width.w64.bcd] }
    blockReady :=
      { counted with
        registers := guestRegisters
        memory := memory } }

theorem Issue.firstSector_performs (machine : Machine) (memory : GuestMemory) (data : Option (List Byte))
    (fits : 512 ≤ memory.total) (ready : ∀ bytes, data = some bytes → bytes = FlatMemory.read memory.peek 0 512) :
    (Issue.firstSector machine memory (Transfer.firstSector data).command).Performs .hardDisk 0 1024
      (Transfer.firstSector data) machine where
  startServes := Host.ample_serves
  startKept := .of_devices 0 rfl
  startPort := rfl
  startValue := rfl
  countServes := Host.ample_serves
  countKept := .of_devices 0 rfl
  countPort := rfl
  countValue := rfl
  blockServes := Host.ample_serves
  blockKept := .of_devices 0 rfl
  blockPort := rfl
  buffer := by
    have loaded : (guestRegisters.load FER3).toNat = 1 * 512 := by decide
    have start : (guestRegisters.DataBase + guestRegisters.DataPointer).toNat = 0 := by decide
    refine ⟨loaded, ?_⟩
    change (guestRegisters.DataBase + guestRegisters.DataPointer).toNat + 1 * 512 ≤ memory.total
    rwa [start, Nat.zero_add, Nat.one_mul]
  data := by
    have start : (guestRegisters.DataBase + guestRegisters.DataPointer).toNat = 0 := by decide
    intro bytes same
    change bytes = FlatMemory.read memory.peek (guestRegisters.DataBase + guestRegisters.DataPointer).toNat (1 * 512)
    rw [start, Nat.one_mul]
    exact ready bytes same

/-- A sector of sevens. -/
def sevens : List Byte := List.replicate 512 7

/-- A memory that begins with it. -/
def GuestMemory.sevens : GuestMemory := GuestMemory.cleared.overwrite 0 Sysdarft.sevens

/-- The hard disk when the sector has been written to it. -/
def Machine.withSevens : Machine :=
  final ((Issue.firstSector Machine.withDrive GuestMemory.sevens .CMD_REQUEST_WR).moveBlock
    (Transfer.firstSector (some Sysdarft.sevens)))

/-- A sector that is written to the disk is read from it, though the memory has been cleared in between. -/
theorem transfers_sectorArray_sevens :
    let issue := Issue.firstSector Machine.withSevens GuestMemory.cleared .CMD_REQUEST_RD
    issue.Succeeds (Transfer.firstSector none) ∧
      FlatMemory.read (final (issue.moveBlock (Transfer.firstSector none))).memory.peek 0 512 = Sysdarft.sevens := by
  have attached : Machine.withDrive.HasDrive 0 .twoSectors :=
    ⟨rfl, fun earlier before => absurd before (Nat.not_lt_zero earlier)⟩
  have holds : Machine.withDrive.HoldsImage 0 .hardDisk "disk" 1024 (fun _ => 0) :=
    ⟨⟨.twoSectors, attached, rfl, rfl, rfl⟩, rfl⟩
  have ready : Sysdarft.sevens = FlatMemory.read GuestMemory.sevens.peek 0 512 := by
    have inside : 0 + Sysdarft.sevens.length ≤ GuestMemory.cleared.total := by
      rw [Sysdarft.sevens, List.length_replicate]
      decide
    rw [GuestMemory.sevens, GuestMemory.peek_overwrite _ inside]
    exact (FlatMemory.read_write_whole List.length_replicate).symm
  have written : Transfers .hardDisk 0 1024 Machine.withDrive [Transfer.firstSector (some Sysdarft.sevens)]
      Machine.withSevens :=
    .next .start _ ⟨by decide, by decide⟩ _
      (Issue.firstSector_performs _ _ _ (by decide) fun _ same => (Option.some.inj same).symm.trans ready)
  have performs : (Issue.firstSector Machine.withSevens GuestMemory.cleared .CMD_REQUEST_RD).Performs .hardDisk 0 1024
      (Transfer.firstSector none) Machine.withSevens := Issue.firstSector_performs _ _ none (by decide) nofun
  obtain ⟨succeeds, reads, -⟩ := transfers_sectorArray .hardDisk 0 "disk" 1024 (fun _ => 0) Machine.withDrive
    Machine.withSevens _ holds written (Transfer.firstSector none) ⟨by decide, by decide⟩ _ performs
  refine ⟨succeeds, (reads rfl).trans ?_⟩
  rw [lastWritten_write _ _ _ rfl]
  exact FlatMemory.read_write_whole List.length_replicate

end Sysdarft
