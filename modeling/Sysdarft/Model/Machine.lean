import Sysdarft.Model.Memory
import Sysdarft.Model.Register
import Sysdarft.Library.Numerals

/-! # The machine

The state of a `SysdarftCPU` object as its instruction execution sees it: the register file, the
guest memory, the text display, the attached devices with the image files they work on, and the
bookkeeping fields of the executor.
Programs over it run in `CPU`, where a throw keeps the state reached so far.

The constructor establishes the bounds on the memory size: the console takes the size in megabytes,
the block vector holds at most `2^63 - 1` bytes, and the BIOS is loaded at `BIOS_START`. No later
operation changes the size, so `GuestMemory` carries the bounds.

What the host decides is in `Host`: whether memory, a thread or a file transfer is granted, what the
clock shows, and how a wait for input ends.
-/

namespace Sysdarft

def INTERRUPTION_VECTOR : ℕ := 0xA0000
def INTERRUPTION_VEC_ED : ℕ := 0xA0FFF
def MAX_INTERRUPTION_ENTRY : ℕ := (INTERRUPTION_VEC_ED - INTERRUPTION_VECTOR + 1) / 16
def VIDEO_MEMORY_START : ℕ := 0xB8000
def BIOS_START : ℕ := 0xC1800

/-- The memory of a constructed machine. -/
structure GuestMemory where
  paged : PagedMemory
  aligned : paged.Aligned
  holdsBios : BIOS_START ≤ paged.TotalMemory.toNat
  addressable : paged.TotalMemory.toNat < 2 ^ 63

/-- Replace the contents, not the size. -/
def GuestMemory.replace (memory : GuestMemory) (paged : PagedMemory)
    (sized : paged.TotalMemory = memory.paged.TotalMemory) : GuestMemory where
  paged := paged
  aligned := by rw [PagedMemory.Aligned, sized]; exact memory.aligned
  holdsBios := by rw [sized]; exact memory.holdsBios
  addressable := by rw [sized]; exact memory.addressable

/-! ## Exceptions -/

/-- What instruction execution can throw. The first eight are the handled error classes; `abort`
is thrown by the interruption code itself; the rest come from the C++ library or are host traps and
undefined behaviour, and no handler of the CPU names them. -/
inductive Fault where
  | deviceIOError (message : String)
  | badInterruption (message : String)
  | interruptionOutOfRange (message : String)
  | illegalInstruction (message : String)
  | stackOverflow
  | illegalMemoryAccess (message : String)
  | noSuchDevice (message : String)
  | baseError (message : String)
  | abort
  | outOfRange
  | badAllocation
  | systemError
  | arithmeticTrap
  | undefined
deriving DecidableEq, Repr

def Fault.ofMemory : MemoryFault → Fault
  | .illegalMemoryAccess message => .illegalMemoryAccess message
  | .undefined => .undefined

/-! ## The host -/

/-- How the wait of interruption `0x14` ends. -/
inductive InputEvent where
  | halted
  | abortRequested
  | key (code : BitVec 32)
  | externalDeviceRequested

structure Host where
  /-- Whether an allocation of that many bytes is granted. -/
  allocates : ℕ → Bool
  allocates_lt : ∀ size, allocates size = true → size < 2 ^ 63
  startsThread : Bool
  inputEvent : InputEvent
  /-- The system clock, in nanoseconds. -/
  now : Word
  /-- Whether `lseek64` accepts an offset. -/
  seeks : Word → Bool
  /-- What `<<` and `>>` make of a 64-bit value and a count from 64 on, which the language leaves undefined. -/
  shiftsLeft : Word → Word → Word
  shiftsRight : Word → Word → Word
  /-- How many bytes a file transfer of a length at an offset moves. -/
  transfers : Word → Word → ℕ
  /-- Whether an image file can be opened. -/
  opens : String → Bool
  /-- Whether an open image file can be locked; locks of one process do not exclude each other. -/
  locks : String → Bool

/-! ## Devices -/

/-- The three instances of the disk template. -/
inductive DiskDrive where
  | hardDisk | floppyA | floppyB
deriving DecidableEq, Repr

inductive DiskPort where
  | REG_SIZE | REG_START_SEC | REG_SEC_COUNT | CMD_REQUEST_RD | CMD_REQUEST_WR
deriving DecidableEq, Repr

/-- The template arguments of the drives. -/
def DiskDrive.port : DiskDrive → DiskPort → Word
  | hardDisk, .REG_SIZE => 0x136
  | hardDisk, .REG_START_SEC => 0x137
  | hardDisk, .REG_SEC_COUNT => 0x138
  | hardDisk, .CMD_REQUEST_RD => 0x139
  | hardDisk, .CMD_REQUEST_WR => 0x13A
  | floppyA, .REG_SIZE => 0x116
  | floppyA, .REG_START_SEC => 0x117
  | floppyA, .REG_SEC_COUNT => 0x118
  | floppyA, .CMD_REQUEST_RD => 0x119
  | floppyA, .CMD_REQUEST_WR => 0x11A
  | floppyB, .REG_SIZE => 0x126
  | floppyB, .REG_START_SEC => 0x127
  | floppyB, .REG_SEC_COUNT => 0x128
  | floppyB, .CMD_REQUEST_RD => 0x129
  | floppyB, .CMD_REQUEST_WR => 0x12A

def DiskDrive.ports (drive : DiskDrive) : List Word :=
  [drive.port .REG_SIZE, drive.port .REG_START_SEC, drive.port .REG_SEC_COUNT,
    drive.port .CMD_REQUEST_RD, drive.port .CMD_REQUEST_WR]

def RTC_CURRENT_TIME : Word := 0x70
def RTC_SET_INTERRUPT : Word := 0x71

/-- An image file of the host; no transfer changes its size. -/
structure ImageFile where
  size : Word
  contents : ℕ → Byte

/-- `SysdarftDiskImager`, which keeps its image file open. -/
structure DiskImager where
  drive : DiskDrive
  file_name : String
  start_sector : Word
  sector_count : Word
  device_size : Word

/-- `SysdarftRealTimeClock`; times are nanoseconds. -/
structure RealTimeClock where
  startTime : Word
  machineTime : Word
  interruption_number : Word
  interruption_scale : Word

inductive Controller where
  | disk (imager : DiskImager)
  | clock (clock : RealTimeClock)

def Controller.ports : Controller → List Word
  | disk imager => imager.drive.ports
  | clock _ => [RTC_CURRENT_TIME, RTC_SET_INTERRUPT]

/-- A device with the data streams of its ports. -/
structure ExternalDevice where
  controller : Controller
  device_buffer : Word → List Byte

/-! ## The state -/

def V_WIDTH : ℕ := 80
def V_HEIGHT : ℕ := 25

structure Machine where
  registers : Registers
  memory : GuestMemory
  cursor_x : Fin V_WIDTH
  cursor_y : Fin V_HEIGHT
  cursor_visible : Bool
  device_list : List ExternalDevice
  image_files : String → ImageFile
  ip_before_pop : Word
  current_routine_pop_len : Word
  Int3DebugInterrupt : Bool
  SystemHalted : Bool
  translate_cr_to_lf : Bool

/-- Cleared memory of one megabyte, the smallest size the console accepts. -/
def GuestMemory.cleared : GuestMemory where
  paged := { TotalMemory := 0x100000, Memory := fun _ _ => 0 }
  aligned := ⟨256, rfl⟩
  holdsBios := by decide
  addressable := by decide

/-- A machine as it is powered on, with an empty BIOS and no drives. Its video memory is zeros, where the program starts
with spaces. -/
def Machine.powerOn : Machine where
  registers :=
    { FullyExtendedRegister := fun _ => 0, FlagRegister := 0, StackBase := 0, StackPointer := 0, CodeBase := 0
      InstructionPointer := BitVec.ofNat 64 BIOS_START, DataBase := 0, DataPointer := 0, ExtendedBase := 0
      ExtendedPointer := 0, CurrentProcedureStackPreservationSpace := 0, ProtectedModeRegisters := fun _ => 0 }
  memory := GuestMemory.cleared
  cursor_x := ⟨0, by decide⟩
  cursor_y := ⟨0, by decide⟩
  cursor_visible := true
  device_list :=
    [{ controller := .clock { startTime := 0, machineTime := 0, interruption_number := 0, interruption_scale := 0 }
       device_buffer := fun _ => [] }]
  image_files := fun _ => { size := 0, contents := fun _ => 0 }
  ip_before_pop := 0
  current_routine_pop_len := 0
  Int3DebugInterrupt := false
  SystemHalted := false
  translate_cr_to_lf := false

/-- A host with a gigabyte to give and working files. -/
def Host.ample : Host where
  allocates := fun size => decide (size ≤ 2 ^ 30)
  allocates_lt := fun size granted => lt_of_le_of_lt (of_decide_eq_true granted) (by decide)
  startsThread := true
  inputEvent := .abortRequested
  now := 0
  seeks := fun offset => decide (offset.toNat < 2 ^ 63)
  shiftsLeft := fun value count => value <<< (count.toNat % 64)
  shiftsRight := fun value count => value >>> (count.toNat % 64)
  transfers := fun _ length => length.toNat
  opens := fun _ => true
  locks := fun _ => true

abbrev CPU := EStateM Fault Machine

/-- Change the register file. -/
def modifyRegisters (change : Registers → Registers) : CPU Unit :=
  modify fun machine => { machine with registers := change machine.registers }

/-- Use the register file. -/
def getRegisters : CPU Registers := do
  return (← get).registers

/-! ## Memory access -/

/-- `read_memory` of the machine. -/
def readMemory (address size : Word) : CPU (List Byte) := fun machine =>
  match machine.memory.paged.readMemory address size with
  | .ok bytes => .ok bytes machine
  | .error fault => .error (.ofMemory fault) machine

/-- `write_memory` of the machine. -/
def writeMemory (address : Word) (source : List Byte) (size : Word) : CPU Unit := fun machine =>
  let outcome := PagedMemory.writeMemory address source size machine.memory.paged
  let memory := machine.memory.replace (Effects.final outcome) (PagedMemory.writeMemory_sized address source size _)
  match outcome with
  | .ok _ _ => .ok () { machine with memory := memory }
  | .error fault _ => .error (.ofMemory fault) { machine with memory := memory }

/-- `catch (IllegalMemoryAccessException &) { throw StackOverflow(); }`. -/
def asStackOverflow {α : Type} (access : CPU α) : CPU α :=
  tryCatch access fun fault =>
    match fault with
    | .illegalMemoryAccess _ => throw .stackOverflow
    | other => throw other

/-- `push_memory_to`: the new value of the offset. -/
def pushMemoryTo (base offset : Word) (data : List Byte) : CPU Word := do
  let size := BitVec.ofNat 64 data.length
  if offset < size then throw .stackOverflow
  else
    asStackOverflow (writeMemory (base + (offset - size)) data size)
    return offset - size

/-- `pop_memory_from`: the bytes and the new value of the offset. -/
def popMemoryFrom (base offset size : Word) : CPU (List Byte × Word) := do
  let data ← asStackOverflow (readMemory (base + offset) size)
  return (data, offset + size)

end Sysdarft
