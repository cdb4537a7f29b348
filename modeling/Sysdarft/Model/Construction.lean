import Sysdarft.Model.Executor

/-! # Construction

The constructor of `SysdarftCPU`: it loads the BIOS, attaches the drives whose images are named and
attaches the clock. The base classes have set up the registers, cleared memory and no device.
-/

namespace Sysdarft

def BIOS_END : ℕ := 0xFFFFF
def BIOS_SIZE : ℕ := BIOS_END - BIOS_START + 1

/-- The object as the base class constructors leave it. -/
def Machine.blank (memory : GuestMemory) (image_files : String → ImageFile) : Machine :=
  { Machine.powerOn with memory := memory, device_list := [], image_files := image_files }

/-- `add_device`. -/
def addDevice (controller : Controller) : CPU Unit :=
  modify fun machine =>
    { machine with
      device_list := machine.device_list ++ [{ controller := controller, device_buffer := fun _ => [] }] }

/-- `add_device` of a drive: its constructor opens and locks the image and takes its size. -/
def addDisk (host : Host) (drive : DiskDrive) (file_name : String) : CPU Unit := do
  if !host.opens file_name then throw (.deviceIOError ("Cannot open file " ++ file_name))
  else if !host.locks file_name then
    throw (.deviceIOError ("Failed to lock file " ++ file_name ++ ", possibly used by another process?"))
  else
    let device_size := ((← get).image_files file_name).size
    addDevice (.disk { drive := drive, file_name := file_name, start_sector := 0, sector_count := 0,
                       device_size := device_size })

/-- `add_device` of the clock, which starts its thread. -/
def addClock (host : Host) : CPU Unit :=
  if !host.startsThread then throw .systemError
  else addDevice (.clock { startTime := host.now, machineTime := host.now, interruption_number := 0,
                           interruption_scale := 0 })

/-- `if (!named.empty()) add_device<...>(file_name)`. -/
def attach (host : Host) (named : String) (drive : DiskDrive) (file_name : String) : CPU Unit :=
  if named ≠ "" then addDisk host drive file_name else return ()

/-- The body of the constructor. A drive is attached when its image is named; the second floppy drive
is given the image of the first. -/
def construct (host : Host) (bios : List Byte) (hdd fda fdb : String) : CPU Unit := do
  let size := if bios.length > BIOS_SIZE then BIOS_SIZE else bios.length
  writeMemory (BitVec.ofNat 64 BIOS_START) bios (BitVec.ofNat 64 size)
  attach host hdd .hardDisk hdd
  attach host fda .floppyA fda
  attach host fdb .floppyB fda
  addClock host

end Sysdarft
