import Sysdarft.Model.Decoder

/-! # Devices and the IO hub

`SysdarftIOHub` finds the device that provides a port and moves data between the CPU and the data
stream of that port. Block devices transfer sectors of an image file; the clock keeps the time.

Streams are vectors that grow with what the guest writes, so each growth asks the host for memory.
-/

namespace Sysdarft

/-- Ask the host for memory of a size the guest chose. -/
def allocate (host : Host) (size : ℕ) : CPU Unit :=
  if host.allocates size then return () else throw .badAllocation

/-! ## Data streams -/

/-- A device is addressed by its place in the device list. -/
abbrev DeviceIndex := ℕ

/-- The stream of a port; a device that is not there has none. -/
def Machine.stream (machine : Machine) (device : DeviceIndex) (port : Word) : List Byte :=
  match machine.device_list[device]? with
  | some found => found.device_buffer port
  | none => []

def setStream (device : DeviceIndex) (port : Word) (bytes : List Byte) : CPU Unit :=
  modify fun machine =>
    { machine with
      device_list := machine.device_list.modify device fun found =>
        { found with device_buffer := Function.update found.device_buffer port bytes } }

def setController (device : DeviceIndex) (controller : Controller) : CPU Unit :=
  modify fun machine =>
    { machine with
      device_list := machine.device_list.modify device fun found => { found with controller := controller } }

/-- `ControllerDataStream::insert` and `push`: append to a stream. -/
def insertStream (host : Host) (device : DeviceIndex) (port : Word) (data : List Byte) : CPU Unit := do
  let old := (← get).stream device port
  allocate host (old.length + data.length)
  setStream device port (old ++ data)

/-- The loop of `ControllerDataStream::pop`: bytes leave the front one by one. -/
def popStream (device : DeviceIndex) (port : Word) : ℕ → CPU (List Byte)
  | 0 => return []
  | count + 1 => do
    match (← get).stream device port with
    | [] => throw (.deviceIOError "Device buffer is empty")
    | byte :: rest =>
      setStream device port rest
      return byte :: (← popStream device port count)

/-- `pop<uint64_t>`. -/
def popStream64 (device : DeviceIndex) (port : Word) : CPU Word := do
  return BitVec.ofNat 64 (LittleEndian.value (← popStream device port 8))

/-! ## Block devices -/

namespace DiskImager

/-- The checks made before a transfer, in 64-bit arithmetic. -/
def transferInRange (disk : DiskImager) : Bool :=
  let ops_end_sector := (disk.start_sector + disk.sector_count) * 512
  let start_off := disk.start_sector * 512
  let length := disk.sector_count * 512
  !decide (disk.device_size < ops_end_sector) && !(length == 0) && !decide (disk.device_size < start_off + length)

/-- The bytes of an image that a read transfers. -/
def contents (disk : DiskImager) (image : ImageFile) : List Byte :=
  FlatMemory.read image.contents (disk.start_sector * 512).toNat (disk.sector_count * 512).toNat

/-- `write` to the image file, which may move fewer bytes than asked for. -/
def writeImage (disk : DiskImager) (bytes : List Byte) : CPU Unit :=
  modify fun machine =>
    { machine with
      image_files := Function.update machine.image_files disk.file_name
        { machine.image_files disk.file_name with
          contents := FlatMemory.write (machine.image_files disk.file_name).contents
            (disk.start_sector * 512).toNat bytes } }

def requestRead (host : Host) (device : DeviceIndex) (disk : DiskImager) (port : Word) : CPU Bool := do
  if port = disk.drive.port .REG_SIZE then
    insertStream host device port (LittleEndian.bytes 8 (disk.device_size.toNat / 512))
    return true
  else if port = disk.drive.port .CMD_REQUEST_RD then
    let start_off := disk.start_sector * 512
    let length := disk.sector_count * 512
    if !disk.transferInRange then return false
    else if !host.seeks start_off then return false
    else
      allocate host length.toNat
      if host.transfers start_off length ≠ length.toNat then return false
      else
        insertStream host device port (disk.contents ((← get).image_files disk.file_name))
        return true
  else return false

def requestWrite (host : Host) (device : DeviceIndex) (disk : DiskImager) (port : Word) : CPU Bool := do
  if port = disk.drive.port .REG_START_SEC then
    let value ← popStream64 device port
    setController device (.disk { disk with start_sector := value })
    return true
  else if port = disk.drive.port .REG_SEC_COUNT then
    let value ← popStream64 device port
    setController device (.disk { disk with sector_count := value })
    return true
  else if port = disk.drive.port .CMD_REQUEST_WR then
    let start_off := disk.start_sector * 512
    let length := disk.sector_count * 512
    if !disk.transferInRange then return false
    else
      let buffer := (← get).stream device port
      allocate host buffer.length
      if length.toNat ≠ buffer.length then return false
      else if !host.seeks start_off then return false
      else
        disk.writeImage (buffer.take (host.transfers start_off length))
        if host.transfers start_off length ≠ length.toNat then return false
        else
          setStream device port []
          return true
  else return false

end DiskImager

/-! ## The clock -/

namespace RealTimeClock

/-- Seconds since the epoch, of the guest's clock. -/
def time (clock : RealTimeClock) (now : Word) : Word :=
  BitVec.ofInt 64 ((clock.startTime + (now - clock.machineTime)).toInt.tdiv 1000000000)

def requestRead (host : Host) (device : DeviceIndex) (clock : RealTimeClock) (port : Word) : CPU Bool := do
  if port = RTC_CURRENT_TIME then
    insertStream host device port (LittleEndian.bytes 8 (clock.time host.now).toNat)
    return true
  else return false

def requestWrite (device : DeviceIndex) (clock : RealTimeClock) (port : Word) : CPU Bool := do
  if port = RTC_CURRENT_TIME then
    let epoch_seconds ← popStream64 device port
    setController device (.clock { clock with startTime := epoch_seconds * 1000000000 })
    return true
  else if port = RTC_SET_INTERRUPT then
    let data ← popStream64 device port
    let int_num := data &&& 0xFF
    let int_scale := (data >>> 8) &&& 0x3FFFFFFF
    if int_num ≤ 0x1F || BitVec.ofNat 64 MAX_INTERRUPTION_ENTRY < int_num then return false
    else if int_scale = 0 then return false
    else
      setController device
        (.clock { clock with interruption_scale := int_scale, interruption_number := int_num })
      return true
  else return false

end RealTimeClock

/-! ## The hub -/

def Controller.requestRead (host : Host) (device : DeviceIndex) (port : Word) : Controller → CPU Bool
  | disk imager => imager.requestRead host device port
  | clock rtc => rtc.requestRead host device port

def Controller.requestWrite (host : Host) (device : DeviceIndex) (port : Word) : Controller → CPU Bool
  | disk imager => imager.requestWrite host device port
  | clock rtc => rtc.requestWrite device port

/-- `query_device_based_on_port`: the first device that provides the port. -/
def queryDevice (port : Word) : CPU (DeviceIndex × ExternalDevice) := do
  let devices := (← get).device_list
  match devices.findIdx? fun found => found.controller.ports.contains port with
  | none => throw (.noSuchDevice ("Device providing IO port " ++ toString port.toNat ++ " not found!"))
  | some index =>
    match devices[index]? with
    | some found => return (index, found)
    | none => throw .undefined

/-- `SysdarftIOHub::ins`: the device whose stream now holds the data. -/
def hubIns (host : Host) (port : Word) : CPU DeviceIndex := do
  let (index, device) ← queryDevice port
  if ← device.controller.requestRead host index port then return index
  else throw (.deviceIOError ("Input error on port " ++ toString port.toNat))

/-- `SysdarftIOHub::outs`. -/
def hubOuts (host : Host) (port : Word) (data : List Byte) : CPU Unit := do
  let (index, device) ← queryDevice port
  insertStream host index port data
  if ← device.controller.requestWrite host index port then return ()
  else throw (.deviceIOError ("Output error on port " ++ toString port.toNat))

end Sysdarft
