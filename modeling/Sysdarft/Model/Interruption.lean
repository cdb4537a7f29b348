import Sysdarft.Model.Decoder

/-! # Interruptions

`do_interruption` with its vector lookup, the preservation of the register file on the stack, the
built-in handlers of the hardware interruptions, and `do_iret`.
-/

namespace Sysdarft

/-- An entry of the interruption table. -/
structure InterruptionPointer where
  InterruptionTargetCodeBase : Word
  InterruptionTargetInstructionPointer : Word
deriving DecidableEq, Repr

/-- `do_interruption_lookup`. -/
def doInterruptionLookup (code : Word) : CPU InterruptionPointer := do
  let offset := BitVec.ofNat 64 INTERRUPTION_VECTOR + code * 16
  if BitVec.ofNat 64 INTERRUPTION_VEC_ED ≤ offset then
    throw (.interruptionOutOfRange ("No such interruption: " ++ toString code.toNat))
  else
    let pointer ← readMemory offset 16
    return { InterruptionTargetCodeBase := LittleEndian.wordAt pointer 0
             InterruptionTargetInstructionPointer := LittleEndian.wordAt pointer 1 }

/-- `do_preserve_cpu_state`: push the register file as it is. -/
def doPreserveCpuState : CPU Unit := do
  let registers ← getRegisters
  let sp ← pushMemoryTo registers.StackBase registers.StackPointer registers.image
  modifyRegisters fun registers => { registers with StackPointer := sp }

/-- `do_jump_table`. -/
def doJumpTable (location : InterruptionPointer) : CPU Unit :=
  modifyRegisters fun registers =>
    { registers with
      CodeBase := location.InterruptionTargetCodeBase
      InstructionPointer := location.InterruptionTargetInstructionPointer }

/-- `do_iret`: the popped image replaces the whole register file. -/
def doIret : CPU Unit := do
  let registers ← getRegisters
  let (data, _) ← popMemoryFrom registers.StackBase registers.StackPointer 256
  modifyRegisters fun _ => Registers.ofImage data

/-- Store a flag register. -/
def storeFlags (flags : Word) : CPU Unit :=
  modifyRegisters fun registers => { registers with FlagRegister := flags }

/-- `set_mask`. -/
def setMask : CPU Unit := do
  let fg := (← getRegisters).FlagRegister
  storeFlags (setFlag fg .interruptionMask true)

/-! ## The display -/

/-- Write bytes of video memory. `video_memory` points at block 184, the block at
`VIDEO_MEMORY_START`; the bytes are written there directly. -/
def writeVideo (offset : ℕ) (bytes : List Byte) : CPU Unit :=
  writeMemory (BitVec.ofNat 64 (VIDEO_MEMORY_START + offset)) bytes (BitVec.ofNat 64 bytes.length)

/-- Read bytes of video memory. -/
def readVideo (offset size : ℕ) : CPU (List Byte) :=
  readMemory (BitVec.ofNat 64 (VIDEO_MEMORY_START + offset)) (BitVec.ofNat 64 size)

/-- `set_cursor`, with both coordinates clamped. -/
def setCursor (x y : ℕ) : CPU Unit :=
  modify fun machine =>
    { machine with
      cursor_x := ⟨min x (V_WIDTH - 1), Nat.lt_of_le_of_lt (Nat.min_le_right ..) (by decide)⟩
      cursor_y := ⟨min y (V_HEIGHT - 1), Nat.lt_of_le_of_lt (Nat.min_le_right ..) (by decide)⟩ }

/-- The copy loop of a scroll: row `i + 1` moves up to row `i`, for the rows from `i` on. -/
def scrollRows : (rows i : ℕ) → CPU Unit
  | 0, _ => return ()
  | rows + 1, i => do
    let row ← readVideo ((i + 1) * V_WIDTH) V_WIDTH
    writeVideo (i * V_WIDTH) row
    scrollRows rows (i + 1)

/-- `newline`. -/
def newline : CPU Unit := do
  let machine ← get
  if machine.cursor_y = V_HEIGHT - 1 then
    scrollRows (V_HEIGHT - 1) 0
    writeVideo ((V_HEIGHT - 1) * V_WIDTH) (List.replicate V_WIDTH 0x20)
    setCursor 0 machine.cursor_y
  else setCursor 0 (machine.cursor_y + 1)

/-- `teletype`. -/
def teletype (text : Byte) : CPU Unit := do
  let machine ← get
  writeVideo (machine.cursor_y * V_WIDTH + machine.cursor_x) [text]
  if machine.cursor_x + 1 ≥ V_WIDTH then newline
  else setCursor (machine.cursor_x + 1) machine.cursor_y

/-! ## Built-in handlers -/

/-- Register `%EXR0`, through which the display interruptions communicate. -/
def EXR0 : Register := .general .w16 ⟨0, by decide⟩

def FER0 : Register := .general .w64 ⟨0, by decide⟩

def loadRegister (register : Register) : CPU Word := do
  return (← getRegisters).load register

def storeRegister (register : Register) (value : Word) : CPU Unit :=
  modifyRegisters fun registers => registers.store value register

def doInterruptionFatal : CPU Unit := do
  let location ← doInterruptionLookup 0x00
  setMask
  doJumpTable location

def doInterruptionDebug : CPU Unit := do
  modify fun machine => { machine with Int3DebugInterrupt := true }
  let location ← doInterruptionLookup 0x03
  doPreserveCpuState
  setMask
  doJumpTable location

def doStackoverflow : CPU Unit := do
  let location ← doInterruptionLookup 0x07
  setMask
  doJumpTable location

def doInterruptionTty : CPU Unit := do
  teletype ((← loadRegister EXR0).setWidth 8)

def doInterruptionSetCurPos : CPU Unit := do
  let linear := (← loadRegister EXR0).toNat
  if linear > V_WIDTH * V_HEIGHT - 1 then
    throw (.badInterruption "Teletype linear address out of range")
  else setCursor (linear % V_WIDTH) (linear / V_WIDTH)

def doInterruptionSetCurVisib : CPU Unit := do
  let visible := (← loadRegister EXR0) != 0
  modify fun machine => { machine with cursor_visible := visible }

/-- `do_interruption_getInput_0x14`: what the polling loop does when it ends. The flags that it polls belong to the
system and not to the machine: an event stands for the flag or the key that it finds, and `PolledSystem`, where the
loop goes step by step, reads them. -/
def doInterruptionGetInput (host : Host) : CPU Unit := do
  let machine ← get
  if machine.SystemHalted then return ()
  else match host.inputEvent with
  | .halted => return ()
  | .abortRequested =>
    modifyRegisters fun registers => { registers with InstructionPointer := machine.ip_before_pop }
  | .key code =>
    if machine.translate_cr_to_lf && code == 13 then storeRegister EXR0 10
    else storeRegister EXR0 (code.setWidth 64)
  | .externalDeviceRequested =>
    modifyRegisters fun registers =>
      { registers with
        InstructionPointer := registers.InstructionPointer - machine.current_routine_pop_len
        FlagRegister := setFlag registers.FlagRegister .interruptionMask false }

def doInterruptionCurPos : CPU Unit := do
  let machine ← get
  storeRegister EXR0 (BitVec.ofNat 64 (machine.cursor_y * V_WIDTH + machine.cursor_x))

def doGetSystemHardwareInfo : CPU Unit := do
  storeRegister FER0 (← get).memory.paged.TotalMemory

/-- `do_ring_bell_0x17`: the sound is played by a new thread. -/
def doRingBell (host : Host) : CPU Unit :=
  if host.startsThread then return () else throw .systemError

/-- `do_interruption_fatal_0x00` to `do_clear_user_input_stream_0x19`; screen refreshes and the
keyboard queue are outside the machine state. -/
def builtInHandler (host : Host) (code : Word) : Option (CPU Unit) :=
  if code = 0x00 then some doInterruptionFatal
  else if code = 0x03 then some doInterruptionDebug
  else if code = 0x07 then some doStackoverflow
  else if code = 0x10 then some doInterruptionTty
  else if code = 0x11 then some doInterruptionSetCurPos
  else if code = 0x12 then some doInterruptionSetCurVisib
  else if code = 0x13 then some newline
  else if code = 0x14 then some (doInterruptionGetInput host)
  else if code = 0x15 then some doInterruptionCurPos
  else if code = 0x16 then some doGetSystemHardwareInfo
  else if code = 0x17 then some (doRingBell host)
  else if code = 0x18 then some (pure ())
  else if code = 0x19 then some (pure ())
  else none

/-! ## Delivery -/

/-- The `mask_fg` closure: the captured flags, masked, are stored and captured again. -/
def maskFg (fg : Word) : CPU Word := do
  let masked := setFlag fg .interruptionMask true
  storeFlags masked
  return masked

/-- The `do_interruption` closure. `fg` is the captured copy of the flag register; the result is its
new value. -/
def deliver (code fg : Word) : CPU Word := do
  let location ← doInterruptionLookup code
  tryCatch doPreserveCpuState fun fault =>
    match fault with
    | .stackOverflow => do
      doStackoverflow
      let _ ← maskFg fg
      throw .abort
    | other => throw other
  let fg ← maskFg fg
  doJumpTable location
  return fg

/-- The code after the switch: delivery under the mask as captured. -/
def deliverUnlessMasked (code fg : Word) : CPU Unit :=
  if getFlag fg .interruptionMask then return ()
  else do
    let _ ← deliver code fg
    return ()

/-- `do_interruption`. A hardware interruption without a built-in handler is delivered inside the
switch, and control then reaches the second delivery as well. -/
def doInterruption (host : Host) (code : Word) : CPU Unit := do
  if BitVec.ofNat 64 MAX_INTERRUPTION_ENTRY < code then
    throw (.badInterruption "Interruption out of range")
  else
    let fg := (← getRegisters).FlagRegister
    if code ≤ 0x1F then
      match builtInHandler host code with
      | some handler => handler
      | none => do
        let fg ← deliver code fg
        deliverUnlessMasked code fg
    else deliverUnlessMasked code fg

end Sysdarft
