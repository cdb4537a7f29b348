import Sysdarft.Model.Boot

/-! # The keyboard

The threads of the console and of the remote console queue keys, and interruption `0x14` takes them in the CPU thread.
The loop of the interruption reads flags that other threads set at any time, so each of its reads and writes is a step
of its own here; `doInterruptionGetInput` is the same loop seen as one step. What the CPU thread does outside the
interruption is any change that leaves the queue alone: interruption `0x19`, which clears it, is left out.
-/

namespace Sysdarft

/-- The `int` of a key. -/
abbrev KeyCode := BitVec 32

/-- Where the CPU thread is in `do_interruption_getInput_0x14`. -/
inductive InputPoint where
  /-- not in it -/
  | outside
  /-- `while (!SystemHalted)` -/
  | loop
  /-- `KeyboardIntAbort || debugger_pause_blocked_int_0x14 || CtrlZShutdownRequested`, read in turn -/
  | testKeyboard | testPause | testShutdown
  /-- `debugger_pause_blocked_int_0x14 = false` -/
  | clearPause
  /-- `store<InstructionPointerType>(ip_before_pop)` -/
  | revert
  /-- `get_input` -/
  | getInput
  /-- the use of what `get_input` returned -/
  | gotInput (key : KeyCode)
  /-- `if (external_device_requested)` -/
  | testExternal
  /-- the return of the instruction pointer, and of the mask -/
  | rewind
deriving DecidableEq, Repr

/-- The fields the threads share, and where the CPU thread is. -/
structure InputSystem where
  machine : Machine
  captured_input : List KeyCode
  KeyboardIntAbort : Bool
  CtrlZShutdownRequested : Bool
  debugger_pause_blocked_int_0x14 : Bool
  external_device_requested : Bool
  point : InputPoint

/-- What a step does for the keys. -/
inductive InputLabel where
  | quiet
  | arrived (key : KeyCode)
  /-- An `INT 0x14` starts. -/
  | entered
  /-- It ends with a value in `%EXR0`. -/
  | completed (value : Word)
  /-- It ends without one, to be executed again. -/
  | cut
  /-- It ends because the system halts. -/
  | halted
deriving DecidableEq, Repr

namespace InputSystem

/-- `get_input`: the first key, or -1. -/
def getInput (system : InputSystem) : InputSystem :=
  match system.captured_input with
  | [] => { system with point := .gotInput (-1) }
  | key :: rest => { system with captured_input := rest, point := .gotInput key }

/-- The value stored for a key. -/
def inputValue (machine : Machine) (key : KeyCode) : Word :=
  if machine.translate_cr_to_lf && key == 13 then 10 else key.setWidth 64

/-- One step of the CPU thread in the interruption. -/
def inputStep (system : InputSystem) : Option (InputLabel × InputSystem) :=
  match system.point with
  | .outside => none
  | .loop =>
    if system.machine.SystemHalted then some (.halted, { system with point := .outside })
    else some (.quiet, { system with point := .testKeyboard })
  | .testKeyboard =>
    some (.quiet, { system with point := if system.KeyboardIntAbort then .clearPause else .testPause })
  | .testPause =>
    some (.quiet, { system with point := if system.debugger_pause_blocked_int_0x14 then .clearPause else .testShutdown })
  | .testShutdown =>
    some (.quiet, { system with point := if system.CtrlZShutdownRequested then .clearPause else .getInput })
  | .clearPause => some (.quiet, { system with debugger_pause_blocked_int_0x14 := false, point := .revert })
  | .revert =>
    let registers := { system.machine.registers with InstructionPointer := system.machine.ip_before_pop }
    some (.cut, { system with machine := { system.machine with registers := registers }, point := .outside })
  | .getInput => some (.quiet, system.getInput)
  | .gotInput key =>
    if key ≠ -1 then
      let registers := system.machine.registers.store (inputValue system.machine key) EXR0
      some (.completed (registers.load EXR0),
        { system with machine := { system.machine with registers := registers }, point := .outside })
    else some (.quiet, { system with point := .testExternal })
  | .testExternal =>
    some (.quiet, { system with point := if system.external_device_requested then .rewind else .loop })
  | .rewind =>
    let registers :=
      { system.machine.registers with
        InstructionPointer := system.machine.registers.InstructionPointer - system.machine.current_routine_pop_len
        FlagRegister := setFlag system.machine.registers.FlagRegister .interruptionMask false }
    some (.cut, { system with machine := { system.machine with registers := registers }, point := .outside })

/-- `captured_input.emplace_back` under the lock, of `try_add_input`. -/
def tryAddInput (key : KeyCode) (system : InputSystem) : InputLabel × InputSystem :=
  (.arrived key, { system with captured_input := system.captured_input ++ [key] })

/-- The switch of `monitor_console_input` and `gui_input_handler`. -/
def monitorConsoleInput (key : KeyCode) (system : InputSystem) : InputLabel × InputSystem :=
  if key = 3 then (.quiet, { system with KeyboardIntAbort := true })
  else if key = 26 then (.quiet, { system with CtrlZShutdownRequested := true })
  else if key = 29 then (.quiet, { system with machine := { system.machine with SystemHalted := true } })
  else system.tryAddInput key

/-- The fetch of an `INT` whose operand is `0x14`. -/
def Fetches (machine fetched : Machine) : Prop :=
  ∃ instruction, fetch machine = .ok instruction fetched ∧ findOpcode instruction.opcode = some .int ∧
    ({ width := instruction.width, operands := instruction.operands } : Arguments).getVal 0 fetched = .ok 0x14 fetched

/-- One step of any thread. -/
inductive Step : InputSystem → InputLabel → InputSystem → Prop where
  | enter {system : InputSystem} {fetched : Machine} (outside : system.point = .outside)
      (fetches : Fetches system.machine fetched) :
      Step system .entered { system with machine := fetched, point := .loop }
  | handler {system next : InputSystem} {label : InputLabel} (step : system.inputStep = some (label, next)) :
      Step system label next
  | other {system next : InputSystem} (outside : system.point = .outside) (still : next.point = .outside)
      (queue : next.captured_input = system.captured_input)
      (setting : next.machine.translate_cr_to_lf = system.machine.translate_cr_to_lf) : Step system .quiet next
  | console (system : InputSystem) (key : KeyCode) :
      Step system (system.monitorConsoleInput key).1 (system.monitorConsoleInput key).2
  | remote (system : InputSystem) (key : KeyCode) : Step system (system.tryAddInput key).1 (system.tryAddInput key).2
  | pause (system : InputSystem) : Step system .quiet { system with debugger_pause_blocked_int_0x14 := true }
  | request (system : InputSystem) : Step system .quiet { system with external_device_requested := true }

/-- A machine with no key queued and no flag set. -/
def start (machine : Machine) : InputSystem where
  machine := machine
  captured_input := []
  KeyboardIntAbort := false
  CtrlZShutdownRequested := false
  debugger_pause_blocked_int_0x14 := false
  external_device_requested := false
  point := .outside

end InputSystem

end Sysdarft
