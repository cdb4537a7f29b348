import Sysdarft.Model.Keyboard

/-! # The boot loop with its wait for input

In `System` the whole of `execute` is one step, and an event of the host says how a wait for input ends. Here the boot
thread goes through interruption `0x14` by the reads and writes of `InputSystem`, and the other threads step in between:
what ends the wait is what they have set, be it the flag that a device raises in `do_ext_dev_interruption`.
-/

namespace Sysdarft

/-- The number of the `INT` at `CB:IP`, and the machine after its fetch. -/
def nextInterruption (machine : Machine) : Option (Word × Machine) :=
  match fetch machine with
  | .error _ _ => none
  | .ok instruction fetched =>
    if findOpcode instruction.opcode = some .int then
      match ({ width := instruction.width, operands := instruction.operands } : Arguments).getVal 0 fetched with
      | .error _ _ => none
      | .ok code after => some (code, after)
    else none

/-- The fields of `System`, those of the keyboard, and where the boot thread is in interruption `0x14`. -/
structure PolledSystem where
  boot : System
  captured_input : List KeyCode
  debugger_pause_blocked_int_0x14 : Bool
  poll : InputPoint

namespace PolledSystem

/-- What the interruption and the consoles see. -/
def input (system : PolledSystem) : InputSystem where
  machine := system.boot.machine
  captured_input := system.captured_input
  KeyboardIntAbort := system.boot.KeyboardIntAbort
  CtrlZShutdownRequested := system.boot.CtrlZShutdownRequested
  debugger_pause_blocked_int_0x14 := system.debugger_pause_blocked_int_0x14
  external_device_requested := system.boot.external_device_requested
  point := system.poll

/-- What they leave. -/
def withInput (system : PolledSystem) (input : InputSystem) : PolledSystem where
  boot :=
    { system.boot with
      machine := input.machine
      KeyboardIntAbort := input.KeyboardIntAbort
      CtrlZShutdownRequested := input.CtrlZShutdownRequested
      external_device_requested := input.external_device_requested }
  captured_input := input.captured_input
  debugger_pause_blocked_int_0x14 := input.debugger_pause_blocked_int_0x14
  poll := input.point

/-- `execute` returns when the interruption has. -/
def returned (system : PolledSystem) : PolledSystem :=
  if system.poll = .outside then { system with boot := { system.boot with point := .loop } } else system

/-- The number of the interruption that `execute` is about to start. -/
def interruption (system : PolledSystem) : Option (Word × Machine) :=
  if system.boot.point = .execute then nextInterruption system.boot.machine else none

/-- One step of the boot thread. Interruption `0x19` clears the queue. -/
def bootStep (host : Host) (system : PolledSystem) : Option (Label × PolledSystem) :=
  if system.poll = .outside then
    match system.interruption with
    | none => (system.boot.bootStep host).map fun (label, boot) => (label, { system with boot := boot })
    | some (code, fetched) =>
      if code = 0x14 then some (.quiet, { system with boot := { system.boot with machine := fetched }, poll := .loop })
      else (system.boot.bootStep host).map fun (label, boot) =>
        (label, { system with boot := boot, captured_input := if code = 0x19 then [] else system.captured_input })
  else system.input.inputStep.map fun (_, input) => (.quiet, (system.withInput input).returned)

/-- One step of any thread. -/
inductive Step : PolledSystem → Label → PolledSystem → Prop where
  | boot {system next : PolledSystem} {label : Label} (host : Host) (step : system.bootStep host = some (label, next)) :
      Step system label next
  | call {system : PolledSystem} {boot : System} {label : Label} (code : Word)
      (step : system.boot.deviceCall code = some (label, boot)) : Step system label { system with boot := boot }
  | device {system : PolledSystem} {boot : System} {label : Label} (index : ℕ)
      (step : system.boot.deviceStep index = some (label, boot)) : Step system label { system with boot := boot }
  | console (system : PolledSystem) (key : KeyCode) :
      Step system .quiet (system.withInput (system.input.monitorConsoleInput key).2)
  | remote (system : PolledSystem) (key : KeyCode) : Step system .quiet (system.withInput (system.input.tryAddInput key).2)
  | pause (system : PolledSystem) : Step system .quiet { system with debugger_pause_blocked_int_0x14 := true }

/-- A constructed machine at the start of `Boot`, with no key queued. -/
def start (machine : Machine) : PolledSystem where
  boot := System.start machine
  captured_input := []
  debugger_pause_blocked_int_0x14 := false
  poll := .outside

end PolledSystem

end Sysdarft
