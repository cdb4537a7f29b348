import Sysdarft.Model.Executor

/-! # The boot loop

`SysdarftCPU::Boot` with the threads that run beside it: devices that request interruptions through
`do_ext_dev_interruption`, and the keyboard. The machine itself is touched by the boot thread only, so
an instruction or the delivery of an interruption is one step; steps that touch shared fields are
separate, and any thread may step next.

Each step has a label that says what it did to the request queue and to
`External_Int_Req_Vec_Protector`. An unlock by a thread that does not hold the mutex, which is
undefined for a `std::mutex`, leaves it free here.
-/

namespace Sysdarft

inductive Thread where
  | boot | device
deriving DecidableEq, Repr

/-- Where the boot thread is. -/
inductive BootPoint where
  /-- `while (!SystemHalted)` -/
  | loop
  /-- `if (KeyboardIntAbort)` -/
  | capture
  /-- `KeyboardIntAbort = false; do_interruption(0x05)` -/
  | keyboard
  /-- `External_Int_Req_Vec_Protector.lock()` -/
  | lock
  /-- `do_interruption(i)` in the loop over the requests -/
  | request (index : ℕ)
  /-- `external_device_requested = false` in that loop -/
  | served (index : ℕ)
  /-- the handler of the abort: `do_interruption(0x07)` -/
  | handler
  /-- `interruption_requests.clear()` -/
  | clear
  /-- `External_Int_Req_Vec_Protector.unlock()` -/
  | unlock
  /-- the test of the shutdown request -/
  | shutdown
  /-- `invoke_shutdown` -/
  | invokeShutdown
  /-- the handler of an abort in `invoke_shutdown` -/
  | shutdownHandler
  | execute
  /-- the loop was left -/
  | returned
  /-- `return EXIT_FAILURE` -/
  | failure
  /-- an exception left `Boot` -/
  | escaped
deriving DecidableEq, Repr

/-- Where a device is in `do_ext_dev_interruption`, after it took the mutex. -/
inductive DevicePoint where
  | emplace | raise | unlock
deriving DecidableEq, Repr

structure DeviceCall where
  code : Word
  point : DevicePoint

/-- The fields the threads share, and where each thread is. -/
structure System where
  machine : Machine
  KeyboardIntAbort : Bool
  CtrlZShutdownRequested : Bool
  have_I_invoked_shutdown : Bool
  interruption_requests : List Word
  external_device_requested : Bool
  /-- The holder of `External_Int_Req_Vec_Protector`. -/
  protector : Option Thread
  calls : List DeviceCall
  point : BootPoint

/-- What a step does to the queue and the mutex. -/
inductive Label where
  | quiet
  | appended (code : Word)
  | passed (code : Word)
  | locked (thread : Thread)
  /-- `held` says whether the thread held the mutex. -/
  | unlocked (thread : Thread) (held : Bool)
deriving DecidableEq, Repr

namespace System

/-- Continue after `do_interruption`, where only an abort is caught. -/
def afterDelivery (system : System) (next caught : BootPoint) : EStateM.Result Fault Machine Unit → System
  | .ok _ machine => { system with machine := machine, point := next }
  | .error .abort machine => { system with machine := machine, point := caught }
  | .error _ machine => { system with machine := machine, point := .escaped }

/-- `do_interruption(0x07)` in a handler, where everything is caught. -/
def afterRedirection (system : System) (next : BootPoint) : EStateM.Result Fault Machine Unit → System
  | .ok _ machine => { system with machine := machine, point := next }
  | .error _ machine => { system with machine := machine, point := .failure }

/-- Whether a shutdown request is passed on: not while the previous one is being handled. -/
def invokesShutdown (system : System) : Bool :=
  system.CtrlZShutdownRequested &&
    (!system.have_I_invoked_shutdown || !getFlag system.machine.registers.FlagRegister .interruptionMask)

/-- One step of the boot thread; none when it waits for the mutex or has ended. `Boot` prints whatever
leaves `execute` and goes on. -/
def bootStep (host : Host) (system : System) : Option (Label × System) :=
  match system.point with
  | .loop =>
    if system.machine.SystemHalted then some (.quiet, { system with point := .returned })
    else some (.quiet, { system with point := .capture })
  | .capture =>
    if system.KeyboardIntAbort then some (.quiet, { system with point := .keyboard })
    else some (.quiet, { system with point := .lock })
  | .keyboard =>
    let system := { system with KeyboardIntAbort := false }
    some (.quiet, system.afterDelivery .lock .handler (doInterruption host 0x05 system.machine))
  | .lock =>
    match system.protector with
    | none => some (.locked .boot, { system with protector := some .boot, point := .request 0 })
    | some _ => none
  | .request index =>
    match system.interruption_requests[index]? with
    | none => some (.quiet, { system with point := .clear })
    | some code =>
      some (.passed code, system.afterDelivery (.served index) .handler (doInterruption host code system.machine))
  | .served index =>
    some (.quiet, { system with external_device_requested := false, point := .request (index + 1) })
  | .handler => some (.quiet, system.afterRedirection .clear (doInterruption host 0x07 system.machine))
  | .clear => some (.quiet, { system with interruption_requests := [], point := .unlock })
  | .unlock =>
    some (.unlocked .boot (system.protector == some .boot), { system with protector := none, point := .shutdown })
  | .shutdown =>
    if system.invokesShutdown then some (.quiet, { system with point := .invokeShutdown })
    else some (.quiet, { system with point := .execute })
  | .invokeShutdown =>
    let system := { system with have_I_invoked_shutdown := true, CtrlZShutdownRequested := false }
    some (.quiet, system.afterDelivery .execute .shutdownHandler (doInterruption host 0x09 system.machine))
  | .shutdownHandler => some (.quiet, system.afterRedirection .execute (doInterruption host 0x07 system.machine))
  | .execute =>
    some (.quiet, { system with machine := Effects.final (execute host system.machine), point := .loop })
  | .returned => none
  | .failure => none
  | .escaped => none

/-- `do_ext_dev_interruption` up to the mutex: a code out of range is refused, and when the mutex is
taken the request is ignored. -/
def deviceCall (code : Word) (system : System) : Option (Label × System) :=
  if 0x1F < code ∧ code < BitVec.ofNat 64 MAX_INTERRUPTION_ENTRY then
    match system.protector with
    | some _ => some (.quiet, system)
    | none =>
      some (.locked .device,
        { system with protector := some .device, calls := { code := code, point := .emplace } :: system.calls })
  else none

/-- The next statement of a device that is inside `do_ext_dev_interruption`. -/
def deviceStep (index : ℕ) (system : System) : Option (Label × System) :=
  match system.calls[index]? with
  | none => none
  | some call =>
    match call.point with
    | .emplace =>
      some (.appended call.code,
        { system with
          interruption_requests := system.interruption_requests ++ [call.code]
          calls := system.calls.set index { call with point := .raise } })
    | .raise =>
      some (.quiet,
        { system with
          external_device_requested := true
          calls := system.calls.set index { call with point := .unlock } })
    | .unlock =>
      some (.unlocked .device (system.protector == some .device),
        { system with protector := none, calls := system.calls.eraseIdx index })

/-- A key that the keyboard thread handles itself. -/
inductive ControlKey where
  | ctrlC | ctrlZ | escape
deriving DecidableEq, Repr

def press (key : ControlKey) (system : System) : System :=
  match key with
  | .ctrlC => { system with KeyboardIntAbort := true }
  | .ctrlZ => { system with CtrlZShutdownRequested := true }
  | .escape => { system with machine := { system.machine with SystemHalted := true } }

/-- One step of any thread. -/
inductive Step : System → Label → System → Prop where
  | boot {system next : System} {label : Label} (host : Host) (step : system.bootStep host = some (label, next)) :
      Step system label next
  | call {system next : System} {label : Label} (code : Word) (step : system.deviceCall code = some (label, next)) :
      Step system label next
  | device {system next : System} {label : Label} (index : ℕ) (step : system.deviceStep index = some (label, next)) :
      Step system label next
  | key (system : System) (key : ControlKey) : Step system .quiet (system.press key)

/-- A constructed machine at the start of `Boot`. -/
def start (machine : Machine) : System where
  machine := { machine with SystemHalted := false, Int3DebugInterrupt := false }
  KeyboardIntAbort := false
  CtrlZShutdownRequested := false
  have_I_invoked_shutdown := false
  interruption_requests := []
  external_device_requested := false
  protector := none
  calls := []
  point := .loop

/-- The runs from a state, with the labels of their steps in order. -/
inductive Run (first : System) : List Label → System → Prop where
  | start : Run first [] first
  | step {trace : List Label} {system next : System} {label : Label} (earlier : Run first trace system)
      (step : Step system label next) : Run first (trace ++ [label]) next

end System

end Sysdarft
