import Sysdarft.Proofs.OperandAccess

/-! # What the parts of a procedure leave alone

Devices work on their streams, controllers and image files and leave the registers and memory as they
are. Operand stores, stack transfers and the display leave the flag register as it is.
-/

namespace Sysdarft

open Effects

theorem keeps_allocate {τ : Type} {view : Machine → τ} (host : Host) (size : ℕ) : Keeps view (allocate host size) :=
  keeps_ite (keeps_pure _) (keeps_throw _)

theorem keeps_operationWidth {τ : Type} {view : Machine → τ} (message : String) (code : Byte) :
    Keeps view (operationWidth message code) := by
  rw [operationWidth]
  split
  · exact keeps_pure _
  · exact keeps_throw _

theorem keeps_loadRegister {τ : Type} {view : Machine → τ} (register : Register) : Keeps view (loadRegister register) :=
  keeps_bind keeps_getRegisters fun _ => keeps_pure _

theorem keeps_loadFlag {τ : Type} {view : Machine → τ} (flag : Flag) : Keeps view (loadFlag flag) :=
  keeps_bind keeps_getRegisters fun _ => keeps_pure _

theorem keeps_loadFilled {τ : Type} {view : Machine → τ} (width : Width) : Keeps view (loadFilled width) :=
  keeps_bind (keeps_loadRegister _) fun _ => keeps_pure _

/-! ## Devices -/

/-- The registers and memory. -/
def Machine.processor (machine : Machine) : Registers × GuestMemory := (machine.registers, machine.memory)

theorem keeps_processor_setStream (device : DeviceIndex) (port : Word) (bytes : List Byte) :
    Keeps Machine.processor (setStream device port bytes) := fun _ => rfl

theorem keeps_processor_setController (device : DeviceIndex) (controller : Controller) :
    Keeps Machine.processor (setController device controller) := fun _ => rfl

theorem keeps_processor_insertStream (host : Host) (device : DeviceIndex) (port : Word) (data : List Byte) :
    Keeps Machine.processor (insertStream host device port data) :=
  keeps_bind keeps_get fun _ => keeps_bind (keeps_allocate host _) fun _ => keeps_processor_setStream device port _

theorem keeps_processor_popStream (device : DeviceIndex) (port : Word) (count : ℕ) :
    Keeps Machine.processor (popStream device port count) := by
  induction count with
  | zero => exact keeps_pure _
  | succ count ih =>
    refine keeps_bind keeps_get fun machine => ?_
    split
    · exact keeps_throw _
    · exact keeps_bind (keeps_processor_setStream device port _) fun _ => keeps_bind ih fun _ => keeps_pure _

theorem keeps_processor_popStream64 (device : DeviceIndex) (port : Word) :
    Keeps Machine.processor (popStream64 device port) :=
  keeps_bind (keeps_processor_popStream device port 8) fun _ => keeps_pure _

theorem keeps_processor_diskRead (host : Host) (device : DeviceIndex) (disk : DiskImager) (port : Word) :
    Keeps Machine.processor (disk.requestRead host device port) := by
  have insert (data : List Byte) : Keeps Machine.processor (do insertStream host device port data; return true) :=
    keeps_bind (keeps_processor_insertStream host device port data) fun _ => keeps_pure _
  refine keeps_ite (insert _) (keeps_ite (keeps_ite (keeps_pure _) (keeps_ite (keeps_pure _) ?_)) (keeps_pure _))
  refine keeps_bind (keeps_allocate host _) fun _ => keeps_ite (keeps_pure _) ?_
  exact keeps_bind keeps_get fun _ => insert _

theorem keeps_processor_diskWrite (host : Host) (device : DeviceIndex) (disk : DiskImager) (port : Word) :
    Keeps Machine.processor (disk.requestWrite host device port) := by
  have assign (controller : Word → Controller) : Keeps Machine.processor
      (do let value ← popStream64 device port; setController device (controller value); return true) :=
    keeps_bind (keeps_processor_popStream64 device port) fun _ =>
      keeps_bind (keeps_processor_setController device _) fun _ => keeps_pure _
  refine keeps_ite (assign _) (keeps_ite (assign _) (keeps_ite (keeps_ite (keeps_pure _) ?_) (keeps_pure _)))
  refine keeps_bind keeps_get fun _ => keeps_bind (keeps_allocate host _) fun _ => ?_
  refine keeps_ite (keeps_pure _) (keeps_ite (keeps_pure _) ?_)
  refine keeps_bind (keeps_modify fun _ => rfl) fun _ => keeps_ite (keeps_pure _) ?_
  exact keeps_bind (keeps_processor_setStream device port []) fun _ => keeps_pure _

theorem keeps_processor_clockRead (host : Host) (device : DeviceIndex) (clock : RealTimeClock) (port : Word) :
    Keeps Machine.processor (clock.requestRead host device port) :=
  keeps_ite (keeps_bind (keeps_processor_insertStream host device port _) fun _ => keeps_pure _) (keeps_pure _)

theorem keeps_processor_clockWrite (device : DeviceIndex) (clock : RealTimeClock) (port : Word) :
    Keeps Machine.processor (clock.requestWrite device port) := by
  have assign (controller : Controller) : Keeps Machine.processor (do setController device controller; return true) :=
    keeps_bind (keeps_processor_setController device controller) fun _ => keeps_pure _
  refine keeps_ite (keeps_bind (keeps_processor_popStream64 device port) fun _ => assign _) (keeps_ite ?_ (keeps_pure _))
  refine keeps_bind (keeps_processor_popStream64 device port) fun data => ?_
  exact keeps_ite (keeps_pure _) (keeps_ite (keeps_pure _) (assign _))

theorem keeps_processor_requestRead (host : Host) (device : DeviceIndex) (port : Word) (controller : Controller) :
    Keeps Machine.processor (controller.requestRead host device port) := by
  cases controller with
  | disk imager => exact keeps_processor_diskRead host device imager port
  | clock rtc => exact keeps_processor_clockRead host device rtc port

theorem keeps_processor_requestWrite (host : Host) (device : DeviceIndex) (port : Word) (controller : Controller) :
    Keeps Machine.processor (controller.requestWrite host device port) := by
  cases controller with
  | disk imager => exact keeps_processor_diskWrite host device imager port
  | clock rtc => exact keeps_processor_clockWrite device rtc port

theorem keeps_queryDevice {τ : Type} {view : Machine → τ} (port : Word) : Keeps view (queryDevice port) := by
  refine keeps_bind keeps_get fun machine => ?_
  dsimp only
  split
  · exact keeps_throw _
  · split
    · exact keeps_pure _
    · exact keeps_throw _

theorem keeps_processor_hubIns (host : Host) (port : Word) : Keeps Machine.processor (hubIns host port) := by
  refine keeps_bind (keeps_queryDevice port) fun found => ?_
  refine keeps_bind (keeps_processor_requestRead host found.1 port found.2.controller) fun accepted => ?_
  exact keeps_ite (keeps_pure _) (keeps_throw _)

theorem keeps_processor_hubOuts (host : Host) (port : Word) (data : List Byte) :
    Keeps Machine.processor (hubOuts host port data) := by
  refine keeps_bind (keeps_queryDevice port) fun found => ?_
  refine keeps_bind (keeps_processor_insertStream host found.1 port data) fun _ => ?_
  refine keeps_bind (keeps_processor_requestWrite host found.1 port found.2.controller) fun accepted => ?_
  exact keeps_ite (keeps_pure _) (keeps_throw _)

/-! ## Registers -/

/-- The registers are not touched by memory and the display. -/
theorem keeps_registers_writeMemory (address : Word) (source : List Byte) (size : Word) :
    Keeps Machine.registers (writeMemory address source size) := by
  intro machine
  simp only [writeMemory]
  split <;> rfl

theorem keeps_registers_setCursor (x y : ℕ) : Keeps Machine.registers (setCursor x y) := fun _ => rfl

theorem keeps_registers_scrollRows (rows i : ℕ) : Keeps Machine.registers (scrollRows rows i) := by
  induction rows generalizing i with
  | zero => exact keeps_pure _
  | succ rows ih =>
    exact keeps_bind (keeps_readMemory _ _) fun _ => keeps_bind (keeps_registers_writeMemory _ _ _) fun _ => ih (i + 1)

theorem keeps_registers_newline : Keeps Machine.registers newline := by
  refine keeps_bind keeps_get fun machine => keeps_ite ?_ (keeps_registers_setCursor _ _)
  refine keeps_bind (keeps_registers_scrollRows _ _) fun _ => ?_
  exact keeps_bind (keeps_registers_writeMemory _ _ _) fun _ => keeps_registers_setCursor _ _

theorem keeps_registers_teletype (text : Byte) : Keeps Machine.registers (teletype text) := by
  refine keeps_bind keeps_get fun machine => keeps_bind (keeps_registers_writeMemory _ _ _) fun _ => ?_
  exact keeps_ite keeps_registers_newline (keeps_registers_setCursor _ _)

/-! ## Flags -/

def Machine.flags (machine : Machine) : Word := machine.registers.FlagRegister

theorem keeps_flags_writeMemory (address : Word) (source : List Byte) (size : Word) :
    Keeps Machine.flags (writeMemory address source size) :=
  keeps_part (keeps_registers_writeMemory address source size) Registers.FlagRegister

theorem keeps_flags_storeRegister (register : Register) (value : Word) :
    Keeps Machine.flags (storeRegister register value) := by
  intro machine
  simp [storeRegister, modifyRegisters, Machine.flags]

theorem keeps_flags_setVal (value : Word) (operand : Operand) : Keeps Machine.flags (operand.setVal value) := by
  cases operand with
  | register widthBCD index =>
    exact keeps_bind (keeps_selectRegister widthBCD index) fun register => keeps_flags_storeRegister register value
  | constant constant width => exact keeps_throw _
  | memory address widthBCD =>
    rw [Operand.setVal]
    split
    · exact keeps_throw _
    · exact keeps_flags_writeMemory address _ _

theorem keeps_flags_setArgument (arguments : Arguments) (index : ℕ) (value : Word) :
    Keeps Machine.flags (arguments.setVal index value) :=
  keeps_bind (keeps_operand arguments index) (keeps_flags_setVal value)

theorem keeps_flags_pushStack (data : List Byte) : Keeps Machine.flags (pushStack data) := by
  refine keeps_bind keeps_getRegisters fun registers => keeps_ite (keeps_throw _) ?_
  exact keeps_bind (keeps_asStackOverflow (keeps_flags_writeMemory _ _ _)) fun _ => fun _ => rfl

theorem keeps_flags_popStack (size : ℕ) : Keeps Machine.flags (popStack size) :=
  keeps_bind keeps_getRegisters fun _ => keeps_bind (keeps_asStackOverflow (keeps_readMemory _ _)) fun _ =>
    keeps_bind (fun _ => rfl) fun _ => keeps_pure _

theorem keeps_flags_popWord : Keeps Machine.flags popWord :=
  keeps_bind (keeps_flags_popStack 8) fun _ => keeps_pure _

theorem keeps_flags_jmp (arguments : Arguments) : Keeps Machine.flags (jmp arguments) :=
  keeps_bind (keeps_argument arguments 0) fun _ => keeps_bind (keeps_argument arguments 1) fun _ => fun _ => rfl

theorem keeps_flags_pushMemoryTo (base offset : Word) (data : List Byte) :
    Keeps Machine.flags (pushMemoryTo base offset data) :=
  keeps_ite (keeps_throw _) (keeps_bind (keeps_asStackOverflow (keeps_flags_writeMemory _ _ _)) fun _ => keeps_pure _)

theorem keeps_flags_doPreserveCpuState : Keeps Machine.flags doPreserveCpuState :=
  keeps_bind keeps_getRegisters fun _ => keeps_bind (keeps_flags_pushMemoryTo _ _ _) fun _ => fun _ => rfl

/-! ## Built-in interruptions -/

/-- A handler of a chain of tests is that of a test or comes later in the chain. -/
private theorem handler_of_ite {c : Prop} [Decidable c] {first handler : CPU Unit} {rest : Option (CPU Unit)}
    {P : CPU Unit → Prop} (found : (if c then some first else rest) = some handler) (yes : c → P first)
    (no : rest = some handler → P handler) : P handler := by
  by_cases known : c
  · rw [if_pos known] at found
    cases found
    exact yes known
  · rw [if_neg known] at found
    exact no found

/-- What holds of every built-in handler holds of the one that a code selects. -/
theorem builtInHandler_cases {host : Host} {code : Word} {handler : CPU Unit} {P : CPU Unit → Prop}
    (found : builtInHandler host code = some handler) (fatal : P doInterruptionFatal)
    (debug : code = 0x03 → P doInterruptionDebug) (overflow : P doStackoverflow) (tty : P doInterruptionTty)
    (setPosition : code = 0x11 → P doInterruptionSetCurPos) (visible : P doInterruptionSetCurVisib) (line : P newline)
    (input : code = 0x14 → P (doInterruptionGetInput host)) (position : P doInterruptionCurPos)
    (info : P doGetSystemHardwareInfo) (bell : code = 0x17 → P (doRingBell host))
    (nothing : P (pure ())) : P handler := by
  refine handler_of_ite found (fun _ => fatal) fun found => ?_
  refine handler_of_ite found debug fun found => ?_
  refine handler_of_ite found (fun _ => overflow) fun found => ?_
  refine handler_of_ite found (fun _ => tty) fun found => ?_
  refine handler_of_ite found setPosition fun found => ?_
  refine handler_of_ite found (fun _ => visible) fun found => ?_
  refine handler_of_ite found (fun _ => line) fun found => ?_
  refine handler_of_ite found input fun found => ?_
  refine handler_of_ite found (fun _ => position) fun found => ?_
  refine handler_of_ite found (fun _ => info) fun found => ?_
  refine handler_of_ite found bell fun found => ?_
  refine handler_of_ite found (fun _ => nothing) fun found => ?_
  exact handler_of_ite found (fun _ => nothing) nofun

theorem keeps_doInterruptionLookup {τ : Type} {view : Machine → τ} (code : Word) :
    Keeps view (doInterruptionLookup code) :=
  keeps_ite (keeps_throw _) (keeps_bind (keeps_readMemory _ _) fun _ => keeps_pure _)

end Sysdarft
