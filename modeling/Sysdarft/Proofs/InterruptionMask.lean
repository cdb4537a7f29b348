import Sysdarft.Proofs.BootRequests
import Sysdarft.Proofs.PolledBoot
import Sysdarft.Proofs.ProcedureFrame

/-! # The interruption mask

The mask shares the flag register with the arithmetic flags, which most instructions rewrite from a
copy. No step lifts it except the instructions that are meant to: `ALWI`, and `POPALL` and `IRET`, which
load the whole register. The wait for input lifts it as well when it finds that a device has requested
an interruption, so that the request can be delivered.
-/

namespace Sysdarft

open Effects Runs

/-- A flag register with the interruption mask set. -/
def MaskSet (flags : Word) : Prop := getFlag flags .interruptionMask = true

def Machine.Masked (machine : Machine) : Prop := MaskSet machine.flags

instance (flags : Word) : Decidable (MaskSet flags) := inferInstanceAs (Decidable (_ = _))

instance (machine : Machine) : Decidable machine.Masked := inferInstanceAs (Decidable (MaskSet _))

theorem maskSet_setFlag {flags : Word} (masked : MaskSet flags) {flag : Flag} (other : flag ≠ .interruptionMask)
    (bit : Bool) : MaskSet (setFlag flags flag bit) := by
  rw [MaskSet, getFlag_setFlag, if_neg other.symm]
  exact masked

theorem maskSet_masked (flags : Word) : MaskSet (setFlag flags .interruptionMask true) := by
  rw [MaskSet, getFlag_setFlag, if_pos rfl]

theorem maskSet_arithmeticFlags {flags : Word} (masked : MaskSet flags) (carry overflow : Bool) :
    MaskSet (arithmeticFlags flags carry overflow) := by
  have first := maskSet_setFlag (maskSet_setFlag masked (show Flag.carry ≠ _ by decide) carry)
    (show Flag.overflow ≠ _ by decide) overflow
  exact maskSet_setFlag (maskSet_setFlag (maskSet_setFlag first (by decide) false) (by decide) false) (by decide) false

/-! ## Procedures -/

/-- Whatever leaves the flag register alone keeps the mask. -/
theorem keepsMask {α : Type} {x : CPU α} (kept : Keeps Machine.flags x) : Preserves Machine.Masked x :=
  preserves_of_keeps (Q := MaskSet) kept

theorem preserves_storeFlags {flags : Word} (masked : MaskSet flags) : Preserves Machine.Masked (storeFlags flags) :=
  fun _ _ => masked

/-- A procedure that continues from the register file it reads. -/
theorem preserves_getRegisters_bind {β : Type} {Q : Word → Prop} {f : Registers → CPU β}
    (next : ∀ registers, Q registers.FlagRegister → Preserves (fun machine => Q machine.flags) (f registers)) :
    Preserves (fun machine => Q machine.flags) (getRegisters >>= f) :=
  fun machine holds => next machine.registers holds machine holds

/-- Devices. -/
theorem keepsMask_device {α : Type} {x : CPU α} (kept : Keeps Machine.processor x) : Preserves Machine.Masked x :=
  keepsMask (keeps_part kept fun processor => processor.1.FlagRegister)

/-- What both overflow checks do: read the width, assign the arithmetic flags, return the trimmed result. -/
theorem preserves_assignFlags (bcdWidth : Byte) (carry overflow : Width → Bool) (result : Width → Word) :
    Preserves Machine.Masked (do
      let width ← operationWidth "Invalid operation width" bcdWidth
      let fg := (← getRegisters).FlagRegister
      storeFlags (arithmeticFlags fg (carry width) (overflow width))
      return result width) := by
  apply preserves_bind (keepsMask (keeps_operationWidth _ _))
  intro width
  apply preserves_getRegisters_bind
  intro registers masked
  exact preserves_bind (preserves_storeFlags (maskSet_arithmeticFlags masked _ _)) fun _ => preserves_pure _

theorem preserves_checkOverflow (bcdWidth : Byte) (value : Word) :
    Preserves Machine.Masked (checkOverflow bcdWidth value) :=
  preserves_assignFlags bcdWidth (fun width => (value.setWidth width.bits).setWidth 64 != value) (fun _ => false)
    fun width => (value.setWidth width.bits).setWidth 64

theorem preserves_checkOverflowSigned (bcdWidth : Byte) (value : Word) :
    Preserves Machine.Masked (checkOverflowSigned bcdWidth value) :=
  preserves_assignFlags bcdWidth (fun _ => false)
    (fun width => decide (2 ^ (width.bits - 1) - 1 < value.toInt ∨ value.toInt < -2 ^ (width.bits - 1)))
    fun width => if width = .w8 then (value.setWidth 8).setWidth 64 else signExtend width value

theorem preserves_checkSigned (bcdWidth : Byte) (value : Word) : Preserves Machine.Masked (checkSigned bcdWidth value) :=
  preserves_ite (fun _ => preserves_checkOverflow bcdWidth value) fun _ => preserves_checkOverflowSigned bcdWidth value

theorem preserves_setArgument (arguments : Arguments) (index : ℕ) (value : Word) :
    Preserves Machine.Masked (arguments.setVal index value) :=
  keepsMask (keeps_flags_setArgument arguments index value)

theorem preserves_storeRegister (register : Register) (value : Word) :
    Preserves Machine.Masked (storeRegister register value) :=
  keepsMask (keeps_flags_storeRegister register value)

theorem preserves_binaryArithmetic (operation : Word → Word → Word → Word) (arguments : Arguments) :
    Preserves Machine.Masked (binaryArithmetic operation arguments) := by
  refine preserves_bind (keepsMask (keeps_argument arguments 0)) fun _ => ?_
  refine preserves_bind (keepsMask (keeps_argument arguments 1)) fun _ => ?_
  refine preserves_bind (keepsMask (keeps_loadFlag .carry)) fun _ => ?_
  exact preserves_bind (preserves_checkOverflow _ _) fun _ => preserves_setArgument arguments 0 _

theorem preserves_imul (arguments : Arguments) : Preserves Machine.Masked (imul arguments) := by
  refine preserves_bind (keepsMask (keeps_operationWidth _ _)) fun _ => ?_
  refine preserves_bind (keepsMask (keeps_loadFilled _)) fun _ => ?_
  refine preserves_bind (keepsMask (keeps_argument arguments 0)) fun _ => ?_
  exact preserves_bind (preserves_checkSigned _ _) fun _ => preserves_storeRegister _ _

theorem preserves_mul (arguments : Arguments) : Preserves Machine.Masked (mul arguments) := by
  refine preserves_bind (keepsMask (keeps_operationWidth _ _)) fun _ => ?_
  refine preserves_bind (keepsMask (keeps_loadRegister _)) fun _ => ?_
  refine preserves_bind (keepsMask (keeps_argument arguments 0)) fun _ => ?_
  exact preserves_bind (preserves_checkOverflow _ _) fun _ => preserves_storeRegister _ _

theorem preserves_neg (arguments : Arguments) : Preserves Machine.Masked (neg arguments) := by
  refine preserves_bind (keepsMask (keeps_argument arguments 0)) fun _ => ?_
  refine preserves_bind (preserves_setArgument arguments 0 _) fun _ => ?_
  exact preserves_bind (preserves_checkOverflow _ _) fun _ => preserves_pure _

theorem preserves_cmp (arguments : Arguments) : Preserves Machine.Masked (cmp arguments) := by
  refine preserves_bind (keepsMask (keeps_argument arguments 0)) fun _ => ?_
  refine preserves_bind (keepsMask (keeps_argument arguments 1)) fun _ => ?_
  apply preserves_getRegisters_bind
  intro registers masked
  refine preserves_bind (preserves_checkOverflow _ _) fun _ => preserves_storeFlags ?_
  exact maskSet_setFlag (maskSet_setFlag (maskSet_setFlag masked (by decide) _) (by decide) _) (by decide) _

theorem preserves_unaryArithmetic (operation : Word → Word) (arguments : Arguments) :
    Preserves Machine.Masked (unaryArithmetic operation arguments) := by
  refine preserves_bind (keepsMask (keeps_argument arguments 0)) fun _ => ?_
  exact preserves_bind (preserves_checkOverflow _ _) fun _ => preserves_setArgument arguments 0 _

theorem preserves_binaryLogic (operation : Word → Word → Word) (arguments : Arguments) :
    Preserves Machine.Masked (binaryLogic operation arguments) := by
  refine preserves_bind (keepsMask (keeps_argument arguments 0)) fun _ => ?_
  exact preserves_bind (keepsMask (keeps_argument arguments 1)) fun _ => preserves_setArgument arguments 0 _

theorem preserves_rotate (rotation : (bits : ℕ) → BitVec bits → ℕ → BitVec bits) (arguments : Arguments) :
    Preserves Machine.Masked (rotate rotation arguments) := by
  refine preserves_bind (keepsMask (keeps_argument arguments 0)) fun _ => ?_
  refine preserves_bind (keepsMask (keeps_argument arguments 1)) fun _ => ?_
  exact preserves_bind (keepsMask (keeps_operationWidth _ _)) fun _ => preserves_setArgument arguments 0 _

theorem preserves_rotateCarry (turn : {bits : ℕ} → BitVec bits → Bool → BitVec bits × Bool) (arguments : Arguments) :
    Preserves Machine.Masked (rotateCarry turn arguments) := by
  refine preserves_bind (keepsMask (keeps_argument arguments 0)) fun _ => ?_
  refine preserves_bind (keepsMask (keeps_argument arguments 1)) fun _ => ?_
  refine preserves_bind (keepsMask (keeps_loadFlag .carry)) fun _ => ?_
  refine preserves_bind (keepsMask (keeps_operationWidth _ _)) fun _ => ?_
  apply preserves_getRegisters_bind
  intro registers masked
  refine preserves_bind (preserves_storeFlags ?_) fun _ => preserves_setArgument arguments 0 _
  exact maskSet_setFlag masked (by decide) _

theorem preserves_mov (arguments : Arguments) : Preserves Machine.Masked (mov arguments) :=
  preserves_bind (keepsMask (keeps_argument arguments 1)) fun _ => preserves_setArgument arguments 0 _

theorem preserves_xchg (arguments : Arguments) : Preserves Machine.Masked (xchg arguments) := by
  refine preserves_bind (keepsMask (keeps_argument arguments 0)) fun _ => ?_
  refine preserves_bind (keepsMask (keeps_argument arguments 1)) fun _ => ?_
  exact preserves_bind (preserves_setArgument arguments 0 _) fun _ => preserves_setArgument arguments 1 _

theorem preserves_push (arguments : Arguments) : Preserves Machine.Masked (push arguments) := by
  refine preserves_bind (keepsMask (keeps_argument arguments 0)) fun _ => ?_
  exact preserves_bind (keepsMask (keeps_operationWidth _ _)) fun _ => keepsMask (keeps_flags_pushStack _)

theorem preserves_pop (arguments : Arguments) : Preserves Machine.Masked (pop arguments) := by
  refine preserves_bind (keepsMask (keeps_operationWidth _ _)) fun _ => ?_
  exact preserves_bind (keepsMask (keeps_flags_popStack _)) fun _ => preserves_setArgument arguments 0 _

theorem preserves_pushall : Preserves Machine.Masked pushall :=
  preserves_bind (keepsMask keeps_getRegisters) fun _ => keepsMask (keeps_flags_pushStack _)

theorem preserves_enter (arguments : Arguments) : Preserves Machine.Masked (enter arguments) :=
  preserves_bind (keepsMask (keeps_argument arguments 0)) fun _ => keepsMask fun _ => rfl

theorem preserves_movs (host : Host) : Preserves Machine.Masked (movs host) := by
  refine preserves_bind (keepsMask keeps_getRegisters) fun registers => ?_
  refine preserves_bind (keepsMask (keeps_allocate host _)) fun _ => ?_
  exact preserves_bind (keepsMask (keeps_readMemory _ _)) fun _ => keepsMask (keeps_flags_writeMemory _ _ _)

theorem preserves_lea (arguments : Arguments) : Preserves Machine.Masked (lea arguments) :=
  preserves_bind (keepsMask (keeps_operand arguments 1)) fun _ => preserves_setArgument arguments 0 _

theorem preserves_call (arguments : Arguments) : Preserves Machine.Masked (call arguments) := by
  refine preserves_bind (keepsMask keeps_getRegisters) fun registers => ?_
  refine preserves_bind (keepsMask (keeps_flags_pushStack _)) fun _ => ?_
  exact preserves_bind (keepsMask (keeps_flags_pushStack _)) fun _ => keepsMask (keeps_flags_jmp arguments)

theorem preserves_ret : Preserves Machine.Masked ret :=
  preserves_bind (keepsMask keeps_flags_popWord) fun _ =>
    preserves_bind (keepsMask keeps_flags_popWord) fun _ => keepsMask fun _ => rfl

theorem preserves_jumpIf (condition : Word → Bool) (arguments : Arguments) :
    Preserves Machine.Masked (jumpIf condition arguments) :=
  preserves_bind (keepsMask keeps_getRegisters) fun _ =>
    preserves_ite (fun _ => keepsMask (keeps_flags_jmp arguments)) fun _ => preserves_pure _

theorem preserves_loop (arguments : Arguments) : Preserves Machine.Masked (loop arguments) := by
  refine preserves_bind (keepsMask (keeps_loadRegister FER3)) fun cx => ?_
  refine preserves_ite (fun _ => ?_) fun _ => preserves_storeRegister FER3 0
  exact preserves_bind (keepsMask (keeps_flags_jmp arguments)) fun _ => preserves_storeRegister FER3 _

theorem preserves_in (host : Host) (arguments : Arguments) : Preserves Machine.Masked (in_ host arguments) := by
  refine preserves_bind (keepsMask (keeps_argument arguments 0)) fun port => ?_
  refine preserves_bind (keepsMask_device (keeps_processor_hubIns host port)) fun device => ?_
  refine preserves_bind (keepsMask_device (keeps_processor_popStream64 device port)) fun data => ?_
  exact preserves_setArgument arguments 1 data

theorem preserves_out (host : Host) (arguments : Arguments) : Preserves Machine.Masked (out host arguments) := by
  refine preserves_bind (keepsMask (keeps_argument arguments 0)) fun port => ?_
  refine preserves_bind (keepsMask (keeps_argument arguments 1)) fun data => ?_
  exact keepsMask_device (keeps_processor_hubOuts host port _)

theorem preserves_ins (host : Host) (arguments : Arguments) : Preserves Machine.Masked (ins host arguments) := by
  refine preserves_bind (keepsMask keeps_getRegisters) fun registers => ?_
  refine preserves_bind (keepsMask (keeps_argument arguments 0)) fun port => ?_
  refine preserves_bind (keepsMask_device (keeps_processor_hubIns host port)) fun device => ?_
  refine preserves_bind (keepsMask keeps_get) fun machine => preserves_ite (fun _ => preserves_throw _) fun _ => ?_
  refine preserves_bind (keepsMask (keeps_allocate host _)) fun _ => ?_
  refine preserves_bind (keepsMask_device (keeps_processor_setStream device port [])) fun _ => ?_
  exact keepsMask (keeps_flags_writeMemory _ _ _)

theorem preserves_outs (host : Host) (arguments : Arguments) : Preserves Machine.Masked (outs host arguments) := by
  refine preserves_bind (keepsMask keeps_getRegisters) fun registers => ?_
  refine preserves_bind (keepsMask (keeps_argument arguments 0)) fun port => ?_
  refine preserves_bind (keepsMask (keeps_allocate host _)) fun _ => ?_
  refine preserves_bind (keepsMask (keeps_readMemory _ _)) fun data => ?_
  exact keepsMask_device (keeps_processor_hubOuts host port data)

/-! ## Interruptions

An interruption changes nothing in the flag register but the mask, which it sets.
-/

section Interruptions

variable {Q : Word → Prop} (masks : ∀ flags, Q flags → Q (setFlag flags .interruptionMask true))

/-- Whatever leaves the flag register alone keeps a property of it. -/
theorem keepsFlags {α : Type} {x : CPU α} (kept : Keeps Machine.flags x) : Preserves (fun machine => Q machine.flags) x :=
  preserves_of_keeps kept

include masks

theorem preserves_setMask : Preserves (fun machine => Q machine.flags) setMask :=
  fun machine holds => masks machine.flags holds

theorem preserves_doStackoverflow : Preserves (fun machine => Q machine.flags) doStackoverflow :=
  preserves_bind (keepsFlags (keeps_doInterruptionLookup _)) fun _ =>
    preserves_bind (preserves_setMask masks) fun _ => keepsFlags fun _ => rfl

theorem preserves_doInterruptionDebug : Preserves (fun machine => Q machine.flags) doInterruptionDebug := by
  refine preserves_bind (keepsFlags fun _ => rfl) fun _ => ?_
  refine preserves_bind (keepsFlags (keeps_doInterruptionLookup _)) fun _ => ?_
  refine preserves_bind (keepsFlags keeps_flags_doPreserveCpuState) fun _ => ?_
  exact preserves_bind (preserves_setMask masks) fun _ => keepsFlags fun _ => rfl

theorem preserves_maskFg {fg : Word} (holds : Q fg) : Preserves (fun machine => Q machine.flags) (maskFg fg) :=
  fun _ _ => masks fg holds

theorem preserves_deliver (code : Word) {fg : Word} (holds : Q fg) :
    Preserves (fun machine => Q machine.flags) (deliver code fg) := by
  refine preserves_bind (keepsFlags (keeps_doInterruptionLookup _)) fun location => ?_
  refine preserves_bind (preserves_tryCatch (keepsFlags keeps_flags_doPreserveCpuState) fun fault => ?_) fun _ => ?_
  · split
    · exact preserves_bind (preserves_doStackoverflow masks) fun _ =>
        preserves_bind (preserves_maskFg masks holds) fun _ => preserves_throw _
    · exact preserves_throw _
  · exact preserves_bind (preserves_maskFg masks holds) fun _ => preserves_bind (keepsFlags fun _ => rfl) fun _ =>
      preserves_pure _

omit masks in
/-- A delivery returns the captured flags with the mask set. -/
theorem deliver_returns {code fg fg' : Word} {machine after : Machine} (done : deliver code fg machine = .ok fg' after) :
    fg' = setFlag fg .interruptionMask true := by
  rw [deliver, bind_eq_ok] at done
  obtain ⟨location, looked, -, done⟩ := done
  obtain ⟨_, preserved, -, done⟩ := bind_eq_ok.mp done
  obtain ⟨masked, stored, returned, done⟩ := bind_eq_ok.mp done
  obtain ⟨_, jumped, -, done⟩ := bind_eq_ok.mp done
  injection returned with returned _
  injection done with done _
  rw [← done, ← returned]

theorem preserves_deliverUnlessMasked (code : Word) {fg : Word} (holds : Q fg) :
    Preserves (fun machine => Q machine.flags) (deliverUnlessMasked code fg) :=
  preserves_ite (fun _ => preserves_pure _) fun _ =>
    preserves_bind (preserves_deliver masks code holds) fun _ => preserves_pure _

omit masks in
/-- The wait for input lifts the mask only when a device asked for an interruption. -/
theorem preserves_doInterruptionGetInput {host : Host} (quiet : host.inputEvent ≠ .externalDeviceRequested) :
    Preserves (fun machine => Q machine.flags) (doInterruptionGetInput host) := by
  refine preserves_bind (keepsFlags keeps_get) fun machine => preserves_ite (fun _ => preserves_pure _) fun _ => ?_
  cases event : host.inputEvent with
  | halted => exact preserves_pure _
  | abortRequested => exact keepsFlags fun _ => rfl
  | key code =>
    exact preserves_ite (fun _ => keepsFlags (keeps_flags_storeRegister EXR0 _)) fun _ =>
      keepsFlags (keeps_flags_storeRegister EXR0 _)
  | externalDeviceRequested => exact absurd event quiet

/-- The built-in interruptions do so too, the wait for input apart. -/
theorem preserves_builtInHandler {host : Host} {code : Word}
    (quiet : code = 0x14 → host.inputEvent ≠ .externalDeviceRequested) {handler : CPU Unit}
    (found : builtInHandler host code = some handler) : Preserves (fun machine => Q machine.flags) handler := by
  apply builtInHandler_cases found
  case fatal =>
    exact preserves_bind (keepsFlags (keeps_doInterruptionLookup _)) fun _ =>
      preserves_bind (preserves_setMask masks) fun _ => keepsFlags fun _ => rfl
  case debug => exact fun _ => preserves_doInterruptionDebug masks
  case overflow => exact preserves_doStackoverflow masks
  case tty =>
    exact preserves_bind (keepsFlags (keeps_loadRegister EXR0)) fun _ =>
      keepsFlags (keeps_part (keeps_registers_teletype _) Registers.FlagRegister)
  case setPosition =>
    exact fun _ => preserves_bind (keepsFlags (keeps_loadRegister EXR0)) fun _ =>
      preserves_ite (fun _ => preserves_throw _) fun _ =>
        keepsFlags (keeps_part (keeps_registers_setCursor _ _) Registers.FlagRegister)
  case visible => exact preserves_bind (keepsFlags (keeps_loadRegister EXR0)) fun _ => keepsFlags fun _ => rfl
  case line => exact keepsFlags (keeps_part keeps_registers_newline Registers.FlagRegister)
  case input => exact fun input => preserves_doInterruptionGetInput (quiet input)
  case position =>
    exact preserves_bind (keepsFlags keeps_get) fun _ => keepsFlags (keeps_flags_storeRegister EXR0 _)
  case info => exact preserves_bind (keepsFlags keeps_get) fun _ => keepsFlags (keeps_flags_storeRegister FER0 _)
  case bell => exact fun _ => preserves_ite (fun _ => preserves_pure _) fun _ => preserves_throw _
  case nothing => exact preserves_pure _

theorem preserves_doInterruption {host : Host} {code : Word}
    (quiet : code = 0x14 → host.inputEvent ≠ .externalDeviceRequested) :
    Preserves (fun machine => Q machine.flags) (doInterruption host code) := by
  refine preserves_ite (fun _ => preserves_throw _) fun _ => ?_
  apply preserves_getRegisters_bind
  intro registers holds
  refine preserves_ite (fun _ => ?_) fun _ => preserves_deliverUnlessMasked masks _ holds
  cases found : builtInHandler host code with
  | some handler => exact preserves_builtInHandler masks quiet found
  | none =>
    refine preserves_bind_result (preserves_deliver masks _ holds) fun fg before after delivered => ?_
    obtain rfl := deliver_returns delivered
    exact preserves_deliverUnlessMasked masks _ (masks _ holds)

/-- An interruption other than the wait for input. -/
theorem preserves_otherInterruption (host : Host) {code : Word} (other : code ≠ 0x14) :
    Preserves (fun machine => Q machine.flags) (doInterruption host code) :=
  preserves_doInterruption masks fun same => absurd same other

theorem preserves_handleFault (host : Host) (fault : Fault) :
    Preserves (fun machine => Q machine.flags) (handleFault host fault) := by
  cases fault with
  | deviceIOError _ | noSuchDevice _ =>
    exact preserves_bind (keepsFlags (keeps_flags_storeRegister EXR0 _)) fun _ =>
      preserves_otherInterruption masks host (by decide)
  | badInterruption _ | interruptionOutOfRange _ | illegalInstruction _ | stackOverflow | illegalMemoryAccess _
  | baseError _ => exact preserves_otherInterruption masks host (by decide)
  | abort | outOfRange | badAllocation | systemError | arithmeticTrap | undefined => exact preserves_throw _

/-- The handlers of `execute` do what the interruptions do. -/
theorem guarded_flags {host : Host} {body : CPU Unit} {machine : Machine} (holds : Q (final (body machine)).flags) :
    Q (final (guarded host body machine)).flags := by
  have handled : Q (final (tryCatch body (handleFault host) machine)).flags := by
    rw [tryCatch_apply]
    cases known : body machine with
    | ok _ after =>
      rw [known] at holds
      exact holds
    | error fault after =>
      rw [known] at holds
      exact preserves_handleFault masks host fault after holds
  rw [guarded, tryCatch_apply]
  cases known : tryCatch body (handleFault host) machine with
  | ok _ after =>
    rw [known] at handled
    exact handled
  | error fault after =>
    rw [known] at handled
    cases fault <;> exact handled

end Interruptions

theorem masked_interruption (host : Host) {code : Word} (other : code ≠ 0x14) :
    Preserves Machine.Masked (doInterruption host code) :=
  preserves_otherInterruption (fun flags _ => maskSet_masked flags) host other

theorem preserves_idiv (host : Host) (arguments : Arguments) : Preserves Machine.Masked (idiv host arguments) := by
  refine preserves_bind (keepsMask (keeps_operationWidth _ _)) fun width => ?_
  refine preserves_bind (keepsMask (keeps_loadFilled width)) fun base => ?_
  refine preserves_bind (keepsMask (keeps_argument arguments 0)) fun factor => ?_
  refine preserves_ite (fun _ => masked_interruption host (by decide)) fun _ => ?_
  refine preserves_ite (fun _ => preserves_throw _) fun _ => ?_
  refine preserves_bind (preserves_checkSigned _ _) fun quotient => preserves_bind (preserves_checkSigned _ _) fun _ => ?_
  exact preserves_bind (preserves_storeRegister _ quotient) fun _ => preserves_storeRegister _ _

theorem preserves_div (host : Host) (arguments : Arguments) : Preserves Machine.Masked (div host arguments) := by
  refine preserves_bind (keepsMask (keeps_operationWidth _ _)) fun width => ?_
  refine preserves_bind (keepsMask (keeps_loadRegister _)) fun base => ?_
  refine preserves_bind (keepsMask (keeps_argument arguments 0)) fun factor => ?_
  refine preserves_ite (fun _ => masked_interruption host (by decide)) fun _ => ?_
  refine preserves_bind (preserves_checkOverflow _ _) fun quotient =>
    preserves_bind (preserves_checkOverflow _ _) fun _ => ?_
  exact preserves_bind (preserves_storeRegister _ quotient) fun _ => preserves_storeRegister _ _

/-! ## Instructions -/

/-- The instructions that are meant to change the mask. -/
def Mnemonic.liftsMask : Mnemonic → Bool
  | alwi | popall | iret => true
  | _ => false

/-- Every procedure keeps the mask, but for those three and the software interruption. -/
theorem preserves_procedure {host : Host} {mnemonic : Mnemonic} {procedure : Arguments → CPU Unit}
    (registered : executorMap host mnemonic = some procedure) (plain : mnemonic.liftsMask = false)
    (silent : mnemonic ≠ .int) (arguments : Arguments) : Preserves Machine.Masked (procedure arguments) := by
  cases mnemonic with
  | nop => cases registered; exact preserves_pure _
  | hlt => cases registered; exact keepsMask fun _ => rfl
  | igni => cases registered; exact preserves_setMask fun flags _ => maskSet_masked flags
  | add | adc | sub | sbb => cases registered; exact preserves_binaryArithmetic _ arguments
  | imul => cases registered; exact preserves_imul arguments
  | mul => cases registered; exact preserves_mul arguments
  | idiv => cases registered; exact preserves_idiv host arguments
  | div => cases registered; exact preserves_div host arguments
  | neg => cases registered; exact preserves_neg arguments
  | cmp => cases registered; exact preserves_cmp arguments
  | inc | dec => cases registered; exact preserves_unaryArithmetic _ arguments
  | mov => cases registered; exact preserves_mov arguments
  | xchg => cases registered; exact preserves_xchg arguments
  | push => cases registered; exact preserves_push arguments
  | pop => cases registered; exact preserves_pop arguments
  | pushall => cases registered; exact preserves_pushall
  | enter => cases registered; exact preserves_enter arguments
  | leave => cases registered; exact keepsMask fun _ => rfl
  | movs => cases registered; exact preserves_movs host
  | lea => cases registered; exact preserves_lea arguments
  | and | or | xor | shl | shr => cases registered; exact preserves_binaryLogic _ arguments
  | not =>
    cases registered
    exact preserves_bind (keepsMask (keeps_argument arguments 0)) fun _ => preserves_setArgument arguments 0 _
  | rol | ror => cases registered; exact preserves_rotate _ arguments
  | rcl | rcr => cases registered; exact preserves_rotateCarry _ arguments
  | jmp => cases registered; exact keepsMask (keeps_flags_jmp arguments)
  | call => cases registered; exact preserves_call arguments
  | ret => cases registered; exact preserves_ret
  | je | jne | jb | jl | jbe | jle => cases registered; exact preserves_jumpIf _ arguments
  | int3 => cases registered; exact masked_interruption host (by decide)
  | loop => cases registered; exact preserves_loop arguments
  | in_ => cases registered; exact preserves_in host arguments
  | out => cases registered; exact preserves_out host arguments
  | ins => cases registered; exact preserves_ins host arguments
  | outs => cases registered; exact preserves_outs host arguments
  | jc | jnc | jo | jno => cases registered
  | int => exact absurd rfl silent
  | alwi | popall | iret => cases plain

/-- The next instruction of a machine is one of the three. -/
def Machine.LiftsMask (machine : Machine) : Prop :=
  ∃ instruction after mnemonic, fetch machine = .ok instruction after ∧ findOpcode instruction.opcode = some mnemonic ∧
    mnemonic.liftsMask = true

theorem int_masked {host : Host} {arguments : Arguments} {machine : Machine} (masked : machine.Masked)
    (quiet : arguments.getVal 0 machine = .ok 0x14 machine → host.inputEvent ≠ .externalDeviceRequested) :
    (final (int_ host arguments machine)).Masked := by
  rw [int_]
  rcases keeps_all_cases (keeps_argument arguments 0) machine with ⟨code, value⟩ | ⟨fault, failed⟩
  · rw [bind_ok value]
    refine preserves_doInterruption (fun flags _ => maskSet_masked flags) (fun input => ?_) machine masked
    subst input
    exact quiet value
  · rw [bind_error failed]
    exact masked

theorem dispatch_masked {host : Host} {instruction : ActiveInstruction} {machine : Machine} (masked : machine.Masked)
    (plain : ∀ mnemonic, findOpcode instruction.opcode = some mnemonic → mnemonic.liftsMask = false)
    (quiet : findOpcode instruction.opcode = some .int →
      ({ width := instruction.width, operands := instruction.operands } : Arguments).getVal 0 machine =
        .ok 0x14 machine → host.inputEvent ≠ .externalDeviceRequested) :
    (final (dispatch host instruction machine)).Masked := by
  rw [dispatch, lookupProcedure]
  cases known : findOpcode instruction.opcode with
  | none => exact masked
  | some mnemonic =>
    cases registered : executorMap host mnemonic with
    | none =>
      simp only [Option.bind_some, registered]
      exact masked
    | some procedure =>
      simp only [Option.bind_some, registered]
      by_cases software : mnemonic = .int
      · subst software
        cases registered
        exact int_masked masked (quiet known)
      · exact preserves_procedure registered (plain mnemonic known) software _ machine masked

theorem fetch_masked {machine : Machine} (masked : machine.Masked) : (final (fetch machine)).Masked := by
  have kept := congrArg Machine.flags (keeps_fetch machine)
  change MaskSet (final (fetch machine)).core.flags
  rw [kept]
  exact masked

/-- Executing an instruction that is not meant to lift the mask keeps it, the wait for input apart. -/
theorem execute_masked {host : Host} {machine : Machine} (masked : machine.Masked) (plain : ¬ machine.LiftsMask)
    (apart : ∀ fetched, nextInterruption machine ≠ some (0x14, fetched)) : (final (execute host machine)).Masked := by
  have body : (final (executeBody host machine)).Masked := by
    have fetched := fetch_masked masked
    rw [executeBody, bind_apply]
    cases known : fetch machine with
    | error fault after =>
      rw [known] at fetched
      exact fetched
    | ok instruction after =>
      rw [known] at fetched
      apply dispatch_masked fetched
      · intro mnemonic found
        by_contra lifts
        exact plain ⟨instruction, after, mnemonic, known, found, by simpa using lifts⟩
      · intro found value
        have read : ({ width := instruction.width, operands := instruction.operands } : Arguments).getVal 0 after =
          .ok 0x14 after := value
        refine absurd ?_ (apart after)
        simp only [nextInterruption, known, found, ↓reduceIte, read]
  exact guarded_flags (fun flags _ => maskSet_masked flags) body

/-! ## Steps of the machine -/

namespace System

variable {system next : System} {label : Label}

theorem afterDelivery_masked {following caught : BootPoint} {result : EStateM.Result Fault Machine Unit}
    (masked : (final result).Masked) : (system.afterDelivery following caught result).machine.Masked := by
  cases result with
  | ok _ machine => exact masked
  | error fault machine => cases fault <;> exact masked

theorem afterRedirection_masked {following : BootPoint} {result : EStateM.Result Fault Machine Unit}
    (masked : (final result).Masked) : (system.afterRedirection following result).machine.Masked := by
  cases result with
  | ok _ machine => exact masked
  | error fault machine => exact masked

/-- An interruption that is not the wait for input, delivered in the loop. -/
theorem delivered_masked (host : Host) {code : Word} (masked : system.machine.Masked) (other : code ≠ 0x14) :
    (final (doInterruption host code system.machine)).Masked :=
  masked_interruption host other system.machine masked

/-- The boot thread lifts the mask only by executing an instruction. A request of code `0x14` cannot be in
the queue, since `do_ext_dev_interruption` refuses it. -/
theorem bootStep_masked {host : Host} (masked : system.machine.Masked)
    (accepted : ∀ code ∈ system.interruption_requests, code ≠ 0x14)
    (apart : system.point = .execute → ∀ fetched, nextInterruption system.machine ≠ some (0x14, fetched))
    (step : system.bootStep host = some (label, next)) :
    next.machine.Masked ∨ system.point = .execute ∧ system.machine.LiftsMask := by
  rw [bootStep] at step
  cases place : system.point with
  | loop | capture | shutdown =>
    left
    simp only [place] at step
    split_ifs at step <;> cases step <;> exact masked
  | keyboard =>
    left
    simp only [place] at step
    cases step
    exact afterDelivery_masked (delivered_masked host masked (by decide))
  | lock =>
    left
    simp only [place] at step
    cases mutex : system.protector with
    | some holder =>
      rw [mutex] at step
      cases step
    | none =>
      rw [mutex] at step
      cases step
      exact masked
  | request index =>
    left
    simp only [place] at step
    cases found : system.interruption_requests[index]? with
    | none =>
      rw [found] at step
      cases step
      exact masked
    | some code =>
      rw [found] at step
      cases step
      exact afterDelivery_masked (delivered_masked host masked (accepted code (List.mem_of_getElem? found)))
  | served index =>
    left
    simp only [place] at step
    cases step
    exact masked
  | handler | shutdownHandler =>
    left
    simp only [place] at step
    cases step
    exact afterRedirection_masked (delivered_masked host masked (by decide))
  | clear | unlock =>
    left
    simp only [place] at step
    cases step
    exact masked
  | invokeShutdown =>
    left
    simp only [place] at step
    cases step
    exact afterDelivery_masked (delivered_masked host masked (by decide))
  | execute =>
    simp only [place] at step
    cases step
    by_cases lifts : system.machine.LiftsMask
    · exact .inr ⟨rfl, lifts⟩
    · exact .inl (execute_masked masked lifts (apart place))
  | returned | failure | escaped => simp [place] at step

/-! ## Requests -/

/-- What the boot thread does to the requests: it clears the queue, and lowers the flag. -/
structure Lowers (system next : System) : Prop where
  requests : next.interruption_requests = system.interruption_requests ∨ next.interruption_requests = []
  external : next.external_device_requested = true → system.external_device_requested = true
  calls : next.calls = system.calls

theorem SameQueue.lowers (same : SameQueue system next) : Lowers system next :=
  ⟨.inl same.requests, fun raised => same.external ▸ raised, same.calls⟩

theorem bootStep_lowers {host : Host} (step : system.bootStep host = some (label, next)) : Lowers system next := by
  rw [bootStep] at step
  cases place : system.point with
  | loop | capture | shutdown =>
    simp only [place] at step
    split_ifs at step <;> cases step <;> exact ⟨.inl rfl, id, rfl⟩
  | keyboard | invokeShutdown =>
    simp only [place] at step
    cases step
    obtain ⟨requests, external, mutex, calls⟩ := (afterDelivery_same _ _ _ _).1
    exact SameQueue.lowers ⟨requests, external, mutex, calls⟩
  | lock =>
    simp only [place] at step
    cases mutex : system.protector with
    | some holder =>
      rw [mutex] at step
      cases step
    | none =>
      rw [mutex] at step
      cases step
      exact ⟨.inl rfl, id, rfl⟩
  | request index =>
    simp only [place] at step
    cases found : system.interruption_requests[index]? with
    | none =>
      rw [found] at step
      cases step
      exact ⟨.inl rfl, id, rfl⟩
    | some code =>
      rw [found] at step
      cases step
      exact (afterDelivery_same _ _ _ _).1.lowers
  | served index =>
    simp only [place] at step
    cases step
    exact ⟨.inl rfl, by rintro ⟨⟩, rfl⟩
  | unlock | execute =>
    simp only [place] at step
    cases step
    exact ⟨.inl rfl, id, rfl⟩
  | handler | shutdownHandler =>
    simp only [place] at step
    cases step
    exact (afterRedirection_same _ _ _).1.lowers
  | clear =>
    simp only [place] at step
    cases step
    exact ⟨.inr rfl, id, rfl⟩
  | returned | failure | escaped => simp [place] at step

/-- No request for the wait for input is in the queue or on its way to it. -/
structure Accepts (system : System) : Prop where
  requests : ∀ code ∈ system.interruption_requests, code ≠ 0x14
  calls : ∀ call ∈ system.calls, call.code ≠ 0x14

/-- The boot thread leaves the queue as it is or clears it. -/
theorem bootStep_accepts {host : Host} (accepts : system.Accepts) (step : system.bootStep host = some (label, next)) :
    next.Accepts := by
  obtain ⟨requests, -, calls⟩ := bootStep_lowers step
  refine ⟨fun code member => ?_, by rw [calls]; exact accepts.calls⟩
  rcases requests with same | empty
  · exact accepts.requests code (same ▸ member)
  · rw [empty] at member
    cases member

theorem Step.accepts (step : Step system label next) (accepts : system.Accepts) : next.Accepts := by
  cases step with
  | boot host step => exact bootStep_accepts accepts step
  | call code step =>
    obtain ⟨range, move⟩ := deviceCall_eq_some_iff.mp step
    cases move with
    | ignored mutex => exact accepts
    | locks mutex =>
      refine ⟨accepts.requests, ?_⟩
      intro call member
      rcases List.mem_cons.mp member with rfl | earlier
      · rintro rfl
        exact absurd range.1 (by decide)
      · exact accepts.calls call earlier
  | device index step =>
    obtain ⟨call, found, move⟩ := deviceStep_eq_some_iff.mp step
    have accepted : call.code ≠ 0x14 := accepts.calls call (List.mem_of_getElem? found)
    have advanced (point : DevicePoint) : ∀ other ∈ system.calls.set index { call with point := point },
        other.code ≠ 0x14 := by
      intro other member
      rcases List.mem_or_eq_of_mem_set member with earlier | rfl
      · exact accepts.calls other earlier
      · exact accepted
    cases move with
    | emplace =>
      refine ⟨?_, advanced .raise⟩
      intro code member
      rcases List.mem_append.mp member with earlier | last
      · exact accepts.requests code earlier
      · rw [List.mem_singleton.mp last]
        exact accepted
    | raise => exact ⟨accepts.requests, advanced .unlock⟩
    | unlock => exact ⟨accepts.requests, fun other member => accepts.calls other (List.mem_of_mem_eraseIdx member)⟩
  | key key => cases key <;> exact ⟨accepts.requests, accepts.calls⟩

end System

namespace PolledSystem

variable {system next : PolledSystem} {label : Label} {trace : List Label}

/-! ## Runs -/

/-- A device that has raised the flag has appended its request, and the boot thread returns from the wait to deliver
one only while the flag is up. -/
structure Polls (trace : List Label) (system : PolledSystem) : Prop where
  accepts : system.boot.Accepts
  requested : system.boot.external_device_requested = true → ∃ code, .appended code ∈ trace
  entered : ∀ call ∈ system.boot.calls, call.point ≠ .emplace → ∃ code, .appended code ∈ trace
  rewinds : system.poll = .rewind → system.boot.external_device_requested = true

theorem appended_later (label : Label) (earlier : ∃ code, .appended code ∈ trace) :
    ∃ code, .appended code ∈ trace ++ [label] :=
  earlier.imp fun _ member => List.mem_append_left _ member

/-- A step that leaves the requests alone. -/
theorem Polls.same (polls : Polls trace system)
    (requests : next.boot.interruption_requests = system.boot.interruption_requests)
    (external : next.boot.external_device_requested = system.boot.external_device_requested)
    (calls : next.boot.calls = system.boot.calls)
    (rewinds : next.poll = .rewind → system.boot.external_device_requested = true) : Polls (trace ++ [label]) next where
  accepts := ⟨requests ▸ polls.accepts.requests, calls ▸ polls.accepts.calls⟩
  requested raised := appended_later label (polls.requested (external ▸ raised))
  entered call member behind := appended_later label (polls.entered call (calls ▸ member) behind)
  rewinds rewinding := external ▸ rewinds rewinding

/-- The wait ends for a device only when it finds the flag. -/
theorem rewinds_of_inputStep {input next : InputSystem} {inputLabel : InputLabel}
    (step : input.inputStep = some (inputLabel, next)) (rewinding : next.point = .rewind) :
    input.external_device_requested = true := by
  cases InputSystem.inputStep_cases step with
  | move pause point inside free free' requested => exact requested rewinding
  | take | use | revert | rewind | halt => cases rewinding

theorem returned_poll (system : PolledSystem) : system.returned.poll = system.poll := by
  rw [returned]
  split_ifs <;> rfl

theorem returned_boot (system : PolledSystem) :
    ∃ point, system.returned.boot = { system.boot with point := point } := by
  rw [returned]
  split_ifs
  · exact ⟨_, rfl⟩
  · exact ⟨_, rfl⟩

/-- A device enters `do_ext_dev_interruption` in front of its request. -/
theorem Polls.called {boot : System} {code : Word} (polls : Polls trace system)
    (step : system.boot.deviceCall code = some (label, boot)) :
    Polls (trace ++ [label]) { system with boot := boot } := by
  have accepts := (System.Step.call code step).accepts polls.accepts
  obtain ⟨-, move⟩ := System.deviceCall_eq_some_iff.mp step
  cases move with
  | ignored mutex => exact polls.same rfl rfl rfl polls.rewinds
  | locks mutex =>
    refine ⟨accepts, fun raised => appended_later _ (polls.requested raised), fun call member behind => ?_, polls.rewinds⟩
    rcases List.mem_cons.mp member with rfl | earlier
    · exact absurd rfl behind
    · exact appended_later _ (polls.entered call earlier behind)

/-- It raises the flag when it has appended the request. -/
theorem Polls.stepped {boot : System} {index : ℕ} (polls : Polls trace system)
    (step : system.boot.deviceStep index = some (label, boot)) :
    Polls (trace ++ [label]) { system with boot := boot } := by
  have accepts := (System.Step.device index step).accepts polls.accepts
  obtain ⟨call, found, move⟩ := System.deviceStep_eq_some_iff.mp step
  have member : call ∈ system.boot.calls := List.mem_of_getElem? found
  cases move with
  | emplace =>
    have appended : ∃ code, .appended code ∈ trace ++ [.appended call.code] := ⟨call.code, by simp⟩
    exact ⟨accepts, fun _ => appended, fun _ _ _ => appended, polls.rewinds⟩
  | raise place =>
    have appended := appended_later .quiet (polls.entered call member (by rw [place]; rintro ⟨⟩))
    exact ⟨accepts, fun _ => appended, fun _ _ _ => appended, fun _ => rfl⟩
  | unlock =>
    refine ⟨accepts, fun raised => appended_later _ (polls.requested raised), fun other later behind => ?_,
      polls.rewinds⟩
    exact appended_later _ (polls.entered other (List.mem_of_mem_eraseIdx later) behind)

theorem Polls.kept (polls : Polls trace system) (step : Step system label next) : Polls (trace ++ [label]) next := by
  cases step with
  | boot host step =>
    cases bootStep_cases step with
    | outside queue outside apart moved =>
      obtain ⟨-, external, calls⟩ := System.bootStep_lowers moved
      refine ⟨System.bootStep_accepts polls.accepts moved, ?_, ?_, fun rewinding => ?_⟩
      · exact fun raised => appended_later label (polls.requested (external raised))
      · exact fun call member behind => appended_later label (polls.entered call (calls ▸ member) behind)
      · rw [show system.poll = .rewind from rewinding] at outside
        cases outside
    | enter outside place found => exact polls.same rfl rfl rfl nofun
    | @poll _ input inside polled =>
      obtain ⟨point, boot⟩ := returned_boot (system.withInput input)
      rw [withInput_boot polled] at boot
      refine polls.same (by rw [boot]) (by rw [boot]) (by rw [boot]) fun rewinding => ?_
      rw [returned_poll] at rewinding
      exact rewinds_of_inputStep polled rewinding
  | call code step => exact polls.called step
  | device index step => exact polls.stepped step
  | console key =>
    obtain ⟨poll, same | ⟨control, pressed⟩⟩ := console_moves system key
    · exact polls.same (by rw [same]) (by rw [same]) (by rw [same]) fun rewinding => polls.rewinds (poll ▸ rewinding)
    · refine polls.same ?_ ?_ ?_ fun rewinding => polls.rewinds (poll ▸ rewinding) <;> rw [pressed] <;> cases control <;>
        rfl
  | remote key => exact polls.same rfl rfl rfl polls.rewinds
  | pause => exact polls.same rfl rfl rfl polls.rewinds

theorem run_polls {machine : Machine} (run : Run Step (start machine) trace system) : Polls trace system := by
  induction run with
  | start => exact ⟨⟨nofun, nofun⟩, nofun, nofun, nofun⟩
  | next _ done ih => exact ih.kept done

/-! ## The mask -/

/-- In the wait only the return for a device touches the mask. -/
theorem inputStep_masked {input next : InputSystem} {inputLabel : InputLabel}
    (step : input.inputStep = some (inputLabel, next)) (masked : input.machine.Masked) :
    next.machine.Masked ∨ input.point = .rewind := by
  cases InputSystem.inputStep_cases step with
  | move | take | revert | halt => exact .inl masked
  | use =>
    left
    change MaskSet (Registers.store _ _ EXR0).FlagRegister
    rw [Registers.store_FlagRegister]
    exact masked
  | rewind free place => exact .inr place

/-- The step returns from an `INT 0x14` that was waiting for input, because a device has requested an interruption. -/
structure Interrupted (trace : List Label) (system : PolledSystem) : Prop where
  returns : system.poll = .rewind
  raised : system.boot.external_device_requested = true
  requested : ∃ code, .appended code ∈ trace

/-- The step executes an instruction that is meant to lift the mask. -/
structure Lifts (system : PolledSystem) : Prop where
  outside : system.poll = .outside
  place : system.boot.point = .execute
  lifts : system.boot.machine.LiftsMask

/-- Between two instructions the boot thread steps as in `System`. -/
theorem step_outside (host : Host) {boot : System} (outside : system.poll = .outside)
    (elsewhere : system.boot.point ≠ .execute) (moved : system.boot.bootStep host = some (label, boot)) :
    Step system label { system with boot := boot } := by
  refine .boot host ?_
  rw [bootStep, if_pos outside, interruption, if_neg elsewhere]
  dsimp only
  rw [moved]
  rfl

/-- As it does to execute any other instruction than an `INT`. -/
theorem step_execute (host : Host) (outside : system.poll = .outside) (place : system.boot.point = .execute)
    (plain : nextInterruption system.boot.machine = none) :
    Step system .quiet
      { system with
        boot := { system.boot with machine := final (execute host system.boot.machine), point := .loop } } := by
  refine .boot host ?_
  rw [bootStep, if_pos outside, interruption, if_pos place, plain]
  simp only [System.bootStep, place]
  rfl

theorem step_enter {fetched : Machine} (outside : system.poll = .outside) (place : system.boot.point = .execute)
    (found : nextInterruption system.boot.machine = some (0x14, fetched)) :
    Step system .quiet { system with boot := { system.boot with machine := fetched }, poll := .loop } := by
  refine .boot Host.ample ?_
  rw [bootStep, if_pos outside, interruption, if_pos place, found]
  rfl

theorem step_poll {input : InputSystem} {inputLabel : InputLabel} (inside : system.poll ≠ .outside)
    (polled : system.input.inputStep = some (inputLabel, input)) :
    Step system .quiet (system.withInput input).returned := by
  refine .boot Host.ample ?_
  rw [bootStep, if_neg inside, polled]
  rfl

/-- An iteration of the loop with nothing to deliver reaches the instruction. -/
theorem reaches_execute {first : PolledSystem} (run : Run Step first trace system) (outside : system.poll = .outside)
    (place : system.boot.point = .loop) (running : system.boot.machine.SystemHalted = false)
    (uninterrupted : system.boot.KeyboardIntAbort = false) (continuing : system.boot.CtrlZShutdownRequested = false)
    (empty : system.boot.interruption_requests = []) (free : system.boot.protector = none) :
    ∃ later, Run Step first later { system with boot := { system.boot with point := .execute } } := by
  obtain ⟨⟨machine, keyboard, shutdown, invoked, requests, external, mutex, calls, point⟩, queue, pause, poll⟩ := system
  simp only at outside place running uninterrupted continuing empty free
  subst outside place uninterrupted continuing empty free
  have captured := (run.next (step_outside Host.ample rfl (by rintro ⟨⟩)
    (by rw [System.bootStep]; simp only [running]; rfl))).next (step_outside Host.ample rfl (by rintro ⟨⟩) rfl)
  have locked := (captured.next (step_outside Host.ample rfl (by rintro ⟨⟩) rfl)).next
    (step_outside Host.ample rfl (by rintro ⟨⟩) rfl)
  have cleared := (locked.next (step_outside Host.ample rfl (by rintro ⟨⟩) rfl)).next
    (step_outside Host.ample rfl (by rintro ⟨⟩) rfl)
  exact ⟨_, cleared.next (step_outside Host.ample rfl (by rintro ⟨⟩) rfl)⟩

/-- A turn of the wait with nothing but the flag of a device reaches the return. -/
theorem reaches_rewind {first : PolledSystem} (run : Run Step first trace system) (place : system.poll = .loop)
    (running : system.boot.machine.SystemHalted = false) (uninterrupted : system.boot.KeyboardIntAbort = false)
    (continuing : system.boot.CtrlZShutdownRequested = false)
    (unpaused : system.debugger_pause_blocked_int_0x14 = false) (empty : system.captured_input = [])
    (requested : system.boot.external_device_requested = true) :
    ∃ later, Run Step first later { system with poll := .rewind } := by
  obtain ⟨⟨machine, keyboard, shutdown, invoked, requests, external, mutex, calls, point⟩, queue, pause, poll⟩ := system
  simp only at place running uninterrupted continuing unpaused empty requested
  subst place uninterrupted continuing unpaused empty requested
  have tests := run.next (step_poll (by rintro ⟨⟩)
    (show _ = some (InputLabel.quiet, _) by rw [InputSystem.inputStep]; simp only [input, running]; rfl))
  have asks := ((tests.next (step_poll (by rintro ⟨⟩) rfl)).next (step_poll (by rintro ⟨⟩) rfl)).next
    (step_poll (by rintro ⟨⟩) rfl)
  have finds := ((asks.next (step_poll (by rintro ⟨⟩) rfl)).next (step_poll (by rintro ⟨⟩) rfl)).next
    (step_poll (by rintro ⟨⟩) rfl)
  exact ⟨_, finds⟩

/-- Once set, the mask stays set in every run, unless the step executes an instruction that is meant to lift it or
ends a wait for input for a device. -/
theorem mask_kept {machine : Machine} (run : Run Step (start machine) trace system)
    (masked : system.boot.machine.Masked) (step : Step system label next) :
    next.boot.machine.Masked ∨
      ∃ host, system.bootStep host = some (label, next) ∧ (system.Lifts ∨ system.Interrupted trace) := by
  have polls := run_polls run
  cases step with
  | boot host step =>
    cases bootStep_cases step with
    | outside queue outside apart moved =>
      have apart (place : system.boot.point = .execute) (fetched : Machine) :
          nextInterruption system.boot.machine ≠ some (0x14, fetched) := by
        have none := apart fetched
        rwa [interruption, if_pos place] at none
      rcases System.bootStep_masked masked polls.accepts.requests apart moved with kept | ⟨place, lifts⟩
      · exact .inl kept
      · exact .inr ⟨host, step, .inl ⟨outside, place, lifts⟩⟩
    | @enter fetched outside place found =>
      obtain ⟨length, -, rfl⟩ := nextInterruption_eq_some_iff.mp found
      exact .inl masked
    | @poll _ input inside polled =>
      obtain ⟨point, boot⟩ := returned_boot (system.withInput input)
      rcases inputStep_masked polled masked with kept | rewinding
      · left
        rw [boot]
        exact kept
      · have raised := polls.rewinds rewinding
        exact .inr ⟨host, step, .inr ⟨rewinding, raised, polls.requested raised⟩⟩
  | call code step =>
    left
    obtain ⟨-, kept, -⟩ := System.deviceCall_machine step system.boot.machine
    exact kept.symm ▸ masked
  | device index step =>
    left
    obtain ⟨-, kept, -⟩ := System.deviceStep_machine step system.boot.machine
    exact kept.symm ▸ masked
  | console key =>
    left
    obtain ⟨-, same | ⟨control, pressed⟩⟩ := console_moves system key
    · rw [same]
      exact masked
    · rw [pressed]
      cases control <;> exact masked
  | remote key | pause => exact .inl masked

/-- `IGNI` and a wait for input at the start of the BIOS. -/
def waiting : Machine := Machine.powerOn.overwrite BIOS_START [0x41, 0x39, 0x02, 0x08, 0x14]

/-- The machine after `IGNI`. -/
def ignoring : Machine := final (Sysdarft.execute Host.ample waiting)

/-- The guest has executed `IGNI` and is in front of the `INT`. -/
def masking : PolledSystem :=
  { start waiting with boot := { System.start waiting with machine := ignoring, point := .execute } }

theorem run_masking : ∃ trace, Run Step (start waiting) trace masking := by
  have initial : Run Step (start waiting) [] (start waiting) := .start
  obtain ⟨_, first⟩ := reaches_execute initial rfl rfl rfl rfl rfl rfl rfl
  have plain : nextInterruption waiting = none := Option.isNone_iff_eq_none.mp (by decide +kernel)
  have ignores := first.next (step_execute Host.ample rfl rfl plain)
  exact reaches_execute ignores rfl rfl (by decide +kernel) rfl rfl rfl rfl

theorem nextInterruption_ignoring : ∃ length, nextInterruption ignoring = some (0x14, ignoring.fetched length) := by
  have number : (nextInterruption ignoring).map Prod.fst = some 0x14 := by decide +kernel
  obtain ⟨⟨_, fetched⟩, found, rfl⟩ := Option.map_eq_some_iff.mp number
  obtain ⟨length, -, rfl⟩ := nextInterruption_eq_some_iff.mp found
  exact ⟨length, found⟩

/-- Ctrl+C, while the guest, which ignores interruptions, waits for input, leaves the mask set. -/
theorem mask_kept_ctrlC :
    ∃ (trace : List Label) (system : PolledSystem), Run Step (start waiting) trace system ∧ system.poll = .loop ∧
      system.boot.machine.Masked ∧ (system.withInput (system.input.monitorConsoleInput 3).2).boot.machine.Masked := by
  obtain ⟨_, run⟩ := run_masking
  obtain ⟨length, found⟩ := nextInterruption_ignoring
  have masked : ignoring.Masked := by decide +kernel
  have waits := run.next (step_enter rfl rfl found)
  refine ⟨_, _, waits, rfl, masked, ?_⟩
  rcases mask_kept waits masked (.console _ 3) with kept | ⟨_, -, lifts | interrupted⟩
  · exact kept
  · cases lifts.outside
  · cases interrupted.returns

/-- A device requests an interruption while the guest, which ignores interruptions, waits for input. -/
theorem not_mask_kept_input :
    ¬ ∀ (machine : Machine) (trace : List Label) (system next : PolledSystem) (label : Label),
      Run Step (start machine) trace system → system.boot.machine.Masked → Step system label next →
      next.boot.machine.Masked ∨ ∃ host, system.bootStep host = some (label, next) ∧ system.Lifts := by
  intro kept
  obtain ⟨_, run⟩ := run_masking
  obtain ⟨length, found⟩ := nextInterruption_ignoring
  have running : ignoring.SystemHalted = false := by decide +kernel
  have masked : ignoring.Masked := by decide +kernel
  have waits := run.next (step_enter rfl rfl found)
  have requested := ((waits.next (.call 0x20 rfl)).next (.device 0 rfl)).next (.device 0 rfl)
  obtain ⟨_, returns⟩ := reaches_rewind requested rfl running rfl rfl rfl rfl rfl
  rcases kept _ _ _ _ _ returns masked (step_poll (by nofun) rfl) with still | ⟨_, -, lifts⟩
  · have lifted : getFlag (setFlag ignoring.flags .interruptionMask false) .interruptionMask = true := still
    rw [getFlag_setFlag, if_pos rfl] at lifted
    cases lifted
  · cases lifts.outside

end PolledSystem

end Sysdarft
