import Sysdarft.Proofs.CodeStream
import Sysdarft.Proofs.DispatchFaults

/-! # The first thing that goes wrong in a step

`stepTrouble` puts the fetch in front of the accesses and checks of the procedure: the step ends in the exception
of the first one that fails, or in none. The handlers of `execute` answer all but a few exceptions with an
interruption, which is a function of the exception.
-/

namespace Sysdarft

open Effects Reading

/-! ## Fetching -/

variable {host : Host} {machine : Machine}

/-- The machine while it decodes. -/
def Machine.started (machine : Machine) : Machine :=
  { machine with ip_before_pop := machine.registers.InstructionPointer }

/-- The machine after it fetched an instruction of a length. -/
def Machine.fetched (machine : Machine) (length : ℕ) : Machine :=
  { machine.started.advance length with
    current_routine_pop_len :=
      machine.registers.InstructionPointer + BitVec.ofNat 64 length - machine.registers.InstructionPointer
    Int3DebugInterrupt := false }

/-- What the decoder finds at `CB:IP`. -/
def Machine.decoded (machine : Machine) : Outcome String (Mnemonic × Arguments) :=
  (readInstruction machine.registers).outcome machine.codeStream 0

theorem fetch_apply (machine : Machine) :
    fetch machine =
      match machine.decoded with
      | .done decoded length => .ok (activeInstruction decoded) (machine.fetched length)
      | .failed message length => .error (.illegalInstruction message) (machine.started.advance length)
      | .starved length => .error .stackOverflow (machine.started.advance length) := by
  have popped := popInstruction_follows machine.started 0
  have same : (readInstruction machine.started.registers).outcome machine.started.codeTape.stream 0 = machine.decoded := rfl
  rw [show machine.started.codeTape.place 0 = machine.started from Machine.advance_zero, outcome_bind, same] at popped
  rw [fetch, bind_ok (modify_apply _ machine)]
  change (popInstruction >>= _) machine.started = _
  rw [bind_apply, popped]
  cases machine.decoded <;> rfl

/-! ## The exception of a step -/

/-- The first access or check of a step that fails. -/
def stepTrouble (host : Host) (machine : Machine) : Option Trouble :=
  match machine.decoded with
  | .done (mnemonic, arguments) length => firstTrouble (troubles host (machine.fetched length) arguments mnemonic)
  | .failed message _ => some (.other (.illegalInstruction message))
  | .starved _ => some (.outside .fetch)

theorem executeBody_thrown (host : Host) (machine : Machine) :
    thrown (executeBody host machine) = (stepTrouble host machine).map Trouble.raises := by
  have fetch := fetch_apply machine
  rw [stepTrouble]
  cases found : machine.decoded with
  | done decoded length =>
    rw [found] at fetch
    rw [executeBody, bind_ok fetch]
    exact dispatch_thrown host decoded.1 decoded.2 _
  | failed message length =>
    rw [found] at fetch
    rw [executeBody, bind_error fetch]
    rfl
  | starved length =>
    rw [found] at fetch
    rw [executeBody, bind_error fetch]
    rfl

/-! ## What the handlers do -/

/-- The interruption that answers an exception. -/
def Fault.interruption : Fault → Option Word
  | deviceIOError _ | noSuchDevice _ => some 0x02
  | badInterruption _ | interruptionOutOfRange _ => some 0x04
  | illegalInstruction _ => some 0x06
  | stackOverflow => some 0x07
  | illegalMemoryAccess _ => some 0x08
  | baseError _ => some 0x00
  | abort | outOfRange | badAllocation | systemError | arithmeticTrap | undefined => none

/-- The exceptions that no handler answers and that do not end the step as an abort does. -/
def Fault.Lost (fault : Fault) : Prop := fault.interruption = none ∧ fault ≠ .abort

instance : DecidablePred Fault.Lost := fun _ => inferInstanceAs (Decidable (_ ∧ _))

/-- A failed device request leaves its reason in `%EXR0`. -/
def Machine.noted (machine : Machine) : Fault → Machine
  | .deviceIOError _ => { machine with registers := machine.registers.store 0xF0 EXR0 }
  | .noSuchDevice _ => { machine with registers := machine.registers.store 0xF1 EXR0 }
  | _ => machine

theorem handleFault_answered {fault : Fault} {code : Word} (answered : fault.interruption = some code)
    (machine : Machine) : handleFault host fault machine = doInterruption host code (machine.noted fault) := by
  cases fault <;> cases answered <;> rfl

theorem handleFault_unanswered {fault : Fault} (unanswered : fault.interruption = none) (machine : Machine) :
    handleFault host fault machine = .error fault machine := by
  cases fault <;> cases unanswered <;> rfl

end Sysdarft
