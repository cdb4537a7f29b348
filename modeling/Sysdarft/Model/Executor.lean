import Sysdarft.Model.Operations

/-! # The instruction executor

`execute` fetches one instruction, looks its procedure up in `ExecutorMap` and runs it. Handled
error classes become interruptions; an abort requested by the interruption code ends the step; any
other exception leaves `execute`.
-/

namespace Sysdarft

/-- The registrations of the constructor. The four jumps on carry and overflow are not registered. -/
def executorMap (host : Host) : Mnemonic → Option (Arguments → CPU Unit)
  | .nop => some fun _ => nop
  | .hlt => some fun _ => hlt
  | .igni => some fun _ => igni
  | .alwi => some fun _ => alwi
  | .add => some add
  | .adc => some adc
  | .sub => some sub
  | .sbb => some sbb
  | .imul => some imul
  | .mul => some mul
  | .idiv => some (idiv host)
  | .div => some (div host)
  | .neg => some neg
  | .cmp => some cmp
  | .inc => some inc
  | .dec => some dec
  | .mov => some mov
  | .xchg => some xchg
  | .push => some push
  | .pop => some pop
  | .pushall => some fun _ => pushall
  | .popall => some fun _ => popall
  | .enter => some enter
  | .leave => some fun _ => leave
  | .movs => some fun _ => movs host
  | .lea => some lea
  | .and => some and_
  | .or => some or_
  | .xor => some xor_
  | .not => some not_
  | .shl => some (shl host)
  | .shr => some (shr host)
  | .rol => some rol
  | .ror => some ror
  | .rcl => some rcl
  | .rcr => some rcr
  | .jmp => some jmp
  | .call => some call
  | .ret => some fun _ => ret
  | .je => some je
  | .jne => some jne
  | .jb => some jb
  | .jl => some jl
  | .jbe => some jbe
  | .jle => some jle
  | .int => some (int_ host)
  | .int3 => some fun _ => int3 host
  | .iret => some fun _ => iret
  | .loop => some loop
  | .in_ => some (in_ host)
  | .out => some (out host)
  | .ins => some (ins host)
  | .outs => some (outs host)
  | .jc => none
  | .jnc => none
  | .jo => none
  | .jno => none

/-- `ExecutorMap.at(opcode)`, which throws `std::out_of_range` for a missing entry. -/
def lookupProcedure (host : Host) (opcode : Byte) : CPU (Arguments → CPU Unit) :=
  match (findOpcode opcode).bind (executorMap host) with
  | some procedure => pure procedure
  | none => throw .outOfRange

/-- The fetch part of `execute`: bookkeeping and decoding. -/
def fetch : CPU ActiveInstruction := do
  modify fun machine => { machine with ip_before_pop := machine.registers.InstructionPointer }
  let instruction ← popInstruction
  modify fun machine =>
    { machine with
      current_routine_pop_len := machine.registers.InstructionPointer - machine.ip_before_pop
      Int3DebugInterrupt := false }
  return instruction

/-- The dispatch part of `execute`. -/
def dispatch (host : Host) (instruction : ActiveInstruction) : CPU Unit := do
  let procedure ← lookupProcedure host instruction.opcode
  procedure { width := instruction.width, operands := instruction.operands }

/-- The body of the inner `try` block. -/
def executeBody (host : Host) : CPU Unit := do
  let instruction ← fetch
  dispatch host instruction

/-- The handlers of the inner `try` block. An abort is derived privately from the base error and
passes them by. -/
def handleFault (host : Host) (fault : Fault) : CPU Unit :=
  match fault with
  | .deviceIOError _ => do
    storeRegister EXR0 0xF0
    doInterruption host 0x02
  | .badInterruption _ => doInterruption host 0x04
  | .interruptionOutOfRange _ => doInterruption host 0x04
  | .illegalInstruction _ => doInterruption host 0x06
  | .stackOverflow => doInterruption host 0x07
  | .illegalMemoryAccess _ => doInterruption host 0x08
  | .noSuchDevice _ => do
    storeRegister EXR0 0xF1
    doInterruption host 0x02
  | .baseError _ => doInterruption host 0x00
  | other => throw other

/-- The handler of the outer `try` block. -/
def handleAbort (fault : Fault) : CPU Unit :=
  match fault with
  | .abort => return ()
  | other => throw other

/-- The two `try` blocks around an instruction. -/
def guarded (host : Host) (body : CPU Unit) : CPU Unit :=
  tryCatch (tryCatch body (handleFault host)) handleAbort

/-- `execute`, with no breakpoint set. -/
def execute (host : Host) : CPU Unit := guarded host (executeBody host)

end Sysdarft
