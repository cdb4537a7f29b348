import Sysdarft.Model.Machine

/-! # Instruction decoding of the CPU

`pop_instruction_from_ip_and_increase_ip` reads an instruction at `CB:IP` and advances `IP` past
it. Operands are decoded in place; the address of a memory operand is computed from the registers
while it is decoded. This is the release build: no literals are produced.
-/

namespace Sysdarft

/-- `pop_code_and_inc_ip` for a type of the given size. -/
def popCode (size : ℕ) : CPU (List Byte) := do
  let registers ← getRegisters
  let (data, ip) ← popMemoryFrom registers.CodeBase registers.InstructionPointer (BitVec.ofNat 64 size)
  modifyRegisters fun registers => { registers with InstructionPointer := ip }
  return data

def popCode8 : CPU Byte := do
  let data ← popCode 1
  return BitVec.ofNat 8 (LittleEndian.value data)

/-- `pop_code8` to `pop_code64`, zero-extended. -/
def popCodeWidth (width : Width) : CPU Word := do
  let data ← popCode width.bytes
  return BitVec.ofNat 64 (LittleEndian.value data)

/-- `OperandReferenceTable` of a decoded operand. -/
inductive Operand where
  | register (widthBCD index : Byte)
  | constant (value : Word) (width : Byte)
  | memory (address : Word) (widthBCD : Byte)
deriving DecidableEq, Repr

/-- The register an operand's bytes select, as the register tables have it. -/
def selectRegister (widthBCD index : Byte) : CPU Register :=
  match Register.ofCodes widthBCD index with
  | some register => pure register
  | none =>
    if (Width.ofBcd widthBCD).isSome then throw (.illegalInstruction "Unknown Register Type")
    else throw (.illegalInstruction "Unknown Register Width")

/-- `do_access_register_based_on_table`. -/
def accessRegister (widthBCD index : Byte) : CPU Word := do
  let register ← selectRegister widthBCD index
  return (← getRegisters).load register

/-- `do_decode_register_without_prefix`: width and index bytes, not yet looked up. -/
def decodeRegister : CPU (Byte × Byte) := do
  let width ← popCode8
  let register_index ← popCode8
  return (width, register_index)

/-- `do_decode_constant_without_prefix`. -/
def decodeConstant : CPU (Word × Width) := do
  let code ← popCode8
  match Width.ofBcd code with
  | some width => return (← popCodeWidth width, width)
  | none => throw (.illegalInstruction "Unknown constant width")

/-- `decode_each_parameter` of a memory operand: the value of a base or offset. -/
def decodeParameter : CPU Word := do
  let code ← popCode8
  if code = REGISTER_CODE then
    let (width, index) ← decodeRegister
    accessRegister width index
  else if code = CONSTANT_CODE then
    return (← decodeConstant).1
  else throw (.illegalInstruction "Illegal memory operand")

/-- `check_msb` and `convert_to_64bit_signed`: the low bits of a value, sign-extended. -/
def signExtend (width : Width) (value : Word) : Word :=
  (value.setWidth width.bits).signExtend 64

/-- The last parameter of a memory operand is a signed offset of its own width. -/
def decodeSignedParameter : CPU Word := do
  let code ← popCode8
  if code = REGISTER_CODE then
    let (widthBCD, index) ← decodeRegister
    let value ← accessRegister widthBCD index
    match Width.ofBcd widthBCD with
    | some width => return signExtend width value
    | none => throw (.illegalInstruction "Unknown register width")
  else if code = CONSTANT_CODE then
    let (value, width) ← decodeConstant
    return signExtend width value
  else throw (.illegalInstruction "Illegal memory operand")

/-- `do_decode_memory_without_prefix`. The width byte is read first and checked last. -/
def decodeMemory : CPU (Word × Byte) := do
  let widthBCD ← popCode8
  let base ← decodeParameter
  let off1 ← decodeParameter
  let off2 ← decodeSignedParameter
  let ratioBCD ← popCode8
  match Ratio.ofBcd ratioBCD with
  | none => throw (.illegalInstruction "Unknown ratio")
  | some ratio =>
    let address := (base + off1 + off2) * BitVec.ofNat 64 ratio.factor
    match Width.ofBcd widthBCD with
    | some _ => return (address, widthBCD)
    | none => throw (.illegalInstruction "Unknown width")

/-- `do_decode_operand`. -/
def decodeOperand : CPU Operand := do
  let code ← popCode8
  if code = REGISTER_CODE then
    let (width, index) ← decodeRegister
    return .register width index
  else if code = CONSTANT_CODE then
    let (value, width) ← decodeConstant
    return .constant value width.bcd
  else if code = MEMORY_CODE then
    let (address, width) ← decodeMemory
    return .memory address width
  else throw (.illegalInstruction "Unknown operand type")

def decodeOperands : ℕ → CPU (List Operand)
  | 0 => return []
  | count + 1 => do
    let operand ← decodeOperand
    let rest ← decodeOperands count
    return operand :: rest

/-- `ActiveInstructionType`. The width is zero for instructions without one. -/
structure ActiveInstruction where
  opcode : Byte
  width : Byte
  operands : List Operand
deriving DecidableEq, Repr

/-- The operation width of an instruction that has one. -/
def decodeOperationWidth (mnemonic : Mnemonic) : CPU Byte := do
  if mnemonic.requiresWidth then
    let width ← popCode8
    match Width.ofBcd width with
    | some _ => return width
    | none => throw (.illegalInstruction "Unknown width specification")
  else return 0

/-- `pop_instruction_from_ip_and_increase_ip`. -/
def popInstruction : CPU ActiveInstruction := do
  let instruction ← popCode8
  match findOpcode instruction with
  | none => throw (.illegalInstruction "Unknown instruction")
  | some mnemonic =>
    let width ← decodeOperationWidth mnemonic
    let operands ← decodeOperands mnemonic.argumentCount
    return { opcode := instruction, width := width, operands := operands }

/-! ## Operand access -/

namespace Operand

/-- `do_access_operand_based_on_table`, the value of an operand. -/
def getVal : Operand → CPU Word
  | register widthBCD index => accessRegister widthBCD index
  | constant value _ => return value
  | memory address widthBCD =>
    match Width.ofBcd widthBCD with
    | none => throw (.illegalInstruction "Unknown memory access width")
    | some width => do
      let (data, _) ← popMemoryFrom 0 address (BitVec.ofNat 64 width.bytes)
      return BitVec.ofNat 64 (LittleEndian.value data)

/-- `store_value_to_operand_based_on_table`. -/
def setVal (value : Word) : Operand → CPU Unit
  | register widthBCD index => do
    let register ← selectRegister widthBCD index
    modifyRegisters fun registers => registers.store value register
  | constant _ _ => throw (.illegalInstruction "Unknown error!")
  | memory address widthBCD =>
    match Width.ofBcd widthBCD with
    | none => throw (.illegalInstruction "Unknown Error!")
    | some width =>
      writeMemory address (LittleEndian.bytes width.bytes value.toNat) (BitVec.ofNat 64 width.bytes)

/-- `get_effective_addr`; the field stays zero for other operands. -/
def getEffectiveAddr : Operand → Word
  | memory address _ => address
  | _ => 0

end Operand

end Sysdarft
