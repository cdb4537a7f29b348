import Sysdarft.Model.Decoder

/-! # Operands of the debugger

`debugger_operand_type` is a copy of the operand decoder of the CPU that works on a byte vector
instead of the bytes at `CB:IP`. It is constructed from what `encode_target` emitted and decodes at once,
with the register values of that moment.

The types that `NumTypeIdentifier` gives to 32 and 64 bits are both `uint16_t`.
-/

namespace Sysdarft.Debugger

/-- Programs over `operand_expression`, of which the front is popped first. -/
abbrev Expression := EStateM Fault (List Byte)

/-- The size of `NumTypeIdentifier<BIT_SIZE>::type`. -/
def numTypeBits : Width → ℕ
  | .w8 => 8
  | .w16 => 16
  | .w32 => 16
  | .w64 => 16

/-- `pop_code`, cast to the number type and widened again by the caller. -/
def popCode (width : Width) : Expression Word := do
  let operand_expression ← get
  if operand_expression.length < width.bytes then throw (.illegalInstruction "Operand expression is empty")
  else
    set (operand_expression.drop width.bytes)
    let value := BitVec.ofNat 64 (LittleEndian.value (operand_expression.take width.bytes))
    return (value.setWidth (numTypeBits width)).setWidth 64

def popCode8 : Expression Byte := do
  return (← popCode .w8).setWidth 8

/-- The literal of a register, of which only the refusals matter: it is made while the register is
decoded. -/
def checkRegisterLiteral (width register_index : Byte) : Expression Unit :=
  if width = Width.w64.bcd ∧ 15 < register_index then
    if (SpecialRegister.ofCode register_index).isSome then return ()
    else throw (.illegalInstruction "Unknown register index")
  else
    if (Width.ofBcd width).isSome then return () else throw (.illegalInstruction "Unknown register type")

/-- `do_decode_register_without_prefix`. -/
def decodeRegister : Expression (Byte × Byte) := do
  let width ← popCode8
  let register_index ← popCode8
  checkRegisterLiteral width register_index
  return (width, register_index)

/-- `do_decode_constant_without_prefix`. -/
def decodeConstant : Expression (Word × Width) := do
  let code ← popCode8
  match Width.ofBcd code with
  | some width => return (← popCode width, width)
  | none => throw (.illegalInstruction "Unknown constant width")

/-- `do_access_register_based_on_table` while decoding. -/
def loadRegister (registers : Registers) (widthBCD index : Byte) : Expression Word :=
  match Register.ofCodes widthBCD index with
  | some register => return registers.load register
  | none =>
    if (Width.ofBcd widthBCD).isSome then throw (.illegalInstruction "Unknown Register Type")
    else throw (.illegalInstruction "Unknown Register Width")

/-- `decode_each_parameter`. -/
def decodeParameter (registers : Registers) : Expression Word := do
  let code ← popCode8
  if code = REGISTER_CODE then
    let (width, index) ← decodeRegister
    loadRegister registers width index
  else if code = CONSTANT_CODE then
    return (← decodeConstant).1
  else throw (.illegalInstruction "Illegal memory operand")

/-- The last parameter of a memory operand, sign-extended from its own width. -/
def decodeSignedParameter (registers : Registers) : Expression Word := do
  let code ← popCode8
  if code = REGISTER_CODE then
    let (widthBCD, index) ← decodeRegister
    let value ← loadRegister registers widthBCD index
    match Width.ofBcd widthBCD with
    | some width => return signExtend width value
    | none => throw (.illegalInstruction "Unknown register width")
  else if code = CONSTANT_CODE then
    let (value, width) ← decodeConstant
    return signExtend width value
  else throw (.illegalInstruction "Illegal memory operand")

/-- `do_decode_memory_without_prefix`. -/
def decodeMemory (registers : Registers) : Expression (Word × Byte) := do
  let widthBCD ← popCode8
  let base ← decodeParameter registers
  let off1 ← decodeParameter registers
  let off2 ← decodeSignedParameter registers
  let ratio_bcd ← popCode8
  match Ratio.ofBcd ratio_bcd with
  | none => throw (.illegalInstruction "Unknown ratio")
  | some ratio =>
    let address := (base + off1 + off2) * BitVec.ofNat 64 ratio.factor
    match Width.ofBcd widthBCD with
    | some _ => return (address, widthBCD)
    | none => throw (.illegalInstruction "Unknown width")

/-- `do_decode_operand`. -/
def decodeOperand (registers : Registers) : Expression Operand := do
  let code ← popCode8
  if code = REGISTER_CODE then
    let (width, index) ← decodeRegister
    return .register width index
  else if code = CONSTANT_CODE then
    let (value, width) ← decodeConstant
    return .constant value width.bcd
  else if code = MEMORY_CODE then
    let (address, width) ← decodeMemory registers
    return .memory address width
  else throw (.illegalInstruction "Unknown operand type")

/-- The constructor, in a machine. -/
def operandType (operand_expression : List Byte) : CPU Operand := do
  match decodeOperand (← getRegisters) operand_expression with
  | .ok operand _ => return operand
  | .error fault _ => throw fault

/-- `get_val`. A memory operand is read relative to `%DB`. -/
def getVal : Operand → CPU Word
  | .register widthBCD index => accessRegister widthBCD index
  | .constant value _ => return value
  | .memory address widthBCD =>
    match Width.ofBcd widthBCD with
    | none => throw (.illegalInstruction "Unknown memory access width")
    | some width => do
      let data ← readMemory ((← getRegisters).DataBase + address) (BitVec.ofNat 64 width.bytes)
      return BitVec.ofNat 64 (LittleEndian.value data)

/-- `set_val`; the store functions are those of the CPU word for word. -/
def setVal (value : Word) (operand : Operand) : CPU Unit := operand.setVal value

end Sysdarft.Debugger
