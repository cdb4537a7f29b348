import Sysdarft.Model.Decoder

/-! # The operand reference table

An operand of the CPU is a table that its decoder fills in place: the three parameters of a memory
operand go through the same fields as the operand itself, one after the other. `Operand` keeps only
what is read of the table afterwards; here is the table with every assignment.
-/

namespace Sysdarft

inductive OperandKind where
  | NaO | RegisterOperand | ConstantOperand | MemoryOperand
deriving DecidableEq, Repr

/-- `OperandReferenceTable`, zero when an operand is constructed. -/
structure ReferenceTable where
  OperandType : OperandKind
  ConstantValue : Word
  ConstantWidth : Byte
  RegisterWidthBCD : Byte
  RegisterIndex : Byte
  MemoryAddress : Word
  MemoryWidthBCD : Byte
deriving DecidableEq, Repr

namespace ReferenceTable

def empty : ReferenceTable where
  OperandType := .NaO
  ConstantValue := 0
  ConstantWidth := 0
  RegisterWidthBCD := 0
  RegisterIndex := 0
  MemoryAddress := 0
  MemoryWidthBCD := 0

/-- `do_access_register_based_on_table`. -/
def accessRegister (table : ReferenceTable) : CPU Word :=
  Sysdarft.accessRegister table.RegisterWidthBCD table.RegisterIndex

/-- `do_decode_register_without_prefix`. -/
def decodeRegister (table : ReferenceTable) : CPU ReferenceTable := do
  let width ← popCode8
  let register_index ← popCode8
  return { table with OperandType := .RegisterOperand, RegisterWidthBCD := width, RegisterIndex := register_index }

/-- `do_decode_constant_without_prefix`. -/
def decodeConstant (table : ReferenceTable) : CPU ReferenceTable := do
  let code ← popCode8
  match Width.ofBcd code with
  | some width =>
    let num ← popCodeWidth width
    return { table with OperandType := .ConstantOperand, ConstantValue := num, ConstantWidth := code }
  | none => throw (.illegalInstruction "Unknown constant width")

/-- `decode_each_parameter`: the value that is copied out of the table. -/
def decodeParameter (table : ReferenceTable) : CPU (Word × ReferenceTable) := do
  let code ← popCode8
  if code = REGISTER_CODE then
    let table ← table.decodeRegister
    return (← table.accessRegister, table)
  else if code = CONSTANT_CODE then
    let table ← table.decodeConstant
    return (table.ConstantValue, table)
  else throw (.illegalInstruction "Illegal memory operand")

/-- The last parameter, with the width that the table has at that time. -/
def decodeSignedParameter (table : ReferenceTable) : CPU (Word × ReferenceTable) := do
  let code ← popCode8
  if code = REGISTER_CODE then
    let table ← table.decodeRegister
    let value ← table.accessRegister
    match Width.ofBcd table.RegisterWidthBCD with
    | some width => return (signExtend width value, table)
    | none => throw (.illegalInstruction "Unknown register width")
  else if code = CONSTANT_CODE then
    let table ← table.decodeConstant
    match Width.ofBcd table.ConstantWidth with
    | some width => return (signExtend width table.ConstantValue, table)
    | none => throw (.illegalInstruction "Unknown register width")
  else throw (.illegalInstruction "Illegal memory operand")

/-- `do_decode_memory_without_prefix`. -/
def decodeMemory (table : ReferenceTable) : CPU ReferenceTable := do
  let widthBCD ← popCode8
  let (base, table) ← table.decodeParameter
  let (off1, table) ← table.decodeParameter
  let (off2, table) ← table.decodeSignedParameter
  let ratioBCD ← popCode8
  match Ratio.ofBcd ratioBCD with
  | none => throw (.illegalInstruction "Unknown ratio")
  | some ratio =>
    let calculated_address := (base + off1 + off2) * BitVec.ofNat 64 ratio.factor
    match Width.ofBcd widthBCD with
    | some _ =>
      return { table with
        OperandType := .MemoryOperand, MemoryAddress := calculated_address, MemoryWidthBCD := widthBCD }
    | none => throw (.illegalInstruction "Unknown width")

/-- `do_decode_operand`. -/
def decodeOperand (table : ReferenceTable) : CPU ReferenceTable := do
  let code ← popCode8
  if code = REGISTER_CODE then table.decodeRegister
  else if code = CONSTANT_CODE then table.decodeConstant
  else if code = MEMORY_CODE then table.decodeMemory
  else throw (.illegalInstruction "Unknown operand type")

/-- What is read of the table after the operand is decoded. -/
def Represents (table : ReferenceTable) : Operand → Prop
  | .register widthBCD index =>
    table.OperandType = .RegisterOperand ∧ table.RegisterWidthBCD = widthBCD ∧ table.RegisterIndex = index ∧
      table.MemoryAddress = 0
  | .constant value width =>
    table.OperandType = .ConstantOperand ∧ table.ConstantValue = value ∧ table.ConstantWidth = width ∧
      table.MemoryAddress = 0
  | .memory address widthBCD =>
    table.OperandType = .MemoryOperand ∧ table.MemoryAddress = address ∧ table.MemoryWidthBCD = widthBCD

/-- `do_access_operand_based_on_table`. -/
def getVal (table : ReferenceTable) : CPU Word :=
  match table.OperandType with
  | .RegisterOperand => table.accessRegister
  | .MemoryOperand =>
    match Width.ofBcd table.MemoryWidthBCD with
    | none => throw (.illegalInstruction "Unknown memory access width")
    | some width => do
      let (data, _) ← popMemoryFrom 0 table.MemoryAddress (BitVec.ofNat 64 width.bytes)
      return BitVec.ofNat 64 (LittleEndian.value data)
  | .ConstantOperand => return table.ConstantValue
  | .NaO => throw (.illegalInstruction "Unknown error!")

/-- `store_value_to_operand_based_on_table`. -/
def setVal (value : Word) (table : ReferenceTable) : CPU Unit :=
  match table.OperandType with
  | .RegisterOperand => do
    let register ← selectRegister table.RegisterWidthBCD table.RegisterIndex
    modifyRegisters fun registers => registers.store value register
  | .MemoryOperand =>
    match Width.ofBcd table.MemoryWidthBCD with
    | none => throw (.illegalInstruction "Unknown Error!")
    | some width =>
      writeMemory table.MemoryAddress (LittleEndian.bytes width.bytes value.toNat) (BitVec.ofNat 64 width.bytes)
  | _ => throw (.illegalInstruction "Unknown error!")

/-- `get_effective_addr`. -/
def getEffectiveAddr (table : ReferenceTable) : Word := table.MemoryAddress

end ReferenceTable

end Sysdarft
