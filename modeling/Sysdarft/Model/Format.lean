import Sysdarft.Library.LittleEndian
import Sysdarft.Model.Decoder

/-! # The instruction format

An abstract syntax of encoded instructions. It is not part of the source: the assembler, the
disassembler and the CPU each have their own hand-written code for the format, and the three are
compared through it. A value of `Instruction` is an instruction that all three agree is well formed:
registers exist, constants fit their width, the operand count and the presence of a width are those
of the mnemonic.
-/

namespace Sysdarft.Format

/-- A constant of its own width. -/
structure Constant where
  width : Width
  value : BitVec width.bits

/-- The parameters of a memory reference. -/
inductive Parameter where
  | register (name : Register)
  | constant (literal : Constant)

inductive Target where
  | register (name : Register)
  | constant (literal : Constant)
  | memory (ratio : Ratio) (width : Width) (base offset1 offset2 : Parameter)

structure Instruction where
  mnemonic : Mnemonic
  width : Option Width
  operands : List Target
  widthed : width.isSome = mnemonic.requiresWidth
  counted : operands.length = mnemonic.argumentCount

theorem widthed_some (width : Width) : (some width).isSome = true := rfl

theorem widthed_none : (none : Option Width).isSome = false := rfl

theorem counted_two (first second : Target) : [first, second].length = 2 := rfl

/-! ## Bytes -/

def registerBytes (register : Register) : List Byte := [REGISTER_CODE, register.width.bcd, register.code]

def Constant.bytes (constant : Constant) : List Byte :=
  CONSTANT_CODE :: constant.width.bcd :: LittleEndian.bytes constant.width.bytes constant.value.toNat

def Parameter.bytes : Parameter → List Byte
  | register name => registerBytes name
  | constant literal => literal.bytes

def Target.bytes : Target → List Byte
  | register name => registerBytes name
  | constant literal => literal.bytes
  | memory ratio width base offset1 offset2 =>
    MEMORY_CODE :: width.bcd :: (base.bytes ++ offset1.bytes ++ offset2.bytes ++ [ratio.bcd])

def Instruction.bytes (instruction : Instruction) : List Byte :=
  instruction.mnemonic.opcode ::
    ((instruction.width.map Width.bcd).toList ++ (instruction.operands.map Target.bytes).flatten)

/-! ## Meaning on the CPU -/

/-- The value of a parameter, zero-extended. -/
def Parameter.value (registers : Registers) : Parameter → Word
  | register name => registers.load name
  | constant literal => literal.value.setWidth 64

/-- The value of the last parameter, sign-extended from its own width. -/
def Parameter.signedValue (registers : Registers) : Parameter → Word
  | register name => signExtend name.width (registers.load name)
  | constant literal => signExtend literal.width (literal.value.setWidth 64)

/-- The operand the CPU works with. -/
def Target.operand (registers : Registers) : Target → Operand
  | register name => .register name.width.bcd name.code
  | constant literal => .constant (literal.value.setWidth 64) literal.width.bcd
  | memory ratio width base offset1 offset2 =>
    .memory ((base.value registers + offset1.value registers + offset2.signedValue registers) *
      BitVec.ofNat 64 ratio.factor) width.bcd

/-- An operand that the register tables know, or that is no register. -/
def Resolves : Operand → Prop
  | .register widthBCD index => (Register.ofCodes widthBCD index).isSome = true
  | _ => True

def Instruction.active (registers : Registers) (instruction : Instruction) : ActiveInstruction where
  opcode := instruction.mnemonic.opcode
  width := instruction.width.elim 0 Width.bcd
  operands := instruction.operands.map (Target.operand registers)

end Sysdarft.Format
