import Sysdarft.Library.Effects
import Sysdarft.Library.LittleEndian
import Sysdarft.Library.Numerals
import Sysdarft.Model.InstructionSet

/-! # The disassembler

`decode_instruction` pops one instruction off the front of a byte buffer and prints it. Popping from
an empty buffer throws; what was popped before stays popped. The functions below return the strings
that the source appends to its output vector. Each of them appends after its last pop, so a throw
leaves nothing appended.
-/

namespace Sysdarft.Coding

open Effects

/-- Programs over the code buffer; the only exception is `CodeBufferEmptiedWhenPop`. -/
abbrev Disassembler := EStateM Unit (List Byte)

/-- `code_buffer_pop`, byte by byte. -/
def codeBufferPop : ℕ → Disassembler (List Byte)
  | 0 => return []
  | count + 1 => do
    match ← get with
    | [] => throw ()
    | byte :: input =>
      set input
      let rest ← codeBufferPop count
      return byte :: rest

def codeBufferPop8 : Disassembler Byte := do
  return BitVec.ofNat 8 (LittleEndian.value (← codeBufferPop 1))

/-- `bad_nbit` of one byte: the byte as data, printable characters quoted. -/
def badNbit (data : Byte) : List Char :=
  ".8bit_data <".toList ++
    (if 0x20 ≤ data.toNat ∧ data.toNat ≤ 0x7E then ['\'', Char.ofNat data.toNat, '\'']
      else "0x".toList ++ (if data.toNat < 16 then ['0'] else []) ++ Numerals.hexadecimal data.toNat) ++
    ">".toList

/-! ## Operands -/

def decodeConstant : Disassembler (List (List Char)) := do
  let code ← codeBufferPop8
  match Width.ofBcd code with
  | some width =>
    let num := LittleEndian.value (← codeBufferPop width.bytes)
    return ["$".toList ++ width.digits ++ "(0x".toList ++ Numerals.hexadecimal num ++ ")".toList]
  | none => return [badNbit code]

/-- The name printed for a register; no index of a narrow register is refused. -/
def registerLiteral (register_size register_index : Byte) : Option (List Char) :=
  match Width.ofBcd register_size with
  | none => none
  | some .w64 =>
    if register_index.toNat ≤ 15 then
      some ("%".toList ++ Width.registerLetters .w64 ++ Numerals.decimal register_index.toNat)
    else (SpecialRegister.ofCode register_index).map fun register => "%".toList ++ register.name
  | some width => some ("%".toList ++ width.registerLetters ++ Numerals.decimal register_index.toNat)

def decodeRegister : Disassembler (List (List Char)) := do
  let register_size ← codeBufferPop8
  let register_index ← codeBufferPop8
  match registerLiteral register_size register_index with
  | some name => return [name]
  | none => return [badNbit register_size, badNbit register_index]

/-- The closure `decode_each_parameter`; `none` is its `false`, after which the caller drops what was
printed so far. -/
def decodeEachParameter : Disassembler (Option (List (List Char))) := do
  let code ← codeBufferPop8
  if code = REGISTER_CODE then return some (← decodeRegister)
  else if code = CONSTANT_CODE then return some (← decodeConstant)
  else return none

def decodeMemory : Disassembler (List (List Char)) := do
  let code ← codeBufferPop8
  match Width.ofBcd code with
  | none => return [badNbit code]
  | some width =>
    match ← decodeEachParameter with
    | none => return []
    | some base =>
      match ← decodeEachParameter with
      | none => return []
      | some offset1 =>
        match ← decodeEachParameter with
        | none => return []
        | some offset2 =>
          let code ← codeBufferPop8
          match Ratio.ofBcd code with
          | none => return [badNbit code]
          | some ratio =>
            return ["*".toList ++ ratio.digits ++ "&".toList ++ width.digits ++ "(".toList ++ base.flatten ++
              ", ".toList ++ offset1.flatten ++ ", ".toList ++ offset2.flatten ++ ")".toList]

/-- `decode_target`. -/
def decodeTarget : Disassembler (List (List Char)) := do
  let code ← codeBufferPop8
  if code = REGISTER_CODE then decodeRegister
  else if code = CONSTANT_CODE then decodeConstant
  else if code = MEMORY_CODE then decodeMemory
  else return [badNbit code]

/-! ## Instructions -/

/-- The width specifier as it is printed; the narrowest one has a space behind it. -/
def widthLiteral : Width → List Char
  | .w8 => " .8bit ".toList
  | .w16 => " .16bit".toList
  | .w32 => " .32bit".toList
  | .w64 => " .64bit".toList

/-- The data lines of an instruction given up in an operand. -/
def badInstruction (instruction : Byte) (op_width : Option Width) : List (List Char) :=
  badNbit instruction :: (op_width.map fun width => badNbit width.bcd).toList

/-- The operand loop, with as many operands left as given; `none` when an operand was cut short. -/
def decodeOperands (argument_count : ℕ) : ℕ → List Char → Disassembler (Option (List Char))
  | 0, buffer => return some buffer
  | remaining + 1, buffer => do
    match ← tryCatch (do return some (← decodeTarget)) fun _ => return none with
    | none => return none
    | some operands =>
      let buffer := buffer ++ " <".toList ++ operands.flatten ++ ">".toList
      decodeOperands argument_count remaining
        (if remaining + 1 = argument_count ∧ 1 < argument_count then buffer ++ ",".toList else buffer)

/-- The operands of an instruction whose mnemonic and width are printed. -/
def decodeRest (mnemonic : Mnemonic) (op_width : Option Width) : Disassembler (List (List Char)) := do
  let buffer := mnemonic.name ++ (op_width.elim [] widthLiteral)
  match ← decodeOperands mnemonic.argumentCount mnemonic.argumentCount buffer with
  | some buffer => return [buffer]
  | none => return badInstruction mnemonic.opcode op_width

/-- The body of the outer `try` block. -/
def decodeInstructionBody : Disassembler (List (List Char)) := do
  let instruction ← codeBufferPop8
  match findOpcode instruction with
  | none => return [badNbit instruction]
  | some mnemonic =>
    if mnemonic.requiresWidth then
      let op_width ← codeBufferPop8
      match Width.ofBcd op_width with
      | none => return [badNbit instruction, badNbit op_width]
      | some width => decodeRest mnemonic (some width)
    else decodeRest mnemonic none

/-- `decode_instruction`: the lines printed and the bytes left. Every exception ends it silently. -/
def decodeInstruction (input : List Byte) : List (List Char) × List Byte :=
  match decodeInstructionBody input with
  | .ok output input => (output, input)
  | .error _ input => ([], input)

end Sysdarft.Coding
