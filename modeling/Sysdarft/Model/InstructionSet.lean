import Mathlib.Tactic

/-! # The instruction set

The table `instruction_map` of the source, shared by the assembler, the disassembler and the CPU:
every mnemonic with its opcode, its number of operands and whether an operation width follows the
opcode. Widths, ratios and register codes are written in packed BCD. The source map is unordered,
and its opcodes are distinct, so the order of `instructionMap` is immaterial.
-/

namespace Sysdarft

abbrev Byte := BitVec 8

/-- A 64-bit machine word. -/
abbrev Word := BitVec 64

inductive Mnemonic where
  | nop | add | adc | sub | sbb | imul | mul | idiv | div | neg | cmp | inc | dec | and | or
  | xor | not | shl | shr | rol | ror | rcl | rcr | mov | xchg | push | pop | pushall | popall
  | enter | leave | movs | lea | jmp | call | ret | je | jne | jb | jl | jbe | jle | int | int3
  | iret | jc | jnc | jo | jno | loop | hlt | igni | alwi | in_ | out | ins | outs
deriving DecidableEq, Repr

/-- One entry of the map. -/
structure InstructionEntry where
  name : List Char
  opcode : Byte
  argumentCount : ℕ
  requireOperationWidthSpecification : Bool

namespace Mnemonic

def entry : Mnemonic → InstructionEntry
  | nop => ⟨"NOP".toList, 0x00, 0, false⟩
  | add => ⟨"ADD".toList, 0x01, 2, true⟩
  | adc => ⟨"ADC".toList, 0x02, 2, true⟩
  | sub => ⟨"SUB".toList, 0x03, 2, true⟩
  | sbb => ⟨"SBB".toList, 0x04, 2, true⟩
  | imul => ⟨"IMUL".toList, 0x05, 1, true⟩
  | mul => ⟨"MUL".toList, 0x06, 1, true⟩
  | idiv => ⟨"IDIV".toList, 0x07, 1, true⟩
  | div => ⟨"DIV".toList, 0x08, 1, true⟩
  | neg => ⟨"NEG".toList, 0x09, 1, true⟩
  | cmp => ⟨"CMP".toList, 0x0A, 2, true⟩
  | inc => ⟨"INC".toList, 0x0B, 1, true⟩
  | dec => ⟨"DEC".toList, 0x0C, 1, true⟩
  | and => ⟨"AND".toList, 0x10, 2, true⟩
  | or => ⟨"OR".toList, 0x11, 2, true⟩
  | xor => ⟨"XOR".toList, 0x12, 2, true⟩
  | not => ⟨"NOT".toList, 0x13, 1, true⟩
  | shl => ⟨"SHL".toList, 0x14, 2, true⟩
  | shr => ⟨"SHR".toList, 0x15, 2, true⟩
  | rol => ⟨"ROL".toList, 0x16, 2, true⟩
  | ror => ⟨"ROR".toList, 0x17, 2, true⟩
  | rcl => ⟨"RCL".toList, 0x18, 2, true⟩
  | rcr => ⟨"RCR".toList, 0x19, 2, true⟩
  | mov => ⟨"MOV".toList, 0x20, 2, true⟩
  | xchg => ⟨"XCHG".toList, 0x21, 2, true⟩
  | push => ⟨"PUSH".toList, 0x22, 1, true⟩
  | pop => ⟨"POP".toList, 0x23, 1, true⟩
  | pushall => ⟨"PUSHALL".toList, 0x24, 0, false⟩
  | popall => ⟨"POPALL".toList, 0x25, 0, false⟩
  | enter => ⟨"ENTER".toList, 0x26, 1, true⟩
  | leave => ⟨"LEAVE".toList, 0x27, 0, false⟩
  | movs => ⟨"MOVS".toList, 0x28, 0, false⟩
  | lea => ⟨"LEA".toList, 0x29, 2, false⟩
  | jmp => ⟨"JMP".toList, 0x30, 2, false⟩
  | call => ⟨"CALL".toList, 0x31, 2, false⟩
  | ret => ⟨"RET".toList, 0x32, 0, false⟩
  | je => ⟨"JE".toList, 0x33, 2, false⟩
  | jne => ⟨"JNE".toList, 0x34, 2, false⟩
  | jb => ⟨"JB".toList, 0x35, 2, false⟩
  | jl => ⟨"JL".toList, 0x36, 2, false⟩
  | jbe => ⟨"JBE".toList, 0x37, 2, false⟩
  | jle => ⟨"JLE".toList, 0x38, 2, false⟩
  | int => ⟨"INT".toList, 0x39, 1, false⟩
  | int3 => ⟨"INT3".toList, 0x3A, 0, false⟩
  | iret => ⟨"IRET".toList, 0x3B, 0, false⟩
  | jc => ⟨"JC".toList, 0x3C, 2, false⟩
  | jnc => ⟨"JNC".toList, 0x3D, 2, false⟩
  | jo => ⟨"JO".toList, 0x3E, 2, false⟩
  | jno => ⟨"JNO".toList, 0x3F, 2, false⟩
  | loop => ⟨"LOOP".toList, 0x60, 2, false⟩
  | hlt => ⟨"HLT".toList, 0x40, 0, false⟩
  | igni => ⟨"IGNI".toList, 0x41, 0, false⟩
  | alwi => ⟨"ALWI".toList, 0x42, 0, false⟩
  | in_ => ⟨"IN".toList, 0x50, 2, true⟩
  | out => ⟨"OUT".toList, 0x51, 2, true⟩
  | ins => ⟨"INS".toList, 0x52, 1, true⟩
  | outs => ⟨"OUTS".toList, 0x53, 1, true⟩

def name (mnemonic : Mnemonic) : List Char := mnemonic.entry.name

def opcode (mnemonic : Mnemonic) : Byte := mnemonic.entry.opcode

def argumentCount (mnemonic : Mnemonic) : ℕ := mnemonic.entry.argumentCount

def requiresWidth (mnemonic : Mnemonic) : Bool := mnemonic.entry.requireOperationWidthSpecification

end Mnemonic

def instructionMap : List Mnemonic :=
  [.nop, .add, .adc, .sub, .sbb, .imul, .mul, .idiv, .div, .neg, .cmp, .inc, .dec, .and, .or,
   .xor, .not, .shl, .shr, .rol, .ror, .rcl, .rcr, .mov, .xchg, .push, .pop, .pushall, .popall,
   .enter, .leave, .movs, .lea, .jmp, .call, .ret, .je, .jne, .jb, .jl, .jbe, .jle, .int,
   .int3, .iret, .jc, .jnc, .jo, .jno, .loop, .hlt, .igni, .alwi, .in_, .out, .ins, .outs]

/-- The entry with a given name (`instruction_map.contains` and `instruction_map.at`). -/
def findName (text : List Char) : Option Mnemonic :=
  instructionMap.find? fun mnemonic => mnemonic.name == text

/-- The entry with a given opcode, as the loops of both decoders find it. -/
def findOpcode (code : Byte) : Option Mnemonic :=
  instructionMap.find? fun mnemonic => mnemonic.opcode == code

theorem findName_name (mnemonic : Mnemonic) : findName mnemonic.name = some mnemonic := by
  cases mnemonic <;> decide

theorem findOpcode_opcode (mnemonic : Mnemonic) : findOpcode mnemonic.opcode = some mnemonic := by
  cases mnemonic <;> decide

theorem opcode_of_findOpcode {code : Byte} {mnemonic : Mnemonic}
    (found : findOpcode code = some mnemonic) : mnemonic.opcode = code := by
  simpa using List.find?_some found

theorem argumentCount_le_two (mnemonic : Mnemonic) : mnemonic.argumentCount ≤ 2 := by
  cases mnemonic <;> decide

/-! ## Widths and ratios -/

/-- Operand and operation widths. -/
inductive Width where
  | w8 | w16 | w32 | w64
deriving DecidableEq, Repr

namespace Width

def all : List Width := [w8, w16, w32, w64]

/-- The packed BCD code of a width. -/
def bcd : Width → Byte
  | w8 => 0x08
  | w16 => 0x16
  | w32 => 0x32
  | w64 => 0x64

def bits : Width → ℕ
  | w8 => 8
  | w16 => 16
  | w32 => 32
  | w64 => 64

/-- Size in bytes. -/
def bytes : Width → ℕ
  | w8 => 1
  | w16 => 2
  | w32 => 4
  | w64 => 8

/-- The width as the assembler writes it. -/
def digits : Width → List Char
  | w8 => "8".toList
  | w16 => "16".toList
  | w32 => "32".toList
  | w64 => "64".toList

def ofBcd (code : Byte) : Option Width :=
  if code = 0x08 then some w8
  else if code = 0x16 then some w16
  else if code = 0x32 then some w32
  else if code = 0x64 then some w64
  else none

theorem digits_injective : Function.Injective digits := by
  intro width width' same
  cases width <;> cases width' <;> simp_all [digits]

@[simp] theorem ofBcd_bcd (width : Width) : ofBcd width.bcd = some width := by
  cases width <;> rfl

theorem bcd_of_ofBcd {code : Byte} {width : Width} (known : ofBcd code = some width) :
    width.bcd = code := by
  unfold ofBcd at known
  split_ifs at known <;> cases known <;> simp_all [bcd]

theorem two_pow_bits (width : Width) : 2 ^ width.bits = 256 ^ width.bytes := by
  cases width <;> rfl

theorem bytes_pos (width : Width) : 0 < width.bytes := by
  cases width <;> decide

theorem bits_le (width : Width) : width.bits ≤ 64 := by
  cases width <;> decide

end Width

/-- Access ratios of memory operands. -/
inductive Ratio where
  | r1 | r2 | r4 | r8 | r16
deriving DecidableEq, Repr

namespace Ratio

def all : List Ratio := [r1, r2, r4, r8, r16]

def bcd : Ratio → Byte
  | r1 => 0x01
  | r2 => 0x02
  | r4 => 0x04
  | r8 => 0x08
  | r16 => 0x16

def factor : Ratio → ℕ
  | r1 => 1
  | r2 => 2
  | r4 => 4
  | r8 => 8
  | r16 => 16

def digits : Ratio → List Char
  | r1 => "1".toList
  | r2 => "2".toList
  | r4 => "4".toList
  | r8 => "8".toList
  | r16 => "16".toList

def ofBcd (code : Byte) : Option Ratio :=
  if code = 0x01 then some r1
  else if code = 0x02 then some r2
  else if code = 0x04 then some r4
  else if code = 0x08 then some r8
  else if code = 0x16 then some r16
  else none

theorem digits_injective : Function.Injective digits := by
  intro ratio ratio' same
  cases ratio <;> cases ratio' <;> simp_all [digits]

@[simp] theorem ofBcd_bcd (ratio : Ratio) : ofBcd ratio.bcd = some ratio := by
  cases ratio <;> rfl

theorem bcd_of_ofBcd {code : Byte} {ratio : Ratio} (known : ofBcd code = some ratio) :
    ratio.bcd = code := by
  unfold ofBcd at known
  split_ifs at known <;> cases known <;> simp_all [bcd]

end Ratio

/-! ## Operand and register codes -/

def REGISTER_CODE : Byte := 0x01
def CONSTANT_CODE : Byte := 0x02
def MEMORY_CODE : Byte := 0x03

/-- The 64-bit registers that are not `%FERn`, with their register codes. -/
inductive SpecialRegister where
  | stackBase | stackPointer | codeBase | dataBase | dataPointer | extendedBase | extendedPointer
deriving DecidableEq, Repr

namespace SpecialRegister

def code : SpecialRegister → Byte
  | stackBase => 0xA0
  | stackPointer => 0xA1
  | codeBase => 0xA2
  | dataBase => 0xA3
  | dataPointer => 0xA4
  | extendedBase => 0xA5
  | extendedPointer => 0xA6

/-- The name of the register, without the leading percent sign. -/
def name : SpecialRegister → List Char
  | stackBase => "SB".toList
  | stackPointer => "SP".toList
  | codeBase => "CB".toList
  | dataBase => "DB".toList
  | dataPointer => "DP".toList
  | extendedBase => "EB".toList
  | extendedPointer => "EP".toList

def all : List SpecialRegister :=
  [stackBase, stackPointer, codeBase, dataBase, dataPointer, extendedBase, extendedPointer]

def ofCode (index : Byte) : Option SpecialRegister :=
  all.find? fun register => register.code == index

@[simp] theorem ofCode_code (register : SpecialRegister) : ofCode register.code = some register := by
  cases register <;> rfl

theorem code_of_ofCode {index : Byte} {register : SpecialRegister}
    (known : ofCode index = some register) : register.code = index := by
  simpa using List.find?_some known

end SpecialRegister

/-- How many general registers there are of a width. -/
def Width.registerCount : Width → ℕ
  | .w64 => 16
  | _ => 8

instance neZero_eight : NeZero 8 := ⟨by decide⟩

/-- Every width has the registers 0 to 7. -/
theorem Width.lt_registerCount (width : Width) (index : Fin 8) : index < width.registerCount := by
  cases width <;> simp only [Width.registerCount] <;> omega

theorem Width.registerCount_pos (width : Width) : 0 < width.registerCount := width.lt_registerCount 0

/-- The letters in the names of the general registers of a width. -/
def Width.registerLetters : Width → List Char
  | .w8 => "R".toList
  | .w16 => "EXR".toList
  | .w32 => "HER".toList
  | .w64 => "FER".toList

/-- The registers an operand can name: `%Rn`, `%EXRn`, `%HERn`, `%FERn` and the special ones. -/
inductive Register where
  | general (width : Width) (index : Fin width.registerCount)
  | special (register : SpecialRegister)
deriving DecidableEq

namespace Register

def width : Register → Width
  | general width _ => width
  | special _ => .w64

/-- The index byte of the register in an operand. -/
def code : Register → Byte
  | general _ index => BitVec.ofNat 8 index
  | special register => register.code

/-- The cases of the CPU's register tables. -/
def ofCodes (widthBCD index : Byte) : Option Register :=
  match Width.ofBcd widthBCD with
  | some width =>
    if exists_ : index.toNat < width.registerCount then some (general width ⟨index.toNat, exists_⟩)
    else if width = .w64 then (SpecialRegister.ofCode index).map special
    else none
  | none => none

theorem ofCodes_codes (register : Register) :
    ofCodes register.width.bcd register.code = some register := by
  cases register with
  | general width index =>
    have small : index.val < 2 ^ 8 := by
      have := index.isLt
      cases width <;> simp only [Width.registerCount] at this <;> omega
    have value : (BitVec.ofNat 8 index.val).toNat = index.val := by
      rw [BitVec.toNat_ofNat, Nat.mod_eq_of_lt small]
    simp only [ofCodes, Register.width, code, Width.ofBcd_bcd, value, index.isLt, ↓reduceDIte]
  | special register => cases register <;> rfl

theorem codes_of_ofCodes {widthBCD index : Byte} {register : Register}
    (known : ofCodes widthBCD index = some register) :
    register.width.bcd = widthBCD ∧ register.code = index := by
  unfold ofCodes at known
  split at known
  · rename_i width found
    have code := Width.bcd_of_ofBcd found
    split_ifs at known with small full
    · cases known
      exact ⟨code, by simp [Register.code]⟩
    · subst full
      obtain ⟨special, found, rfl⟩ := Option.map_eq_some_iff.mp known
      exact ⟨code, SpecialRegister.code_of_ofCode found⟩
  · cases known

end Register

end Sysdarft
