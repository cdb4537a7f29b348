import Sysdarft.Library.LittleEndian
import Sysdarft.Library.Numerals
import Sysdarft.Library.Regex
import Sysdarft.Library.Text
import Sysdarft.Model.InstructionSet

/-! # Encoding operands

`parse` classifies an operand text by the register, constant and memory patterns, and
`encode_target` emits its bytes. Bytes are appended to a buffer in the source; here every function
returns what it appends. Constant expressions are evaluated by the external calculator `bc`, which
is a parameter. Groups of a pattern that the source never reads are not recorded.
-/

namespace Sysdarft.Coding

/-- The errors of the assembler's encoding functions, with the message given to the constructor. -/
inductive CodingError where
  | codeExpression (message : List Char)
  | instructionExpression (message : List Char)
deriving DecidableEq, Repr

/-- `what()` of an error. -/
def CodingError.what : CodingError → List Char
  | codeExpression message => "Cannot parse Target expression:\n >> ".toList ++ message
  | instructionExpression message => "Instruction Expression Error:\n >> ".toList ++ message

/-- `debug::cmd_status`. -/
structure CmdStatus where
  fd_stdout : List Char
  fd_stderr : List Char
  exit_status : ℤ

/-- The calculator: what `/usr/bin/bc` answers to an input. -/
abbrev Calculator := List Char → CmdStatus

/-! ## Text helpers -/

/-- `remove_space` erases spaces, not other white space. -/
def removeSpace (text : List Char) : List Char := text.filter (· != ' ')

/-- `capitalization`. -/
def capitalization (text : List Char) : List Char := text.map Char.toUpper

/-- The width a text such as `"16"` names. -/
def widthOfDigits (text : List Char) : Option Width := Width.all.find? fun width => width.digits == text

def ratioOfDigits (text : List Char) : Option Ratio := Ratio.all.find? fun ratio => ratio.digits == text

/-! ## Patterns -/

section Patterns

open Regex

def widthPattern : Regex := oneOf (Width.all.map Width.digits)

def ratioPattern : Regex := oneOf (Ratio.all.map Ratio.digits)

def specialPattern : Regex := oneOf (SpecialRegister.all.map SpecialRegister.name)

def lowDigit : Regex := sat fun c => decide ('0' ≤ c ∧ c ≤ '7')

/-- `^%(R|EXR|HER)[0-7]|%(FER)([\d]+)|^%(SB|SP|CB|DB|DP|EB|EP)|^%XMM[0-5]$`. -/
def registerPattern : Regex :=
  alt (seq bol (seq (chr '%') (seq (oneOf ["R".toList, "EXR".toList, "HER".toList]) lowDigit)))
    (alt (seq (lit "%FER".toList) (plus (sat Numerals.isDecimal)))
      (alt (seq bol (seq (chr '%') specialPattern))
        (seq bol (seq (lit "%XMM".toList) (seq (sat fun c => decide ('0' ≤ c ∧ c ≤ '5')) eol)))))

/-- The characters `.` matches: not a line terminator. -/
def dot : Regex := sat fun c => c != '\n' && c != '\r'

/-- `^\$(8|16|32|64)\((.*)\)$`. -/
def constantPattern : Regex :=
  seq bol (seq (chr '$') (seq (group 1 widthPattern) (seq (chr '(') (seq (group 2 (star dot)) (seq (chr ')') eol)))))

def noComma : Regex := plus (sat (· != ','))

/-- `^\*(1|2|4|8|16)\&(8|16|32|64)\(([^,]+),([^,]+),([^,]+)\)$`. -/
def memoryPattern : Regex :=
  seq bol (seq (chr '*') (seq (group 1 ratioPattern) (seq (chr '&') (seq (group 2 widthPattern) (seq (chr '(')
    (seq (group 3 noComma) (seq (chr ',') (seq (group 4 noComma) (seq (chr ',')
      (seq (group 5 noComma) (seq (chr ')') eol)))))))))))

/-- `0x[0-9A-Fa-f]+`. -/
def base16Pattern : Regex := seq (lit "0x".toList) (plus (sat Numerals.isHexadecimal))

end Patterns

def isValidRegister (input : List Char) : Bool := (Regex.fullMatch registerPattern input).isSome

def isValidConstant (input : List Char) : Bool := (Regex.fullMatch constantPattern input).isSome

def isValidMemory (input : List Char) : Bool := (Regex.fullMatch memoryPattern input).isSome

/-! ## Parsing -/

/-- `parsed_target_t`, one constructor for each target type that `parse` produces. -/
inductive ParsedTarget where
  | notAValidType
  | register (RegisterName : List Char)
  | constant (ConstantWidth ConstantExpression : List Char)
  | memory (MemoryAccessRatio MemoryWidth MemoryBaseAddress MemoryOffset1 MemoryOffset2 : List Char)
deriving DecidableEq, Repr

def parse (input : List Char) : Except CodingError ParsedTarget :=
  let input := capitalization (removeSpace input)
  if isValidRegister input then .ok (.register input)
  else if isValidConstant input then
    match Regex.search constantPattern input with
    | some found => .ok (.constant (found.captures.get 1) (found.captures.get 2))
    | none => .ok (.constant [] input)
  else if isValidMemory input then
    match Regex.search memoryPattern input with
    | some found =>
      .ok (.memory (found.captures.get 1) (found.captures.get 2) (found.captures.get 3) (found.captures.get 4)
        (found.captures.get 5))
    | none => .ok .notAValidType
  else .error (.codeExpression input)

/-! ## Constants -/

/-- `process_base16`: the numerals are collected first and then replaced one after the other. -/
def processBase16 (input : List Char) : List Char :=
  let input := Text.replaceAll "0X".toList "0x".toList input
  let data := (Regex.iterate base16Pattern input).map fun found =>
    (found.text, (Numerals.strtoull 16 found.text).getD 0)
  data.foldl (fun text entry => Text.replaceAll entry.1 (Numerals.decimal entry.2) text) input

/-- `execute_bc`. -/
def executeBc (bc : Calculator) (input : List Char) : Except CodingError (List Char) :=
  let status := bc input
  if status.exit_status ≠ 0 then
    .error (.codeExpression (input ++ " failed, exit: ".toList ++ (toString status.exit_status).toList ++
      ": ".toList ++ status.fd_stderr))
  else .ok status.fd_stdout

def encodeConstant (bc : Calculator) (ConstantWidth ConstantExpression : List Char) :
    Except CodingError (List Byte) := do
  if ConstantExpression = [] then
    throw (.codeExpression ("Received expression being empty: ".toList ++ ConstantExpression))
  let result_from_bc ← executeBc bc (processBase16 ConstantExpression)
  match widthOfDigits ConstantWidth with
  | none => throw (.codeExpression ("Unknown constant width ".toList ++ ConstantWidth))
  | some width =>
    match Numerals.strtoull 10 result_from_bc with
    | none => throw (.codeExpression ("Not a valid constant: ".toList ++ ConstantExpression))
    | some result => return CONSTANT_CODE :: width.bcd :: LittleEndian.bytes width.bytes result

/-! ## Registers -/

/-- The digits at the end of a text. -/
def trailingDigits (input : List Char) : List Char := (input.reverse.takeWhile Numerals.isDecimal).reverse

/-- `extractTrailingNumber`: `std::from_chars` fails for values that do not fit 32 bits. -/
def extractTrailingNumber (input : List Char) : Option ℕ :=
  if trailingDigits input = [] then none
  else if Numerals.digitsValue 10 (trailingDigits input) < 2 ^ 32 then
    some (Numerals.digitsValue 10 (trailingDigits input))
  else none

/-- The special register with a name, the percent sign included. -/
def specialOfName (name : List Char) : Option SpecialRegister :=
  SpecialRegister.all.find? fun register => '%' :: register.name == name

/-- The cases of the width letter of a general register name. -/
def widthOfLetter (letter : Option Char) : Option Width :=
  if letter = some 'R' then some .w8
  else if letter = some 'E' then some .w16
  else if letter = some 'H' then some .w32
  else if letter = some 'F' then some .w64
  else none

def encodeRegister (RegisterName : List Char) : Except CodingError (List Byte) :=
  let register_index := (extractTrailingNumber RegisterName).getD 0
  match specialOfName RegisterName with
  | some special => .ok [REGISTER_CODE, Width.w64.bcd, special.code]
  | none =>
    match widthOfLetter RegisterName[1]? with
    | some width => .ok [REGISTER_CODE, width.bcd, BitVec.ofNat 8 register_index]
    | none => .error (.codeExpression ("Unknown register ".toList ++ RegisterName))

/-! ## Memory references -/

/-- The closure `encode_each_parameter`. -/
def encodeParameter (bc : Calculator) (param : List Char) : Except CodingError (List Byte) :=
  if isValidRegister param then
    let tmp := (param.reverse.dropWhile Numerals.isDecimal).reverse
    if tmp ≠ "%FER".toList ∧ specialOfName param = none then
      .error (.codeExpression ("Not a 64bit Register: ".toList ++ param))
    else encodeRegister param
  else if isValidConstant param then
    match Regex.search constantPattern param with
    | some found => encodeConstant bc (found.captures.get 1) (found.captures.get 2)
    | none => .error (.codeExpression ("Constant matched but malformed: ".toList ++ param))
  else .error (.codeExpression ("Not a register nor a constant: ".toList ++ param))

def encodeMemoryWidthPrefix (input : List Char) : Except CodingError (List Byte) :=
  match widthOfDigits input with
  | some width => .ok [width.bcd]
  | none => .error (.codeExpression input)

/-- An unknown ratio would emit nothing. -/
def encodeRatio (input : List Char) : List Byte :=
  match ratioOfDigits input with
  | some ratio => [ratio.bcd]
  | none => []

def encodeMemory (bc : Calculator)
    (MemoryAccessRatio MemoryWidth MemoryBaseAddress MemoryOffset1 MemoryOffset2 : List Char) :
    Except CodingError (List Byte) := do
  let width ← encodeMemoryWidthPrefix MemoryWidth
  let base ← encodeParameter bc MemoryBaseAddress
  let offset1 ← encodeParameter bc MemoryOffset1
  let offset2 ← encodeParameter bc MemoryOffset2
  return MEMORY_CODE :: (width ++ base ++ offset1 ++ offset2 ++ encodeRatio MemoryAccessRatio)

/-! ## Targets -/

/-- `encode_target`: the parsed target and the bytes appended to the buffer. -/
def encodeTarget (bc : Calculator) (input : List Char) : Except CodingError (ParsedTarget × List Byte) := do
  let parsed ← parse input
  match parsed with
  | .register name => return (parsed, ← encodeRegister name)
  | .constant width expression => return (parsed, ← encodeConstant bc width expression)
  | .memory ratio width base offset1 offset2 => return (parsed, ← encodeMemory bc ratio width base offset1 offset2)
  | .notAValidType => throw (.codeExpression input)

end Sysdarft.Coding
