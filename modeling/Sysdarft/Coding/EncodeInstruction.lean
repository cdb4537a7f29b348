import Sysdarft.Coding.EncodeTarget

/-! # Encoding instructions

`clean_line` cuts a source line into the mnemonic, an optional width specifier and the operands, all
capitalized and without spaces. `encode_instruction` checks the pieces against the instruction map
and emits opcode, width and operands.
-/

namespace Sysdarft.Coding

section Patterns

open Regex

/-- `([A-Z-0-9]+)`; the dash is a character of the class. -/
def instructionPattern : Regex :=
  plus (sat fun c => decide ('A' ≤ c ∧ c ≤ 'Z') || c == '-' || Numerals.isDecimal c)

/-- `.8BIT|.16BIT|.32BIT|.64BIT`; the dot is a wildcard. -/
def operationWidthPattern : Regex :=
  alt (seq dot (lit "8BIT".toList)) (alt (seq dot (lit "16BIT".toList))
    (alt (seq dot (lit "32BIT".toList)) (seq dot (lit "64BIT".toList))))

def space : Regex := sat Numerals.isSpace

/-- `\*\s*(?:1|2|4|8|16)\&(8|16|32|64)\s*\([^,]+,[^,]+,[^,]+\)`. -/
def targetMemory : Regex :=
  seq (chr '*') (seq (star space) (seq ratioPattern (seq (chr '&') (seq widthPattern (seq (star space)
    (seq (chr '(') (seq noComma (seq (chr ',') (seq noComma (seq (chr ',') (seq noComma (chr ')'))))))))))))

/-- The characters of a constant expression: `[+\-.',*\/^%()xX0-9-]`. -/
def expressionChar (c : Char) : Bool := "+-.',*/^%()xX".toList.contains c || Numerals.isDecimal c

/-- `\$\s*(8|16|32|64)\s*\(\s*(?:0[xX][A-Fa-f0-9]+|\s|[+\-.',*\/^%()xX0-9-])+\s*\)`. -/
def targetConstant : Regex :=
  seq (chr '$') (seq (star space) (seq widthPattern (seq (star space) (seq (chr '(') (seq (star space)
    (seq (plus (alt (seq (chr '0') (seq (sat fun c => c == 'x' || c == 'X') (plus (sat Numerals.isHexadecimal))))
      (alt space (sat expressionChar)))) (seq (star space) (chr ')'))))))))

/-- `%(?:R|EXR|HER)[0-7]|%(FER)([\d]+)|%(SB|SP|CB|DB|DP|EB|EP)`. -/
def targetRegister : Regex :=
  alt (seq (chr '%') (seq (oneOf ["R".toList, "EXR".toList, "HER".toList]) lowDigit))
    (alt (seq (lit "%FER".toList) (plus (sat Numerals.isDecimal))) (seq (chr '%') specialPattern))

/-- `target_pattern`: one of these between angle brackets. -/
def targetPattern : Regex :=
  seq (chr '<') (seq (star space) (seq (alt targetMemory (alt targetRegister targetConstant))
    (seq (star space) (chr '>'))))

end Patterns

/-- `clean_line`. -/
def cleanLine (input : List Char) : Except CodingError (List (List Char)) :=
  let input := capitalization input
  match Regex.search instructionPattern input with
  | none => .error (.instructionExpression ("No match for instruction in ".toList ++ input))
  | some found =>
    let width := ((Regex.search operationWidthPattern input).map fun match_ => removeSpace match_.text).toList
    let targets := (Regex.iterate targetPattern input).map fun match_ => removeSpace match_.text
    .ok (removeSpace found.text :: (width ++ targets))

/-- The specifier of a width. -/
def widthSpecifier (width : Width) : List Char := '.' :: (width.digits ++ "BIT".toList)

/-- `encode_width_specifier`: the width whose code is emitted. -/
def encodeWidthSpecifier (specifier : List Char) : Except CodingError Width :=
  match Width.all.find? fun width => widthSpecifier width == specifier with
  | some width => .ok width
  | none => .error (.instructionExpression ("Unknown specifier ".toList ++ specifier))

/-! ## Checks on operands -/

/-- The width letter and the special registers that fit an operation width. A 16-bit operation looks
at the letter only, which `%EB` and `%EP` have as well. -/
def registerFits (width : Width) (name : List Char) : Bool :=
  match width with
  | .w8 => name[1]? == some 'R'
  | .w16 => name[1]? == some 'E'
  | .w32 => name[1]? == some 'H'
  | .w64 => name[1]? == some 'F' || (specialOfName name).isSome

/-- The width consistency check of one operand. -/
def targetFits (width : Width) : ParsedTarget → Bool
  | .register name => registerFits width name
  | .memory _ memoryWidth _ _ _ => memoryWidth == width.digits
  | .constant constantWidth _ => constantWidth == width.digits
  | .notAValidType => true

def ParsedTarget.isConstant : ParsedTarget → Bool
  | constant _ _ => true
  | _ => false

def ParsedTarget.isMemory : ParsedTarget → Bool
  | memory _ _ _ _ _ => true
  | _ => false

/-- `isInvalid64BitOperand`, which holds for operands that are 64 bits wide, and for every constant. -/
def isInvalid64BitOperand : ParsedTarget → Bool
  | .register name => name[1]? == some 'F' || (specialOfName name).isSome
  | .memory _ width _ _ _ => width == "64".toList
  | .constant _ _ => true
  | .notAValidType => false

/-- What `OperandSanityCheck` looks at, by opcode. -/
inductive SanityRule where
  | neitherConstant | secondNotConstant | firstNotConstant | loadAddress | codeAddress | none
deriving DecidableEq

def sanityRule : Mnemonic → SanityRule
  | .xchg => .neitherConstant
  | .in_ => .secondNotConstant
  | .mov | .pop | .and | .or | .xor | .not | .shl | .shr | .rol | .ror | .rcl | .rcr | .add | .sub | .adc | .sbb
  | .neg | .inc | .dec => .firstNotConstant
  | .lea => .loadAddress
  | .jmp | .call | .je | .jne | .jb | .jl | .jbe | .jle | .jc | .jnc | .jo | .jno | .loop => .codeAddress
  | _ => .none

/-- An operand at a position; `std::vector::at` never fails after the operand count check. -/
def operandAt (operands : List ParsedTarget) (index : ℕ) : ParsedTarget := operands.getD index .notAValidType

/-- `OperandSanityCheck`: the message of the exception, if one is thrown. -/
def operandSanityCheck (mnemonic : Mnemonic) (operands : List ParsedTarget) : Except CodingError Unit :=
  let constantError := CodingError.instructionExpression "Operands cannot be constants".toList
  match sanityRule mnemonic with
  | .neitherConstant =>
    if (operandAt operands 0).isConstant || (operandAt operands 1).isConstant then .error constantError else .ok ()
  | .secondNotConstant => if (operandAt operands 1).isConstant then .error constantError else .ok ()
  | .firstNotConstant => if (operandAt operands 0).isConstant then .error constantError else .ok ()
  | .loadAddress =>
    if (operandAt operands 0).isConstant || !(operandAt operands 1).isMemory then
      .error (.instructionExpression
        "LEA only accepts register or memory reference as its first operand, and memory reference as its second operand".toList)
    else if !isInvalid64BitOperand (operandAt operands 0) then
      .error (.instructionExpression "LEA operand width is inconsistent with width enforcement scheme (WES)".toList)
    else .ok ()
  | .codeAddress =>
    if isInvalid64BitOperand (operandAt operands 0) && isInvalid64BitOperand (operandAt operands 1) then .ok ()
    else
      .error (.instructionExpression
        "Control Flow instruction operand width is inconsistent with width enforcement scheme (WES)".toList)
  | .none => .ok ()

/-! ## Instructions -/

/-- The note of the missing operand error. -/
def missingOperandNote : List Char :=
  ("\nNOTE:\n" ++
    "    If the missing operand is indeed provided, it's possibly due to a malformed operand expression which, in turn,\n" ++
    "    leads to the operand not being detected. Specially, if the operand is a line marker (symbol), then it is\n" ++
    "    highly possible that this symbol is not defined, nor being clearly declared, thus the assembler has no\n" ++
    "    knowledge of this symbol, and cannot capture it as a valid operand. If one of the operand present above\n" ++
    "    is <(0xFFFFFFFFFFFFFFFF)>, and it is a line marker (symbol) in the source code, it is not a malformed operand\n" ++
    "    nor an internal error. Assembler has successfully captured it as a valid symbol, and is waiting for linker to\n" ++
    "    link the symbol location correctly.").toList

/-- One turn of the operand loop: the angle brackets go, the operand is encoded, its width checked. -/
def encodeOperand (bc : Calculator) (instruction : List Char) (width : Option Width) (token : List Char) :
    Except CodingError (ParsedTarget × List Byte) :=
  match encodeTarget bc (token.drop 1).dropLast with
  | .error err =>
    .error (.instructionExpression ("Illegal Target operand expression for ".toList ++ instruction ++
      "\n>>>\n".toList ++ err.what ++ "<<<\n".toList))
  | .ok (target, bytes) =>
    if width.all fun width => targetFits width target then .ok (target, bytes)
    else .error (.instructionExpression ("Operation width mismatch for ".toList ++ instruction))

/-- The operand loop; the counts are compared on entry to every turn. -/
def encodeOperands (bc : Calculator) (instruction : List Char) (width : Option Width) (argument_count : ℕ)
    (tokens : List (List Char)) : Except CodingError (List (ParsedTarget × List Byte)) :=
  if argument_count = 0 then .ok []
  else if tokens.length < argument_count then
    .error (.instructionExpression ("Expected ".toList ++ Numerals.decimal argument_count ++
      " operands, but found ".toList ++ Numerals.decimal tokens.length ++ ": ".toList ++ instruction ++
      missingOperandNote))
  else if argument_count < tokens.length then
    .error (.instructionExpression ("Only need ".toList ++ Numerals.decimal argument_count ++
      ", but given ".toList ++ Numerals.decimal tokens.length ++ ": ".toList ++ instruction))
  else tokens.mapM (encodeOperand bc instruction width)

/-- The width specifier of an instruction, and the tokens after it. -/
def takeWidth (mnemonic : Mnemonic) (instruction : List Char) (tokens : List (List Char)) :
    Except CodingError (Option Width × List (List Char)) :=
  if mnemonic.requiresWidth then
    match tokens with
    | [] =>
      .error (.instructionExpression ("Width specification required but not found for ".toList ++ instruction))
    | specifier :: rest =>
      match encodeWidthSpecifier specifier with
      | .ok width => .ok (some width, rest)
      | .error _ =>
        .error (.instructionExpression ("Illegal width specification for ".toList ++ instruction))
  else .ok (none, tokens)

/-- The opcode, the width code and the operands of an instruction, in the order they are emitted. -/
def instructionBytes (mnemonic : Mnemonic) (width : Option Width) (operands : List (List Byte)) : List Byte :=
  mnemonic.opcode :: ((width.map Width.bcd).toList ++ operands.flatten)

/-- `encode_instruction`. -/
def encodeInstruction (bc : Calculator) (instruction : List Char) : Except CodingError (List Byte) := do
  let cleaned_line ← cleanLine instruction
  match findName (cleaned_line.headD []) with
  | none => throw (.instructionExpression ("Unknown instruction ".toList ++ instruction))
  | some mnemonic =>
    let (width, tokens) ← takeWidth mnemonic instruction cleaned_line.tail
    let operands ← encodeOperands bc instruction width mnemonic.argumentCount tokens
    match operandSanityCheck mnemonic (operands.map Prod.fst) with
    | .error err =>
      throw (.instructionExpression ("Operand sanity check for ".toList ++ instruction ++ " failed: ".toList ++ err.what))
    | .ok _ => return instructionBytes mnemonic width (operands.map Prod.snd)

end Sysdarft.Coding
