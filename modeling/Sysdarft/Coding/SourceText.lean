import Sysdarft.Coding.EncodeInstruction
import Sysdarft.Model.Format

/-! # What operand texts say

The reading of register names, constants and memory references that the assembler's documentation
gives, for texts that are capitalized and free of spaces. It relates texts to the abstract syntax of
`Format` and does not mention how they are encoded.
-/

namespace Sysdarft.Coding

/-- Operand texts are read capitalized and without spaces. -/
def normalize (text : List Char) : List Char := capitalization (removeSpace text)

/-- `$width(expression)`. -/
def constantText (width : Width) (expression : List Char) : List Char :=
  '$' :: (width.digits ++ '(' :: (expression ++ [')']))

/-- `*ratio&width(base,offset1,offset2)`. -/
def memoryText (ratio : Ratio) (width : Width) (base offset1 offset2 : List Char) : List Char :=
  '*' :: (ratio.digits ++ '&' :: (width.digits ++ '(' :: (base ++ ',' :: (offset1 ++ ',' :: (offset2 ++ [')'])))))

/-- A decimal numeral and its value. -/
def DecimalNumeral (digits : List Char) (value : ℕ) : Prop :=
  digits ≠ [] ∧ (∀ c ∈ digits, Numerals.isDecimal c = true) ∧ Numerals.digitsValue 10 digits = value

/-- `%` followed by letters and a number, or one of the special names. -/
def NamesRegister (name : List Char) : Register → Prop
  | .general width index => ∃ digits, DecimalNumeral digits index ∧ name = '%' :: (width.registerLetters ++ digits)
  | .special special => name = '%' :: special.name

/-- A decimal or hexadecimal numeral and its value. -/
def Numeral (expression : List Char) (value : ℕ) : Prop :=
  DecimalNumeral expression value ∨
    ∃ digits, digits ≠ [] ∧ (∀ c ∈ digits, Numerals.isHexadecimal c = true) ∧
      Numerals.digitsValue 16 digits = value ∧ expression = '0' :: 'X' :: digits

/-! ## The calculator -/

/-- What the code relies on: `bc` answers a decimal numeral with the same number. Its output lines
hold 68 digits, so of a longer numeral the first line shows only the leading digits. -/
structure EchoesNumerals (bc : Calculator) : Prop where
  exits : ∀ digits value, DecimalNumeral digits value → (bc digits).exit_status = 0
  prints : ∀ digits value, DecimalNumeral digits value →
    ∃ shown tail, (bc digits).fd_stdout = shown ++ tail ∧ (∀ c ∈ tail.head?, Numerals.isDecimal c = false) ∧
      (value < 10 ^ 68 → shown = Numerals.decimal value) ∧
      (10 ^ 68 ≤ value → ∃ leading, DecimalNumeral shown leading ∧ 10 ^ 67 ≤ leading)

/-- The number that an expression has, once its hexadecimal numerals are decimal, according to `bc`. -/
def Evaluates (bc : Calculator) (expression : List Char) (value : ℕ) : Prop :=
  expression ≠ [] ∧ ∃ output, executeBc bc (processBase16 expression) = .ok output ∧
    Numerals.strtoull 10 output = some value

/-! ## Descriptions -/

/-- A constant is what its expression evaluates to, and in particular a numeral is its own value,
where values beyond 64 bits saturate; either way it is cut to the width. -/
def DescribesConstant (bc : Calculator) (text : List Char) (constant : Format.Constant) : Prop :=
  ∃ expression, text = constantText constant.width expression ∧
    (∃ value, Evaluates bc expression value ∧ constant.value = BitVec.ofNat _ value) ∧
    ∀ value, Numeral expression value → constant.value = BitVec.ofNat _ (min value Numerals.maxU64)

/-- A parameter is a register that is named, or a constant that is described. -/
def DescribesParameterBy (constantOf : List Char → Format.Constant → Prop) (text : List Char) : Format.Parameter → Prop
  | .register register => NamesRegister text register
  | .constant constant => constantOf text constant

/-- An operand is a register, a constant or a memory reference with three parameters. -/
def DescribesTargetBy (constantOf : List Char → Format.Constant → Prop) (text : List Char) : Format.Target → Prop
  | .register register => NamesRegister text register
  | .constant constant => constantOf text constant
  | .memory ratio width base offset1 offset2 =>
    ∃ text1 text2 text3, text = memoryText ratio width text1 text2 text3 ∧ DescribesParameterBy constantOf text1 base ∧
      DescribesParameterBy constantOf text2 offset1 ∧ DescribesParameterBy constantOf text3 offset2

def DescribesParameter (bc : Calculator) : List Char → Format.Parameter → Prop := DescribesParameterBy (DescribesConstant bc)

def DescribesTarget (bc : Calculator) : List Char → Format.Target → Prop := DescribesTargetBy (DescribesConstant bc)

/-- The register names in a parsed operand, alone or as parameters. -/
def ParsedTarget.registerNames : ParsedTarget → List (List Char)
  | register name => [name]
  | memory _ _ base offset1 offset2 => [base, offset1, offset2].filter isValidRegister
  | _ => []

/-- Every register name in an operand names a register of the machine. -/
def ParsedTarget.RegistersExist (parsed : ParsedTarget) : Prop :=
  ∀ name ∈ parsed.registerNames, ∃ register, NamesRegister name register

/-! ## Lines -/

/-- The parts of an instruction line: its mnemonic, its width specifier if the mnemonic takes one, and
the texts between the angle brackets. -/
structure LineParts where
  mnemonic : Mnemonic
  width : Option Width
  operands : List (List Char)
deriving DecidableEq

/-- The parts that `clean_line` finds. Operands after a mnemonic that takes none are not looked at. -/
def lineParts (line : List Char) : Option LineParts :=
  match cleanLine line with
  | .error _ => none
  | .ok pieces =>
    match findName (pieces.headD []) with
    | none => none
    | some mnemonic =>
      match takeWidth mnemonic line pieces.tail with
      | .error _ => none
      | .ok (width, tokens) =>
        some
          { mnemonic := mnemonic
            width := width
            operands := (tokens.take mnemonic.argumentCount).map fun token => (token.drop 1).dropLast }

/-- Every register name in the operands of a line names a register of the machine. -/
def LineRegistersExist (line : List Char) : Prop :=
  ∀ parts, lineParts line = some parts → ∀ text ∈ parts.operands, ∀ parsed, parse text = .ok parsed →
    parsed.RegistersExist

end Sysdarft.Coding
