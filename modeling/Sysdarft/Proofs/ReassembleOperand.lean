import Sysdarft.Proofs.DisassemblerFormat
import Sysdarft.Proofs.EncodeOperand

/-! # Operands, disassembled and assembled again

The text that the assembler finds for a disassembled operand, capitalized and without spaces, parses
and is encoded to the bytes of the operand.
-/

namespace Sysdarft.Coding

open Format

/-! ## The printed texts as the assembler sees them -/

/-- The expression of a printed constant. -/
def constantDigits (constant : Constant) : List Char := '0' :: 'X' :: Numerals.hexadecimal constant.value.toNat

def parameterText : Parameter → List Char
  | .register register => registerName register
  | .constant constant => constantText constant.width (constantDigits constant)

/-- An operand, capitalized, with the spaces that the disassembler prints. -/
def targetUpper : Target → List Char
  | .register register => registerName register
  | .constant constant => constantText constant.width (constantDigits constant)
  | .memory ratio width base offset1 offset2 =>
    memoryText ratio width (parameterText base) (' ' :: parameterText offset1) (' ' :: parameterText offset2)

/-- An operand, capitalized, without spaces. -/
def targetText : Target → List Char
  | .register register => registerName register
  | .constant constant => constantText constant.width (constantDigits constant)
  | .memory ratio width base offset1 offset2 =>
    memoryText ratio width (parameterText base) (parameterText offset1) (parameterText offset2)

/-- What `parse` makes of it. -/
def targetParsed : Target → ParsedTarget
  | .register register => .register (registerName register)
  | .constant constant => .constant constant.width.digits (constantDigits constant)
  | .memory ratio width base offset1 offset2 =>
    .memory ratio.digits width.digits (parameterText base) (parameterText offset1) (parameterText offset2)

/-! ## Their characters -/

/-- The characters of a printed parameter. -/
def parameterChars : List Char := "%$()ABCDEFHPRSX0123456789".toList

/-- The characters of a printed operand. -/
def operandChars : List Char := "*&, ".toList ++ parameterChars

theorem decimal_chars {n : ℕ} {c : Char} (member : c ∈ Numerals.decimal n) : c ∈ parameterChars := by
  obtain ⟨d, small, rfl⟩ := Numerals.exists_of_mem_toDigits (show 1 < 10 by decide) member
  interval_cases d <;> decide

theorem hexadecimal_chars {n : ℕ} {c : Char} (member : c ∈ Numerals.hexadecimal n) : c ∈ parameterChars := by
  obtain ⟨digit, inner, rfl⟩ := List.mem_map.mp member
  obtain ⟨d, small, rfl⟩ := Numerals.exists_of_mem_toDigits (show 1 < 16 by decide) inner
  interval_cases d <;> decide

theorem width_chars (width : Width) : ∀ c ∈ width.digits, c ∈ parameterChars := by
  cases width <;> decide

theorem ratio_chars (ratio : Ratio) : ∀ c ∈ ratio.digits, c ∈ parameterChars := by
  cases ratio <;> decide

theorem registerName_chars (register : Register) : ∀ c ∈ registerName register, c ∈ parameterChars := by
  cases register with
  | general width index =>
    have letters : ∀ c ∈ '%' :: width.registerLetters, c ∈ parameterChars := by cases width <;> decide
    intro c member
    rw [registerName, ← List.cons_append] at member
    rcases List.mem_append.mp member with front | digits
    · exact letters c front
    · exact decimal_chars digits
  | special special => cases special <;> decide

theorem constant_chars (constant : Constant) :
    ∀ c ∈ constantText constant.width (constantDigits constant), c ∈ parameterChars := by
  intro c member
  simp only [constantText, constantDigits, List.mem_cons, List.mem_append, List.not_mem_nil, or_false] at member
  rcases member with rfl | digit | rfl | (rfl | rfl | digit) | rfl
  · decide
  · exact width_chars _ c digit
  · decide
  · decide
  · decide
  · exact hexadecimal_chars digit
  · decide

theorem parameterText_chars (parameter : Parameter) : ∀ c ∈ parameterText parameter, c ∈ parameterChars := by
  cases parameter with
  | register register => exact registerName_chars register
  | constant constant => exact constant_chars constant

theorem targetUpper_chars (target : Target) : ∀ c ∈ targetUpper target, c ∈ operandChars := by
  have wider {c : Char} (member : c ∈ parameterChars) : c ∈ operandChars := List.mem_append_right _ member
  cases target with
  | register register => exact fun c member => wider (registerName_chars register c member)
  | constant constant => exact fun c member => wider (constant_chars constant c member)
  | memory ratio width base offset1 offset2 =>
    intro c member
    simp only [targetUpper, memoryText, List.mem_cons, List.mem_append, List.not_mem_nil, or_false] at member
    rcases member with rfl | digit | rfl | digit | rfl | inner | rfl | (rfl | inner) | rfl | (rfl | inner) | rfl
    · decide
    · exact wider (ratio_chars _ c digit)
    · decide
    · exact wider (width_chars _ c digit)
    · decide
    · exact wider (parameterText_chars _ c inner)
    · decide
    · decide
    · exact wider (parameterText_chars _ c inner)
    · decide
    · decide
    · exact wider (parameterText_chars _ c inner)
    · decide

/-- Characters of operands are capital letters or no letters, not brackets, and not the letter of `BIT`. -/
theorem operandChars_facts {c : Char} (member : c ∈ operandChars) :
    c.toUpper = c ∧ c ≠ '<' ∧ c ≠ '>' ∧ c ≠ 'I' := by
  have all : ∀ c ∈ operandChars, c.toUpper = c ∧ c ≠ '<' ∧ c ≠ '>' ∧ c ≠ 'I' := by decide
  exact all c member

theorem parameterChars_facts {c : Char} (member : c ∈ parameterChars) :
    c ≠ ' ' ∧ c ≠ ',' ∧ (c != '\n' && c != '\r') = true := by
  have all : ∀ c ∈ parameterChars, c ≠ ' ' ∧ c ≠ ',' ∧ (c != '\n' && c != '\r') = true := by decide
  exact all c member

/-! ## From the printed line to these texts -/

theorem capitalization_of_chars {text : List Char} (chars : ∀ c ∈ text, c ∈ operandChars) :
    capitalization text = text := by
  rw [capitalization, List.map_congr_left fun c member => (operandChars_facts (chars c member)).1, List.map_id']

theorem capitalization_append (first second : List Char) :
    capitalization (first ++ second) = capitalization first ++ capitalization second := List.map_append

theorem capitalization_constantLiteral (constant : Constant) :
    capitalization (constantLiteral constant) = constantText constant.width (constantDigits constant) := by
  have chars := capitalization_of_chars fun c member =>
    List.mem_append_right "*&, ".toList (constant_chars constant c member)
  have digits : capitalization (Numerals.hexadecimal constant.value.toNat) = Numerals.hexadecimal constant.value.toNat :=
    capitalization_of_chars fun c member => List.mem_append_right _ (hexadecimal_chars member)
  have width : capitalization constant.width.digits = constant.width.digits :=
    capitalization_of_chars fun c member => List.mem_append_right _ (width_chars _ c member)
  have dollar : capitalization "$".toList = ['$'] := rfl
  have zero : capitalization "(0x".toList = ['(', '0', 'X'] := rfl
  have close : capitalization ")".toList = [')'] := rfl
  rw [constantLiteral, capitalization_append, capitalization_append, capitalization_append, capitalization_append,
    digits, width, dollar, zero, close]
  simp [constantText, constantDigits]

theorem capitalization_registerName (register : Register) :
    capitalization (registerName register) = registerName register :=
  capitalization_of_chars fun c member => List.mem_append_right _ (registerName_chars register c member)

theorem capitalization_parameterLiteral (parameter : Parameter) :
    capitalization (parameterLiteral parameter) = parameterText parameter := by
  cases parameter with
  | register register => exact capitalization_registerName register
  | constant constant => exact capitalization_constantLiteral constant

theorem capitalization_targetLiteral (target : Target) : capitalization (targetLiteral target) = targetUpper target := by
  cases target with
  | register register => exact capitalization_registerName register
  | constant constant => exact capitalization_constantLiteral constant
  | memory ratio width base offset1 offset2 =>
    have ratioSame : capitalization ratio.digits = ratio.digits :=
      capitalization_of_chars fun c member => List.mem_append_right _ (ratio_chars _ c member)
    have widthSame : capitalization width.digits = width.digits :=
      capitalization_of_chars fun c member => List.mem_append_right _ (width_chars _ c member)
    have star : capitalization "*".toList = ['*'] := rfl
    have ampersand : capitalization "&".toList = ['&'] := rfl
    have parenthesis : capitalization "(".toList = ['('] := rfl
    have comma : capitalization ", ".toList = [',', ' '] := rfl
    have close : capitalization ")".toList = [')'] := rfl
    change capitalization (memoryLiteral ratio width base offset1 offset2) = _
    unfold memoryLiteral
    simp only [capitalization_append, ratioSame, widthSame, star, ampersand, parenthesis, comma, close,
      capitalization_parameterLiteral]
    simp [targetUpper, memoryText]

theorem removeSpace_of_chars {text : List Char} (chars : ∀ c ∈ text, c ∈ parameterChars) : removeSpace text = text := by
  rw [removeSpace, List.filter_eq_self]
  intro c member
  simpa using (parameterChars_facts (chars c member)).1

theorem removeSpace_append (first second : List Char) :
    removeSpace (first ++ second) = removeSpace first ++ removeSpace second := List.filter_append ..

theorem removeSpace_cons {c : Char} (text : List Char) (solid : c ≠ ' ') : removeSpace (c :: text) = c :: removeSpace text :=
  List.filter_cons_of_pos (by simpa using solid)

theorem removeSpace_targetUpper (target : Target) : removeSpace (targetUpper target) = targetText target := by
  cases target with
  | register register => exact removeSpace_of_chars (registerName_chars register)
  | constant constant => exact removeSpace_of_chars (constant_chars constant)
  | memory ratio width base offset1 offset2 =>
    have blank (text : List Char) : removeSpace (' ' :: text) = removeSpace text := List.filter_cons_of_neg (by decide)
    simp only [targetUpper, targetText, memoryText, removeSpace_append, blank, removeSpace_of_chars (ratio_chars ratio),
      removeSpace_of_chars (width_chars width), removeSpace_of_chars (parameterText_chars _),
      removeSpace_cons (c := '*') _ (by decide), removeSpace_cons (c := '&') _ (by decide),
      removeSpace_cons (c := '(') _ (by decide), removeSpace_cons (c := ',') _ (by decide),
      removeSpace_cons (c := ')') _ (by decide)]
    rfl

/-- The texts are already normalized. -/
theorem normalize_targetText (target : Target) : normalize (targetText target) = targetText target := by
  have twice : removeSpace (targetText target) = targetText target := by
    rw [← removeSpace_targetUpper, removeSpace, removeSpace, List.filter_filter]
    simp
  rw [normalize, twice]
  refine capitalization_of_chars fun c member => targetUpper_chars target c ?_
  rw [← removeSpace_targetUpper] at member
  exact List.mem_of_mem_filter member

/-! ## Encoding them -/

theorem isValidRegister_registerName (register : Register) : isValidRegister (registerName register) = true := by
  cases register with
  | general width index => cases width <;> revert index <;> decide +kernel
  | special special => cases special <;> decide +kernel

theorem encodeRegister_registerName (register : Register) :
    encodeRegister (registerName register) = .ok (registerBytes register) := by
  cases register with
  | general width index => cases width <;> revert index <;> decide +kernel
  | special special => exact encodeRegister_special special

theorem parameterText_isParameterText (parameter : Parameter) : ParameterText (parameterText parameter) := by
  refine ⟨?_, fun comma => (parameterChars_facts (parameterText_chars parameter _ comma)).2.1 rfl⟩
  cases parameter with
  | register register => cases register <;> exact List.cons_ne_nil _ _
  | constant constant => exact List.cons_ne_nil _ _

theorem constantDigits_singleLine (constant : Constant) : SingleLine (constantDigits constant) := by
  intro c member
  refine (parameterChars_facts (constant_chars constant c ?_)).2.2
  rw [constantText]
  exact List.mem_cons_of_mem _ (List.mem_append_right _ (List.mem_cons_of_mem _ (List.mem_append_left _ member)))

theorem parses_targetText (target : Target) : Parses (targetText target) (targetParsed target) := by
  cases target with
  | register register => exact .register ((isValidRegister_iff _).mp (isValidRegister_registerName register))
  | constant constant => exact .constant (constantDigits_singleLine constant)
  | memory ratio width base offset1 offset2 =>
    exact .memory (parameterText_isParameterText base) (parameterText_isParameterText offset1)
      (parameterText_isParameterText offset2)

variable {bc : Calculator}

theorem encodeConstant_constantDigits (echoes : EchoesNumerals bc) (constant : Constant) :
    encodeConstant bc constant.width.digits (constantDigits constant) = .ok constant.bytes := by
  have numeral : Numeral (constantDigits constant) constant.value.toNat :=
    .inr ⟨_, Numerals.hexadecimal_ne_nil _, fun _ => Numerals.isHexadecimal_of_mem_hexadecimal,
      Numerals.digitsValue_hexadecimal _, rfl⟩
  have small : constant.value.toNat ≤ Numerals.maxU64 := by
    have bound : 2 ^ constant.width.bits ≤ 2 ^ 64 := Nat.pow_le_pow_right (by decide) constant.width.bits_le
    have := constant.value.isLt
    simp only [Numerals.maxU64]
    omega
  have value := echoes.evaluates numeral
  rw [min_eq_left small] at value
  refine encodeConstant_ok_iff.mpr ⟨_, value, ?_⟩
  rw [ofValue, BitVec.ofNat_toNat, BitVec.setWidth_eq]

theorem encodeParameter_parameterText (echoes : EchoesNumerals bc) {parameter : Parameter} (wide : WideParameter parameter) :
    encodeParameter bc (parameterText parameter) = .ok parameter.bytes := by
  cases parameter with
  | register register =>
    have valid := isValidRegister_registerName register
    have passes : ¬ (((registerName register).reverse.dropWhile Numerals.isDecimal).reverse ≠ "%FER".toList ∧
        specialOfName (registerName register) = none) := by
      clear valid
      cases register with
      | general width index =>
        cases width with
        | w64 =>
          clear wide
          revert index
          decide +kernel
        | _ => cases wide
      | special special => cases special <;> decide +kernel
    change encodeParameter bc (registerName register) = _
    simp only [encodeParameter, valid, ↓reduceIte]
    rw [if_neg passes]
    exact encodeRegister_registerName register
  | constant constant =>
    have single := constantDigits_singleLine constant
    have notRegister : isValidRegister (constantText constant.width (constantDigits constant)) = false := by
      rw [← Bool.not_eq_true, isValidRegister_iff]
      exact fun valid => by cases valid.head
    have isConstant := (isValidConstant_iff _).mpr ⟨constant.width, constantDigits constant, rfl, single⟩
    obtain ⟨found, hit, group1, group2⟩ := search_constantText constant.width single
    simp only [encodeParameter, parameterText, notRegister, Bool.false_eq_true, ↓reduceIte, isConstant, hit, group1, group2]
    exact encodeConstant_constantDigits echoes constant

/-- A disassembled operand is encoded to its bytes. -/
theorem encodeTarget_targetText (echoes : EchoesNumerals bc) {target : Target} (assembled : Assembled target) :
    encodeTarget bc (targetText target) = .ok (targetParsed target, target.bytes) := by
  have parsed : parse (targetText target) = .ok (targetParsed target) := by
    rw [parse_ok_iff, normalize_targetText]
    exact parses_targetText target
  refine Effects.except_bind_eq_ok.mpr ⟨_, parsed, ?_⟩
  cases target with
  | register register =>
    simp only [targetParsed]
    rw [encodeRegister_registerName]
    rfl
  | constant constant =>
    simp only [targetParsed]
    rw [encodeConstant_constantDigits echoes]
    rfl
  | memory ratio width base offset1 offset2 =>
    obtain ⟨wide1, wide2, wide3⟩ := assembled
    have memory : encodeMemory bc ratio.digits width.digits (parameterText base) (parameterText offset1)
        (parameterText offset2) = .ok (Target.memory ratio width base offset1 offset2).bytes := by
      simp only [encodeMemory, encodeMemoryWidthPrefix, widthOfDigits_digits, encodeRatio, ratioOfDigits_digits,
        encodeParameter_parameterText echoes wide1, encodeParameter_parameterText echoes wide2,
        encodeParameter_parameterText echoes wide3]
      simp [bind, Except.bind, pure, Except.pure, Target.bytes]
    simp only [targetParsed]
    rw [memory]
    rfl

end Sysdarft.Coding
