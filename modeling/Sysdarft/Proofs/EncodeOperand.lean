import Sysdarft.Proofs.EncodeTarget

/-! # Encoded operands are of the instruction format

A constant is emitted as the number its expression evaluates to, modulo its width. An accepted
operand whose registers exist is emitted as a target of the format which the text describes.
-/

namespace Sysdarft.Coding

open Regex Format

/-! ## Evaluating constants -/

/-- A constant with the low bits of a value. -/
def ofValue (width : Width) (value : ℕ) : Constant := ⟨width, BitVec.ofNat _ value⟩

theorem bytes_ofValue (width : Width) (value : ℕ) :
    (ofValue width value).bytes = CONSTANT_CODE :: width.bcd :: LittleEndian.bytes width.bytes value := by
  rw [Constant.bytes]
  simp only [ofValue]
  rw [BitVec.toNat_ofNat, width.two_pow_bits, LittleEndian.bytes_mod]

theorem widthOfDigits_digits (width : Width) : widthOfDigits width.digits = some width := by
  cases width <;> rfl

theorem ratioOfDigits_digits (ratio : Ratio) : ratioOfDigits ratio.digits = some ratio := by
  cases ratio <;> rfl

theorem encodeConstant_ok_iff {bc : Calculator} {width : Width} {expression : List Char} {bytes : List Byte} :
    encodeConstant bc width.digits expression = .ok bytes ↔
      ∃ value, Evaluates bc expression value ∧ bytes = (ofValue width value).bytes := by
  simp only [encodeConstant, Evaluates, widthOfDigits_digits, bytes_ofValue]
  by_cases empty : expression = []
  · simp [empty, bind, Except.bind, throw, throwThe, MonadExceptOf.throw]
  · cases answered : executeBc bc (processBase16 expression) with
    | error err => simp [empty, bind, Except.bind]
    | ok output =>
      cases number : Numerals.strtoull 10 output with
      | none => simp [empty, number, bind, Except.bind, throw, throwThe, MonadExceptOf.throw]
      | some value => simp [empty, number, bind, Except.bind, pure, Except.pure, eq_comm]

theorem derives_base16 {start : Bool} {word rest : List Char} {captures : Captures}
    (derivation : Derives base16Pattern start word rest captures) : 'x' ∈ word := by
  rw [base16Pattern, derives_seq] at derivation
  obtain ⟨left, right, _, _, rfl, -, head, -⟩ := derivation
  obtain ⟨rfl, -⟩ := derives_lit.mp head
  exact List.mem_append_left _ (by decide)

theorem not_isDecimal_of_mem {digits : List Char} {c : Char} (all : ∀ d ∈ digits, Numerals.isHexadecimal d = true)
    (other : Numerals.isHexadecimal c = false) : c ∉ digits := fun member => by
  rw [all c member] at other
  cases other

/-- Decimal numerals pass through. -/
theorem processBase16_decimal {digits : List Char} (all : ∀ c ∈ digits, Numerals.isDecimal c = true) :
    processBase16 digits = digits := by
  have hex : ∀ c ∈ digits, Numerals.isHexadecimal c = true := fun c member =>
    Numerals.isHexadecimal_of_isDecimal (all c member)
  have kept : Text.replaceAll "0X".toList "0x".toList digits = digits := by
    refine Text.replaceAll_of_not_infix fun occurs => ?_
    exact not_isDecimal_of_mem (c := 'X') hex (by decide) (occurs.subset (by decide))
  have nothing : iterate base16Pattern digits = [] :=
    iterateFrom_eq_nil derives_base16 (not_isDecimal_of_mem (c := 'x') hex (by decide))
  simp only [processBase16, kept, nothing, List.map_nil, List.foldl_nil]

/-- A hexadecimal numeral becomes the decimal numeral of its value, which saturates. -/
theorem processBase16_hexadecimal {digits : List Char} (nonempty : digits ≠ [])
    (all : ∀ c ∈ digits, Numerals.isHexadecimal c = true) :
    processBase16 ('0' :: 'X' :: digits) = Numerals.decimal (min (Numerals.digitsValue 16 digits) Numerals.maxU64) := by
  have lower : Text.replaceAll "0X".toList "0x".toList ('0' :: 'X' :: digits) = '0' :: 'x' :: digits := by
    have later : Text.replaceAll "0X".toList "0x".toList digits = digits := by
      refine Text.replaceAll_of_not_infix fun occurs => ?_
      exact not_isDecimal_of_mem (c := 'X') all (by decide) (occurs.subset (by decide))
    have first := Text.replaceAll_occurrence "0X".toList "0x".toList (by decide) digits
    rw [later] at first
    exact first
  have found : iterate base16Pattern ('0' :: 'x' :: digits) =
      [{ before := [], text := '0' :: 'x' :: digits, rest := [], captures := [] }] := by
    have hit := matchAt_lit_plus true "0x".toList [] nonempty all (by simp)
    rw [List.append_nil] at hit
    have rest := iterateFrom_drop base16Pattern [] (digits.length + 1) ('x' :: digits) rfl
    rw [List.append_nil] at rest
    rw [iterate, iterateFrom]
    rw [base16Pattern] at rest ⊢
    rw [show "0x".toList ++ digits = '0' :: 'x' :: digits from rfl] at hit
    rw [hit]
    simp only [List.length_cons, Nat.add_sub_cancel, rest]
    rfl
  simp only [processBase16, lower, found, List.map_cons, List.map_nil, Numerals.strtoull_hexDigits nonempty all,
    Option.getD_some, List.foldl_cons, List.foldl_nil]
  exact Text.replaceAll_self (by simp)

/-- The calculator's answer to a numeral is read back, saturated. -/
theorem EchoesNumerals.reads {bc : Calculator} (echoes : EchoesNumerals bc) {digits : List Char} {value : ℕ}
    (numeral : DecimalNumeral digits value) :
    ∃ output, executeBc bc digits = .ok output ∧ Numerals.strtoull 10 output = some (min value Numerals.maxU64) := by
  obtain ⟨shown, tail, printed, stop, short, long⟩ := echoes.prints digits value numeral
  refine ⟨(bc digits).fd_stdout, ?_, ?_⟩
  · rw [executeBc, if_neg (by rw [echoes.exits digits value numeral]; simp)]
  · rw [printed]
    by_cases fits : value < 10 ^ 68
    · rw [short fits]
      exact Numerals.strtoull_decimal value tail stop
    · obtain ⟨leading, ⟨nonempty, all, rfl⟩, large⟩ := long (not_lt.mp fits)
      have saturated : Numerals.maxU64 ≤ 10 ^ 67 := by decide
      rw [Numerals.strtoull_digits nonempty all stop, min_eq_right (saturated.trans large),
        min_eq_right (saturated.trans (le_trans (by norm_num) (not_lt.mp fits)))]

theorem decimalNumeral_decimal (value : ℕ) : DecimalNumeral (Numerals.decimal value) value :=
  ⟨Numerals.decimal_ne_nil value, fun _ => Numerals.isDecimal_of_mem_decimal, Numerals.digitsValue_decimal value⟩

/-- A numeral evaluates to its value, saturated. -/
theorem EchoesNumerals.evaluates {bc : Calculator} (echoes : EchoesNumerals bc) {expression : List Char} {value : ℕ}
    (numeral : Numeral expression value) : Evaluates bc expression (min value Numerals.maxU64) := by
  rcases numeral with decimal | ⟨digits, nonempty, all, rfl, rfl⟩
  · obtain ⟨output, answered, read⟩ := echoes.reads decimal
    rw [← processBase16_decimal decimal.2.1] at answered
    exact ⟨decimal.1, output, answered, read⟩
  · obtain ⟨output, answered, read⟩ := echoes.reads
      (decimalNumeral_decimal (min (Numerals.digitsValue 16 digits) Numerals.maxU64))
    rw [← processBase16_hexadecimal nonempty all] at answered
    rw [min_assoc, min_self] at read
    exact ⟨by simp, output, answered, read⟩

theorem Evaluates.unique {bc : Calculator} {expression : List Char} {value value' : ℕ}
    (first : Evaluates bc expression value) (second : Evaluates bc expression value') : value = value' := by
  obtain ⟨-, output, answered, read⟩ := first
  obtain ⟨-, output', answered', read'⟩ := second
  obtain rfl := Except.ok.inj (answered.symm.trans answered')
  exact Option.some.inj (read.symm.trans read')

/-! ## Operands -/

/-- Memory parameters of the assembler: registers are 64 bits wide. -/
def WideParameter : Parameter → Prop
  | .register register => register.width = .w64
  | .constant _ => True

variable {bc : Calculator}

theorem encodeConstant_describes (echoes : EchoesNumerals bc) {width : Width} {expression : List Char} {bytes : List Byte}
    (accepted : encodeConstant bc width.digits expression = .ok bytes) :
    ∃ value, DescribesConstant bc (constantText width expression) (ofValue width value) ∧
      bytes = (ofValue width value).bytes := by
  obtain ⟨value, evaluates, rfl⟩ := encodeConstant_ok_iff.mp accepted
  refine ⟨value, ⟨expression, rfl, ⟨value, evaluates, rfl⟩, fun number numeral => ?_⟩, rfl⟩
  rw [evaluates.unique (echoes.evaluates numeral)]
  rfl

theorem encodeRegister_describes {name : List Char} {bytes : List Byte} (valid : ValidRegister name)
    (exist : ∃ register, NamesRegister name register) (accepted : encodeRegister name = .ok bytes) :
    ∃ register, NamesRegister name register ∧ bytes = registerBytes register := by
  rcases valid.cases_emitted with ⟨register, named, emitted⟩ | large | ⟨err, failed⟩
  · exact ⟨register, named, Except.ok.inj (accepted.symm.trans emitted)⟩
  · obtain ⟨register, named⟩ := exist
    exact absurd named (large.unnamed register)
  · rw [accepted] at failed
    cases failed

theorem encodeParameter_describes (echoes : EchoesNumerals bc) {text : List Char} {bytes : List Byte}
    (exist : isValidRegister text = true → ∃ register, NamesRegister text register)
    (accepted : encodeParameter bc text = .ok bytes) :
    ∃ parameter, DescribesParameter bc text parameter ∧ WideParameter parameter ∧ bytes = parameter.bytes := by
  by_cases isRegister : isValidRegister text = true
  · have valid := (isValidRegister_iff text).mp isRegister
    rcases valid.cases_parameter bc with ⟨same, wide⟩ | ⟨err, failed⟩
    · obtain ⟨register, named, rfl⟩ := encodeRegister_describes valid (exist isRegister) (same ▸ accepted)
      exact ⟨.register register, named, wide register named, rfl⟩
    · rw [accepted] at failed
      cases failed
  · simp only [encodeParameter, isRegister, Bool.false_eq_true, ↓reduceIte] at accepted
    split_ifs at accepted with isConstant
    obtain ⟨width, expression, rfl, single⟩ := (isValidConstant_iff text).mp isConstant
    obtain ⟨found, hit, group1, group2⟩ := search_constantText width single
    simp only [hit, group1, group2] at accepted
    obtain ⟨value, describes, rfl⟩ := encodeConstant_describes echoes accepted
    exact ⟨.constant (ofValue width value), describes, trivial, rfl⟩

/-- The shape of an operand that the assembler emits. -/
def Assembled : Target → Prop
  | .memory _ _ base offset1 offset2 => WideParameter base ∧ WideParameter offset1 ∧ WideParameter offset2
  | _ => True

theorem encodeMemory_describes (echoes : EchoesNumerals bc) {ratio : Ratio} {width : Width}
    {base offset1 offset2 : List Char} {bytes : List Byte}
    (exist : (ParsedTarget.memory ratio.digits width.digits base offset1 offset2).RegistersExist)
    (accepted : encodeMemory bc ratio.digits width.digits base offset1 offset2 = .ok bytes) :
    ∃ parameter1 parameter2 parameter3, DescribesParameter bc base parameter1 ∧
      DescribesParameter bc offset1 parameter2 ∧ DescribesParameter bc offset2 parameter3 ∧
      Assembled (.memory ratio width parameter1 parameter2 parameter3) ∧
      bytes = (Target.memory ratio width parameter1 parameter2 parameter3).bytes := by
  have named {text : List Char} (member : text ∈ [base, offset1, offset2]) (valid : isValidRegister text = true) :
      ∃ register, NamesRegister text register := exist text (List.mem_filter.mpr ⟨member, valid⟩)
  simp only [encodeMemory, encodeMemoryWidthPrefix, widthOfDigits_digits, encodeRatio, ratioOfDigits_digits,
    Effects.except_bind_eq_ok] at accepted
  obtain ⟨_, widthed, bytes1, first, bytes2, second, bytes3, third, finished⟩ := accepted
  cases widthed
  cases finished
  obtain ⟨parameter1, describes1, wide1, rfl⟩ := encodeParameter_describes echoes (named (by simp)) first
  obtain ⟨parameter2, describes2, wide2, rfl⟩ := encodeParameter_describes echoes (named (by simp)) second
  obtain ⟨parameter3, describes3, wide3, rfl⟩ := encodeParameter_describes echoes (named (by simp)) third
  exact ⟨parameter1, parameter2, parameter3, describes1, describes2, describes3, ⟨wide1, wide2, wide3⟩, by
    simp [Target.bytes]⟩

/-- An accepted operand with existing registers is emitted as a target that its text describes. -/
theorem encodeTarget_describes (echoes : EchoesNumerals bc) {text : List Char} {parsed : ParsedTarget}
    {bytes : List Byte} (accepted : encodeTarget bc text = .ok (parsed, bytes)) (exist : parsed.RegistersExist) :
    Parses (normalize text) parsed ∧
      ∃ target, DescribesTarget bc (normalize text) target ∧ Assembled target ∧ bytes = target.bytes := by
  obtain ⟨parsed', parse, emit⟩ := Effects.except_bind_eq_ok.mp accepted
  have parses := (parse_ok_iff ..).mp parse
  generalize normalize text = name at parses ⊢
  cases parses with
  | register valid =>
    obtain ⟨emitted, encoded, same⟩ := Effects.except_bind_eq_ok.mp emit
    cases same
    obtain ⟨register, named, rfl⟩ := encodeRegister_describes valid (exist _ (by simp [ParsedTarget.registerNames])) encoded
    exact ⟨.register valid, .register register, named, trivial, rfl⟩
  | constant single =>
    obtain ⟨emitted, encoded, same⟩ := Effects.except_bind_eq_ok.mp emit
    cases same
    obtain ⟨value, describes, rfl⟩ := encodeConstant_describes echoes encoded
    exact ⟨.constant single, .constant (ofValue _ value), describes, trivial, rfl⟩
  | memory first second third =>
    obtain ⟨emitted, encoded, same⟩ := Effects.except_bind_eq_ok.mp emit
    cases same
    obtain ⟨parameter1, parameter2, parameter3, describes1, describes2, describes3, assembled, rfl⟩ :=
      encodeMemory_describes echoes exist encoded
    exact ⟨.memory first second third, .memory _ _ parameter1 parameter2 parameter3,
      ⟨_, _, _, rfl, describes1, describes2, describes3⟩, assembled, rfl⟩

end Sysdarft.Coding
