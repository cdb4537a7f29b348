import Sysdarft.Proofs.EncodeRegister

/-! # Parsing and encoding operands

`parse_ok_iff` says what `parse` makes of a text, in terms of `constantText` and `memoryText`. An
accepted operand whose registers exist is emitted in the instruction format, and the emitted operand
is the one that the text describes.
-/

namespace Sysdarft.Coding

open Regex

/-! ## Constants -/

/-- A text on one line. -/
def SingleLine (text : List Char) : Prop := ∀ c ∈ text, (c != '\n' && c != '\r') = true

theorem mem_widthDigits {word : List Char} : word ∈ Width.all.map Width.digits ↔ ∃ width : Width, width.digits = word := by
  constructor
  · intro member
    obtain ⟨width, -, same⟩ := List.mem_map.mp member
    exact ⟨width, same⟩
  · rintro ⟨width, rfl⟩
    exact List.mem_map_of_mem (by cases width <;> decide)

theorem mem_ratioDigits {word : List Char} : word ∈ Ratio.all.map Ratio.digits ↔ ∃ ratio : Ratio, ratio.digits = word := by
  constructor
  · intro member
    obtain ⟨ratio, -, same⟩ := List.mem_map.mp member
    exact ⟨ratio, same⟩
  · rintro ⟨ratio, rfl⟩
    exact List.mem_map_of_mem (by cases ratio <;> decide)

theorem reads_width : Reads widthPattern fun word => ∃ width : Width, width.digits = word := by
  intro start word rest captures
  rw [widthPattern, derives_oneOf, mem_widthDigits]

theorem reads_ratio : Reads ratioPattern fun word => ∃ ratio : Ratio, ratio.digits = word := by
  intro start word rest captures
  rw [ratioPattern, derives_oneOf, mem_ratioDigits]

theorem reads_dots : Reads (star dot) SingleLine := derives_star_sat

theorem derives_constantPattern {start : Bool} {word rest : List Char} {captures : Captures} :
    Derives constantPattern start word rest captures ↔
      start = true ∧ rest = [] ∧ ∃ width expression, word = constantText width expression ∧ SingleLine expression ∧
        captures = [(1, width.digits), (2, expression)] := by
  rw [constantPattern]
  simp only [derives_bol_seq, derives_chr_seq, reads_width.derives_group_seq, reads_dots.derives_group_seq, derives_eol]
  constructor
  · rintro ⟨rfl, _, rfl, _, _, _, rfl, ⟨width, rfl⟩, rfl, _, rfl, expression, _, _, rfl, single, rfl, _, rfl, rfl, rfl, rfl⟩
    exact ⟨rfl, rfl, width, expression, rfl, single, rfl⟩
  · rintro ⟨rfl, rfl, width, expression, rfl, single, rfl⟩
    exact ⟨rfl, _, rfl, _, _, _, rfl, ⟨width, rfl⟩, rfl, _, rfl, expression, _, _, rfl, single, rfl, _, rfl, rfl, rfl, rfl⟩

theorem constantText_inj {width width' : Width} {expression expression' : List Char}
    (same : constantText width expression = constantText width' expression') :
    width = width' ∧ expression = expression' := by
  have widths (width : Width) : '(' ∉ width.digits := by cases width <;> decide
  obtain ⟨widthSame, afterWidth⟩ := Text.append_cons_inj (widths _) (widths _) (List.cons.inj same).2
  exact ⟨Width.digits_injective widthSame, List.append_cancel_right afterWidth⟩

theorem isValidConstant_iff (text : List Char) :
    isValidConstant text = true ↔ ∃ width expression, text = constantText width expression ∧ SingleLine expression := by
  simp only [isValidConstant, fullMatch_isSome_iff, derives_constantPattern, true_and]
  constructor
  · rintro ⟨captures, width, expression, same, single, -⟩
    exact ⟨width, expression, same, single⟩
  · rintro ⟨width, expression, same, single⟩
    exact ⟨_, width, expression, same, single, rfl⟩

/-- The groups of a constant. -/
theorem search_constantText (width : Width) {expression : List Char} (single : SingleLine expression) :
    ∃ found, search constantPattern (constantText width expression) = some found ∧
      found.captures.get 1 = width.digits ∧ found.captures.get 2 = expression := by
  have anchored : Anchored constantPattern := fun derivation =>
    ⟨(derives_constantPattern.mp derivation).1, (derives_constantPattern.mp derivation).2.1⟩
  obtain ⟨found, success⟩ := Option.isSome_iff_exists.mp (search_isSome
    (derives_constantPattern.mpr ⟨rfl, rfl, width, expression, rfl, single, rfl⟩))
  obtain ⟨-, -, width', expression', same, -, captures⟩ :=
    derives_constantPattern.mp (anchored.search_derives success)
  obtain ⟨rfl, rfl⟩ := constantText_inj same
  exact ⟨found, success, by rw [captures]; rfl, by rw [captures]; rfl⟩

/-! ## Memory references -/

/-- A parameter text as the memory pattern takes it. -/
def ParameterText (text : List Char) : Prop := text ≠ [] ∧ ',' ∉ text

theorem reads_noComma : Reads noComma ParameterText := by
  intro start word rest captures
  simp only [noComma, derives_plus_sat, ParameterText, bne_iff_ne, ne_eq]
  constructor
  · rintro ⟨nonempty, all, rfl⟩
    exact ⟨⟨nonempty, fun member => all _ member rfl⟩, rfl⟩
  · rintro ⟨⟨nonempty, none⟩, rfl⟩
    exact ⟨nonempty, fun c member same => none (same ▸ member), rfl⟩

theorem derives_memoryPattern {start : Bool} {word rest : List Char} {captures : Captures} :
    Derives memoryPattern start word rest captures ↔
      start = true ∧ rest = [] ∧ ∃ ratio width base offset1 offset2, word = memoryText ratio width base offset1 offset2 ∧
        ParameterText base ∧ ParameterText offset1 ∧ ParameterText offset2 ∧
        captures = [(1, ratio.digits), (2, width.digits), (3, base), (4, offset1), (5, offset2)] := by
  rw [memoryPattern]
  simp only [derives_bol_seq, derives_chr_seq, reads_ratio.derives_group_seq, reads_width.derives_group_seq,
    reads_noComma.derives_group_seq, derives_eol]
  constructor
  · rintro ⟨rfl, _, rfl, _, _, _, rfl, ⟨ratio, rfl⟩, rfl, _, rfl, _, _, _, rfl, ⟨width, rfl⟩, rfl, _, rfl,
      base, _, _, rfl, first, rfl, _, rfl, offset1, _, _, rfl, second, rfl, _, rfl, offset2, _, _, rfl, third, rfl,
      _, rfl, rfl, rfl, rfl⟩
    exact ⟨rfl, rfl, ratio, width, base, offset1, offset2, rfl, first, second, third, rfl⟩
  · rintro ⟨rfl, rfl, ratio, width, base, offset1, offset2, rfl, first, second, third, rfl⟩
    exact ⟨rfl, _, rfl, _, _, _, rfl, ⟨ratio, rfl⟩, rfl, _, rfl, _, _, _, rfl, ⟨width, rfl⟩, rfl, _, rfl,
      base, _, _, rfl, first, rfl, _, rfl, offset1, _, _, rfl, second, rfl, _, rfl, offset2, _, _, rfl, third, rfl,
      _, rfl, rfl, rfl, rfl⟩

theorem memoryText_inj {ratio ratio' : Ratio} {width width' : Width}
    {base offset1 offset2 base' offset1' offset2' : List Char}
    (first : ',' ∉ base) (second : ',' ∉ offset1) (first' : ',' ∉ base') (second' : ',' ∉ offset1')
    (same : memoryText ratio width base offset1 offset2 = memoryText ratio' width' base' offset1' offset2') :
    ratio = ratio' ∧ width = width' ∧ base = base' ∧ offset1 = offset1' ∧ offset2 = offset2' := by
  have ratios (ratio : Ratio) : '&' ∉ ratio.digits := by cases ratio <;> decide
  have widths (width : Width) : '(' ∉ width.digits := by cases width <;> decide
  obtain ⟨ratioSame, afterRatio⟩ := Text.append_cons_inj (ratios _) (ratios _) (List.cons.inj same).2
  obtain ⟨widthSame, afterWidth⟩ := Text.append_cons_inj (widths _) (widths _) afterRatio
  obtain ⟨baseSame, afterBase⟩ := Text.append_cons_inj first first' afterWidth
  obtain ⟨offset1Same, afterOffset1⟩ := Text.append_cons_inj second second' afterBase
  refine ⟨?_, ?_, baseSame, offset1Same, List.append_cancel_right afterOffset1⟩
  · exact Ratio.digits_injective ratioSame
  · exact Width.digits_injective widthSame

theorem isValidMemory_iff (text : List Char) :
    isValidMemory text = true ↔ ∃ ratio width base offset1 offset2, text = memoryText ratio width base offset1 offset2 ∧
      ParameterText base ∧ ParameterText offset1 ∧ ParameterText offset2 := by
  simp only [isValidMemory, fullMatch_isSome_iff, derives_memoryPattern, true_and]
  constructor
  · rintro ⟨captures, ratio, width, base, offset1, offset2, same, first, second, third, -⟩
    exact ⟨ratio, width, base, offset1, offset2, same, first, second, third⟩
  · rintro ⟨ratio, width, base, offset1, offset2, same, first, second, third⟩
    exact ⟨_, ratio, width, base, offset1, offset2, same, first, second, third, rfl⟩

/-- The groups of a memory reference. -/
theorem search_memoryText (ratio : Ratio) (width : Width) {base offset1 offset2 : List Char} (first : ParameterText base)
    (second : ParameterText offset1) (third : ParameterText offset2) :
    ∃ found, search memoryPattern (memoryText ratio width base offset1 offset2) = some found ∧
      found.captures = [(1, ratio.digits), (2, width.digits), (3, base), (4, offset1), (5, offset2)] := by
  have anchored : Anchored memoryPattern := fun derivation =>
    ⟨(derives_memoryPattern.mp derivation).1, (derives_memoryPattern.mp derivation).2.1⟩
  obtain ⟨found, success⟩ := Option.isSome_iff_exists.mp (search_isSome
    (derives_memoryPattern.mpr ⟨rfl, rfl, ratio, width, base, offset1, offset2, rfl, first, second, third, rfl⟩))
  obtain ⟨-, -, ratio', width', base', offset1', offset2', same, first', second', -, captures⟩ :=
    derives_memoryPattern.mp (anchored.search_derives success)
  obtain ⟨rfl, rfl, rfl, rfl, rfl⟩ := memoryText_inj first.2 second.2 first'.2 second'.2 same
  exact ⟨found, success, captures⟩

/-! ## Parsing -/

/-- The result of `parse` for a normalized text. -/
inductive Parses : List Char → ParsedTarget → Prop where
  | register {name} (valid : ValidRegister name) : Parses name (.register name)
  | constant {width expression} (single : SingleLine expression) :
      Parses (constantText width expression) (.constant width.digits expression)
  | memory {ratio width base offset1 offset2} (first : ParameterText base) (second : ParameterText offset1)
      (third : ParameterText offset2) :
      Parses (memoryText ratio width base offset1 offset2) (.memory ratio.digits width.digits base offset1 offset2)

theorem ValidRegister.head {name : List Char} (valid : ValidRegister name) : name.head? = some '%' := by
  cases valid <;> rfl

theorem parse_ok_iff (input : List Char) (parsed : ParsedTarget) :
    parse input = .ok parsed ↔ Parses (normalize input) parsed := by
  simp only [parse]
  rw [show capitalization (removeSpace input) = normalize input from rfl]
  generalize normalize input = name
  constructor
  · intro success
    split_ifs at success with isRegister isConstant isMemory
    · cases success
      exact .register ((isValidRegister_iff name).mp isRegister)
    · obtain ⟨width, expression, rfl, single⟩ := (isValidConstant_iff name).mp isConstant
      obtain ⟨found, hit, group1, group2⟩ := search_constantText width single
      simp only [hit, group1, group2, Except.ok.injEq] at success
      subst success
      exact .constant single
    · obtain ⟨ratio, width, base, offset1, offset2, rfl, first, second, third⟩ := (isValidMemory_iff name).mp isMemory
      obtain ⟨found, hit, captures⟩ := search_memoryText ratio width first second third
      simp only [hit, captures, Except.ok.injEq] at success
      subst success
      exact .memory first second third
  · intro parses
    cases parses with
    | register valid => rw [if_pos ((isValidRegister_iff name).mpr valid)]
    | @constant width expression single =>
      have notRegister : isValidRegister (constantText width expression) ≠ true := fun valid =>
        nomatch ((isValidRegister_iff _).mp valid).head
      obtain ⟨found, hit, group1, group2⟩ := search_constantText width single
      rw [if_neg notRegister, if_pos ((isValidConstant_iff _).mpr ⟨width, expression, rfl, single⟩), hit]
      simp only [group1, group2]
    | @memory ratio width base offset1 offset2 first second third =>
      have notRegister : isValidRegister (memoryText ratio width base offset1 offset2) ≠ true := fun valid =>
        nomatch ((isValidRegister_iff _).mp valid).head
      have notConstant : isValidConstant (memoryText ratio width base offset1 offset2) ≠ true := by
        intro valid
        obtain ⟨_, _, same, -⟩ := (isValidConstant_iff _).mp valid
        exact absurd (List.cons.inj same).1 (by decide)
      obtain ⟨found, hit, captures⟩ := search_memoryText ratio width first second third
      rw [if_neg notRegister, if_neg notConstant,
        if_pos ((isValidMemory_iff _).mpr ⟨ratio, width, base, offset1, offset2, rfl, first, second, third⟩), hit]
      simp only [captures]
      rfl

/-! ## Register operands -/

variable {bc : Calculator}

theorem encodeTarget_parse {text : List Char} {parsed : ParsedTarget} {bytes : List Byte}
    (accepted : encodeTarget bc text = .ok (parsed, bytes)) : parse text = .ok parsed := by
  obtain ⟨parsed', parse, emit⟩ := Effects.except_bind_eq_ok.mp accepted
  cases parsed' with
  | notAValidType => cases emit
  | register name =>
    obtain ⟨_, _, same⟩ := Effects.except_bind_eq_ok.mp emit
    cases same
    exact parse
  | constant width expression =>
    obtain ⟨_, _, same⟩ := Effects.except_bind_eq_ok.mp emit
    cases same
    exact parse
  | memory ratio width base offset1 offset2 =>
    obtain ⟨_, _, same⟩ := Effects.except_bind_eq_ok.mp emit
    cases same
    exact parse

theorem Parses.valid {name name' : List Char} (parses : Parses name (.register name')) : ValidRegister name := by
  cases parses
  assumption

theorem encodeTarget_register {text : List Char} (valid : ValidRegister (normalize text)) :
    encodeTarget bc text = (encodeRegister (normalize text)).map fun bytes => (.register (normalize text), bytes) := by
  rw [encodeTarget, (parse_ok_iff ..).mpr (.register valid)]
  change (encodeRegister (normalize text) >>= fun bytes => pure (ParsedTarget.register (normalize text), bytes)) = _
  cases encodeRegister (normalize text) <;> rfl

/-- A text that begins like a register but is none is refused. -/
theorem encode_invalid {text : List Char} (percent : (normalize text).head? = some '%')
    (invalid : ¬ ValidRegister (normalize text)) :
    (∃ error, encodeTarget bc text = .error error) ∧ ∃ error, encodeParameter bc (normalize text) = .error error := by
  have notRegister : isValidRegister (normalize text) = false := by
    rw [← Bool.not_eq_true, isValidRegister_iff]
    exact invalid
  have notConstant : isValidConstant (normalize text) = false := by
    rw [← Bool.not_eq_true, isValidConstant_iff]
    rintro ⟨width, expression, same, -⟩
    rw [same] at percent
    cases percent
  constructor
  · cases parsed : parse text with
    | error err => exact ⟨err, by rw [encodeTarget, parsed]; rfl⟩
    | ok target =>
      have parses := (parse_ok_iff ..).mp parsed
      generalize normalize text = name at parses percent invalid
      cases parses with
      | register valid => exact absurd valid invalid
      | constant => cases percent
      | memory => cases percent
  · simp only [encodeParameter, notRegister, notConstant, Bool.false_eq_true, ↓reduceIte]
    exact ⟨_, rfl⟩

/-- An operand that selects a register in the CPU's tables. -/
def Selects (bytes : List Byte) (register : Register) : Prop :=
  ∃ widthBCD index, bytes = [REGISTER_CODE, widthBCD, index] ∧ Register.ofCodes widthBCD index = some register

/-- Only registers of the machine are accepted under a name, alone or as a memory parameter, and the
bytes emitted for the name select them; a name without a register is an error. -/
structure OnlyRegisters (bc : Calculator) (text : List Char) : Prop where
  alone : ∀ name bytes, encodeTarget bc text = .ok (.register name, bytes) →
    ∃ register, NamesRegister (normalize text) register ∧ Selects bytes register
  parameter : ∀ bytes, isValidRegister (normalize text) = true → encodeParameter bc (normalize text) = .ok bytes →
    ∃ register, NamesRegister (normalize text) register ∧ Selects bytes register
  rejected : (normalize text).head? = some '%' → (∀ register, ¬ NamesRegister (normalize text) register) →
    (∃ error, encodeTarget bc text = .error error) ∧ ∃ error, encodeParameter bc (normalize text) = .error error

/-- The assembler accepts only registers of the machine, except for numbers above 15 after `%FER`. -/
theorem onlyRegisters_iff (bc : Calculator) (text : List Char) :
    OnlyRegisters bc text ↔ ¬ Overnumbered (normalize text) := by
  constructor
  · intro only large
    have emitted : ∃ bytes, encodeRegister (normalize text) = .ok bytes := by
      obtain ⟨digits, value, ⟨nonempty, all, -⟩, -, same⟩ := large
      exact ⟨_, same ▸ encodeRegister_full nonempty all⟩
    obtain ⟨bytes, emitted⟩ := emitted
    obtain ⟨register, named, -⟩ := only.alone (normalize text) bytes (by
      rw [encodeTarget_register large.valid, emitted]
      rfl)
    exact large.unnamed register named
  · intro small
    have sound {bytes : List Byte} (valid : ValidRegister (normalize text))
        (accepted : encodeRegister (normalize text) = .ok bytes) :
        ∃ register, NamesRegister (normalize text) register ∧ Selects bytes register := by
      rcases valid.cases_emitted with ⟨register, named, emitted⟩ | large | ⟨err, failed⟩
      · rw [accepted] at emitted
        cases emitted
        exact ⟨register, named, _, _, rfl, register.ofCodes_codes⟩
      · exact absurd large small
      · rw [accepted] at failed
        cases failed
    refine ⟨fun name bytes accepted => ?_, fun bytes valid accepted => ?_, fun percent unnamed => ?_⟩
    · have valid := ((parse_ok_iff ..).mp (encodeTarget_parse accepted)).valid
      rw [encodeTarget_register valid] at accepted
      cases emitted : encodeRegister (normalize text) with
      | error err =>
        rw [emitted] at accepted
        cases accepted
      | ok bytes' =>
        rw [emitted] at accepted
        cases accepted
        exact sound valid emitted
    · have valid := (isValidRegister_iff _).mp valid
      rcases valid.cases_parameter bc with ⟨same, -⟩ | ⟨err, failed⟩
      · exact sound valid (same ▸ accepted)
      · rw [accepted] at failed
        cases failed
    · by_cases valid : ValidRegister (normalize text)
      · have refused : ∃ error, encodeRegister (normalize text) = .error error := by
          rcases valid.cases_emitted with ⟨register, named, -⟩ | large | failed
          · exact absurd named (unnamed register)
          · exact absurd large small
          · exact failed
        obtain ⟨err, refused⟩ := refused
        refine ⟨⟨err, by rw [encodeTarget_register valid, refused]; rfl⟩, ?_⟩
        rcases valid.cases_parameter bc with ⟨same, -⟩ | failed
        · exact ⟨err, same.trans refused⟩
        · exact failed
      · exact encode_invalid percent valid

/-- A calculator that knows numerals only. -/
def numeralCalculator : Calculator := fun input =>
  { fd_stdout := Numerals.decimal (Numerals.digitsValue 10 input) ++ ['\n'], fd_stderr := [], exit_status := 0 }

/-- `%FER160` is accepted, and the CPU reads it as the stack base. -/
theorem not_onlyRegisters_stackBase :
    encodeTarget numeralCalculator "%FER160".toList = .ok (.register "%FER160".toList, [0x01, 0x64, 0xA0]) ∧
      Register.ofCodes 0x64 0xA0 = some (.special .stackBase) ∧
      ¬ OnlyRegisters numeralCalculator "%FER160".toList := by
  have accepted : encodeTarget numeralCalculator "%FER160".toList =
    .ok (.register "%FER160".toList, [0x01, 0x64, 0xA0]) := by
    decide +kernel
  have large : Overnumbered (normalize "%FER160".toList) :=
    ⟨"160".toList, 160, ⟨by decide, by decide, by decide⟩, by decide, by decide⟩
  refine ⟨accepted, by decide, fun only => ?_⟩
  obtain ⟨register, named, -⟩ := only.alone _ _ accepted
  exact large.unnamed register named

end Sysdarft.Coding
