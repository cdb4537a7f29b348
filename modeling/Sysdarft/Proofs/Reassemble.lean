import Sysdarft.Proofs.EncodeLine
import Sysdarft.Proofs.ReassembleOperand

/-! # Disassembly undoes assembly

The line that the disassembler prints for an instruction is cut by `clean_line` into exactly the
mnemonic, the width and the operands that were printed. If the instruction came from an accepted line,
the checks of the assembler go the same way for the printed line, so the same bytes are emitted.
-/

namespace Sysdarft.Coding

open Regex Format

/-! ## The operand pattern -/

def Blank (text : List Char) : Prop := ∀ c ∈ text, Numerals.isSpace c = true

theorem reads_blanks : Reads (star space) Blank := derives_star_sat

theorem blank_nil : Blank [] := fun _ member => nomatch member

/-- A memory reference as the operand pattern takes it. -/
def MemoryBody (body : List Char) : Prop :=
  ∃ (ratio : Ratio) (width : Width) (blanks blanks' first second third : List Char),
    body = '*' :: (blanks ++ (ratio.digits ++ '&' :: (width.digits ++ (blanks' ++ '(' ::
      (first ++ ',' :: (second ++ ',' :: (third ++ [')']))))))) ∧
      Blank blanks ∧ Blank blanks' ∧ ParameterText first ∧ ParameterText second ∧ ParameterText third

theorem reads_targetMemory : Reads targetMemory MemoryBody := by
  intro start word rest captures
  rw [targetMemory]
  simp only [derives_chr_seq, reads_blanks.derives_seq, reads_ratio.derives_seq, reads_width.derives_seq,
    reads_noComma.derives_seq, derives_chr]
  constructor
  · rintro ⟨_, rfl, blanks, _, rfl, blank, _, _, rfl, ⟨ratio, rfl⟩, _, rfl, _, _, rfl, ⟨width, rfl⟩, blanks', _, rfl, blank',
      _, rfl, first, _, rfl, text1, _, rfl, second, _, rfl, text2, _, rfl, third, _, rfl, text3, rfl, rfl⟩
    exact ⟨⟨ratio, width, blanks, blanks', first, second, third, rfl, blank, blank', text1, text2, text3⟩, rfl⟩
  · rintro ⟨⟨ratio, width, blanks, blanks', first, second, third, rfl, blank, blank', text1, text2, text3⟩, rfl⟩
    exact ⟨_, rfl, blanks, _, rfl, blank, _, _, rfl, ⟨ratio, rfl⟩, _, rfl, _, _, rfl, ⟨width, rfl⟩, blanks', _, rfl, blank',
      _, rfl, first, _, rfl, text1, _, rfl, second, _, rfl, text2, _, rfl, third, _, rfl, text3, rfl, rfl⟩

theorem isSpace_ne {c : Char} (blank : Numerals.isSpace c = true) : c ≠ '>' ∧ c ≠ '*' ∧ c ≠ '%' ∧ c ≠ '$' ∧ c ≠ '(' := by
  refine ⟨?_, ?_, ?_, ?_, ?_⟩ <;> (rintro rfl; revert blank; decide)

theorem isHexadecimal_ne {c : Char} (digit : Numerals.isHexadecimal c = true) : c ≠ '>' := by
  rintro rfl
  revert digit
  decide

/-- Registers and constants are introduced by their own character and contain no closing bracket. -/
theorem derives_targetRegister {start : Bool} {word rest : List Char} {captures : Captures}
    (derivation : Derives targetRegister start word rest captures) : word.head? = some '%' ∧ '>' ∉ word := by
  rw [targetRegister, derives_alt, derives_alt, derives_chr_seq, derives_seq, derives_chr_seq] at derivation
  rcases derivation with ⟨right, rfl, derivation⟩ | ⟨left, right, _, _, rfl, -, literal, digits⟩ | ⟨right, rfl, derivation⟩
  · refine ⟨rfl, ?_⟩
    obtain ⟨letters, digit, _, _, rfl, -, known, last⟩ := derives_seq.mp derivation
    obtain ⟨member, -⟩ := derives_oneOf.mp known
    obtain ⟨c, range, rfl, -⟩ := derives_sat.mp last
    have low : c ≠ '>' := by
      rintro rfl
      revert range
      decide
    simp only [List.mem_cons, List.not_mem_nil, or_false] at member
    rcases member with rfl | rfl | rfl <;> simp [low.symm]
  · obtain ⟨rfl, -⟩ := derives_lit.mp literal
    obtain ⟨-, all, -⟩ := derives_plus_sat.mp digits
    refine ⟨rfl, fun member => ?_⟩
    rcases List.mem_append.mp member with front | digit
    · revert front
      decide
    · exact isHexadecimal_ne (Numerals.isHexadecimal_of_isDecimal (all _ digit)) rfl
  · refine ⟨rfl, ?_⟩
    rw [specialPattern, derives_oneOf] at derivation
    obtain ⟨special, -, rfl⟩ := List.mem_map.mp derivation.1
    cases special <;> decide

theorem blank_closing {blanks : List Char} (blank : Blank blanks) : '>' ∉ blanks :=
  fun member => (isSpace_ne (blank _ member)).1 rfl

theorem expressionChar_ne {c : Char} (holds : expressionChar c = true) : c ≠ '>' := by
  rintro rfl
  revert holds
  decide

theorem derives_targetConstant {start : Bool} {word rest : List Char} {captures : Captures}
    (derivation : Derives targetConstant start word rest captures) : word.head? = some '$' ∧ '>' ∉ word := by
  rw [targetConstant] at derivation
  simp only [derives_chr_seq, reads_blanks.derives_seq, reads_width.derives_seq] at derivation
  obtain ⟨_, rfl, blanks1, _, rfl, blank1, _, _, rfl, ⟨width, rfl⟩, blanks2, _, rfl, blank2, _, rfl, blanks3, _, rfl,
    blank3, derivation⟩ := derivation
  obtain ⟨expression, _, _, _, rfl, -, inner, derivation⟩ := derives_seq.mp derivation
  rw [reads_blanks.derives_seq] at derivation
  obtain ⟨blanks4, _, rfl, blank4, last⟩ := derivation
  obtain ⟨rfl, -⟩ := derives_chr.mp last
  have each : ∀ {start word rest captures}, Derives (alt (seq (chr '0') (seq (sat fun c => c == 'x' || c == 'X')
      (plus (sat Numerals.isHexadecimal)))) (alt space (sat expressionChar))) start word rest captures →
      ∀ c ∈ word, c ≠ '>' := by
    intro start word rest captures derivation
    rw [derives_alt, derives_alt, derives_chr_seq, space, derives_sat, derives_sat] at derivation
    rcases derivation with ⟨_, rfl, hexadecimal⟩ | ⟨c, blank, rfl, -⟩ | ⟨c, holds, rfl, -⟩
    · obtain ⟨_, digits, _, _, rfl, -, mark, plus⟩ := derives_seq.mp hexadecimal
      obtain ⟨c, holds, rfl, -⟩ := derives_sat.mp mark
      obtain ⟨-, all, -⟩ := derives_plus_sat.mp plus
      intro d member
      simp only [List.singleton_append, List.mem_cons] at member
      rcases member with rfl | rfl | digit
      · decide
      · rintro rfl
        revert holds
        decide
      · exact isHexadecimal_ne (all d digit)
    · simpa using (isSpace_ne blank).1
    · simpa using expressionChar_ne holds
  have none : '>' ∉ expression := by
    obtain ⟨first, others, _, _, rfl, -, head, tail⟩ := derives_seq.mp inner
    intro member
    rcases List.mem_append.mp member with early | late
    · exact each head _ early rfl
    · exact derives_star_all each tail _ late rfl
  have digits : '>' ∉ width.digits := by cases width <;> decide
  refine ⟨rfl, ?_⟩
  simp [blank_closing blank1, blank_closing blank2, blank_closing blank3, blank_closing blank4, none, digits]

/-- An operand as the pattern takes it, without its angle brackets. -/
inductive OperandBody (body : List Char) : Prop where
  | memory (memory : MemoryBody body)
  | other (head : body.head? = some '%' ∨ body.head? = some '$') (closing : '>' ∉ body)

theorem derives_targetPattern {start : Bool} {word rest : List Char} {captures : Captures}
    (derivation : Derives targetPattern start word rest captures) :
    ∃ blanks body blanks', word = '<' :: (blanks ++ (body ++ (blanks' ++ ['>']))) ∧ Blank blanks ∧ Blank blanks' ∧
      OperandBody body := by
  rw [targetPattern, derives_chr_seq] at derivation
  obtain ⟨_, rfl, derivation⟩ := derivation
  rw [reads_blanks.derives_seq] at derivation
  obtain ⟨blanks, _, rfl, blank, derivation⟩ := derivation
  obtain ⟨body, _, _, _, rfl, -, inner, derivation⟩ := derives_seq.mp derivation
  rw [reads_blanks.derives_seq] at derivation
  obtain ⟨blanks', _, rfl, blank', last⟩ := derivation
  obtain ⟨rfl, -⟩ := derives_chr.mp last
  refine ⟨blanks, body, blanks', rfl, blank, blank', ?_⟩
  rw [derives_alt, derives_alt] at inner
  rcases inner with memory | register | constant
  · exact .memory (reads_targetMemory.mp memory).1
  · obtain ⟨head, closing⟩ := derives_targetRegister register
    exact .other (.inl head) closing
  · obtain ⟨head, closing⟩ := derives_targetConstant constant
    exact .other (.inr head) closing

/-! ## Printed operands match the pattern -/

theorem derives_registerName (register : Register) {rest : List Char} :
    Derives targetRegister false (registerName register) rest [] := by
  rw [targetRegister, derives_alt, derives_alt]
  cases register with
  | general width index =>
    have low : ∀ index : Fin 8, ∃ c, decide ('0' ≤ c ∧ c ≤ '7') = true ∧ Numerals.decimal index = [c] := by
      intro index
      fin_cases index <;> exact ⟨_, by decide, rfl⟩
    have narrow {letters : List Char} (known : letters ∈ ["R".toList, "EXR".toList, "HER".toList]) (index : Fin 8) :
        Derives (seq (chr '%') (seq (oneOf ["R".toList, "EXR".toList, "HER".toList]) lowDigit)) false
          ('%' :: (letters ++ Numerals.decimal index)) rest [] := by
      obtain ⟨c, range, digits⟩ := low index
      rw [derives_chr_seq, digits]
      exact ⟨_, rfl, .seq (derives_oneOf.mpr ⟨known, rfl⟩) (.sat range)⟩
    cases width with
    | w8 => exact .inl (narrow (by decide) index)
    | w16 => exact .inl (narrow (by decide) index)
    | w32 => exact .inl (narrow (by decide) index)
    | w64 =>
      have digits : Derives (plus (sat Numerals.isDecimal)) (false && "%FER".toList.isEmpty)
          (Numerals.decimal index) rest [] :=
        derives_plus_sat.mpr ⟨Numerals.decimal_ne_nil _, fun _ => Numerals.isDecimal_of_mem_decimal, rfl⟩
      exact .inr (.inl (.seq (derives_lit.mpr ⟨rfl, rfl⟩) digits))
  | special special =>
    refine .inr (.inr (derives_chr_seq.mpr ⟨special.name, rfl, ?_⟩))
    exact derives_oneOf.mpr ⟨List.mem_map_of_mem (by cases special <;> decide), rfl⟩

theorem derives_constantText (constant : Constant) {rest : List Char} :
    Derives targetConstant false (constantText constant.width (constantDigits constant)) rest [] := by
  have digits : Derives (plus (sat Numerals.isHexadecimal)) false (Numerals.hexadecimal constant.value.toNat)
    (')' :: rest) [] :=
    derives_plus_sat.mpr ⟨Numerals.hexadecimal_ne_nil _, fun _ => Numerals.isHexadecimal_of_mem_hexadecimal, rfl⟩
  have number : Derives (seq (chr '0') (seq (sat fun c => c == 'x' || c == 'X') (plus (sat Numerals.isHexadecimal)))) false
      (constantDigits constant) (')' :: rest) [] :=
    derives_chr_seq.mpr ⟨_, rfl, derives_seq.mpr ⟨['X'], _, [], [], rfl, rfl, .sat rfl, digits⟩⟩
  have expression : Derives (plus (alt (seq (chr '0') (seq (sat fun c => c == 'x' || c == 'X')
      (plus (sat Numerals.isHexadecimal)))) (alt space (sat expressionChar)))) false
      (constantDigits constant) (')' :: rest) [] :=
    derives_seq.mpr ⟨_, [], [], [], (List.append_nil _).symm, rfl, .altLeft number, .starNil⟩
  rw [targetConstant, derives_chr_seq, constantText]
  refine ⟨_, rfl, reads_blanks.derives_seq.mpr ⟨[], _, rfl, blank_nil, ?_⟩⟩
  refine reads_width.derives_seq.mpr ⟨_, _, rfl, ⟨_, rfl⟩, reads_blanks.derives_seq.mpr ⟨[], _, rfl, blank_nil, ?_⟩⟩
  refine derives_chr_seq.mpr ⟨_, rfl, reads_blanks.derives_seq.mpr ⟨[], _, rfl, blank_nil, ?_⟩⟩
  refine derives_seq.mpr ⟨constantDigits constant, [')'], [], [], rfl, rfl, expression, ?_⟩
  exact reads_blanks.derives_seq.mpr ⟨[], _, rfl, blank_nil, derives_chr.mpr ⟨rfl, rfl⟩⟩

theorem memoryBody_targetUpper (ratio : Ratio) (width : Width) (base offset1 offset2 : Parameter) :
    MemoryBody (targetUpper (.memory ratio width base offset1 offset2)) := by
  have spaced {text : List Char} (valid : ParameterText text) : ParameterText (' ' :: text) :=
    ⟨List.cons_ne_nil _ _, by simpa using valid.2⟩
  exact ⟨ratio, width, [], [], _, _, _, rfl, blank_nil, blank_nil, parameterText_isParameterText base,
    spaced (parameterText_isParameterText offset1), spaced (parameterText_isParameterText offset2)⟩

/-- A printed operand with its brackets. -/
def bracketedUpper (target : Target) : List Char := '<' :: (targetUpper target ++ ['>'])

theorem derives_bracketedUpper (target : Target) {start : Bool} {rest : List Char} :
    Derives targetPattern start (bracketedUpper target) rest [] := by
  have body : Derives (alt targetMemory (alt targetRegister targetConstant)) false (targetUpper target) ('>' :: rest)
    [] := by
    rw [derives_alt, derives_alt]
    cases target with
    | register register => exact .inr (.inl (derives_registerName register))
    | constant constant => exact .inr (.inr (derives_constantText constant))
    | memory ratio width base offset1 offset2 =>
      exact .inl (reads_targetMemory.mpr ⟨memoryBody_targetUpper ratio width base offset1 offset2, rfl⟩)
  rw [targetPattern, derives_chr_seq]
  refine ⟨_, rfl, reads_blanks.derives_seq.mpr ⟨[], _, rfl, blank_nil, ?_⟩⟩
  refine derives_seq.mpr ⟨_, _, [], [], rfl, rfl, body, ?_⟩
  exact reads_blanks.derives_seq.mpr ⟨[], _, rfl, blank_nil, derives_chr.mpr ⟨rfl, rfl⟩⟩

theorem closing_targetUpper (target : Target) : '>' ∉ targetUpper target :=
  fun member => (operandChars_facts (targetUpper_chars target _ member)).2.2.1 rfl

theorem count_blank {blanks : List Char} (blank : Blank blanks) : blanks.count ',' = 0 :=
  List.count_eq_zero_of_not_mem fun member => absurd (blank _ member) (by decide)

theorem count_memoryBody {body : List Char} (memory : MemoryBody body) : body.count ',' = 2 := by
  obtain ⟨ratio, width, blanks, blanks', first, second, third, rfl, blank, blank', text1, text2, text3⟩ := memory
  have noParameter {text : List Char} (valid : ParameterText text) : text.count ',' = 0 :=
    List.count_eq_zero_of_not_mem valid.2
  have ratioDigits : ratio.digits.count ',' = 0 := by cases ratio <;> rfl
  have widthDigits : width.digits.count ',' = 0 := by cases width <;> rfl
  simp [count_blank blank, count_blank blank', noParameter text1, noParameter text2, noParameter text3,
    ratioDigits, widthDigits]

theorem head_targetUpper (target : Target) :
    MemoryBody (targetUpper target) ∨ ∃ c rest, targetUpper target = c :: rest ∧ (c = '%' ∨ c = '$') := by
  cases target with
  | register register => cases register <;> exact .inr ⟨'%', _, rfl, .inl rfl⟩
  | constant constant => exact .inr ⟨'$', _, rfl, .inr rfl⟩
  | memory ratio width base offset1 offset2 => exact .inl (memoryBody_targetUpper ratio width base offset1 offset2)

/-- At the end of the line, and before a comma, a printed operand is matched up to its own closing
bracket only. The last parameter of the pattern could run on, but not over a comma. -/
theorem bracketedUpper_unique (target : Target) {start : Bool} {word rest rest' : List Char} {captures : Captures}
    (follows : ∀ c ∈ rest.head?, c = ',') (same : bracketedUpper target ++ rest = word ++ rest')
    (derivation : Derives targetPattern start word rest' captures) : word = bracketedUpper target := by
  obtain ⟨blanks, body, blanks', rfl, blank, blank', operand⟩ := derives_targetPattern derivation
  have upper : '>' ∉ '<' :: targetUpper target := by simp [closing_targetUpper]
  rw [bracketedUpper] at same ⊢
  rcases List.append_eq_append_iff.mp same with ⟨more, longer, rest_eq⟩ | ⟨more, shorter, -⟩
  · cases more with
    | nil => rw [longer, List.append_nil]
    | cons c more =>
      obtain rfl : c = ',' := follows c (by rw [rest_eq]; rfl)
      exfalso
      cases operand with
      | other head closing =>
        have absent : '>' ∉ '<' :: (blanks ++ (body ++ blanks')) := by
          simp [closing, blank_closing blank, blank_closing blank']
        have split : '<' :: (blanks ++ (body ++ blanks')) ++ ['>'] = '<' :: targetUpper target ++ '>' :: ',' :: more := by
          simpa using longer
        cases Text.append_last absent split
      | memory memory =>
        rcases head_targetUpper target with memory' | ⟨c, tail, starts, mark⟩
        · have counts := congrArg (List.count ',') longer
          simp [count_memoryBody memory, count_memoryBody memory', count_blank blank, count_blank blank'] at counts
        · rw [starts] at longer
          cases blanks with
          | nil =>
            obtain ⟨_, _, _, _, _, _, _, rfl, -⟩ := memory
            obtain rfl : '*' = c := (List.cons.inj (List.cons.inj longer).2).1
            rcases mark with mark | mark <;> cases mark
          | cons b blanks =>
            obtain rfl : b = c := (List.cons.inj (List.cons.inj longer).2).1
            have space := isSpace_ne (blank b List.mem_cons_self)
            exact mark.elim space.2.2.1 space.2.2.2.1
  · have split : '<' :: targetUpper target ++ ['>'] = '<' :: (blanks ++ (body ++ blanks')) ++ '>' :: more := by
      simpa using shorter
    rw [Text.append_last upper split, List.append_nil] at shorter
    exact shorter.symm

/-! ## The printed line -/

/-- The width specifier of a printed line, capitalized. -/
def widthUpper (width : Width) : List Char :=
  ' ' :: (widthSpecifier width ++ if width = .w8 then [' '] else [])

/-- The operands of a printed line, capitalized. -/
def operandsUpper : List Target → List Char
  | [] => []
  | [target] => ' ' :: bracketedUpper target
  | target :: targets =>
    ' ' :: (bracketedUpper target ++ ',' :: (targets.map fun target => ' ' :: bracketedUpper target).flatten)

theorem capitalization_bracketed (target : Target) :
    capitalization (bracketed (targetLiteral target)) = ' ' :: bracketedUpper target := by
  have opening : capitalization " <".toList = [' ', '<'] := rfl
  have closing : capitalization ">".toList = ['>'] := rfl
  rw [bracketed, capitalization_append, capitalization_append, capitalization_targetLiteral, opening, closing]
  rfl

theorem capitalization_operandsLiteral (targets : List Target) :
    capitalization (operandsLiteral targets) = operandsUpper targets := by
  have comma : capitalization ",".toList = [','] := rfl
  have flat (targets : List Target) : capitalization (targets.map fun target => bracketed (targetLiteral target)).flatten =
      (targets.map fun target => ' ' :: bracketedUpper target).flatten := by
    induction targets with
    | nil => rfl
    | cons target targets ih =>
      rw [List.map_cons, List.flatten_cons, capitalization_append, ih, capitalization_bracketed]; rfl
  match targets with
  | [] => rfl
  | [target] => exact capitalization_bracketed target
  | first :: second :: targets =>
    rw [operandsLiteral, capitalization_append, capitalization_append, flat, comma, capitalization_bracketed]
    · rw [operandsUpper]
      · simp
      · simp
    · simp

theorem capitalization_instructionLiteral (instruction : Instruction) :
    capitalization (instructionLiteral instruction) =
      instruction.mnemonic.name ++ (instruction.width.elim [] widthUpper ++ operandsUpper instruction.operands) := by
  have name : capitalization instruction.mnemonic.name = instruction.mnemonic.name := by
    cases instruction.mnemonic <;> rfl
  have width : capitalization (instruction.width.elim [] widthLiteral) = instruction.width.elim [] widthUpper := by
    cases instruction.width with
    | none => rfl
    | some width => cases width <;> rfl
  rw [instructionLiteral, capitalization_append, capitalization_append, name, width, capitalization_operandsLiteral,
    List.append_assoc]

/-! ### The mnemonic -/

theorem search_instructionPattern (mnemonic : Mnemonic) {rest : List Char} (stop : ∀ c ∈ rest.head?, c = ' ') :
    search instructionPattern (mnemonic.name ++ rest) =
      some { before := [], text := mnemonic.name, rest := rest, captures := [] } := by
  refine searchFrom_here (matchAt_plus ?_ ?_ ?_)
  · cases mnemonic <;> decide
  · cases mnemonic <;> decide
  · intro c member
    rw [stop c member]
    rfl

/-! ### The width specifier -/

theorem derives_operationWidth {start : Bool} {word rest : List Char} {captures : Captures}
    (derivation : Derives operationWidthPattern start word rest captures) :
    ∃ c, ∃ width : Width, word = c :: (width.digits ++ "BIT".toList) := by
  simp only [operationWidthPattern, dot, derives_alt, derives_seq, derives_sat, derives_lit] at derivation
  rcases derivation with ⟨_, _, _, _, rfl, -, ⟨c, -, rfl, -⟩, rfl, -⟩ | ⟨_, _, _, _, rfl, -, ⟨c, -, rfl, -⟩, rfl, -⟩ |
    ⟨_, _, _, _, rfl, -, ⟨c, -, rfl, -⟩, rfl, -⟩ | ⟨_, _, _, _, rfl, -, ⟨c, -, rfl, -⟩, rfl, -⟩
  · exact ⟨c, .w8, rfl⟩
  · exact ⟨c, .w16, rfl⟩
  · exact ⟨c, .w32, rfl⟩
  · exact ⟨c, .w64, rfl⟩

theorem derives_widthSpecifier (width : Width) {start : Bool} {rest : List Char} :
    Derives operationWidthPattern start (widthSpecifier width) rest [] := by
  simp only [operationWidthPattern, dot, derives_alt, derives_seq, derives_sat, derives_lit]
  cases width with
  | w8 => exact .inl ⟨['.'], _, [], [], rfl, rfl, ⟨'.', by decide, rfl, rfl⟩, rfl, rfl⟩
  | w16 => exact .inr (.inl ⟨['.'], _, [], [], rfl, rfl, ⟨'.', by decide, rfl, rfl⟩, rfl, rfl⟩)
  | w32 => exact .inr (.inr (.inl ⟨['.'], _, [], [], rfl, rfl, ⟨'.', by decide, rfl, rfl⟩, rfl, rfl⟩))
  | w64 => exact .inr (.inr (.inr ⟨['.'], _, [], [], rfl, rfl, ⟨'.', by decide, rfl, rfl⟩, rfl, rfl⟩))

/-- The specifier stands alone: behind no character of the mnemonic is there a digit. -/
theorem search_widthSpecifier {mnemonic : Mnemonic} (required : mnemonic.requiresWidth = true) (width : Width)
    (rest : List Char) :
    (search operationWidthPattern (mnemonic.name ++ ' ' :: (widthSpecifier width ++ rest))).map Found.text =
      some (widthSpecifier width) := by
  have letters : ∀ c ∈ (mnemonic.name ++ [' ']), Numerals.isDecimal c = false := by
    cases mnemonic <;> first | decide | cases required
  have skipped : (searchFrom operationWidthPattern true (mnemonic.name ++ [' '] ++ (widthSpecifier width ++ rest))).map
      Found.text = (searchFrom operationWidthPattern false (widthSpecifier width ++ rest)).map Found.text := by
    refine searchFrom_append (by simp) ?_
    intro start word rest' captures c text suffix split derivation
    obtain ⟨c', width', rfl⟩ := derives_operationWidth derivation
    obtain ⟨d, digits, starts, decimal⟩ : ∃ d digits, width'.digits = d :: digits ∧ Numerals.isDecimal d = true := by
      cases width' <;> exact ⟨_, _, rfl, by decide⟩
    have tails := (List.cons.inj split).2
    rw [starts] at tails
    have other : Numerals.isDecimal d = false := by
      cases text with
      | nil =>
        obtain rfl : '.' = d := (List.cons.inj tails).1
        rfl
      | cons e text =>
        obtain rfl : e = d := (List.cons.inj tails).1
        exact letters e (suffix.subset (List.mem_cons_of_mem _ List.mem_cons_self))
    rw [decimal] at other
    cases other
  have hit : ∃ found, matchAt operationWidthPattern false (widthSpecifier width ++ rest) = some found ∧
      found.text = widthSpecifier width := by
    refine matchAt_unique (derives_widthSpecifier width) ?_
    intro word rest' captures split derivation
    obtain ⟨c, width', rfl⟩ := derives_operationWidth derivation
    have noLetter (width : Width) : 'B' ∉ width.digits := by cases width <;> decide
    rw [widthSpecifier, List.cons_append, List.cons_append, List.append_assoc, List.append_assoc] at split
    obtain ⟨rfl, tails⟩ := List.cons.inj split
    rw [widthSpecifier, (Text.append_cons_inj (noLetter width) (noLetter width') tails).1]
  obtain ⟨found, hit, text⟩ := hit
  rw [searchFrom_here hit, List.append_assoc] at skipped
  rw [search, ← List.singleton_append, skipped, Option.map_some, text]

/-- Without a specifier nothing in the line reads like one. -/
theorem search_noSpecifier (mnemonic : Mnemonic) {rest : List Char} (absent : 'I' ∉ rest) :
    search operationWidthPattern (mnemonic.name ++ rest) = none := by
  have marked : ∀ {start word rest captures}, Derives operationWidthPattern start word rest captures →
      ['B', 'I'] <:+: word := by
    intro start word rest captures derivation
    obtain ⟨c, width, rfl⟩ := derives_operationWidth derivation
    exact ⟨c :: width.digits, ['T'], by simp⟩
  have name : ¬ ['B', 'I'] <:+: mnemonic.name := by cases mnemonic <;> decide
  refine searchFrom_eq_none marked ?_
  rintro ⟨first, last, split⟩
  have aligned : mnemonic.name ++ rest = (first ++ ['B']) ++ 'I' :: last := by simpa using split.symm
  rcases List.append_eq_append_iff.mp aligned with ⟨more, -, late⟩ | ⟨more, early, late⟩
  · exact absent (late ▸ List.mem_append_right _ List.mem_cons_self)
  · cases more with
    | nil => exact absent (by rw [List.nil_append] at late; exact late ▸ List.mem_cons_self)
    | cons c more =>
      obtain ⟨rfl, -⟩ := List.cons.inj late
      exact name ⟨first, more, by simpa using early.symm⟩

/-! ### The operands -/

theorem opening_targetPattern {start : Bool} {word rest : List Char} {captures : Captures}
    (derivation : Derives targetPattern start word rest captures) : word.head? = some '<' := by
  obtain ⟨_, _, _, rfl, -⟩ := derives_targetPattern derivation
  rfl

theorem iterate_bracketedUpper (target : Target) {rest : List Char} (follows : ∀ c ∈ rest.head?, c = ',') :
    ∃ found : Found, found.text = bracketedUpper target ∧
      iterateFrom targetPattern 0 false (' ' :: (bracketedUpper target ++ rest)) =
        found :: iterateFrom targetPattern 0 false rest := by
  have stepped : iterateFrom targetPattern 0 false ([' '] ++ (bracketedUpper target ++ rest)) =
      iterateFrom targetPattern 0 false (bracketedUpper target ++ rest) :=
    iterateFrom_append opening_targetPattern (by decide) (by decide)
  obtain ⟨found, text, hit⟩ := iterateFrom_match (List.cons_ne_nil _ _) (derives_bracketedUpper target)
    fun _ _ _ split derivation => bracketedUpper_unique target follows split derivation
  exact ⟨found, text, stepped.trans hit⟩

theorem iterate_operandsUpper {targets : List Target} (few : targets.length ≤ 2) :
    (iterateFrom targetPattern 0 false (operandsUpper targets)).map Found.text = targets.map bracketedUpper := by
  have ended : ∀ c ∈ ([] : List Char).head?, c = ',' := by simp
  rcases targets with _ | ⟨first, _ | ⟨second, _ | ⟨third, targets⟩⟩⟩
  · rfl
  · obtain ⟨found, text, hit⟩ := iterate_bracketedUpper first ended
    rw [List.append_nil] at hit
    rw [operandsUpper, hit, iterateFrom, List.map_singleton, text, List.map_singleton]
  · have separated : ∀ c ∈ (',' :: ' ' :: bracketedUpper second).head?, c = ',' := by simp
    obtain ⟨found, text, hit⟩ := iterate_bracketedUpper first separated
    obtain ⟨found', text', hit'⟩ := iterate_bracketedUpper second ended
    rw [List.append_nil] at hit'
    have stepped : iterateFrom targetPattern 0 false ([','] ++ ' ' :: bracketedUpper second) =
        iterateFrom targetPattern 0 false (' ' :: bracketedUpper second) :=
      iterateFrom_append opening_targetPattern (by decide) (by decide)
    have line : operandsUpper [first, second] = ' ' :: (bracketedUpper first ++ ',' :: ' ' :: bracketedUpper second) := by
      simp [operandsUpper]
    rw [List.singleton_append, hit'] at stepped
    rw [line, hit, stepped, iterateFrom]
    simp [text, text']
  · simp only [List.length_cons] at few
    omega

/-! ### The whole line -/

theorem operandsUpper_chars (targets : List Target) : 'I' ∉ operandsUpper targets := by
  have one (target : Target) : 'I' ∉ ' ' :: bracketedUpper target := by
    have inner : 'I' ∉ targetUpper target := fun member => (operandChars_facts (targetUpper_chars target _ member)).2.2.2 rfl
    simp [bracketedUpper, inner]
  match targets with
  | [] => exact List.not_mem_nil
  | [target] => exact one target
  | first :: second :: targets =>
    rw [operandsUpper]
    · have head := one first
      simp only [List.mem_cons, not_or] at head
      simp only [List.mem_cons, List.mem_append, List.mem_flatten, List.mem_map, not_or]
      refine ⟨by decide, head.2, by decide, ?_⟩
      rintro ⟨_, ⟨target, -, rfl⟩, member⟩
      exact one target (List.mem_cons.mpr (by simpa using member))
    · simp

theorem head_operandsUpper (targets : List Target) : ∀ c ∈ (operandsUpper targets).head?, c = ' ' := by
  match targets with
  | [] => simp [operandsUpper]
  | [target] => simp [operandsUpper]
  | first :: second :: targets => simp [operandsUpper]

/-- `clean_line` takes a printed line apart into what was printed. -/
theorem cleanLine_instructionLiteral (instruction : Instruction) :
    cleanLine (instructionLiteral instruction) =
      .ok (instruction.mnemonic.name :: ((instruction.width.map widthSpecifier).toList ++
        instruction.operands.map fun target => '<' :: (targetText target ++ ['>']))) := by
  have few : instruction.operands.length ≤ 2 := instruction.counted ▸ argumentCount_le_two _
  have name : removeSpace instruction.mnemonic.name = instruction.mnemonic.name := by
    cases instruction.mnemonic <;> rfl
  have bracketedText (target : Target) : removeSpace (bracketedUpper target) = '<' :: (targetText target ++ ['>']) := by
    rw [bracketedUpper, removeSpace_cons _ (by decide), removeSpace_append, removeSpace_targetUpper]
    rfl
  have specifier : (search operationWidthPattern (instruction.mnemonic.name ++
      (instruction.width.elim [] widthUpper ++ operandsUpper instruction.operands))).map
        (fun found => removeSpace found.text) =
      instruction.width.map widthSpecifier := by
    cases known : instruction.width with
    | none => rw [Option.elim_none, List.nil_append, search_noSpecifier _ (operandsUpper_chars _)]; rfl
    | some width =>
      have required : instruction.mnemonic.requiresWidth = true := by
        rw [← instruction.widthed, known]
        rfl
      have found := congrArg (Option.map removeSpace) (search_widthSpecifier required width
        ((if width = .w8 then [' '] else []) ++ operandsUpper instruction.operands))
      rw [Option.map_map] at found
      rw [Option.elim_some, widthUpper, List.cons_append, List.append_assoc]
      refine found.trans ?_
      cases width <;> rfl
  have stop : ∀ c ∈ (instruction.width.elim [] widthUpper ++ operandsUpper instruction.operands).head?, c = ' ' := by
    cases instruction.width with
    | none => exact head_operandsUpper _
    | some width => simp [widthUpper]
  have targets : (iterate targetPattern (instruction.mnemonic.name ++
      (instruction.width.elim [] widthUpper ++ operandsUpper instruction.operands))).map
        (fun found => removeSpace found.text) =
      instruction.operands.map fun target => '<' :: (targetText target ++ ['>']) := by
    have absent : '<' ∉ instruction.mnemonic.name ++ instruction.width.elim [] widthUpper := by
      have letters : '<' ∉ instruction.mnemonic.name := by cases instruction.mnemonic <;> decide
      have digits : '<' ∉ instruction.width.elim [] widthUpper := by
        cases instruction.width with
        | none => exact List.not_mem_nil
        | some width => cases width <;> decide
      simp [letters, digits]
    have nonempty : instruction.mnemonic.name ++ instruction.width.elim [] widthUpper ≠ [] := by
      have letters : instruction.mnemonic.name ≠ [] := by cases instruction.mnemonic <;> decide
      exact fun empty => letters (List.append_eq_nil_iff.mp empty).1
    rw [iterate, ← List.append_assoc, iterateFrom_append opening_targetPattern absent nonempty]
    have texts := congrArg (List.map removeSpace) (iterate_operandsUpper few)
    rw [List.map_map, List.map_map] at texts
    refine texts.trans (List.map_congr_left fun target _ => bracketedText target)
  simp only [cleanLine, capitalization_instructionLiteral, search_instructionPattern _ stop, specifier, targets, name]

/-! ## The checks go the same way -/

/-- What the checks of the assembler look at in a register name. -/
theorem NamesRegister.checked {name : List Char} {register : Register} (names : NamesRegister name register) :
    name[1]? = (registerName register)[1]? ∧ specialOfName name = specialOfName (registerName register) := by
  have general (width : Width) {digits : List Char} (nonempty : digits ≠ []) :
      ('%' :: (width.registerLetters ++ digits))[1]? = width.registerLetters[0]? ∧
        specialOfName ('%' :: (width.registerLetters ++ digits)) = none := by
    obtain ⟨c, digits, rfl⟩ := List.exists_cons_of_ne_nil nonempty
    cases width <;> simp [specialOfName, SpecialRegister.all, SpecialRegister.name, Width.registerLetters]
  cases register with
  | general width index =>
    obtain ⟨digits, ⟨nonempty, -, -⟩, rfl⟩ := names
    obtain ⟨letter, special⟩ := general width nonempty
    obtain ⟨letter', special'⟩ := general width (Numerals.decimal_ne_nil index)
    exact ⟨letter.trans letter'.symm, special.trans special'.symm⟩
  | special special =>
    obtain rfl := names
    exact ⟨rfl, rfl⟩

/-- Two parsed operands that no check of the assembler tells apart. -/
structure SameChecks (first second : ParsedTarget) : Prop where
  fits : ∀ width, targetFits width first = targetFits width second
  constant : first.isConstant = second.isConstant
  memory : first.isMemory = second.isMemory
  wide : isInvalid64BitOperand first = isInvalid64BitOperand second

theorem memoryText_width {ratio ratio' : Ratio} {width width' : Width}
    {base offset1 offset2 base' offset1' offset2' : List Char}
    (same : memoryText ratio width base offset1 offset2 = memoryText ratio' width' base' offset1' offset2') :
    width = width' := by
  have ratios (ratio : Ratio) : '&' ∉ ratio.digits := by cases ratio <;> decide
  have widths (width : Width) : '(' ∉ width.digits := by cases width <;> decide
  obtain ⟨-, afterRatio⟩ := Text.append_cons_inj (ratios _) (ratios _) (List.cons.inj same).2
  exact Width.digits_injective (Text.append_cons_inj (widths _) (widths _) afterRatio).1

/-- The operand of an accepted line and its disassembly pass the same checks. -/
theorem sameChecks_targetParsed {bc : Calculator} {text : List Char} {parsed : ParsedTarget} {target : Target}
    (parses : Parses text parsed) (describes : DescribesTarget bc text target) :
    SameChecks parsed (targetParsed target) := by
  cases target with
  | register register =>
    have head : text.head? = some '%' := by
      cases register with
      | general => obtain ⟨_, -, rfl⟩ := describes; rfl
      | special => obtain rfl := describes; rfl
    cases parses with
    | register valid =>
      obtain ⟨letter, special⟩ := NamesRegister.checked describes
      refine ⟨fun width => ?_, rfl, rfl, ?_⟩
      · simp only [targetFits, targetParsed, registerFits, letter, special]
      · simp only [isInvalid64BitOperand, targetParsed, letter, special]
    | constant => cases head
    | memory => cases head
  | constant constant =>
    obtain ⟨expression, rfl, -, -⟩ := describes
    generalize same : constantText constant.width expression = whole at parses
    cases parses with
    | register valid =>
      rw [← same] at valid
      cases valid.head
    | constant =>
      obtain ⟨rfl, -⟩ := constantText_inj same
      exact ⟨fun _ => rfl, rfl, rfl, rfl⟩
    | memory => cases same
  | memory ratio width base offset1 offset2 =>
    obtain ⟨text1, text2, text3, rfl, -, -, -⟩ := describes
    generalize same : memoryText ratio width text1 text2 text3 = whole at parses
    cases parses with
    | register valid =>
      rw [← same] at valid
      cases valid.head
    | constant => cases same
    | memory =>
      obtain rfl := memoryText_width same
      exact ⟨fun _ => rfl, rfl, rfl, rfl⟩

theorem SameChecks.operandAt {first second : List ParsedTarget} (each : List.Forall₂ SameChecks first second) (index : ℕ) :
    SameChecks (operandAt first index) (operandAt second index) := by
  induction each generalizing index with
  | nil => exact ⟨fun _ => rfl, rfl, rfl, rfl⟩
  | cons head _ ih =>
    cases index with
    | zero => exact head
    | succ index => exact ih index

theorem operandSanityCheck_congr (mnemonic : Mnemonic) {first second : List ParsedTarget}
    (each : List.Forall₂ SameChecks first second) :
    operandSanityCheck mnemonic first = operandSanityCheck mnemonic second := by
  have left := SameChecks.operandAt each 0
  have right := SameChecks.operandAt each 1
  simp only [operandSanityCheck, left.constant, right.constant, right.memory, left.wide, right.wide]

theorem takeWidth_instructionLiteral (instruction : Instruction) (line : List Char) (tokens : List (List Char)) :
    takeWidth instruction.mnemonic line ((instruction.width.map widthSpecifier).toList ++ tokens) =
      .ok (instruction.width, tokens) := by
  have known (width : Width) : encodeWidthSpecifier (widthSpecifier width) = .ok width := by cases width <;> rfl
  have widthed := instruction.widthed
  cases present : instruction.width with
  | none =>
    have widthless : instruction.mnemonic.requiresWidth = false := by simpa [present] using widthed.symm
    simp [takeWidth, widthless]
  | some width =>
    have required : instruction.mnemonic.requiresWidth = true := by simpa [present] using widthed.symm
    simp [takeWidth, required, known]

/-- The operand loop on a printed operand. -/
theorem encodeOperand_targetText {bc : Calculator} (echoes : EchoesNumerals bc) (line : List Char) {width : Option Width}
    {text : List Char} {parsed : ParsedTarget} {target : Target} (encodes : Encodes bc width text parsed target) :
    encodeOperand bc line width ('<' :: (targetText target ++ ['>'])) = .ok (targetParsed target, target.bytes) := by
  have checks := sameChecks_targetParsed encodes.parses encodes.describes
  refine encodeOperand_ok_iff.mpr ⟨?_, ?_⟩
  · rw [List.drop_one, List.tail_cons, List.dropLast_concat]
    exact encodeTarget_targetText echoes encodes.assembled
  · have fits := encodes.fits
    simpa only [checks.fits] using fits

theorem encodes_of_mem {bc : Calculator} {width : Option Width} {texts : List (List Char)}
    {entries : List (ParsedTarget × Target)} {entry : ParsedTarget × Target}
    (each : List.Forall₂ (fun text entry => Encodes bc width text entry.1 entry.2) texts entries)
    (member : entry ∈ entries) :
    ∃ text, Encodes bc width text entry.1 entry.2 := by
  induction each with
  | nil => cases member
  | cons head _ ih =>
    rcases List.mem_cons.mp member with rfl | later
    · exact ⟨_, head⟩
    · exact ih later

/-- Disassembly undoes assembly: the bytes of an accepted line, whatever follows them, disassemble to
one literal and leave exactly what follows, and the literal assembles to the same bytes. -/
theorem encodeInstruction_decodeInstruction (bc : Calculator) (echoes : EchoesNumerals bc) (line : List Char)
    (bytes : List Byte) (accepted : encodeInstruction bc line = .ok bytes) (exist : LineRegistersExist line)
    (rest : List Byte) :
    ∃ literal, decodeInstruction (bytes ++ rest) = ([literal], rest) ∧ encodeInstruction bc literal = .ok bytes := by
  obtain ⟨parts, found, instruction, entries, -, -, operands, each, sane, rfl⟩ :=
    encodeInstruction_describes echoes accepted exist
  refine ⟨instructionLiteral instruction, decodeInstruction_bytes instruction rest, ?_⟩
  have again : instruction.operands.map (fun target => (targetParsed target, target.bytes)) =
      entries.map fun entry => (targetParsed entry.2, entry.2.bytes) := by
    rw [operands, List.map_map]
    rfl
  have checks : List.Forall₂ SameChecks (entries.map Prod.fst) (instruction.operands.map targetParsed) := by
    rw [operands, List.map_map, List.forall₂_map_left_iff, List.forall₂_map_right_iff, List.forall₂_same]
    intro entry member
    obtain ⟨text, encodes⟩ := encodes_of_mem each member
    exact sameChecks_targetParsed encodes.parses encodes.describes
  refine encodeInstruction_ok_iff.mpr ⟨_, instruction.mnemonic, instruction.width, _,
    instruction.operands.map fun target => (targetParsed target, target.bytes),
    cleanLine_instructionLiteral instruction, findName_name _, takeWidth_instructionLiteral instruction _ _, ?_, ?_, ?_⟩
  · refine encodeOperands_ok_iff.mpr ⟨fun _ => by rw [List.length_map, instruction.counted], ?_⟩
    rw [List.take_of_length_le (by rw [List.length_map, instruction.counted]), again, operands, List.map_map,
      List.forall₂_map_left_iff, List.forall₂_map_right_iff, List.forall₂_same]
    intro entry member
    obtain ⟨text, encodes⟩ := encodes_of_mem each member
    exact encodeOperand_targetText echoes _ encodes
  · rw [List.map_map]
    exact (operandSanityCheck_congr _ checks).symm.trans sane
  · rw [List.map_map]
    rfl

/-- The jump, followed by a stray byte. -/
theorem encodeInstruction_decodeInstruction_jump :
    encodeInstruction numeralCalculator jumpLine = .ok jumpBytes ∧
      ∃ literal, decodeInstruction (jumpBytes ++ [0xFF]) = ([literal], [0xFF]) ∧
        encodeInstruction numeralCalculator literal = .ok jumpBytes :=
  ⟨jumpLine_accepted, encodeInstruction_decodeInstruction numeralCalculator numeralCalculator_echoes jumpLine jumpBytes
    jumpLine_accepted jumpLine_registersExist [0xFF]⟩

end Sysdarft.Coding
