import Sysdarft.Proofs.EncodeLine

/-! # What an accepted line looks like

`encode_instruction` compares the operands it found with the instruction, and their widths with the specifier. It does
not look at what follows a mnemonic without operands, nor at text in angle brackets that is no operand; `%EB` and `%EP`
pass as 16-bit registers, and constants as code addresses of any width.
-/

namespace Sysdarft.Coding

open Regex

/-! ## The format -/

/-- The width of a register by its name. -/
def registerWidth (name : List Char) : Option Width :=
  match specialOfName name with
  | some _ => some .w64
  | none => widthOfLetter name[1]?

def ParsedTarget.width : ParsedTarget → Option Width
  | notAValidType => none
  | register name => registerWidth name
  | constant width _ => widthOfDigits width
  | memory _ width _ _ _ => widthOfDigits width

/-- Texts in angle brackets: `<[^>]*>`. -/
def bracketPattern : Regex := seq (chr '<') (seq (star (sat (· != '>'))) (chr '>'))

/-- The number of texts in angle brackets on a line. -/
def bracketCount (line : List Char) : ℕ := (Regex.iterate bracketPattern line).length

/-- The operands that `clean_line` finds on a line. -/
def targetsFound (line : List Char) : List (List Char) :=
  (Regex.iterate targetPattern (capitalization line)).map fun match_ => removeSpace match_.text

/-- A line has a width specifier, in either case. -/
def HasSpecifier (line : List Char) : Prop := ∃ width, widthSpecifier width <:+: capitalization line

/-- Instructions that take a code address: a base and an offset. -/
def controlFlow : List Mnemonic :=
  [.jmp, .call, .je, .jne, .jb, .jl, .jbe, .jle, .jc, .jnc, .jo, .jno, .loop]

/-- The operands that the procedures store to. -/
def writtenOperands : Mnemonic → List ℕ
  | .add | .adc | .sub | .sbb | .neg | .inc | .dec | .and | .or | .xor | .not | .shl | .shr | .rol | .ror | .rcl | .rcr
  | .mov | .pop | .lea => [0]
  | .xchg => [0, 1]
  | .in_ => [1]
  | _ => []

/-- The instruction format, as a property of a line with its parts. -/
structure Formatted (line : List Char) (parts : LineParts) : Prop where
  counted : bracketCount line = parts.mnemonic.argumentCount
  specified : HasSpecifier line ↔ parts.mnemonic.requiresWidth = true
  exact : ∀ width ∈ parts.width, ∀ text ∈ parts.operands, ∀ parsed, parse text = .ok parsed → parsed.width = some width
  addresses : parts.mnemonic ∈ controlFlow → ∀ text ∈ parts.operands, ∀ parsed, parse text = .ok parsed →
    parsed.width = some .w64
  loads : parts.mnemonic = .lea → ∀ text ∈ parts.operands.head?, ∀ parsed, parse text = .ok parsed → parsed.width = some .w64
  stores : ∀ index ∈ writtenOperands parts.mnemonic, ∀ text ∈ parts.operands[index]?, ∀ parsed, parse text = .ok parsed →
    parsed.isConstant = false

/-- Nothing that the assembler overlooks is on a line: a mnemonic without operands stands alone, all text in angle
brackets is an operand, a 16-bit operation does not use `%EB` or `%EP`, and constant code addresses have 64 bits. -/
structure Regular (line : List Char) (parts : LineParts) : Prop where
  alone : parts.mnemonic.argumentCount = 0 → bracketCount line = 0 ∧ ¬ HasSpecifier line
  found : parts.mnemonic.argumentCount ≠ 0 → bracketCount line = (targetsFound line).length
  narrow : parts.width = some .w16 → ∀ text ∈ parts.operands, normalize text ≠ "%EB".toList ∧ normalize text ≠ "%EP".toList
  addresses : parts.mnemonic ∈ controlFlow → ∀ text ∈ parts.operands, ∀ width expression,
    parse text = .ok (.constant width expression) → width = "64".toList

/-! ## Widths -/

section Widths

theorem name_of_special {name : List Char} {special : SpecialRegister} (known : specialOfName name = some special) :
    name = '%' :: special.name := by
  have same := List.find?_some known
  exact (beq_iff_eq.mp same).symm

theorem registerWidth_special {name : List Char} (special : (specialOfName name).isSome = true) :
    registerWidth name = some .w64 := by
  obtain ⟨register, known⟩ := Option.isSome_iff_exists.mp special
  rw [registerWidth, known]

theorem registerWidth_letter {name : List Char} {letter : Char} (at1 : name[1]? = some letter)
    (other : letter ∉ ['S', 'C', 'D', 'E']) : registerWidth name = widthOfLetter (some letter) := by
  rw [registerWidth]
  cases known : specialOfName name with
  | none => rw [at1]
  | some special =>
    obtain rfl := name_of_special known
    exfalso
    cases special <;> exact other (by rw [← Option.some.inj at1]; decide)

theorem registerFits_width {width : Width} {name : List Char} (fits : registerFits width name = true)
    (narrow : width = .w16 → name ≠ "%EB".toList ∧ name ≠ "%EP".toList) : registerWidth name = some width := by
  cases width with
  | w8 => exact registerWidth_letter (beq_iff_eq.mp fits) (by decide)
  | w16 =>
    have at1 : name[1]? = some 'E' := beq_iff_eq.mp fits
    rw [registerWidth]
    cases known : specialOfName name with
    | none =>
      rw [at1]
      rfl
    | some special =>
      obtain rfl := name_of_special known
      obtain ⟨notEB, notEP⟩ := narrow rfl
      cases special <;> first | exact absurd rfl notEB | exact absurd rfl notEP | exact absurd at1 (by decide)
  | w32 => exact registerWidth_letter (beq_iff_eq.mp fits) (by decide)
  | w64 =>
    rw [registerFits, Bool.or_eq_true] at fits
    rcases fits with letter | special
    · exact registerWidth_letter (beq_iff_eq.mp letter) (by decide)
    · exact registerWidth_special special

theorem targetFits_width {width : Width} {target : ParsedTarget} (valid : target ≠ .notAValidType)
    (fits : targetFits width target = true)
    (narrow : width = .w16 → ∀ name, target = .register name → name ≠ "%EB".toList ∧ name ≠ "%EP".toList) :
    target.width = some width := by
  cases target with
  | notAValidType => exact absurd rfl valid
  | register name => exact registerFits_width fits fun sixteen => narrow sixteen name rfl
  | constant digits expression =>
    obtain rfl := beq_iff_eq.mp fits
    exact widthOfDigits_digits width
  | memory ratio digits base offset1 offset2 =>
    obtain rfl := beq_iff_eq.mp fits
    exact widthOfDigits_digits width

/-- What passes as 64 bits wide is that, a constant only when it says so. -/
theorem isInvalid64BitOperand_width {target : ParsedTarget} (wide : isInvalid64BitOperand target = true)
    (constant : ∀ width expression, target = .constant width expression → width = "64".toList) :
    target.width = some .w64 := by
  cases target with
  | notAValidType => cases wide
  | register name => exact @registerFits_width .w64 name wide (fun sixteen => nomatch sixteen)
  | constant digits expression =>
    obtain rfl := constant digits expression rfl
    rfl
  | memory ratio digits base offset1 offset2 =>
    obtain rfl := beq_iff_eq.mp wide
    rfl

end Widths

/-! ## The pieces of a line -/

section Pieces

variable {bc : Calculator} {line : List Char}

theorem derives_operationWidthPattern {start : Bool} {word rest : List Char} {captures : Captures} :
    Derives operationWidthPattern start word rest captures ↔
      captures = [] ∧ ∃ c width, (c != '\n' && c != '\r') = true ∧ word = c :: (Width.digits width ++ "BIT".toList) := by
  simp only [operationWidthPattern, dot, derives_alt, derives_seq, derives_sat, derives_lit]
  constructor
  · rintro (⟨_, _, _, _, rfl, rfl, ⟨c, visible, rfl, rfl⟩, rfl, rfl⟩ |
      ⟨_, _, _, _, rfl, rfl, ⟨c, visible, rfl, rfl⟩, rfl, rfl⟩ |
      ⟨_, _, _, _, rfl, rfl, ⟨c, visible, rfl, rfl⟩, rfl, rfl⟩ | ⟨_, _, _, _, rfl, rfl, ⟨c, visible, rfl, rfl⟩, rfl, rfl⟩)
    · exact ⟨rfl, c, .w8, visible, rfl⟩
    · exact ⟨rfl, c, .w16, visible, rfl⟩
    · exact ⟨rfl, c, .w32, visible, rfl⟩
    · exact ⟨rfl, c, .w64, visible, rfl⟩
  · rintro ⟨rfl, c, width, visible, rfl⟩
    cases width with
    | w8 => exact .inl ⟨[c], _, [], [], rfl, rfl, ⟨c, visible, rfl, rfl⟩, rfl, rfl⟩
    | w16 => exact .inr (.inl ⟨[c], _, [], [], rfl, rfl, ⟨c, visible, rfl, rfl⟩, rfl, rfl⟩)
    | w32 => exact .inr (.inr (.inl ⟨[c], _, [], [], rfl, rfl, ⟨c, visible, rfl, rfl⟩, rfl, rfl⟩))
    | w64 => exact .inr (.inr (.inr ⟨[c], _, [], [], rfl, rfl, ⟨c, visible, rfl, rfl⟩, rfl, rfl⟩))

/-- The first text on a line that looks like a width specifier. -/
def specifierFound (line : List Char) : Option (List Char) :=
  (Regex.search operationWidthPattern (capitalization line)).map fun match_ => removeSpace match_.text

theorem specifierFound_isSome (has : HasSpecifier line) : (specifierFound line).isSome = true := by
  obtain ⟨width, stands⟩ := has
  rw [specifierFound, Option.isSome_map]
  exact searchFrom_isSome_of_infix (fun _ _ => derives_operationWidthPattern.mpr ⟨rfl, '.', width, by decide, rfl⟩)
    stands true

theorem specifierFound_text {text : List Char} (found : specifierFound line = some text) :
    ∃ c width, text = removeSpace (c :: (Width.digits width ++ "BIT".toList)) ∧
      c :: (Width.digits width ++ "BIT".toList) <:+: capitalization line := by
  obtain ⟨hit, search, rfl⟩ := Option.map_eq_some_iff.mp found
  obtain ⟨split, derivation⟩ := searchFrom_derives search
  obtain ⟨-, c, width, -, same⟩ := derives_operationWidthPattern.mp derivation
  refine ⟨c, width, by rw [same], ?_⟩
  rw [← same]
  exact ⟨hit.before, hit.rest, split.symm⟩

theorem removeSpace_specifier (c : Char) (width : Width) :
    removeSpace (c :: (width.digits ++ "BIT".toList)) =
      if c = ' ' then width.digits ++ "BIT".toList else c :: (width.digits ++ "BIT".toList) := by
  have plain : removeSpace (width.digits ++ "BIT".toList) = width.digits ++ "BIT".toList := by cases width <;> rfl
  rw [removeSpace] at plain
  rw [removeSpace, List.filter_cons, plain]
  by_cases blank : c = ' '
  · rw [if_pos blank, if_neg (by rw [blank]; decide)]
  · rw [if_neg blank, if_pos (bne_iff_ne.mpr blank)]

theorem cleanLine_tail {pieces : List (List Char)} (cleaned : cleanLine line = .ok pieces) :
    pieces.tail = (specifierFound line).toList ++ targetsFound line := by
  rw [cleanLine] at cleaned
  cases mnemonic : Regex.search instructionPattern (capitalization line) with
  | none =>
    simp only [mnemonic] at cleaned
    cases cleaned
  | some found =>
    simp only [mnemonic] at cleaned
    cases cleaned
    rfl

/-- A target is in angle brackets. -/
theorem head_of_targetsFound {token : List Char} (member : token ∈ targetsFound line) : token.head? = some '<' := by
  obtain ⟨found, hit, rfl⟩ := List.mem_map.mp member
  obtain ⟨start, derivation⟩ := derives_of_mem_iterate hit
  obtain ⟨word, text, -⟩ := derives_chr_seq.mp derivation
  rw [text]
  rfl

theorem Parses.head {name : List Char} {parsed : ParsedTarget} (parses : Parses name parsed) :
    name.head? ∈ [some '%', some '$', some '*'] := by
  cases parses with
  | register valid =>
    rw [valid.head]
    decide
  | constant single => exact List.mem_cons_of_mem _ List.mem_cons_self
  | memory first second third => exact List.mem_cons_of_mem _ (List.mem_cons_of_mem _ List.mem_cons_self)

/-- A width specifier is no operand. -/
theorem not_operand_specifier {text : List Char} (found : specifierFound line = some text) {parsed : ParsedTarget} :
    parse (text.drop 1).dropLast ≠ .ok parsed := by
  obtain ⟨c, width, rfl, -⟩ := specifierFound_text found
  intro success
  have head := ((parse_ok_iff ..).mp success).head
  rw [removeSpace_specifier] at head
  by_cases blank : c = ' '
  · rw [if_pos blank] at head
    cases width <;> exact absurd head (by decide)
  · rw [if_neg blank, List.drop_one, List.tail_cons] at head
    cases width <;> exact absurd head (by decide)

theorem encodeWidthSpecifier_ok {specifier : List Char} {width : Width}
    (known : encodeWidthSpecifier specifier = .ok width) :
    specifier = widthSpecifier width := by
  rw [encodeWidthSpecifier] at known
  cases found : Width.all.find? fun width => widthSpecifier width == specifier with
  | none =>
    rw [found] at known
    cases known
  | some width' =>
    rw [found] at known
    obtain rfl := Except.ok.inj known
    have same := List.find?_some found
    exact (beq_iff_eq.mp same).symm

/-- The specifier that is taken is the one on the line, and the operands are what follows it. -/
theorem takeWidth_required {mnemonic : Mnemonic} {tokens : List (List Char)} {width : Option Width}
    (required : mnemonic.requiresWidth = true)
    (widthed : takeWidth mnemonic line ((specifierFound line).toList ++ targetsFound line) = .ok (width, tokens)) :
    tokens = targetsFound line ∧ HasSpecifier line := by
  simp only [takeWidth, required, ↓reduceIte] at widthed
  cases found : specifierFound line with
  | none =>
    rw [found] at widthed
    cases targets : targetsFound line with
    | nil =>
      rw [targets] at widthed
      cases widthed
    | cons token rest =>
      have head := @head_of_targetsFound line token (by rw [targets]; exact List.mem_cons_self)
      rw [targets] at widthed
      simp only [Option.toList_none, List.nil_append] at widthed
      cases known : encodeWidthSpecifier token with
      | error err =>
        rw [known] at widthed
        cases widthed
      | ok width' =>
        rw [encodeWidthSpecifier_ok known] at head
        cases head
  | some text =>
    rw [found] at widthed
    simp only [Option.toList_some, List.singleton_append] at widthed
    cases known : encodeWidthSpecifier text with
    | error err =>
      rw [known] at widthed
      cases widthed
    | ok width' =>
      rw [known] at widthed
      cases widthed
      obtain ⟨c, width, same, stands⟩ := specifierFound_text found
      refine ⟨rfl, width, ?_⟩
      rw [encodeWidthSpecifier_ok known, removeSpace_specifier] at same
      split_ifs at same with blank
      · cases width <;> cases same
      · obtain ⟨rfl, -⟩ := List.cons.inj same
        exact stands

end Pieces

/-! ## Accepted lines -/

/-- What an accepted line went through, in terms of its parts. -/
structure AcceptedLine (line : List Char) (parts : LineParts) (targets : List ParsedTarget) : Prop where
  parses : List.Forall₂ (fun text target => parse text = .ok target ∧
    (parts.width.all fun width => targetFits width target) = true)
    parts.operands targets
  sane : operandSanityCheck parts.mnemonic targets = .ok ()
  count : parts.operands.length = parts.mnemonic.argumentCount
  found : parts.mnemonic.argumentCount ≠ 0 → (targetsFound line).length = parts.mnemonic.argumentCount
  specified : parts.mnemonic.argumentCount ≠ 0 → (HasSpecifier line ↔ parts.mnemonic.requiresWidth = true)

section Lines

variable {bc : Calculator} {line : List Char} {bytes : List Byte} {parts : LineParts} {targets : List ParsedTarget}

/-- A width is only required where there are operands. -/
theorem requiresWidth_counted {mnemonic : Mnemonic} (zero : mnemonic.argumentCount = 0) :
    mnemonic.requiresWidth = false := by
  cases mnemonic <;> first | rfl | exact absurd zero (by decide)

theorem acceptedLine (accepted : encodeInstruction bc line = .ok bytes) :
    ∃ parts targets, lineParts line = some parts ∧ AcceptedLine line parts targets := by
  obtain ⟨pieces, mnemonic, width, tokens, operands, cleaned, found, widthed, encoded, sane, -⟩ :=
    encodeInstruction_ok_iff.mp accepted
  refine ⟨_, operands.map Prod.fst, lineParts_eq cleaned found widthed, ?_⟩
  obtain ⟨counted, each⟩ := encodeOperands_ok_iff.mp encoded
  have parses : List.Forall₂ (fun text target => parse text = .ok target ∧
    (width.all fun width => targetFits width target) = true)
      ((tokens.take mnemonic.argumentCount).map fun token => (token.drop 1).dropLast) (operands.map Prod.fst) := by
    rw [List.forall₂_map_left_iff, List.forall₂_map_right_iff]
    refine each.imp fun token operand done => ?_
    obtain ⟨target, operandBytes⟩ := operand
    obtain ⟨encodes, fits⟩ := encodeOperand_ok_iff.mp done
    exact ⟨encodeTarget_parse encodes, fits⟩
  rw [cleanLine_tail cleaned] at widthed
  -- With operands to come, the tokens are the targets, since a specifier that is not required is no operand.
  have tokens_eq : mnemonic.argumentCount ≠ 0 → tokens = targetsFound line ∧
    (HasSpecifier line ↔ mnemonic.requiresWidth = true) := by
    intro positive
    cases required : mnemonic.requiresWidth with
    | true =>
      obtain ⟨same, has⟩ := takeWidth_required required widthed
      exact ⟨same, iff_of_true has rfl⟩
    | false =>
      simp only [takeWidth, required, Bool.false_eq_true, ↓reduceIte] at widthed
      cases widthed
      cases specifier : specifierFound line with
      | none =>
        refine ⟨rfl, iff_of_false (fun has => ?_) Bool.false_ne_true⟩
        have isSome := specifierFound_isSome has
        rw [specifier] at isSome
        cases isSome
      | some text =>
        obtain ⟨count, counts⟩ := Nat.exists_eq_add_one_of_ne_zero positive
        rw [specifier, counts, Option.toList_some, List.singleton_append, List.take_succ_cons, List.map_cons] at parses
        obtain ⟨target, _, first, -⟩ := List.forall₂_cons_left_iff.mp parses
        exact absurd first.1 (not_operand_specifier specifier)
  refine ⟨parses, sane, ?_, fun positive => ?_, fun positive => (tokens_eq positive).2⟩
  · rw [List.length_map, List.length_take]
    by_cases zero : mnemonic.argumentCount = 0
    · rw [zero, Nat.zero_min]
    · rw [counted zero, Nat.min_self]
  · rw [← (tokens_eq positive).1]
    exact counted positive

/-- The rule of an instruction covers every operand that its procedure stores to. -/
theorem rule_of_writtenOperands (mnemonic : Mnemonic) : ∀ index ∈ writtenOperands mnemonic,
    (sanityRule mnemonic, index) ∈ [(SanityRule.neitherConstant, 0), (.neitherConstant, 1), (.secondNotConstant, 1),
      (.firstNotConstant, 0), (.loadAddress, 0)] := by
  cases mnemonic <;> decide

theorem not_isConstant_of_sane {mnemonic : Mnemonic} (sane : operandSanityCheck mnemonic targets = .ok ()) {index : ℕ}
    (written : index ∈ writtenOperands mnemonic) : (operandAt targets index).isConstant = false := by
  have rule := rule_of_writtenOperands mnemonic index written
  rw [operandSanityCheck] at sane
  simp only [List.mem_cons, Prod.mk.injEq, List.not_mem_nil, or_false] at rule
  rcases rule with ⟨rule, rfl⟩ | ⟨rule, rfl⟩ | ⟨rule, rfl⟩ | ⟨rule, rfl⟩ | ⟨rule, rfl⟩
  · rw [rule] at sane
    dsimp only at sane
    split_ifs at sane with either
    exact (Bool.or_eq_false_iff.mp (Bool.eq_false_iff.mpr either)).1
  · rw [rule] at sane
    dsimp only at sane
    split_ifs at sane with either
    exact (Bool.or_eq_false_iff.mp (Bool.eq_false_iff.mpr either)).2
  · rw [rule] at sane
    dsimp only at sane
    split_ifs at sane with constant
    exact Bool.eq_false_iff.mpr constant
  · rw [rule] at sane
    dsimp only at sane
    split_ifs at sane with constant
    exact Bool.eq_false_iff.mpr constant
  · rw [rule] at sane
    dsimp only at sane
    split_ifs at sane with either
    exact (Bool.or_eq_false_iff.mp (Bool.eq_false_iff.mpr either)).1

theorem rule_of_controlFlow {mnemonic : Mnemonic} (member : mnemonic ∈ controlFlow) :
    sanityRule mnemonic = .codeAddress ∧ mnemonic.argumentCount = 2 := by
  cases mnemonic <;> first | exact ⟨rfl, rfl⟩ | exact absurd member (by decide)

/-- The parsed operand at the place of a text. -/
theorem AcceptedLine.targetAt (accepted : AcceptedLine line parts targets) {index : ℕ} {text : List Char}
    (here : parts.operands[index]? = some text) :
    ∃ target, targets[index]? = some target ∧ operandAt targets index = target ∧
      parse text = .ok target ∧ (parts.width.all fun width => targetFits width target) = true := by
  obtain ⟨small, rfl⟩ := List.getElem?_eq_some_iff.mp here
  have small' : index < targets.length := by rwa [← accepted.parses.length_eq]
  refine ⟨targets[index], List.getElem?_eq_getElem small', ?_, accepted.parses.get small small'⟩
  rw [operandAt, List.getD_eq_getElem?_getD, List.getElem?_eq_getElem small', Option.getD_some]

theorem AcceptedLine.target (accepted : AcceptedLine line parts targets) {text : List Char}
    (member : text ∈ parts.operands) :
    ∃ index target, targets[index]? = some target ∧ operandAt targets index = target ∧ index < parts.mnemonic.argumentCount ∧
      parse text = .ok target ∧ (parts.width.all fun width => targetFits width target) = true := by
  obtain ⟨index, small, rfl⟩ := List.mem_iff_getElem.mp member
  obtain ⟨target, known, same, parsed⟩ := accepted.targetAt (List.getElem?_eq_getElem small)
  exact ⟨index, target, known, same, accepted.count ▸ small, parsed⟩

theorem ne_notAValidType {text : List Char} {target : ParsedTarget} (parsed : parse text = .ok target) :
    target ≠ .notAValidType := by
  rintro rfl
  have parses := (parse_ok_iff ..).mp parsed
  generalize normalize text = name at parses
  cases parses

theorem parse_special (special : SpecialRegister) {text : List Char} (same : normalize text = '%' :: special.name) :
    parse text = .ok (.register ('%' :: special.name)) := by
  rw [parse_ok_iff, same]
  exact .register (.special special)

/-- A register that parses is the normalized text. -/
theorem normalize_of_register {text name : List Char} (parsed : parse text = .ok (.register name)) :
    normalize text = name := by
  have parses := (parse_ok_iff ..).mp parsed
  generalize normalize text = text at parses ⊢
  cases parses
  rfl

section Directions

variable (accepted : AcceptedLine line parts targets)

include accepted

theorem AcceptedLine.regular (formatted : Formatted line parts) : Regular line parts where
  alone zero := by
    rw [formatted.counted, formatted.specified, requiresWidth_counted zero]
    exact ⟨zero, Bool.false_ne_true⟩
  found positive := by rw [formatted.counted, accepted.found positive]
  narrow sixteen text member := by
    have other (special : SpecialRegister) : normalize text ≠ '%' :: special.name := by
      intro same
      have width := formatted.exact .w16 sixteen text member _ (parse_special special same)
      rw [ParsedTarget.width, registerWidth_special (by cases special <;> decide)] at width
      cases width
    exact ⟨other .extendedBase, other .extendedPointer⟩
  addresses control text member width expression parsed := by
    have wide := formatted.addresses control text member _ parsed
    rw [ParsedTarget.width, widthOfDigits] at wide
    have same := List.find?_some wide
    exact (beq_iff_eq.mp same).symm

theorem AcceptedLine.formatted (regular : Regular line parts) : Formatted line parts where
  counted := by
    by_cases zero : parts.mnemonic.argumentCount = 0
    · rw [(regular.alone zero).1, zero]
    · rw [regular.found zero, accepted.found zero]
  specified := by
    by_cases zero : parts.mnemonic.argumentCount = 0
    · rw [requiresWidth_counted zero]
      exact iff_of_false (regular.alone zero).2 Bool.false_ne_true
    · exact accepted.specified zero
  exact width known text member parsed success := by
    obtain ⟨index, target, -, -, -, parsed', fits⟩ := accepted.target member
    obtain rfl := Except.ok.inj (success.symm.trans parsed')
    rw [Option.mem_def.mp known, Option.all_some] at fits
    refine targetFits_width (ne_notAValidType success) fits ?_
    rintro rfl name rfl
    rw [← normalize_of_register success]
    exact regular.narrow known text member
  addresses control text member parsed success := by
    obtain ⟨rule, two⟩ := rule_of_controlFlow control
    obtain ⟨index, target, -, here, small, parsed', -⟩ := accepted.target member
    obtain rfl := Except.ok.inj (success.symm.trans parsed')
    have sane := accepted.sane
    rw [operandSanityCheck, rule] at sane
    dsimp only at sane
    split_ifs at sane with both
    obtain ⟨first, second⟩ := Bool.and_eq_true_iff.mp both
    have wide : isInvalid64BitOperand (operandAt targets index) = true := by
      rw [two] at small
      interval_cases index
      · exact first
      · exact second
    rw [here] at wide
    refine isInvalid64BitOperand_width wide ?_
    rintro width expression rfl
    exact regular.addresses control text member width expression success
  loads lea text first parsed success := by
    obtain ⟨target, -, here, parsed', -⟩ := accepted.targetAt (List.head?_eq_getElem? .. ▸ first)
    obtain rfl := Except.ok.inj (success.symm.trans parsed')
    have sane := accepted.sane
    rw [operandSanityCheck, lea] at sane
    change (if _ then _ else if _ then _ else _) = _ at sane
    split_ifs at sane with either narrow
    have wide : isInvalid64BitOperand (operandAt targets 0) = true := by
      rw [Bool.not_eq_true', Bool.not_eq_false] at narrow
      exact narrow
    rw [here] at wide
    refine isInvalid64BitOperand_width wide ?_
    rintro width expression rfl
    rw [here] at either
    exact absurd rfl either
  stores index written text member parsed success := by
    obtain ⟨target, -, here, parsed', -⟩ := accepted.targetAt member
    obtain rfl := Except.ok.inj (success.symm.trans parsed')
    rw [← here]
    exact not_isConstant_of_sane accepted.sane written

end Directions

/-- Of an accepted line only what the assembler overlooks decides whether it has the format of its instruction. -/
theorem formatted_iff (accepted : encodeInstruction bc line = .ok bytes) :
    ∃ parts, lineParts line = some parts ∧ (Formatted line parts ↔ Regular line parts) := by
  obtain ⟨parts, targets, found, checked⟩ := acceptedLine accepted
  exact ⟨parts, found, checked.regular, checked.formatted⟩

/-- An addition of a constant of its width. -/
theorem formatted_add :
    ∃ parts, lineParts "add .16bit <%exr0>, <$16(7)>".toList = some parts ∧
      Formatted "add .16bit <%exr0>, <$16(7)>".toList parts := by
  obtain ⟨parts, found, formatted⟩ := @formatted_iff numeralCalculator "add .16bit <%exr0>, <$16(7)>".toList
    [1, 0x16, 1, 0x16, 0, 2, 0x16, 7, 0] (by decide +kernel)
  have known : lineParts "add .16bit <%exr0>, <$16(7)>".toList =
      some ⟨.add, some .w16, ["%EXR0".toList, "$16(7)".toList]⟩ := by
    decide +kernel
  obtain rfl := Option.some.inj (known.symm.trans found)
  refine ⟨_, found, formatted.mpr ⟨nofun, fun _ => by decide +kernel, fun _ => by decide +kernel, fun control => ?_⟩⟩
  exact absurd control (by decide)

/-- An operand after a mnemonic that takes none is accepted. -/
theorem not_formatted_nop :
    ¬ ∀ (bc : Calculator) (line : List Char) (bytes : List Byte), encodeInstruction bc line = .ok bytes →
    ∃ parts, lineParts line = some parts ∧ Formatted line parts := by
  intro every
  obtain ⟨parts, found, formatted⟩ := every numeralCalculator "nop <%r0>".toList [0x00] (by decide +kernel)
  have known : lineParts "nop <%r0>".toList = some ⟨.nop, none, []⟩ := by decide +kernel
  obtain rfl := Option.some.inj (known.symm.trans found)
  exact absurd formatted.counted (by decide +kernel)

end Lines

end Sysdarft.Coding
