import Sysdarft.Proofs.ConstantValues
import Sysdarft.Proofs.DecoderFormat

/-! # The assembler and the CPU agree on the instruction format

`encodeInstruction_describes` assembles the operand results: the bytes of an accepted line are those
of an instruction of the format whose parts the line describes. With `popInstruction_bytes` this is
the agreement of the assembler with the CPU's decoder.
-/

namespace Sysdarft.Coding

open Format

/-! ## Operands of a line -/

variable {bc : Calculator} {line : List Char}

theorem encodeOperand_ok_iff {width : Option Width} {token : List Char} {target : ParsedTarget} {bytes : List Byte} :
    encodeOperand bc line width token = .ok (target, bytes) ↔
      encodeTarget bc (token.drop 1).dropLast = .ok (target, bytes) ∧
        (width.all fun width => targetFits width target) = true := by
  rw [encodeOperand]
  cases encodeTarget bc (token.drop 1).dropLast with
  | error err => simp
  | ok result =>
    obtain ⟨target', bytes'⟩ := result
    simp only
    split_ifs with fits
    · simp only [Except.ok.injEq, Prod.mk.injEq]
      constructor
      · rintro ⟨rfl, rfl⟩
        exact ⟨⟨rfl, rfl⟩, fits⟩
      · exact fun both => both.1
    · simp only [Except.ok.injEq, Prod.mk.injEq, false_iff]
      rintro ⟨⟨rfl, rfl⟩, fits'⟩
      exact fits fits'

theorem encodeOperands_ok_iff {width : Option Width} {count : ℕ} {tokens : List (List Char)}
    {operands : List (ParsedTarget × List Byte)} :
    encodeOperands bc line width count tokens = .ok operands ↔
      (count ≠ 0 → tokens.length = count) ∧
        List.Forall₂ (fun token operand => encodeOperand bc line width token = .ok operand)
        (tokens.take count) operands := by
  rw [encodeOperands]
  split_ifs with zero few many
  · subst zero
    simp only [Except.ok.injEq, ne_eq, not_true_eq_false, false_implies, List.take_zero, true_and]
    exact ⟨fun same => same ▸ .nil, fun all => by cases all; rfl⟩
  · simp only [false_iff, not_and]
    exact fun counted => absurd (counted zero) (by omega)
  · simp only [false_iff, not_and]
    exact fun counted => absurd (counted zero) (by omega)
  · have counted : tokens.length = count := by omega
    rw [List.take_of_length_le counted.le]
    exact ⟨fun success => ⟨fun _ => counted, Effects.except_mapM_eq_ok.mp success⟩, fun both =>
      Effects.except_mapM_eq_ok.mpr both.2⟩

/-- What an accepted line went through. -/
theorem encodeInstruction_ok_iff {bytes : List Byte} :
    encodeInstruction bc line = .ok bytes ↔
      ∃ pieces mnemonic width tokens operands, cleanLine line = .ok pieces ∧ findName (pieces.headD []) = some mnemonic ∧
        takeWidth mnemonic line pieces.tail = .ok (width, tokens) ∧
        encodeOperands bc line width mnemonic.argumentCount tokens = .ok operands ∧
        operandSanityCheck mnemonic (operands.map Prod.fst) = .ok () ∧
        bytes = instructionBytes mnemonic width (operands.map Prod.snd) := by
  rw [encodeInstruction, Effects.except_bind_eq_ok]
  constructor
  · rintro ⟨pieces, cleaned, success⟩
    cases found : findName (pieces.headD []) with
    | none =>
      rw [found] at success
      cases success
    | some mnemonic =>
      rw [found] at success
      obtain ⟨⟨width, tokens⟩, widthed, success⟩ := Effects.except_bind_eq_ok.mp success
      obtain ⟨operands, encoded, success⟩ := Effects.except_bind_eq_ok.mp success
      cases sane : operandSanityCheck mnemonic (operands.map Prod.fst) with
      | error err =>
        rw [sane] at success
        cases success
      | ok =>
        rw [sane] at success
        cases success
        exact ⟨pieces, mnemonic, width, tokens, operands, cleaned, found, widthed, encoded, sane, rfl⟩
  · rintro ⟨pieces, mnemonic, width, tokens, operands, cleaned, found, widthed, encoded, sane, rfl⟩
    refine ⟨pieces, cleaned, ?_⟩
    simp only [found, Effects.except_bind_eq_ok]
    exact ⟨(width, tokens), widthed, operands, encoded, by rw [sane]; rfl⟩

theorem takeWidth_isSome {mnemonic : Mnemonic} {tokens rest : List (List Char)} {width : Option Width}
    (widthed : takeWidth mnemonic line tokens = .ok (width, rest)) : width.isSome = mnemonic.requiresWidth := by
  cases required : mnemonic.requiresWidth with
  | false =>
    simp only [takeWidth, required, Bool.false_eq_true, ↓reduceIte] at widthed
    cases widthed
    rfl
  | true =>
    simp only [takeWidth, required, ↓reduceIte] at widthed
    cases tokens with
    | nil => cases widthed
    | cons specifier tokens =>
      cases known : encodeWidthSpecifier specifier with
      | error err =>
        simp only [known] at widthed
        cases widthed
      | ok width' =>
        simp only [known] at widthed
        cases widthed
        rfl

theorem lineParts_eq {pieces tokens : List (List Char)} {mnemonic : Mnemonic} {width : Option Width}
    (cleaned : cleanLine line = .ok pieces) (found : findName (pieces.headD []) = some mnemonic)
    (widthed : takeWidth mnemonic line pieces.tail = .ok (width, tokens)) :
    lineParts line = some ⟨mnemonic, width, (tokens.take mnemonic.argumentCount).map fun token =>
      (token.drop 1).dropLast⟩ := by
  simp only [lineParts, cleaned, found, widthed]

/-- An operand in its text, as it was parsed, and as a target. -/
structure Encodes (bc : Calculator) (width : Option Width) (text : List Char) (parsed : ParsedTarget) (target : Target) :
    Prop where
  parses : Parses (normalize text) parsed
  describes : DescribesTarget bc (normalize text) target
  assembled : Assembled target
  fits : (width.all fun width => targetFits width parsed) = true

/-- The operands of an accepted line, one by one. -/
theorem encodeOperands_describe (echoes : EchoesNumerals bc) {width : Option Width} {tokens : List (List Char)}
    {operands : List (ParsedTarget × List Byte)}
    (exist : ∀ token ∈ tokens, ∀ parsed, parse (token.drop 1).dropLast = .ok parsed → parsed.RegistersExist)
    (encoded : List.Forall₂ (fun token operand => encodeOperand bc line width token = .ok operand) tokens operands) :
    ∃ entries : List (ParsedTarget × Target), operands = entries.map (fun entry => (entry.1, entry.2.bytes)) ∧
      List.Forall₂ (fun token entry => Encodes bc width (token.drop 1).dropLast entry.1 entry.2) tokens entries := by
  induction encoded with
  | nil => exact ⟨[], rfl, .nil⟩
  | @cons token operand tokens operands first _ ih =>
    obtain ⟨parsed, bytes⟩ := operand
    obtain ⟨accepted, fits⟩ := encodeOperand_ok_iff.mp first
    obtain ⟨parses, target, describes, assembled, rfl⟩ := encodeTarget_describes echoes accepted
      (exist token List.mem_cons_self parsed (encodeTarget_parse accepted))
    obtain ⟨entries, rfl, each⟩ := ih fun token member => exist token (List.mem_cons_of_mem _ member)
    exact ⟨(parsed, target) :: entries, rfl, .cons ⟨parses, describes, assembled, fits⟩ each⟩

/-- The bytes of an accepted line are those of an instruction of the format which the line describes. -/
theorem encodeInstruction_describes (echoes : EchoesNumerals bc) {bytes : List Byte}
    (accepted : encodeInstruction bc line = .ok bytes) (exist : LineRegistersExist line) :
    ∃ parts, lineParts line = some parts ∧ ∃ (instruction : Instruction) (entries : List (ParsedTarget × Target)),
      instruction.mnemonic = parts.mnemonic ∧ instruction.width = parts.width ∧
      instruction.operands = entries.map Prod.snd ∧
      List.Forall₂ (fun text entry => Encodes bc instruction.width text entry.1 entry.2) parts.operands entries ∧
      operandSanityCheck instruction.mnemonic (entries.map Prod.fst) = .ok () ∧ bytes = instruction.bytes := by
  obtain ⟨pieces, mnemonic, width, tokens, operands, cleaned, found, widthed, encoded, sane, rfl⟩ :=
    encodeInstruction_ok_iff.mp accepted
  have parts := lineParts_eq cleaned found widthed
  obtain ⟨counted, each⟩ := encodeOperands_ok_iff.mp encoded
  obtain ⟨entries, rfl, described⟩ := encodeOperands_describe echoes
    (fun token member => exist _ parts _ (List.mem_map_of_mem member)) each
  have length : (entries.map Prod.snd).length = mnemonic.argumentCount := by
    rw [List.length_map, ← described.length_eq, List.length_take]
    omega
  refine ⟨_, parts, ⟨mnemonic, width, entries.map Prod.snd, takeWidth_isSome widthed, length⟩, entries, rfl, rfl, rfl,
    ?_, ?_, ?_⟩
  · rw [List.forall₂_map_left_iff]
    exact described
  · simpa [Function.comp_def] using sane
  · simp [instructionBytes, Instruction.bytes, Function.comp_def]

/-- The assembler and the CPU agree: at `CB:IP` the bytes of an accepted line decode, for every state
of the machine, to the opcode and width of the line and, operand by operand, to what the texts
denote, and the instruction pointer moves past exactly these bytes. -/
theorem popInstruction_encodeInstruction (bc : Calculator) (echoes : EchoesNumerals bc) (line : List Char)
    (bytes : List Byte) (accepted : encodeInstruction bc line = .ok bytes) (exist : LineRegistersExist line) :
    ∃ parts, lineParts line = some parts ∧ ∃ instruction : Instruction,
      instruction.mnemonic = parts.mnemonic ∧ instruction.width = parts.width ∧
      List.Forall₂ (fun text target => DenotesTarget bc (normalize text) target) parts.operands instruction.operands ∧
      ∀ machine : Machine, machine.Code bytes →
        popInstruction machine =
          .ok (instruction.active machine.registers) (machine.advance bytes.length) := by
  obtain ⟨parts, found, instruction, entries, mnemonic, width, operands, each, -, rfl⟩ :=
    encodeInstruction_describes echoes accepted exist
  refine ⟨parts, found, instruction, mnemonic, width, ?_, fun machine code => ?_⟩
  · rw [operands, List.forall₂_map_right_iff]
    exact each.imp fun _ _ encodes => encodes.describes.denotes
  · exact popInstruction_bytes instruction (code.whole)

theorem numeralCalculator_echoes : EchoesNumerals numeralCalculator where
  exits := fun _ _ _ => rfl
  prints := by
    rintro digits value ⟨-, -, rfl⟩
    refine ⟨Numerals.decimal (Numerals.digitsValue 10 digits), ['\n'], rfl, by decide, fun _ => rfl, fun large => ?_⟩
    exact ⟨_, decimalNumeral_decimal _, le_trans (by norm_num) large⟩

/-- A jump through memory, with a register and a hexadecimal constant among the parameters. -/
def jumpLine : List Char := "jmp <%cb>, <*2&64(%fer15, $16(0x10), %db)>".toList

def jumpBytes : List Byte :=
  [0x30, 0x01, 0x64, 0xA2, 0x03, 0x64, 0x01, 0x64, 0x0F, 0x02, 0x16, 0x10, 0x00, 0x01, 0x64, 0xA3, 0x02]

theorem jumpLine_accepted : encodeInstruction numeralCalculator jumpLine = .ok jumpBytes := by decide +kernel

theorem jumpLine_parts :
    lineParts jumpLine = some ⟨.jmp, none, ["%CB".toList, "*2&64(%FER15,$16(0X10),%DB)".toList]⟩ := by
  decide +kernel

theorem jumpLine_registersExist : LineRegistersExist jumpLine := by
  intro found same text member parsed parse
  rw [jumpLine_parts] at same
  cases same
  simp only [List.mem_cons, List.not_mem_nil, or_false] at member
  rcases member with rfl | rfl
  · have register : Coding.parse "%CB".toList = .ok (.register "%CB".toList) := by decide +kernel
    rw [register] at parse
    cases parse
    simp only [ParsedTarget.RegistersExist, ParsedTarget.registerNames, List.mem_singleton, forall_eq]
    exact ⟨.special .codeBase, rfl⟩
  · have memory : Coding.parse "*2&64(%FER15,$16(0X10),%DB)".toList =
        .ok (.memory "2".toList "64".toList "%FER15".toList "$16(0X10)".toList "%DB".toList) := by
      decide +kernel
    have names : (ParsedTarget.memory "2".toList "64".toList "%FER15".toList "$16(0X10)".toList "%DB".toList).registerNames =
        ["%FER15".toList, "%DB".toList] := by
      decide +kernel
    rw [memory] at parse
    cases parse
    rw [ParsedTarget.RegistersExist, names]
    simp only [List.mem_cons, List.not_mem_nil, or_false, forall_eq_or_imp, forall_eq]
    exact ⟨⟨.general .w64 ⟨15, by decide⟩, "15".toList, ⟨by decide, by decide, by decide⟩, rfl⟩, .special .dataBase, rfl⟩

theorem popInstruction_encodeInstruction_jump :
    encodeInstruction numeralCalculator jumpLine = .ok jumpBytes ∧
      ∃ instruction : Instruction, instruction.mnemonic = .jmp ∧ ∀ machine : Machine, machine.Code jumpBytes →
        popInstruction machine =
          .ok (instruction.active machine.registers) (machine.advance jumpBytes.length) := by
  obtain ⟨found, same, instruction, mnemonic, -, -, decodes⟩ :=
    popInstruction_encodeInstruction numeralCalculator numeralCalculator_echoes jumpLine jumpBytes jumpLine_accepted
      jumpLine_registersExist
  rw [jumpLine_parts] at same
  cases same
  exact ⟨jumpLine_accepted, instruction, mnemonic, decodes⟩

/-- A constant beyond 64 bits saturates: `2 ^ 64` is decoded as `0xFF`, not as its low byte. -/
theorem encodeInstruction_saturates :
    encodeInstruction numeralCalculator "push .8bit <$8(18446744073709551616)>".toList =
        .ok [0x22, 0x08, 0x02, 0x08, 0xFF] ∧
      DecimalNumeral "18446744073709551616".toList (2 ^ 64) ∧
      (∀ machine : Machine, machine.Code [0x22, 0x08, 0x02, 0x08, 0xFF] →
        popInstruction machine =
          .ok { opcode := 0x22, width := 0x08, operands := [.constant 0xFF 0x08] } (machine.advance 5)) ∧
      (BitVec.ofNat 8 (2 ^ 64)).setWidth 64 ≠ (0xFF : Word) := by
  refine ⟨by decide +kernel, ⟨by decide, by decide, by decide⟩, fun machine code => ?_, by decide⟩
  let instruction : Instruction := ⟨.push, some .w8, [.constant ⟨.w8, 0xFF⟩], rfl, rfl⟩
  exact popInstruction_bytes instruction (code.whole)

end Sysdarft.Coding
