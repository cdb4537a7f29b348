import Sysdarft.Proofs.DisassemblerFormat

/-! # What the disassembler reads

The disassembler in two parts: which pieces it takes from the bytes, and what it prints for them. A piece is of the
format, or names a register or a constant that does not exist, or is given up. It is not part of the source;
`decodeInstruction_spelled` shows that the disassembler is the two parts in sequence.
-/

namespace Sysdarft.Coding

open Effects Format

/-! ## Pieces -/

/-- A register or a constant as the bytes have it; `unsized` is a constant of no known width. -/
inductive SpelledParameter where
  | register (register_size register_index : Byte)
  | constant (width : Width) (num : ℕ)
  | unsized (code : Byte)

/-- An operand as the bytes have it. A memory reference is abandoned at the first parameter of unknown kind. -/
inductive SpelledTarget where
  | plain (parameter : SpelledParameter)
  | memory (width : Width) (base offset1 offset2 : SpelledParameter) (ratio : Byte)
  | abandoned
  | unsizedMemory (code : Byte)
  | unknown (code : Byte)

/-- An instruction as the bytes have it; `cut` is one that ends inside an operand. -/
inductive SpelledInstruction where
  | line (mnemonic : Mnemonic) (op_width : Option Width) (targets : List SpelledTarget)
  | cut (mnemonic : Mnemonic) (op_width : Option Width)
  | unsized (mnemonic : Mnemonic) (op_width : Byte)
  | unknown (instruction : Byte)

/-! ## Reading -/

def spellRegister : Disassembler SpelledParameter := do
  let register_size ← codeBufferPop8
  let register_index ← codeBufferPop8
  return .register register_size register_index

def spellConstant : Disassembler SpelledParameter := do
  let code ← codeBufferPop8
  match Width.ofBcd code with
  | some width => return .constant width (LittleEndian.value (← codeBufferPop width.bytes))
  | none => return .unsized code

def spellParameter : Disassembler (Option SpelledParameter) := do
  let code ← codeBufferPop8
  if code = REGISTER_CODE then return some (← spellRegister)
  else if code = CONSTANT_CODE then return some (← spellConstant)
  else return none

def spellMemory : Disassembler SpelledTarget := do
  let code ← codeBufferPop8
  match Width.ofBcd code with
  | none => return .unsizedMemory code
  | some width =>
    match ← spellParameter with
    | none => return .abandoned
    | some base =>
      match ← spellParameter with
      | none => return .abandoned
      | some offset1 =>
        match ← spellParameter with
        | none => return .abandoned
        | some offset2 => return .memory width base offset1 offset2 (← codeBufferPop8)

def spellTarget : Disassembler SpelledTarget := do
  let code ← codeBufferPop8
  if code = REGISTER_CODE then return .plain (← spellRegister)
  else if code = CONSTANT_CODE then return .plain (← spellConstant)
  else if code = MEMORY_CODE then spellMemory
  else return .unknown code

/-- The operands, if none is cut short. -/
def spellTargets : ℕ → Disassembler (Option (List SpelledTarget))
  | 0 => return some []
  | count + 1 => do
    match ← tryCatch (do return some (← spellTarget)) fun _ => return none with
    | none => return none
    | some target => return (← spellTargets count).map (target :: ·)

def spellRest (mnemonic : Mnemonic) (op_width : Option Width) : Disassembler SpelledInstruction := do
  match ← spellTargets mnemonic.argumentCount with
  | some targets => return .line mnemonic op_width targets
  | none => return .cut mnemonic op_width

def spellInstruction : Disassembler SpelledInstruction := do
  let instruction ← codeBufferPop8
  match findOpcode instruction with
  | none => return .unknown instruction
  | some mnemonic =>
    if mnemonic.requiresWidth then
      let op_width ← codeBufferPop8
      match Width.ofBcd op_width with
      | none => return .unsized mnemonic op_width
      | some width => spellRest mnemonic (some width)
    else spellRest mnemonic none

/-! ## Printing -/

def SpelledParameter.texts : SpelledParameter → List (List Char)
  | register register_size register_index =>
    match registerLiteral register_size register_index with
    | some name => [name]
    | none => [badNbit register_size, badNbit register_index]
  | constant width num => ["$".toList ++ width.digits ++ "(0x".toList ++ Numerals.hexadecimal num ++ ")".toList]
  | unsized code => [badNbit code]

def SpelledTarget.texts : SpelledTarget → List (List Char)
  | plain parameter => parameter.texts
  | memory width base offset1 offset2 ratio =>
    match Ratio.ofBcd ratio with
    | none => [badNbit ratio]
    | some ratio =>
      ["*".toList ++ ratio.digits ++ "&".toList ++ width.digits ++ "(".toList ++ base.texts.flatten ++ ", ".toList ++
        offset1.texts.flatten ++ ", ".toList ++ offset2.texts.flatten ++ ")".toList]
  | abandoned => []
  | unsizedMemory code | unknown code => [badNbit code]

/-- The operands of a line, with as many left as given. -/
def spelledOperands (argument_count : ℕ) : ℕ → List SpelledTarget → List Char
  | _, [] => []
  | remaining, target :: targets =>
    " <".toList ++ target.texts.flatten ++ ">".toList ++
      (if remaining = argument_count ∧ 1 < argument_count then ",".toList else []) ++
      spelledOperands argument_count (remaining - 1) targets

def SpelledInstruction.lines : SpelledInstruction → List (List Char)
  | line mnemonic op_width targets =>
    [mnemonic.name ++ op_width.elim [] widthLiteral ++
      spelledOperands mnemonic.argumentCount mnemonic.argumentCount targets]
  | cut mnemonic op_width => badInstruction mnemonic.opcode op_width
  | unsized mnemonic op_width => [badNbit mnemonic.opcode, badNbit op_width]
  | unknown instruction => [badNbit instruction]

/-! ## The disassembler is the two in sequence -/

theorem decodeRegister_spelled : decodeRegister = SpelledParameter.texts <$> spellRegister := by
  simp only [decodeRegister, spellRegister, map_bind, map_pure, SpelledParameter.texts]
  congr 1
  funext register_size
  congr 1
  funext register_index
  cases registerLiteral register_size register_index <;> rfl

theorem decodeConstant_spelled : decodeConstant = SpelledParameter.texts <$> spellConstant := by
  simp only [decodeConstant, spellConstant, map_bind]
  congr 1
  funext code
  cases Width.ofBcd code with
  | none => rfl
  | some width => simp only [map_bind, map_pure, SpelledParameter.texts]

theorem decodeEachParameter_spelled :
    decodeEachParameter = (Option.map SpelledParameter.texts) <$> spellParameter := by
  simp only [decodeEachParameter, spellParameter, map_bind]
  congr 1
  funext code
  split_ifs
  · simp only [decodeRegister_spelled, map_bind, map_pure, bind_map_left, Option.map_some]
  · simp only [decodeConstant_spelled, map_bind, map_pure, bind_map_left, Option.map_some]
  · rfl

theorem decodeMemory_spelled : decodeMemory = SpelledTarget.texts <$> spellMemory := by
  simp only [decodeMemory, spellMemory, map_bind, decodeEachParameter_spelled, bind_map_left]
  congr 1
  funext code
  cases Width.ofBcd code with
  | none => rfl
  | some width =>
    simp only [map_bind]
    congr 1
    funext base
    cases base with
    | none => rfl
    | some base =>
      simp only [map_bind, Option.map_some]
      congr 1
      funext offset1
      cases offset1 with
      | none => rfl
      | some offset1 =>
        simp only [map_bind, Option.map_some]
        congr 1
        funext offset2
        cases offset2 with
        | none => rfl
        | some offset2 =>
          simp only [map_bind, Option.map_some, map_pure, SpelledTarget.texts]
          congr 1
          funext ratio
          cases Ratio.ofBcd ratio <;> rfl

theorem decodeTarget_spelled : decodeTarget = SpelledTarget.texts <$> spellTarget := by
  simp only [decodeTarget, spellTarget, map_bind]
  congr 1
  funext code
  split_ifs
  · rw [decodeRegister_spelled, bind_pure_comp, Functor.map_map]
    rfl
  · rw [decodeConstant_spelled, bind_pure_comp, Functor.map_map]
    rfl
  · exact decodeMemory_spelled
  · rfl

private theorem attempt_map {α β : Type} (f : α → β) (x : Disassembler α) :
    (tryCatch (do return some (← f <$> x)) fun _ => return none : Disassembler (Option β)) =
      Option.map f <$> tryCatch (do return some (← x)) fun _ => return none := by
  funext input
  rw [map_eq_pure_bind, map_eq_pure_bind, bind_apply, tryCatch_apply, tryCatch_apply, bind_apply, bind_apply, bind_apply]
  cases x input <;> rfl

theorem decodeOperands_spelled (argument_count remaining : ℕ) (buffer : List Char) :
    decodeOperands argument_count remaining buffer =
      (Option.map fun targets => buffer ++ spelledOperands argument_count remaining targets) <$>
        spellTargets remaining := by
  induction remaining generalizing buffer with
  | zero =>
    rw [decodeOperands, spellTargets, map_pure, Option.map_some, spelledOperands, List.append_nil]
  | succ remaining ih =>
    rw [decodeOperands, spellTargets, decodeTarget_spelled, attempt_map, bind_map_left, map_bind]
    congr 1
    funext target
    cases target with
    | none => rfl
    | some target =>
      simp only [Option.map_some]
      rw [ih, bind_pure_comp, Functor.map_map]
      congr 1
      funext targets
      cases targets with
      | none => rfl
      | some targets =>
        simp only [Option.map_some, spelledOperands, Nat.add_sub_cancel]
        split_ifs <;> simp

theorem decodeRest_spelled (mnemonic : Mnemonic) (op_width : Option Width) :
    decodeRest mnemonic op_width = SpelledInstruction.lines <$> spellRest mnemonic op_width := by
  rw [decodeRest, spellRest, decodeOperands_spelled, bind_map_left, map_bind]
  congr 1
  funext targets
  cases targets <;> rfl

theorem decodeInstructionBody_spelled :
    decodeInstructionBody = SpelledInstruction.lines <$> spellInstruction := by
  rw [decodeInstructionBody, spellInstruction, map_bind]
  congr 1
  funext instruction
  cases known : findOpcode instruction with
  | none => rfl
  | some mnemonic =>
    obtain rfl := opcode_of_findOpcode known
    simp only
    split_ifs
    · rw [map_bind]
      congr 1
      funext op_width
      cases Width.ofBcd op_width with
      | none => rfl
      | some width => exact decodeRest_spelled mnemonic (some width)
    · exact decodeRest_spelled mnemonic none

/-- The disassembler prints what it reads, and nothing when it reads no instruction at all. -/
theorem decodeInstruction_spelled (input : List Byte) :
    decodeInstruction input =
      match spellInstruction input with
      | .ok spelled rest => (spelled.lines, rest)
      | .error _ rest => ([], rest) := by
  rw [decodeInstruction, decodeInstructionBody_spelled, map_eq_pure_bind, bind_apply]
  cases spellInstruction input <;> rfl

end Sysdarft.Coding
