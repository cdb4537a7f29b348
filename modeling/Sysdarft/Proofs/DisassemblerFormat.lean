import Sysdarft.Coding.DecodeInstruction
import Sysdarft.Model.Format

/-! # The disassembler and the instruction format

The literal of an instruction is the line the disassembler prints for it. `decodeInstruction_bytes`:
on the bytes of an instruction, whatever follows them, the disassembler prints exactly its literal
and leaves exactly what follows.
-/

namespace Sysdarft.Coding

open Format Effects

/-! ## Literals -/

def registerName : Register → List Char
  | .general width index => '%' :: (width.registerLetters ++ Numerals.decimal index)
  | .special special => '%' :: special.name

def constantLiteral (constant : Constant) : List Char :=
  "$".toList ++ constant.width.digits ++ "(0x".toList ++ Numerals.hexadecimal constant.value.toNat ++ ")".toList

def parameterLiteral : Parameter → List Char
  | .register register => registerName register
  | .constant constant => constantLiteral constant

def memoryLiteral (ratio : Ratio) (width : Width) (base offset1 offset2 : Parameter) : List Char :=
  "*".toList ++ ratio.digits ++ "&".toList ++ width.digits ++ "(".toList ++ parameterLiteral base ++ ", ".toList ++
    parameterLiteral offset1 ++ ", ".toList ++ parameterLiteral offset2 ++ ")".toList

def targetLiteral : Target → List Char
  | .register register => registerName register
  | .constant constant => constantLiteral constant
  | .memory ratio width base offset1 offset2 => memoryLiteral ratio width base offset1 offset2

/-- An operand between its angle brackets. -/
def bracketed (text : List Char) : List Char := " <".toList ++ text ++ ">".toList

/-- The operands of a line; a comma follows the first of several. -/
def operandsLiteral : List Target → List Char
  | [] => []
  | [target] => bracketed (targetLiteral target)
  | target :: targets =>
    bracketed (targetLiteral target) ++ ",".toList ++ (targets.map fun target => bracketed (targetLiteral target)).flatten

def instructionLiteral (instruction : Instruction) : List Char :=
  instruction.mnemonic.name ++ instruction.width.elim [] widthLiteral ++ operandsLiteral instruction.operands

/-! ## Popping -/

variable {rest : List Byte}

theorem codeBufferPop_append (data rest : List Byte) : codeBufferPop data.length (data ++ rest) = .ok data rest := by
  induction data with
  | nil => rfl
  | cons byte data ih =>
    simp only [List.length_cons, codeBufferPop, bind_apply, get_apply, List.cons_append, set_apply, ih, pure_apply]

@[simp] theorem codeBufferPop8_cons (byte : Byte) (rest : List Byte) : codeBufferPop8 (byte :: rest) = .ok byte rest := by
  have popped := codeBufferPop_append [byte] rest
  rw [List.length_singleton, List.singleton_append] at popped
  simp only [codeBufferPop8, bind_apply, popped, pure_apply, LittleEndian.value]
  congr 1
  exact BitVec.eq_of_toNat_eq (by simp)

/-! ## Operands -/

theorem registerLiteral_codes (register : Register) :
    registerLiteral register.width.bcd register.code = some (registerName register) := by
  cases register with
  | general width index =>
    have small : index.val < width.registerCount := index.isLt
    have value : (BitVec.ofNat 8 index.val).toNat = index.val := by
      rw [BitVec.toNat_ofNat, Nat.mod_eq_of_lt]
      cases width <;> simp only [Width.registerCount] at small <;> omega
    simp only [registerLiteral, Register.width, Register.code, Width.ofBcd_bcd, value, registerName]
    cases width with
    | w64 =>
      have low : index.val ≤ 15 := Nat.le_of_lt_succ small
      simp only [low, ↓reduceIte]
      rfl
    | _ => rfl
  | special special => cases special <;> rfl

theorem decodeRegister_codes (register : Register) :
    decodeRegister (register.width.bcd :: register.code :: rest) = .ok [registerName register] rest := by
  simp only [decodeRegister, bind_apply, codeBufferPop8_cons, registerLiteral_codes, pure_apply]

theorem decodeConstant_bytes (constant : Constant) :
    decodeConstant (constant.width.bcd :: (LittleEndian.bytes constant.width.bytes constant.value.toNat ++ rest)) =
      .ok [constantLiteral constant] rest := by
  have popped := codeBufferPop_append (LittleEndian.bytes constant.width.bytes constant.value.toNat) rest
  rw [LittleEndian.length_bytes] at popped
  have small : constant.value.toNat < 256 ^ constant.width.bytes :=
    constant.width.two_pow_bits ▸ constant.value.isLt
  simp only [decodeConstant, bind_apply, codeBufferPop8_cons, Width.ofBcd_bcd, popped, LittleEndian.value_bytes,
    Nat.mod_eq_of_lt small, pure_apply, constantLiteral]

theorem decodeEachParameter_bytes (parameter : Parameter) :
    decodeEachParameter (parameter.bytes ++ rest) = .ok (some [parameterLiteral parameter]) rest := by
  have different : CONSTANT_CODE ≠ REGISTER_CODE := by decide
  cases parameter with
  | register register =>
    simp only [decodeEachParameter, Parameter.bytes, registerBytes, List.cons_append, List.nil_append, bind_apply,
      codeBufferPop8_cons, ↓reduceIte, decodeRegister_codes, pure_apply, parameterLiteral]
  | constant constant =>
    simp only [decodeEachParameter, Parameter.bytes, Constant.bytes, List.cons_append, bind_apply, codeBufferPop8_cons,
      different, ↓reduceIte, decodeConstant_bytes, pure_apply, parameterLiteral]

theorem decodeMemory_bytes (ratio : Ratio) (width : Width) (base offset1 offset2 : Parameter) :
    decodeMemory (width.bcd :: (base.bytes ++ (offset1.bytes ++ (offset2.bytes ++ ratio.bcd :: rest)))) =
      .ok [targetLiteral (.memory ratio width base offset1 offset2)] rest := by
  rw [decodeMemory, bind_ok (codeBufferPop8_cons ..), Width.ofBcd_bcd]
  simp only
  rw [bind_ok (decodeEachParameter_bytes base)]
  simp only
  rw [bind_ok (decodeEachParameter_bytes offset1)]
  simp only
  rw [bind_ok (decodeEachParameter_bytes offset2)]
  simp only
  rw [bind_ok (codeBufferPop8_cons ..), Ratio.ofBcd_bcd]
  simp only [pure_apply, List.flatten_singleton, targetLiteral]
  rfl

theorem decodeTarget_bytes (target : Target) :
    decodeTarget (target.bytes ++ rest) = .ok [targetLiteral target] rest := by
  have constant_register : CONSTANT_CODE ≠ REGISTER_CODE := by decide
  have memory_register : MEMORY_CODE ≠ REGISTER_CODE := by decide
  have memory_constant : MEMORY_CODE ≠ CONSTANT_CODE := by decide
  cases target with
  | register register =>
    simp only [decodeTarget, Target.bytes, registerBytes, List.cons_append, List.nil_append, bind_apply,
      codeBufferPop8_cons, ↓reduceIte, decodeRegister_codes, targetLiteral]
  | constant constant =>
    simp only [decodeTarget, Target.bytes, Constant.bytes, List.cons_append, bind_apply, codeBufferPop8_cons,
      constant_register, ↓reduceIte, decodeConstant_bytes, targetLiteral]
  | memory ratio width base offset1 offset2 =>
    simp only [decodeTarget, Target.bytes, List.cons_append, List.append_assoc, List.nil_append, bind_apply,
      codeBufferPop8_cons, memory_register, memory_constant, ↓reduceIte, decodeMemory_bytes]

/-! ## Instructions -/

/-- The operands after the first. -/
theorem decodeOperands_bytes (rest : List Byte) (count : ℕ) (targets : List Target) (buffer : List Char)
    (later : targets.length < count ∨ count ≤ 1) :
    decodeOperands count targets.length buffer ((targets.map Target.bytes).flatten ++ rest) =
      .ok (some (buffer ++ (targets.map fun target => bracketed (targetLiteral target)).flatten)) rest := by
  induction targets generalizing buffer with
  | nil => simp [decodeOperands]
  | cons target targets ih =>
    have last : ¬ (targets.length + 1 = count ∧ 1 < count) := by
      simp only [List.length_cons] at later
      omega
    simp only [List.length_cons, List.map_cons, List.flatten_cons, List.append_assoc, decodeOperands, bind_apply,
      tryCatch_apply, decodeTarget_bytes, pure_apply, if_neg last]
    rw [ih _ (by simp only [List.length_cons] at later; omega)]
    simp [bracketed]

/-- All operands; the loop adds a comma after the first of several. -/
theorem decodeOperands_literal (rest : List Byte) (targets : List Target) (buffer : List Char) :
    decodeOperands targets.length targets.length buffer ((targets.map Target.bytes).flatten ++ rest) =
      .ok (some (buffer ++ operandsLiteral targets)) rest := by
  match targets with
  | [] => simp [decodeOperands, operandsLiteral]
  | [target] =>
    have printed := decodeOperands_bytes rest 1 [target] buffer (.inr le_rfl)
    rw [List.length_singleton] at printed ⊢
    rw [printed]
    simp [operandsLiteral]
  | first :: second :: targets =>
    have others := decodeOperands_bytes rest (targets.length + 1 + 1) (second :: targets)
      (buffer ++ " <".toList ++ targetLiteral first ++ ">".toList ++ ",".toList) (.inl (by simp))
    rw [List.length_cons] at others
    rw [List.map_cons, List.flatten_cons, List.append_assoc, List.length_cons, List.length_cons, decodeOperands,
      bind_apply, tryCatch_apply, bind_apply, decodeTarget_bytes]
    simp only [pure_apply, List.flatten_singleton]
    rw [if_pos ⟨trivial, by omega⟩, others]
    simp [operandsLiteral, bracketed]

theorem decodeRest_bytes (instruction : Instruction) (rest : List Byte) :
    decodeRest instruction.mnemonic instruction.width ((instruction.operands.map Target.bytes).flatten ++ rest) =
      .ok [instructionLiteral instruction] rest := by
  have printed := decodeOperands_literal rest instruction.operands
    (instruction.mnemonic.name ++ instruction.width.elim [] widthLiteral)
  rw [instruction.counted] at printed
  simp only [decodeRest, bind_apply, printed, pure_apply, instructionLiteral]

/-- The disassembler prints every instruction of the format and consumes exactly its bytes. -/
theorem decodeInstruction_bytes (instruction : Instruction) (rest : List Byte) :
    decodeInstruction (instruction.bytes ++ rest) = ([instructionLiteral instruction], rest) := by
  have printed := decodeRest_bytes instruction rest
  obtain ⟨mnemonic, width, operands, widthed, counted⟩ := instruction
  simp only at printed
  cases width with
  | none =>
    have widthless : mnemonic.requiresWidth = false := by simpa using widthed.symm
    simp only [decodeInstruction, decodeInstructionBody, Instruction.bytes, Option.map_none, Option.toList_none,
      List.nil_append, List.cons_append, bind_apply, codeBufferPop8_cons, findOpcode_opcode, widthless,
      Bool.false_eq_true, ↓reduceIte, printed]
  | some width =>
    have required : mnemonic.requiresWidth = true := by simpa using widthed.symm
    simp only [decodeInstruction, decodeInstructionBody, Instruction.bytes, Option.map_some, Option.toList_some,
      List.cons_append, List.nil_append, bind_apply, codeBufferPop8_cons, findOpcode_opcode, required, ↓reduceIte,
      Width.ofBcd_bcd, printed]

end Sysdarft.Coding
