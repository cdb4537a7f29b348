import Sysdarft.Proofs.Spelling

/-! # Spelled instructions of the format

What the disassembler reads is of the format, or it is printed as data, or it is one of the two pieces that the
disassembler takes for granted: a register with an index that is too large, and a memory reference that it abandons.
-/

namespace Sysdarft.Coding

open Effects Format

/-! ## Pieces of the format -/

namespace SpelledParameter

def Legal : SpelledParameter → Prop
  | register register_size register_index => (Register.ofCodes register_size register_index).isSome = true
  | constant _ _ => True
  | unsized _ => False

/-- The disassembler prints the bytes as data. It checks the index of a register only when it has 64 bits. -/
def Marked : SpelledParameter → Prop
  | register register_size register_index =>
    Width.ofBcd register_size = none ∨
      Width.ofBcd register_size = some .w64 ∧ Register.ofCodes register_size register_index = none
  | constant _ _ => False
  | unsized _ => True

/-- A register of 8, 16 or 32 bits with an index that none of these has. -/
def Overnumbered : SpelledParameter → Prop
  | register register_size register_index =>
    (∃ width ∈ [Width.w8, .w16, .w32], Width.ofBcd register_size = some width) ∧ 7 < register_index.toNat
  | constant _ _ | unsized _ => False

instance : DecidablePred Marked
  | register _ _ => inferInstanceAs (Decidable (_ ∨ _ ∧ _))
  | constant _ _ => inferInstanceAs (Decidable False)
  | unsized _ => inferInstanceAs (Decidable True)

instance : DecidablePred Overnumbered
  | register _ _ => inferInstanceAs (Decidable (_ ∧ _))
  | constant _ _ | unsized _ => inferInstanceAs (Decidable False)

theorem legal_iff (parameter : SpelledParameter) :
    parameter.Legal ↔ ¬ parameter.Marked ∧ ¬ parameter.Overnumbered := by
  cases parameter with
  | register register_size register_index =>
    rw [Legal, Marked, Overnumbered, Register.ofCodes]
    cases Width.ofBcd register_size with
    | none => simp
    | some width =>
      cases width with
      | w8 | w16 | w32 =>
        by_cases small : register_index.toNat < 8
        · simp [Width.registerCount, small, Nat.le_of_lt_succ small]
        · simp [Width.registerCount, small, show 7 < register_index.toNat by omega]
      | w64 =>
        by_cases small : register_index.toNat < 16
        · simp [Width.registerCount, small]
        · simp [Width.registerCount, small, Option.isSome_iff_ne_none]
  | constant width num => exact iff_of_true trivial ⟨id, id⟩
  | unsized code => exact iff_of_false id fun fine => fine.1 trivial

end SpelledParameter

namespace SpelledTarget

def Legal : SpelledTarget → Prop
  | plain parameter => parameter.Legal
  | memory _ base offset1 offset2 ratio =>
    base.Legal ∧ offset1.Legal ∧ offset2.Legal ∧ (Ratio.ofBcd ratio).isSome = true
  | abandoned | unsizedMemory _ | unknown _ => False

/-- The disassembler prints bytes of the operand as data. -/
def Marked : SpelledTarget → Prop
  | plain parameter => parameter.Marked
  | memory _ base offset1 offset2 ratio => base.Marked ∨ offset1.Marked ∨ offset2.Marked ∨ Ratio.ofBcd ratio = none
  | abandoned => False
  | unsizedMemory _ | unknown _ => True

/-- The operand is or has such a register. -/
def Overnumbered : SpelledTarget → Prop
  | plain parameter => parameter.Overnumbered
  | memory _ base offset1 offset2 _ => base.Overnumbered ∨ offset1.Overnumbered ∨ offset2.Overnumbered
  | abandoned | unsizedMemory _ | unknown _ => False

instance : DecidablePred Marked
  | plain parameter => inferInstanceAs (Decidable parameter.Marked)
  | memory _ _ _ _ _ => inferInstanceAs (Decidable (_ ∨ _ ∨ _ ∨ _))
  | abandoned => inferInstanceAs (Decidable False)
  | unsizedMemory _ | unknown _ => inferInstanceAs (Decidable True)

instance : DecidablePred Overnumbered
  | plain parameter => inferInstanceAs (Decidable parameter.Overnumbered)
  | memory _ _ _ _ _ => inferInstanceAs (Decidable (_ ∨ _ ∨ _))
  | abandoned | unsizedMemory _ | unknown _ => inferInstanceAs (Decidable False)

theorem legal_iff (target : SpelledTarget) :
    target.Legal ↔ ¬ target.Marked ∧ target ≠ .abandoned ∧ ¬ target.Overnumbered := by
  cases target with
  | plain parameter =>
    rw [Legal, Marked, Overnumbered, SpelledParameter.legal_iff]
    exact ⟨fun fine => ⟨fine.1, nofun, fine.2⟩, fun fine => ⟨fine.1, fine.2.2⟩⟩
  | memory width base offset1 offset2 ratio =>
    rw [Legal, Marked, Overnumbered, SpelledParameter.legal_iff, SpelledParameter.legal_iff, SpelledParameter.legal_iff,
      Option.isSome_iff_ne_none]
    have given : SpelledTarget.memory width base offset1 offset2 ratio ≠ .abandoned := nofun
    tauto
  | abandoned => exact iff_of_false id fun fine => fine.2.1 rfl
  | unsizedMemory code | unknown code => exact iff_of_false id fun fine => fine.1 trivial

end SpelledTarget

/-! ## Reading the format -/

variable {input rest : List Byte}

theorem spellRegister_codes (register : Register) :
    spellRegister (register.width.bcd :: register.code :: rest) =
      .ok (.register register.width.bcd register.code) rest := by
  simp only [spellRegister, bind_apply, codeBufferPop8_cons, pure_apply]

theorem spellConstant_bytes (constant : Constant) (rest : List Byte) :
    ∃ num, spellConstant (constant.width.bcd :: (LittleEndian.bytes constant.width.bytes constant.value.toNat ++ rest)) =
      .ok (.constant constant.width num) rest := by
  have popped := codeBufferPop_append (LittleEndian.bytes constant.width.bytes constant.value.toNat) rest
  rw [LittleEndian.length_bytes] at popped
  simp only [spellConstant, bind_apply, codeBufferPop8_cons, Width.ofBcd_bcd, popped, pure_apply]
  exact ⟨_, rfl⟩

theorem spellParameter_bytes (parameter : Parameter) (rest : List Byte) :
    ∃ spelled : SpelledParameter, spelled.Legal ∧ spellParameter (parameter.bytes ++ rest) = .ok (some spelled) rest := by
  have different : CONSTANT_CODE ≠ REGISTER_CODE := by decide
  cases parameter with
  | register register =>
    refine ⟨.register register.width.bcd register.code, ?_, ?_⟩
    · rw [SpelledParameter.Legal, Register.ofCodes_codes]
      rfl
    · simp only [spellParameter, Parameter.bytes, registerBytes, List.cons_append, List.nil_append, bind_apply,
        codeBufferPop8_cons, ↓reduceIte, spellRegister_codes, pure_apply]
  | constant constant =>
    obtain ⟨num, read⟩ := spellConstant_bytes constant rest
    refine ⟨.constant constant.width num, trivial, ?_⟩
    simp only [spellParameter, Parameter.bytes, Constant.bytes, List.cons_append, bind_apply, codeBufferPop8_cons,
      different, ↓reduceIte, read, pure_apply]

theorem spellMemory_bytes (ratio : Ratio) (width : Width) (base offset1 offset2 : Parameter) (rest : List Byte) :
    ∃ spelled : SpelledTarget, spelled.Legal ∧
      spellMemory (width.bcd :: (base.bytes ++ (offset1.bytes ++ (offset2.bytes ++ ratio.bcd :: rest)))) =
        .ok spelled rest := by
  obtain ⟨first, legal1, read1⟩ := spellParameter_bytes base (offset1.bytes ++ (offset2.bytes ++ ratio.bcd :: rest))
  obtain ⟨second, legal2, read2⟩ := spellParameter_bytes offset1 (offset2.bytes ++ ratio.bcd :: rest)
  obtain ⟨third, legal3, read3⟩ := spellParameter_bytes offset2 (ratio.bcd :: rest)
  refine ⟨.memory width first second third ratio.bcd, ⟨legal1, legal2, legal3, ?_⟩, ?_⟩
  · rw [Ratio.ofBcd_bcd]
    rfl
  · rw [spellMemory, bind_ok (codeBufferPop8_cons ..), Width.ofBcd_bcd]
    simp only
    rw [bind_ok read1]
    simp only
    rw [bind_ok read2]
    simp only
    rw [bind_ok read3]
    simp only [bind_apply, codeBufferPop8_cons, pure_apply]

theorem spellTarget_bytes (target : Target) (rest : List Byte) :
    ∃ spelled : SpelledTarget, spelled.Legal ∧ spellTarget (target.bytes ++ rest) = .ok spelled rest := by
  have constant_register : CONSTANT_CODE ≠ REGISTER_CODE := by decide
  have memory_register : MEMORY_CODE ≠ REGISTER_CODE := by decide
  have memory_constant : MEMORY_CODE ≠ CONSTANT_CODE := by decide
  cases target with
  | register register =>
    refine ⟨.plain (.register register.width.bcd register.code), ?_, ?_⟩
    · rw [SpelledTarget.Legal, SpelledParameter.Legal, Register.ofCodes_codes]
      rfl
    · simp only [spellTarget, Target.bytes, registerBytes, List.cons_append, List.nil_append, bind_apply,
        codeBufferPop8_cons, ↓reduceIte, spellRegister_codes, pure_apply]
  | constant constant =>
    obtain ⟨num, read⟩ := spellConstant_bytes constant rest
    refine ⟨.plain (.constant constant.width num), trivial, ?_⟩
    simp only [spellTarget, Target.bytes, Constant.bytes, List.cons_append, bind_apply, codeBufferPop8_cons,
      constant_register, ↓reduceIte, read, pure_apply]
  | memory ratio width base offset1 offset2 =>
    obtain ⟨spelled, legal, read⟩ := spellMemory_bytes ratio width base offset1 offset2 rest
    refine ⟨spelled, legal, ?_⟩
    simp only [spellTarget, Target.bytes, List.cons_append, List.append_assoc, List.nil_append, bind_apply,
      codeBufferPop8_cons, memory_register, memory_constant, ↓reduceIte, read]

theorem spellTargets_bytes (targets : List Target) (rest : List Byte) :
    ∃ spelled : List SpelledTarget, (∀ target ∈ spelled, target.Legal) ∧
      spellTargets targets.length ((targets.map Target.bytes).flatten ++ rest) = .ok (some spelled) rest := by
  induction targets with
  | nil => exact ⟨[], List.forall_mem_nil _, rfl⟩
  | cons target targets ih =>
    obtain ⟨others, legals, reads⟩ := ih
    obtain ⟨first, legal, read⟩ := spellTarget_bytes target ((targets.map Target.bytes).flatten ++ rest)
    refine ⟨first :: others, List.forall_mem_cons.mpr ⟨legal, legals⟩, ?_⟩
    simp only [List.length_cons, List.map_cons, List.flatten_cons, List.append_assoc, spellTargets, bind_apply,
      tryCatch_apply, read, pure_apply, reads, Option.map_some]

theorem spellInstruction_bytes (instruction : Instruction) (rest : List Byte) :
    ∃ targets : List SpelledTarget, (∀ target ∈ targets, target.Legal) ∧
      spellInstruction (instruction.bytes ++ rest) = .ok (.line instruction.mnemonic instruction.width targets) rest := by
  obtain ⟨targets, legal, read⟩ := spellTargets_bytes instruction.operands rest
  refine ⟨targets, legal, ?_⟩
  obtain ⟨mnemonic, width, operands, widthed, counted⟩ := instruction
  simp only at read counted
  rw [counted] at read
  cases width with
  | none =>
    have widthless : mnemonic.requiresWidth = false := by simpa using widthed.symm
    simp only [spellInstruction, Instruction.bytes, Option.map_none, Option.toList_none, List.nil_append,
      List.cons_append, bind_apply, codeBufferPop8_cons, findOpcode_opcode, widthless, Bool.false_eq_true, ↓reduceIte,
      spellRest, read, pure_apply]
  | some width =>
    have required : mnemonic.requiresWidth = true := by simpa using widthed.symm
    simp only [spellInstruction, Instruction.bytes, Option.map_some, Option.toList_some, List.cons_append,
      List.nil_append, bind_apply, codeBufferPop8_cons, findOpcode_opcode, required, ↓reduceIte, Width.ofBcd_bcd,
      spellRest, read, pure_apply]

/-! ## Whatever is read as legal is of the format -/

theorem codeBufferPop_inv {count : ℕ} {data : List Byte} (popped : codeBufferPop count input = .ok data rest) :
    input = data ++ rest ∧ data.length = count := by
  induction count generalizing input data with
  | zero =>
    cases popped
    exact ⟨rfl, rfl⟩
  | succ count ih =>
    rw [codeBufferPop, bind_ok (get_apply input)] at popped
    cases input with
    | nil => cases popped
    | cons byte input =>
      obtain ⟨⟨⟩, middle, stored, popped⟩ := bind_eq_ok.mp popped
      cases stored
      obtain ⟨others, last, later, finished⟩ := bind_eq_ok.mp popped
      cases finished
      obtain ⟨rfl, rfl⟩ := ih later
      exact ⟨rfl, rfl⟩

theorem codeBufferPop8_inv {byte : Byte} (popped : codeBufferPop8 input = .ok byte rest) : input = byte :: rest := by
  obtain ⟨data, middle, popped, finished⟩ := bind_eq_ok.mp popped
  cases finished
  obtain ⟨rfl, single⟩ := codeBufferPop_inv popped
  obtain ⟨byte, rfl⟩ := List.length_eq_one_iff.mp single
  rw [List.singleton_append]
  congr 1
  exact BitVec.eq_of_toNat_eq (by simp [LittleEndian.value])

theorem spellRegister_inv {parameter : SpelledParameter} (spells : spellRegister input = .ok parameter rest)
    (legal : parameter.Legal) : ∃ register : Register, input = register.width.bcd :: register.code :: rest := by
  obtain ⟨register_size, middle, popped, read⟩ := bind_eq_ok.mp spells
  obtain ⟨register_index, last, popped', read⟩ := bind_eq_ok.mp read
  cases read
  obtain rfl := codeBufferPop8_inv popped
  obtain rfl := codeBufferPop8_inv popped'
  obtain ⟨register, known⟩ := Option.isSome_iff_exists.mp legal
  obtain ⟨rfl, rfl⟩ := Register.codes_of_ofCodes known
  exact ⟨register, rfl⟩

theorem spellConstant_inv {parameter : SpelledParameter} (spells : spellConstant input = .ok parameter rest)
    (legal : parameter.Legal) :
    ∃ constant : Constant,
      input = constant.width.bcd :: (LittleEndian.bytes constant.width.bytes constant.value.toNat ++ rest) := by
  obtain ⟨code, middle, popped, read⟩ := bind_eq_ok.mp spells
  obtain rfl := codeBufferPop8_inv popped
  cases known : Width.ofBcd code with
  | none =>
    rw [known] at read
    cases read
    exact legal.elim
  | some width =>
    rw [known] at read
    obtain ⟨data, last, popped, read⟩ := bind_eq_ok.mp read
    cases read
    obtain ⟨rfl, length⟩ := codeBufferPop_inv popped
    have small : LittleEndian.value data < 2 ^ width.bits := by
      rw [width.two_pow_bits, ← length]
      exact LittleEndian.value_lt data
    have content : LittleEndian.bytes width.bytes (LittleEndian.value data) = data := by
      rw [← length]
      exact LittleEndian.bytes_value data
    refine ⟨⟨width, BitVec.ofNat width.bits (LittleEndian.value data)⟩, ?_⟩
    simp only [BitVec.toNat_ofNat, Nat.mod_eq_of_lt small, content, Width.bcd_of_ofBcd known]

theorem spellParameter_inv {parameter : SpelledParameter} (spells : spellParameter input = .ok (some parameter) rest)
    (legal : parameter.Legal) : ∃ literal : Parameter, input = literal.bytes ++ rest := by
  obtain ⟨code, middle, popped, read⟩ := bind_eq_ok.mp spells
  obtain rfl := codeBufferPop8_inv popped
  rw [run_ite, run_ite] at read
  split_ifs at read with isRegister isConstant
  · subst isRegister
    obtain ⟨spelled, last, read, finished⟩ := bind_eq_ok.mp read
    cases finished
    obtain ⟨register, rfl⟩ := spellRegister_inv read legal
    exact ⟨.register register, rfl⟩
  · subst isConstant
    obtain ⟨spelled, last, read, finished⟩ := bind_eq_ok.mp read
    cases finished
    obtain ⟨constant, rfl⟩ := spellConstant_inv read legal
    exact ⟨.constant constant, rfl⟩
  · cases read

theorem spellMemory_inv {target : SpelledTarget} (spells : spellMemory input = .ok target rest) (legal : target.Legal) :
    ∃ (ratio : Ratio) (width : Width) (base offset1 offset2 : Parameter),
      input = width.bcd :: (base.bytes ++ (offset1.bytes ++ (offset2.bytes ++ ratio.bcd :: rest))) := by
  obtain ⟨code, middle, popped, read⟩ := bind_eq_ok.mp spells
  obtain rfl := codeBufferPop8_inv popped
  cases known : Width.ofBcd code with
  | none =>
    rw [known] at read
    cases read
    exact legal.elim
  | some width =>
    rw [known] at read
    obtain ⟨first, after1, read1, read⟩ := bind_eq_ok.mp read
    cases first with
    | none => cases read; exact legal.elim
    | some first =>
      obtain ⟨second, after2, read2, read⟩ := bind_eq_ok.mp read
      cases second with
      | none => cases read; exact legal.elim
      | some second =>
        obtain ⟨third, after3, read3, read⟩ := bind_eq_ok.mp read
        cases third with
        | none => cases read; exact legal.elim
        | some third =>
          obtain ⟨ratioBCD, last, popped', read⟩ := bind_eq_ok.mp read
          cases read
          obtain ⟨legal1, legal2, legal3, ratioKnown⟩ := legal
          obtain ⟨base, rfl⟩ := spellParameter_inv read1 legal1
          obtain ⟨offset1, rfl⟩ := spellParameter_inv read2 legal2
          obtain ⟨offset2, rfl⟩ := spellParameter_inv read3 legal3
          obtain rfl := codeBufferPop8_inv popped'
          obtain ⟨ratio, found⟩ := Option.isSome_iff_exists.mp ratioKnown
          refine ⟨ratio, width, base, offset1, offset2, ?_⟩
          rw [Width.bcd_of_ofBcd known, Ratio.bcd_of_ofBcd found]

theorem spellTarget_inv {target : SpelledTarget} (spells : spellTarget input = .ok target rest) (legal : target.Legal) :
    ∃ literal : Target, input = literal.bytes ++ rest := by
  obtain ⟨code, middle, popped, read⟩ := bind_eq_ok.mp spells
  obtain rfl := codeBufferPop8_inv popped
  rw [run_ite, run_ite, run_ite] at read
  split_ifs at read with isRegister isConstant isMemory
  · subst isRegister
    obtain ⟨spelled, last, read, finished⟩ := bind_eq_ok.mp read
    cases finished
    obtain ⟨register, rfl⟩ := spellRegister_inv read legal
    exact ⟨.register register, rfl⟩
  · subst isConstant
    obtain ⟨spelled, last, read, finished⟩ := bind_eq_ok.mp read
    cases finished
    obtain ⟨constant, rfl⟩ := spellConstant_inv read legal
    exact ⟨.constant constant, rfl⟩
  · subst isMemory
    obtain ⟨ratio, width, base, offset1, offset2, rfl⟩ := spellMemory_inv read legal
    refine ⟨.memory ratio width base offset1 offset2, ?_⟩
    simp only [Target.bytes, List.cons_append, List.append_assoc, List.nil_append]
  · cases read
    exact legal.elim

theorem spellTargets_inv {count : ℕ} {targets : List SpelledTarget}
    (read : spellTargets count input = .ok (some targets) rest) (legal : ∀ target ∈ targets, target.Legal) :
    ∃ literals : List Target, literals.length = count ∧ input = (literals.map Target.bytes).flatten ++ rest := by
  induction count generalizing input targets with
  | zero =>
    cases read
    exact ⟨[], rfl, rfl⟩
  | succ count ih =>
    obtain ⟨first, middle, read1, read⟩ := bind_eq_ok.mp read
    rw [tryCatch_apply, bind_apply] at read1
    cases known : spellTarget input with
    | error e after =>
      rw [known] at read1
      cases read1
      cases read
    | ok target after =>
      rw [known] at read1
      cases read1
      obtain ⟨others, last, later, finished⟩ := bind_eq_ok.mp read
      cases others with
      | none => cases finished
      | some others =>
        cases finished
        obtain ⟨legal1, legals⟩ := List.forall_mem_cons.mp legal
        obtain ⟨literal, rfl⟩ := spellTarget_inv known legal1
        obtain ⟨literals, rfl, rfl⟩ := ih later legals
        exact ⟨literal :: literals, rfl, by simp⟩

theorem spellInstruction_inv {mnemonic : Mnemonic} {op_width : Option Width} {targets : List SpelledTarget}
    (spells : spellInstruction input = .ok (.line mnemonic op_width targets) rest)
    (legal : ∀ target ∈ targets, target.Legal) : ∃ instruction : Instruction, input = instruction.bytes ++ rest := by
  obtain ⟨opcode, middle, popped, read⟩ := bind_eq_ok.mp spells
  obtain rfl := codeBufferPop8_inv popped
  cases known : findOpcode opcode with
  | none => rw [known] at read; cases read
  | some name =>
    rw [known] at read
    obtain rfl := opcode_of_findOpcode known
    -- both kinds of instruction end in their operands
    have finish {width : Option Width} {middle : List Byte} (widthed : width.isSome = name.requiresWidth)
        (read : spellRest name width middle = .ok (.line mnemonic op_width targets) rest) :
        ∃ instruction : Instruction,
          name.opcode :: ((width.map Width.bcd).toList ++ middle) = instruction.bytes ++ rest := by
      obtain ⟨found, last, later, finished⟩ := bind_eq_ok.mp read
      cases found with
      | none => cases finished
      | some found =>
        cases finished
        obtain ⟨literals, counted, rfl⟩ := spellTargets_inv later legal
        refine ⟨⟨mnemonic, op_width, literals, widthed, counted⟩, ?_⟩
        simp only [Instruction.bytes, List.cons_append, List.append_assoc]
    simp only [run_ite] at read
    split_ifs at read with required
    · obtain ⟨byte, middle', popped', widthed⟩ := bind_eq_ok.mp read
      obtain rfl := codeBufferPop8_inv popped'
      cases knownWidth : Width.ofBcd byte with
      | none => rw [knownWidth] at widthed; cases widthed
      | some width =>
        rw [knownWidth] at widthed
        rw [← Width.bcd_of_ofBcd knownWidth]
        exact finish (show (some width).isSome = name.requiresWidth from required.symm) widthed
    · exact finish (show (none : Option Width).isSome = name.requiresWidth by simpa using required) read

/-! ## Reading no instruction at all -/

theorem spellTargets_reads (count : ℕ) (input : List Byte) :
    ∃ targets rest, spellTargets count input = .ok targets rest := by
  induction count generalizing input with
  | zero => exact ⟨_, _, rfl⟩
  | succ count ih =>
    rw [spellTargets, bind_apply, tryCatch_apply, bind_apply]
    cases spellTarget input with
    | error e rest => exact ⟨_, _, rfl⟩
    | ok target rest =>
      obtain ⟨targets, last, read⟩ := ih rest
      exact ⟨_, _, bind_ok read⟩

theorem spellRest_reads (mnemonic : Mnemonic) (op_width : Option Width) (input : List Byte) :
    ∃ spelled rest, spellRest mnemonic op_width input = .ok spelled rest := by
  obtain ⟨targets, rest, read⟩ := spellTargets_reads mnemonic.argumentCount input
  rw [spellRest, bind_ok read]
  cases targets <;> exact ⟨_, _, rfl⟩

/-- The bytes have no instruction to them: there are none, or an operation width is missing. -/
def NoInstruction (input : List Byte) : Prop :=
  input = [] ∨ ∃ mnemonic : Mnemonic, mnemonic.requiresWidth = true ∧ input = [mnemonic.opcode]

theorem spellInstruction_reads_iff (input : List Byte) :
    (∃ spelled rest, spellInstruction input = .ok spelled rest) ↔ ¬ NoInstruction input := by
  constructor
  · rintro ⟨spelled, rest, read⟩ (rfl | ⟨mnemonic, required, rfl⟩)
    · cases read
    · rw [spellInstruction, bind_ok (codeBufferPop8_cons ..), findOpcode_opcode] at read
      simp only [required, ↓reduceIte] at read
      cases read
  · intro present
    cases input with
    | nil => exact absurd (.inl rfl) present
    | cons opcode input =>
      rw [spellInstruction, bind_ok (codeBufferPop8_cons ..)]
      cases known : findOpcode opcode with
      | none => exact ⟨_, _, rfl⟩
      | some mnemonic =>
        obtain rfl := opcode_of_findOpcode known
        simp only [run_ite]
        split_ifs with required
        · cases input with
          | nil => exact absurd (.inr ⟨mnemonic, required, rfl⟩) present
          | cons op_width input =>
            rw [bind_ok (codeBufferPop8_cons ..)]
            cases Width.ofBcd op_width with
            | none => exact ⟨_, _, rfl⟩
            | some width => exact spellRest_reads mnemonic (some width) input
        · exact spellRest_reads mnemonic none input

end Sysdarft.Coding
