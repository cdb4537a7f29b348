import Sysdarft.Model.Format
import Sysdarft.Proofs.CodeFetch

/-! # The CPU decoder and the instruction format

`popInstruction_bytes`: the decoder reads the bytes of every instruction of the format, moves the
instruction pointer past them and yields the operands they stand for. `popInstruction_inv`: whenever
the decoder succeeds and the operands resolve, the bytes at `CB:IP` are those of an instruction of
the format.
-/

namespace Sysdarft.Format

open Effects

variable {machine : Machine} {rest : List Byte}

/-! ## Reading what the format writes -/

@[simp] theorem load_advance (register : Register) (count : ℕ) :
    (machine.advance count).registers.load register = machine.registers.load register := by
  cases register with
  | general width index => rfl
  | special special => cases special <;> rfl

@[simp] theorem Parameter.value_advance (parameter : Parameter) (count : ℕ) :
    parameter.value (machine.advance count).registers = parameter.value machine.registers := by
  cases parameter <;> simp only [value, load_advance]

@[simp] theorem Parameter.signedValue_advance (parameter : Parameter) (count : ℕ) :
    parameter.signedValue (machine.advance count).registers = parameter.signedValue machine.registers := by
  cases parameter <;> simp only [signedValue, load_advance]

@[simp] theorem Target.operand_advance (count : ℕ) :
    Target.operand (machine.advance count).registers = Target.operand machine.registers := by
  funext target
  cases target <;> simp only [operand, Parameter.value_advance, Parameter.signedValue_advance]

theorem popCodeWidth_ok {width : Width} {value : BitVec width.bits}
    (code : machine.Code (LittleEndian.bytes width.bytes value.toNat ++ rest)) :
    popCodeWidth width machine = .ok (value.setWidth 64) (machine.advance width.bytes) := by
  have popped := popCode_ok _ code (by rw [LittleEndian.length_bytes]; exact width.bytes_pos)
  rw [LittleEndian.length_bytes] at popped
  have small : value.toNat < 256 ^ width.bytes := by
    calc value.toNat < 2 ^ width.bits := value.isLt
      _ = 256 ^ width.bytes := width.two_pow_bits
  simp only [popCodeWidth, bind_apply, popped, pure_apply, LittleEndian.value_bytes, Nat.mod_eq_of_lt small]
  congr 1
  apply BitVec.eq_of_toNat_eq
  rw [BitVec.toNat_ofNat, BitVec.toNat_setWidth]

theorem decodeRegister_ok {width index : Byte} (code : machine.Code (width :: index :: rest)) :
    decodeRegister machine = .ok (width, index) (machine.advance 2) := by
  have second := popCode8_ok (code.tail)
  simp only [Machine.advance_advance] at second
  simp only [decodeRegister, bind_apply, popCode8_ok code, second, pure_apply]

theorem decodeConstant_ok {constant : Constant}
    (code : machine.Code (constant.width.bcd ::
      (LittleEndian.bytes constant.width.bytes constant.value.toNat ++ rest))) :
    decodeConstant machine =
      .ok (constant.value.setWidth 64, constant.width) (machine.advance (1 + constant.width.bytes)) := by
  have value := popCodeWidth_ok (code.tail)
  simp only [Machine.advance_advance] at value
  simp only [decodeConstant, bind_apply, popCode8_ok code, Width.ofBcd_bcd, value, pure_apply]

theorem accessRegister_ok (register : Register) :
    accessRegister register.width.bcd register.code machine = .ok (machine.registers.load register) machine := by
  simp only [accessRegister, selectRegister, Register.ofCodes_codes, bind_apply, pure_apply, getRegisters, get_apply]

theorem decodeParameter_ok {parameter : Parameter} (code : machine.Code (parameter.bytes ++ rest)) :
    decodeParameter machine = .ok (parameter.value machine.registers) (machine.advance parameter.bytes.length) := by
  cases parameter with
  | register register =>
    have codes := decodeRegister_ok (code.tail)
    simp only [Machine.advance_advance] at codes
    simp only [decodeParameter, bind_apply, popCode8_ok code, ↓reduceIte, codes, accessRegister_ok, load_advance]
    rfl
  | constant constant =>
    have different : CONSTANT_CODE ≠ REGISTER_CODE := by decide
    have value := decodeConstant_ok (code.tail)
    simp only [Machine.advance_advance] at value
    simp only [decodeParameter, bind_apply, popCode8_ok code, different, ↓reduceIte, value, pure_apply, Parameter.value,
      Parameter.bytes, Constant.bytes, List.length_cons, LittleEndian.length_bytes]
    congr 2
    omega

theorem decodeSignedParameter_ok {parameter : Parameter} (code : machine.Code (parameter.bytes ++ rest)) :
    decodeSignedParameter machine =
      .ok (parameter.signedValue machine.registers) (machine.advance parameter.bytes.length) := by
  cases parameter with
  | register register =>
    have codes := decodeRegister_ok (code.tail)
    simp only [Machine.advance_advance] at codes
    simp only [decodeSignedParameter, bind_apply, popCode8_ok code, ↓reduceIte, codes, accessRegister_ok, load_advance,
      Width.ofBcd_bcd, pure_apply]
    rfl
  | constant constant =>
    have different : CONSTANT_CODE ≠ REGISTER_CODE := by decide
    have value := decodeConstant_ok (code.tail)
    simp only [Machine.advance_advance] at value
    simp only [decodeSignedParameter, bind_apply, popCode8_ok code, different, ↓reduceIte, value, pure_apply,
      Parameter.signedValue, Parameter.bytes, Constant.bytes, List.length_cons, LittleEndian.length_bytes]
    congr 2
    omega

theorem decodeMemory_ok {ratio : Ratio} {width : Width} {base offset1 offset2 : Parameter}
    (code : machine.Code (width.bcd :: (base.bytes ++ (offset1.bytes ++ (offset2.bytes ++ (ratio.bcd :: rest)))))) :
    decodeMemory machine =
      .ok ((base.value machine.registers + offset1.value machine.registers + offset2.signedValue machine.registers) *
        BitVec.ofNat 64 ratio.factor, width.bcd)
        (machine.advance (2 + base.bytes.length + offset1.bytes.length + offset2.bytes.length)) := by
  have codeBase := code.tail
  have codeOffset1 := codeBase.rest
  have codeOffset2 := codeOffset1.rest
  have codeRatio := codeOffset2.rest
  simp only [Machine.advance_advance] at codeBase codeOffset1 codeOffset2 codeRatio
  simp only [decodeMemory, bind_apply, popCode8_ok code, decodeParameter_ok codeBase, Machine.advance_advance,
    decodeParameter_ok codeOffset1, decodeSignedParameter_ok codeOffset2, popCode8_ok codeRatio, Ratio.ofBcd_bcd,
    Width.ofBcd_bcd, pure_apply, Parameter.value_advance, Parameter.signedValue_advance]
  congr 2
  omega

theorem decodeOperand_ok {target : Target} (code : machine.Code (target.bytes ++ rest)) :
    decodeOperand machine = .ok (target.operand machine.registers) (machine.advance target.bytes.length) := by
  cases target with
  | register register =>
    have codes := decodeRegister_ok (code.tail)
    simp only [Machine.advance_advance] at codes
    simp only [decodeOperand, bind_apply, popCode8_ok code, ↓reduceIte, codes, pure_apply]
    rfl
  | constant constant =>
    have different : CONSTANT_CODE ≠ REGISTER_CODE := by decide
    have value := decodeConstant_ok (code.tail)
    simp only [Machine.advance_advance] at value
    simp only [decodeOperand, bind_apply, popCode8_ok code, different, ↓reduceIte, value, pure_apply, Target.operand,
      Target.bytes, Constant.bytes, List.length_cons, LittleEndian.length_bytes]
    congr 2
    omega
  | memory ratio width base offset1 offset2 =>
    have notRegister : MEMORY_CODE ≠ REGISTER_CODE := by decide
    have notConstant : MEMORY_CODE ≠ CONSTANT_CODE := by decide
    simp only [Target.bytes, List.cons_append, List.append_assoc] at code
    have reference := decodeMemory_ok (code.tail)
    simp only [Machine.advance_advance] at reference
    simp only [decodeOperand, bind_apply, popCode8_ok code, notRegister, notConstant, ↓reduceIte, reference, pure_apply,
      Target.operand, Parameter.value_advance, Parameter.signedValue_advance, Target.bytes, List.length_cons,
      List.length_append, List.length_nil]
    congr 2
    omega

theorem decodeOperands_ok {targets : List Target} (code : machine.Code ((targets.map Target.bytes).flatten ++ rest)) :
    decodeOperands targets.length machine =
      .ok (targets.map (Target.operand machine.registers)) (machine.advance (targets.map Target.bytes).flatten.length) := by
  induction targets generalizing machine with
  | nil => simp [decodeOperands]
  | cons target targets ih =>
    simp only [List.map_cons, List.flatten_cons, List.append_assoc] at code
    have later := ih code.rest
    simp only [Machine.advance_advance] at later
    simp only [List.length_cons, decodeOperands, bind_apply, decodeOperand_ok code, later, pure_apply, List.map_cons,
      Target.operand_advance, List.flatten_cons, List.length_append]

/-- The decoder reads every instruction of the format. -/
theorem popInstruction_bytes (instruction : Instruction) (code : machine.Code (instruction.bytes ++ rest)) :
    popInstruction machine =
      .ok (instruction.active machine.registers) (machine.advance instruction.bytes.length) := by
  obtain ⟨mnemonic, width, operands, widthed, counted⟩ := instruction
  simp only [Instruction.bytes, List.cons_append, List.append_assoc] at code
  have afterOpcode := code.tail
  cases width with
  | none =>
    have widthless : mnemonic.requiresWidth = false := by simpa using widthed.symm
    simp only [Option.map_none, Option.toList_none] at afterOpcode
    have targets := decodeOperands_ok afterOpcode
    simp only [Machine.advance_advance, Target.operand_advance] at targets
    simp only [popInstruction, bind_apply, popCode8_ok code, findOpcode_opcode, decodeOperationWidth, widthless,
      Bool.false_eq_true, ↓reduceIte, pure_apply, ← counted, targets, Instruction.active, Instruction.bytes,
      Option.elim_none, Option.map_none, Option.toList_none, List.nil_append, List.length_cons]
    congr 2
    omega
  | some width =>
    have required : mnemonic.requiresWidth = true := by simpa using widthed.symm
    simp only [Option.map_some, Option.toList_some] at afterOpcode
    have targets := decodeOperands_ok (afterOpcode.tail)
    have popped := popCode8_ok afterOpcode
    simp only [Machine.advance_advance, Target.operand_advance] at targets popped
    simp only [popInstruction, bind_apply, popCode8_ok code, findOpcode_opcode, decodeOperationWidth, required,
      ↓reduceIte, popped, Width.ofBcd_bcd, pure_apply, ← counted, targets, Instruction.active, Instruction.bytes,
      Option.elim_some, Option.map_some, Option.toList_some, List.singleton_append, List.length_cons]
    congr 2
    omega

/-- Fetching reads the instruction at `CB:IP` and moves the instruction pointer past it. -/
theorem fetch_bytes (instruction : Instruction) (code : machine.Code (instruction.bytes ++ rest)) :
    ∃ fetched, fetch machine = .ok (instruction.active machine.registers) fetched ∧
      fetched.registers = (machine.advance instruction.bytes.length).registers ∧ fetched.memory = machine.memory := by
  have moved : Machine.Code { machine with ip_before_pop := machine.registers.InstructionPointer }
      (instruction.bytes ++ rest) := code
  simp only [fetch, bind_apply, modify_apply, popInstruction_bytes instruction moved, pure_apply]
  exact ⟨_, rfl, rfl, rfl⟩

/-! ## Everything that decodes is of the format -/

variable {after : Machine}

theorem decodeRegister_inv {width index : Byte} (decoded : decodeRegister machine = .ok (width, index) after) :
    machine.Code [width, index] ∧ after = machine.advance 2 := by
  obtain ⟨first, middle, popped, decoded⟩ := bind_eq_ok.mp decoded
  obtain ⟨second, last, popped', decoded⟩ := bind_eq_ok.mp decoded
  cases decoded
  obtain ⟨code, rfl⟩ := popCode8_inv popped
  obtain ⟨code', rfl⟩ := popCode8_inv popped'
  exact ⟨code.append code', Machine.advance_advance 1 1⟩

theorem decodeConstant_inv {result : Word × Width} (decoded : decodeConstant machine = .ok result after) :
    ∃ constant : Constant,
      machine.Code (constant.width.bcd :: LittleEndian.bytes constant.width.bytes constant.value.toNat) ∧
      after = machine.advance (1 + constant.width.bytes) := by
  obtain ⟨byte, middle, popped, decoded⟩ := bind_eq_ok.mp decoded
  obtain ⟨code, rfl⟩ := popCode8_inv popped
  cases known : Width.ofBcd byte with
  | none =>
    rw [known] at decoded
    cases decoded
  | some width =>
    rw [known] at decoded
    obtain ⟨value, last, popped', decoded⟩ := bind_eq_ok.mp decoded
    cases decoded
    obtain ⟨data, last', popped', finished⟩ := bind_eq_ok.mp popped'
    cases finished
    obtain ⟨length, code', rfl⟩ := popCode_inv popped' width.bytes_pos (by cases width <;> decide)
    have small : LittleEndian.value data < 2 ^ width.bits := by
      rw [width.two_pow_bits, ← length]
      exact LittleEndian.value_lt data
    refine ⟨⟨width, BitVec.ofNat width.bits (LittleEndian.value data)⟩, ?_, Machine.advance_advance 1 width.bytes⟩
    have content : LittleEndian.bytes width.bytes (LittleEndian.value data) = data := by
      rw [← length]
      exact LittleEndian.bytes_value data
    simp only [BitVec.toNat_ofNat, Nat.mod_eq_of_lt small, content, Width.bcd_of_ofBcd known]
    exact code.append code'

theorem accessRegister_inv {width index : Byte} {value : Word}
    (found : accessRegister width index machine = .ok value after) :
    after = machine ∧ ∃ register : Register, register.width.bcd = width ∧ register.code = index := by
  obtain ⟨register, middle, selected, found⟩ := bind_eq_ok.mp found
  obtain ⟨registers, middle', loaded, found⟩ := bind_eq_ok.mp found
  cases loaded
  cases found
  rw [selectRegister] at selected
  cases known : Register.ofCodes width index with
  | none =>
    rw [known] at selected
    simp only [run_ite, throw_apply] at selected
    split_ifs at selected
  | some register' =>
    rw [known] at selected
    cases selected
    exact ⟨rfl, _, Register.codes_of_ofCodes known⟩

/-- The two kinds of a parameter. `finish` is what the decoder makes of a register's value. -/
theorem decodeParameter_inv {value : Word} (decoded : decodeParameter machine = .ok value after) :
    ∃ parameter : Parameter, machine.Code parameter.bytes ∧ after = machine.advance parameter.bytes.length := by
  obtain ⟨byte, middle, popped, decoded⟩ := bind_eq_ok.mp decoded
  obtain ⟨code, rfl⟩ := popCode8_inv popped
  rw [run_ite, run_ite] at decoded
  split_ifs at decoded with isRegister isConstant
  · subst isRegister
    obtain ⟨⟨width, index⟩, middle, codes, decoded⟩ := bind_eq_ok.mp decoded
    obtain ⟨code', rfl⟩ := decodeRegister_inv codes
    obtain ⟨rfl, register, rfl, rfl⟩ := accessRegister_inv decoded
    exact ⟨.register register, code.append code', Machine.advance_advance 1 2⟩
  · subst isConstant
    obtain ⟨result, middle, constant, decoded⟩ := bind_eq_ok.mp decoded
    cases decoded
    obtain ⟨literal, code', rfl⟩ := decodeConstant_inv constant
    refine ⟨.constant literal, code.append code', ?_⟩
    rw [Machine.advance_advance, Parameter.bytes, Constant.bytes, List.length_cons, List.length_cons,
      LittleEndian.length_bytes]
    congr 1
    omega
  · cases decoded

theorem decodeSignedParameter_inv {value : Word} (decoded : decodeSignedParameter machine = .ok value after) :
    ∃ parameter : Parameter, machine.Code parameter.bytes ∧ after = machine.advance parameter.bytes.length := by
  obtain ⟨byte, middle, popped, decoded⟩ := bind_eq_ok.mp decoded
  obtain ⟨code, rfl⟩ := popCode8_inv popped
  rw [run_ite, run_ite] at decoded
  split_ifs at decoded with isRegister isConstant
  · subst isRegister
    obtain ⟨⟨width, index⟩, middle, codes, decoded⟩ := bind_eq_ok.mp decoded
    obtain ⟨code', rfl⟩ := decodeRegister_inv codes
    obtain ⟨loaded, middle, access, finished⟩ := bind_eq_ok.mp decoded
    obtain ⟨rfl, register, rfl, rfl⟩ := accessRegister_inv access
    rw [Width.ofBcd_bcd] at finished
    cases finished
    exact ⟨.register register, code.append code', Machine.advance_advance 1 2⟩
  · subst isConstant
    obtain ⟨result, middle, constant, decoded⟩ := bind_eq_ok.mp decoded
    cases decoded
    obtain ⟨literal, code', rfl⟩ := decodeConstant_inv constant
    refine ⟨.constant literal, code.append code', ?_⟩
    rw [Machine.advance_advance, Parameter.bytes, Constant.bytes, List.length_cons, List.length_cons,
      LittleEndian.length_bytes]
    congr 1
    omega
  · cases decoded

theorem decodeMemory_inv {result : Word × Byte} (decoded : decodeMemory machine = .ok result after) :
    ∃ (ratio : Ratio) (width : Width) (base offset1 offset2 : Parameter),
      machine.Code (width.bcd :: (base.bytes ++ offset1.bytes ++ offset2.bytes ++ [ratio.bcd])) ∧
      after = machine.advance (2 + base.bytes.length + offset1.bytes.length + offset2.bytes.length) := by
  obtain ⟨byte, middle, popped, decoded⟩ := bind_eq_ok.mp decoded
  obtain ⟨code, rfl⟩ := popCode8_inv popped
  obtain ⟨value1, middle, first, decoded⟩ := bind_eq_ok.mp decoded
  obtain ⟨base, codeBase, rfl⟩ := decodeParameter_inv first
  obtain ⟨value2, middle, second, decoded⟩ := bind_eq_ok.mp decoded
  obtain ⟨offset1, codeOffset1, rfl⟩ := decodeParameter_inv second
  obtain ⟨value3, middle, third, decoded⟩ := bind_eq_ok.mp decoded
  obtain ⟨offset2, codeOffset2, rfl⟩ := decodeSignedParameter_inv third
  obtain ⟨ratioBCD, middle, fourth, decoded⟩ := bind_eq_ok.mp decoded
  obtain ⟨codeRatio, rfl⟩ := popCode8_inv fourth
  cases knownRatio : Ratio.ofBcd ratioBCD with
  | none =>
    rw [knownRatio] at decoded
    cases decoded
  | some ratio =>
    cases knownWidth : Width.ofBcd byte with
    | none =>
      simp only [knownRatio, knownWidth] at decoded
      cases decoded
    | some width =>
      simp only [knownRatio, knownWidth] at decoded
      cases decoded
      refine ⟨ratio, width, base, offset1, offset2, ?_, ?_⟩
      · rw [Width.bcd_of_ofBcd knownWidth, Ratio.bcd_of_ofBcd knownRatio]
        simp only [List.append_assoc]
        exact code.append (codeBase.append (codeOffset1.append (codeOffset2.append codeRatio)))
      · simp only [Machine.advance_advance]
        congr 1
        omega

theorem decodeOperand_inv {operand : Operand} (decoded : decodeOperand machine = .ok operand after)
    (resolves : Resolves operand) :
    ∃ target : Target, machine.Code target.bytes ∧ after = machine.advance target.bytes.length := by
  obtain ⟨byte, middle, popped, decoded⟩ := bind_eq_ok.mp decoded
  obtain ⟨code, rfl⟩ := popCode8_inv popped
  rw [run_ite, run_ite, run_ite] at decoded
  split_ifs at decoded with isRegister isConstant isMemory
  · subst isRegister
    obtain ⟨⟨width, index⟩, middle, codes, decoded⟩ := bind_eq_ok.mp decoded
    obtain ⟨code', rfl⟩ := decodeRegister_inv codes
    cases decoded
    obtain ⟨register, known⟩ := Option.isSome_iff_exists.mp resolves
    obtain ⟨rfl, rfl⟩ := Register.codes_of_ofCodes known
    exact ⟨.register register, code.append code', Machine.advance_advance 1 2⟩
  · subst isConstant
    obtain ⟨result, middle, constant, decoded⟩ := bind_eq_ok.mp decoded
    cases decoded
    obtain ⟨literal, code', rfl⟩ := decodeConstant_inv constant
    refine ⟨.constant literal, code.append code', ?_⟩
    rw [Machine.advance_advance, Target.bytes, Constant.bytes, List.length_cons, List.length_cons,
      LittleEndian.length_bytes]
    congr 1
    omega
  · subst isMemory
    obtain ⟨result, middle, reference, decoded⟩ := bind_eq_ok.mp decoded
    cases decoded
    obtain ⟨ratio, width, base, offset1, offset2, code', rfl⟩ := decodeMemory_inv reference
    refine ⟨.memory ratio width base offset1 offset2, code.append code', ?_⟩
    simp only [Machine.advance_advance, Target.bytes, List.length_cons, List.length_append, List.length_nil]
    congr 1
    omega
  · cases decoded

theorem decodeOperands_inv {count : ℕ} {operands : List Operand} (inside : machine.Code [])
    (decoded : decodeOperands count machine = .ok operands after)
    (resolves : ∀ operand ∈ operands, Resolves operand) :
    ∃ targets : List Target, targets.length = count ∧ machine.Code (targets.map Target.bytes).flatten ∧
      after = machine.advance (targets.map Target.bytes).flatten.length := by
  induction count generalizing machine operands with
  | zero =>
    cases decoded
    exact ⟨[], rfl, inside, Machine.advance_zero.symm⟩
  | succ count ih =>
    obtain ⟨operand, middle, first, decoded⟩ := bind_eq_ok.mp decoded
    obtain ⟨rest, last, later, decoded⟩ := bind_eq_ok.mp decoded
    cases decoded
    obtain ⟨target, code, rfl⟩ := decodeOperand_inv first (resolves _ List.mem_cons_self)
    obtain ⟨targets, rfl, code', rfl⟩ := ih (Machine.Code.rest (by rw [List.append_nil]; exact code)) later
      fun operand member => resolves _ (List.mem_cons_of_mem _ member)
    refine ⟨target :: targets, rfl, code.append code', ?_⟩
    rw [Machine.advance_advance, List.map_cons, List.flatten_cons, List.length_append]

/-- The bytes of every instruction that decodes, with operands that resolve, are of the format. -/
theorem popInstruction_inv {active : ActiveInstruction} (decoded : popInstruction machine = .ok active after)
    (resolves : ∀ operand ∈ active.operands, Resolves operand) :
    ∃ instruction : Instruction, machine.Code instruction.bytes ∧
      after = machine.advance instruction.bytes.length := by
  obtain ⟨byte, middle, popped, decoded⟩ := bind_eq_ok.mp decoded
  obtain ⟨code, rfl⟩ := popCode8_inv popped
  cases known : findOpcode byte with
  | none =>
    rw [known] at decoded
    cases decoded
  | some mnemonic =>
    rw [known] at decoded
    obtain rfl := opcode_of_findOpcode known
    obtain ⟨widthBCD, middle, widthed, decoded⟩ := bind_eq_ok.mp decoded
    obtain ⟨operands, last, read, decoded⟩ := bind_eq_ok.mp decoded
    cases decoded
    rw [decodeOperationWidth, run_ite] at widthed
    split_ifs at widthed with required
    · obtain ⟨byte, middle', popped', widthed⟩ := bind_eq_ok.mp widthed
      obtain ⟨code', rfl⟩ := popCode8_inv popped'
      cases knownWidth : Width.ofBcd byte with
      | none =>
        rw [knownWidth] at widthed
        cases widthed
      | some width =>
        rw [knownWidth] at widthed
        cases widthed
        obtain rfl := Width.bcd_of_ofBcd knownWidth
        obtain ⟨targets, counted, code'', rfl⟩ := decodeOperands_inv
          (code'.tail) read resolves
        refine ⟨⟨mnemonic, some width, targets, required.symm, counted⟩, code.append (code'.append code''), ?_⟩
        simp only [Machine.advance_advance, Instruction.bytes, Option.map_some, Option.toList_some, List.length_cons,
          List.length_append, List.length_nil]
        congr 1
        omega
    · cases widthed
      obtain ⟨targets, counted, code', rfl⟩ := decodeOperands_inv
        (code.tail) read resolves
      refine ⟨⟨mnemonic, none, targets, by simpa using required, counted⟩, code.append code', ?_⟩
      simp only [Machine.advance_advance, Instruction.bytes, Option.map_none, Option.toList_none, List.length_cons,
        List.length_append, List.length_nil]
      congr 1
      omega

end Sysdarft.Format
