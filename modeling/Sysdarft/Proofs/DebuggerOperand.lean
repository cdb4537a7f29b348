import Sysdarft.Model.DebuggerOperand
import Sysdarft.Proofs.DecoderFormat
import Sysdarft.Proofs.EncodeOperand
import Sysdarft.Proofs.OperandAccess

/-! # The operands of the debugger and of the CPU

Both decoders are run on what `encode_target` emits. They agree except in three points: the debugger
cuts 32- and 64-bit constants to 16 bits, it reads memory operands relative to `%DB`, and it refuses a
64-bit register that does not exist already when it decodes it.
-/

namespace Sysdarft.Format

open Effects

/-! ## What the assembler emits for an operand -/

/-- A parameter of a memory reference: one of the format, or a 64-bit register that does not exist. -/
inductive EncodedParameter where
  | known (parameter : Parameter)
  | missing (index : Byte) (unknown : Register.ofCodes Width.w64.bcd index = none)

/-- An operand whose registers need not exist. -/
inductive EncodedTarget where
  | register (name : Register)
  | missing (index : Byte) (unknown : Register.ofCodes Width.w64.bcd index = none)
  | constant (literal : Constant)
  | memory (ratio : Ratio) (width : Width) (base offset1 offset2 : EncodedParameter)

def EncodedParameter.bytes : EncodedParameter → List Byte
  | known parameter => parameter.bytes
  | missing index _ => [REGISTER_CODE, Width.w64.bcd, index]

def EncodedTarget.bytes : EncodedTarget → List Byte
  | register name => registerBytes name
  | missing index _ => [REGISTER_CODE, Width.w64.bcd, index]
  | constant literal => literal.bytes
  | memory ratio width base offset1 offset2 =>
    MEMORY_CODE :: width.bcd :: (base.bytes ++ offset1.bytes ++ offset2.bytes ++ [ratio.bcd])

def EncodedParameter.resolve : EncodedParameter → Option Parameter
  | known parameter => some parameter
  | missing _ _ => none

/-- The operand of the format, when all registers exist. -/
def EncodedTarget.resolve : EncodedTarget → Option Target
  | register name => some (.register name)
  | missing _ _ => none
  | constant literal => some (.constant literal)
  | memory ratio width base offset1 offset2 => do
    return .memory ratio width (← base.resolve) (← offset1.resolve) (← offset2.resolve)

/-! ## What the debugger makes of it -/

/-- A constant as the debugger pops it. -/
def Constant.cut (constant : Constant) : Constant where
  width := constant.width
  value := (constant.value.setWidth (Debugger.numTypeBits constant.width)).setWidth constant.width.bits

def Parameter.cut : Parameter → Parameter
  | register name => register name
  | constant literal => constant literal.cut

def Target.cut : Target → Target
  | register name => register name
  | constant literal => constant literal.cut
  | memory ratio width base offset1 offset2 => memory ratio width base.cut offset1.cut offset2.cut

theorem numTypeBits_le (width : Width) : Debugger.numTypeBits width ≤ width.bits := by
  cases width <;> decide

theorem Constant.toNat_cut (constant : Constant) :
    constant.cut.value.toNat = constant.value.toNat % 2 ^ Debugger.numTypeBits constant.width := by
  have small : constant.value.toNat % 2 ^ Debugger.numTypeBits constant.width < 2 ^ constant.width.bits :=
    lt_of_lt_of_le (Nat.mod_lt _ (Nat.two_pow_pos _)) (Nat.pow_le_pow_right (by decide) (numTypeBits_le _))
  simp only [cut, BitVec.toNat_setWidth]
  exact Nat.mod_eq_of_lt small

/-- A constant survives exactly when it fits 16 bits. -/
theorem Constant.toNat_cut_eq_iff (constant : Constant) :
    constant.cut.value.toNat = constant.value.toNat ↔ constant.value.toNat < 2 ^ 16 := by
  rw [constant.toNat_cut]
  obtain ⟨width, value⟩ := constant
  have bound := value.isLt
  cases width <;> simp only [Debugger.numTypeBits, Width.bits] at bound ⊢ <;> omega

end Sysdarft.Format

namespace Sysdarft.Debugger

open Effects Format

variable {registers : Registers} {rest : List Byte}

theorem popCode_append {width : Width} {data : List Byte} (length : data.length = width.bytes) (rest : List Byte) :
    popCode width (data ++ rest) =
      .ok (((BitVec.ofNat 64 (LittleEndian.value data)).setWidth (numTypeBits width)).setWidth 64) rest := by
  have enough : ¬ (data ++ rest).length < width.bytes := by
    rw [List.length_append, length]
    omega
  rw [popCode, bind_apply, get_apply]
  dsimp only
  rw [if_neg enough]
  simp only [bind_apply, set_apply, pure_apply, List.drop_left' length, List.take_left' length]

theorem popCode8_cons (byte : Byte) (rest : List Byte) : popCode8 (byte :: rest) = .ok byte rest := by
  have popped := popCode_append (show [byte].length = Width.w8.bytes from rfl) rest
  rw [List.singleton_append] at popped
  rw [popCode8, bind_ok popped, pure_apply]
  congr 1
  apply BitVec.eq_of_toNat_eq
  simp [LittleEndian.value, numTypeBits]

theorem popCode_constant (constant : Constant) (rest : List Byte) :
    popCode constant.width (LittleEndian.bytes constant.width.bytes constant.value.toNat ++ rest) =
      .ok (constant.cut.value.setWidth 64) rest := by
  have small : constant.value.toNat < 256 ^ constant.width.bytes := by
    rw [← constant.width.two_pow_bits]
    exact constant.value.isLt
  have wide : constant.value.toNat < 2 ^ 64 :=
    lt_of_lt_of_le constant.value.isLt (Nat.pow_le_pow_right (by decide) constant.width.bits_le)
  rw [popCode_append (LittleEndian.length_bytes ..), LittleEndian.value_bytes, Nat.mod_eq_of_lt small]
  congr 1
  apply BitVec.eq_of_toNat_eq
  rw [BitVec.toNat_setWidth, BitVec.toNat_setWidth, BitVec.toNat_ofNat, BitVec.toNat_setWidth, constant.toNat_cut,
    Nat.mod_eq_of_lt wide]

/-! ## Registers and constants -/

theorem checkRegisterLiteral_register (register : Register) :
    checkRegisterLiteral register.width.bcd register.code rest = .ok () rest := by
  cases register with
  | general width index =>
    have small : ¬ (width.bcd = Width.w64.bcd ∧ 15 < (Register.general width index).code) := by
      rintro ⟨full, large⟩
      have same : width = .w64 := Option.some.inj (by rw [← Width.ofBcd_bcd width, full, Width.ofBcd_bcd])
      subst same
      have bound := index.isLt
      rw [BitVec.lt_def, Register.code, BitVec.toNat_ofNat] at large
      simp only [Width.registerCount] at bound
      have fifteen : (15 : Byte).toNat = 15 := rfl
      omega
    rw [checkRegisterLiteral, Register.width, if_neg small, Width.ofBcd_bcd]
    rfl
  | special special => cases special <;> rfl

theorem decodeRegister_register (register : Register) (rest : List Byte) :
    decodeRegister (register.width.bcd :: register.code :: rest) = .ok (register.width.bcd, register.code) rest := by
  rw [decodeRegister, bind_ok (popCode8_cons ..), bind_ok (popCode8_cons ..), bind_ok (checkRegisterLiteral_register _)]
  rfl

/-- A 64-bit register that does not exist is refused. -/
theorem decodeRegister_missing {index : Byte} (unknown : Register.ofCodes Width.w64.bcd index = none) (rest : List Byte) :
    ∃ fault after, decodeRegister (Width.w64.bcd :: index :: rest) = .error fault after := by
  have large : ¬ index.toNat < 16 := by
    intro small
    simp [Register.ofCodes, Width.registerCount, small] at unknown
  have notSpecial : SpecialRegister.ofCode index = none := by
    simpa [Register.ofCodes, Width.registerCount, large] using unknown
  have beyond : (15 : Byte) < index := by
    rw [BitVec.lt_def]
    have fifteen : (15 : Byte).toNat = 15 := rfl
    omega
  refine ⟨.illegalInstruction "Unknown register index", rest, ?_⟩
  rw [decodeRegister, bind_ok (popCode8_cons ..), bind_ok (popCode8_cons ..)]
  rw [checkRegisterLiteral, if_pos ⟨rfl, beyond⟩, notSpecial]
  rfl

theorem loadRegister_register (register : Register) :
    loadRegister registers register.width.bcd register.code rest = .ok (registers.load register) rest := by
  rw [loadRegister, Register.ofCodes_codes]
  rfl

theorem decodeConstant_constant (constant : Constant) (rest : List Byte) :
    decodeConstant (constant.width.bcd :: (LittleEndian.bytes constant.width.bytes constant.value.toNat ++ rest)) =
      .ok (constant.cut.value.setWidth 64, constant.width) rest := by
  rw [decodeConstant, bind_ok (popCode8_cons ..), Width.ofBcd_bcd]
  exact bind_ok (popCode_constant constant rest)

/-! ## Memory parameters -/

theorem decodeParameter_known (parameter : Parameter) (rest : List Byte) :
    decodeParameter registers (parameter.bytes ++ rest) = .ok (parameter.cut.value registers) rest := by
  cases parameter with
  | register register =>
    rw [decodeParameter, Parameter.bytes, registerBytes, List.cons_append, bind_ok (popCode8_cons ..), if_pos rfl]
    rw [List.cons_append, List.cons_append, List.nil_append, bind_ok (decodeRegister_register ..)]
    exact loadRegister_register register
  | constant constant =>
    rw [decodeParameter, Parameter.bytes, Constant.bytes, List.cons_append, bind_ok (popCode8_cons ..),
      if_neg (show CONSTANT_CODE ≠ REGISTER_CODE by decide), if_pos rfl]
    rw [List.cons_append, bind_ok (decodeConstant_constant ..)]
    rfl

theorem decodeSignedParameter_known (parameter : Parameter) (rest : List Byte) :
    decodeSignedParameter registers (parameter.bytes ++ rest) = .ok (parameter.cut.signedValue registers) rest := by
  cases parameter with
  | register register =>
    rw [decodeSignedParameter, Parameter.bytes, registerBytes, List.cons_append, bind_ok (popCode8_cons ..), if_pos rfl]
    rw [List.cons_append, List.cons_append, List.nil_append, bind_ok (decodeRegister_register ..)]
    dsimp only
    rw [bind_ok (loadRegister_register _), Width.ofBcd_bcd]
    rfl
  | constant constant =>
    rw [decodeSignedParameter, Parameter.bytes, Constant.bytes, List.cons_append, bind_ok (popCode8_cons ..),
      if_neg (show CONSTANT_CODE ≠ REGISTER_CODE by decide), if_pos rfl]
    rw [List.cons_append, bind_ok (decodeConstant_constant ..)]
    rfl

/-- A program that throws. -/
def Fails {σ α : Type} (result : EStateM.Result Fault σ α) : Prop := ∃ fault after, result = .error fault after

theorem Fails.bind {σ α β : Type} {x : EStateM Fault σ α} {state : σ} (failed : Fails (x state))
    (f : α → EStateM Fault σ β) : Fails ((x >>= f) state) := by
  obtain ⟨fault, after, known⟩ := failed
  exact ⟨fault, after, bind_error known⟩

theorem decodeParameter_missing {index : Byte} (unknown : Register.ofCodes Width.w64.bcd index = none) (rest : List Byte) :
    Fails (decodeParameter registers (REGISTER_CODE :: Width.w64.bcd :: index :: rest)) := by
  rw [decodeParameter, bind_ok (popCode8_cons ..), if_pos rfl]
  exact Fails.bind (decodeRegister_missing unknown rest) _

theorem decodeSignedParameter_missing {index : Byte} (unknown : Register.ofCodes Width.w64.bcd index = none)
    (rest : List Byte) : Fails (decodeSignedParameter registers (REGISTER_CODE :: Width.w64.bcd :: index :: rest)) := by
  rw [decodeSignedParameter, bind_ok (popCode8_cons ..), if_pos rfl]
  exact Fails.bind (decodeRegister_missing unknown rest) _

/-! ## Operands -/

/-- An operand whose registers exist is decoded with its constants cut. -/
theorem decodeOperand_target (target : Target) :
    decodeOperand registers target.bytes = .ok (target.cut.operand registers) [] := by
  cases target with
  | register register =>
    rw [decodeOperand, Target.bytes, registerBytes, bind_ok (popCode8_cons ..), if_pos rfl,
      bind_ok (decodeRegister_register ..)]
    rfl
  | constant constant =>
    have value := decodeConstant_constant constant []
    rw [List.append_nil] at value
    rw [decodeOperand, Target.bytes, Constant.bytes, bind_ok (popCode8_cons ..),
      if_neg (show CONSTANT_CODE ≠ REGISTER_CODE by decide), if_pos rfl, bind_ok value]
    rfl
  | memory ratio width base offset1 offset2 =>
    rw [decodeOperand, Target.bytes, bind_ok (popCode8_cons ..), if_neg (show MEMORY_CODE ≠ REGISTER_CODE by decide),
      if_neg (show MEMORY_CODE ≠ CONSTANT_CODE by decide), if_pos rfl]
    rw [List.append_assoc, List.append_assoc]
    have address : decodeMemory registers (width.bcd :: (base.bytes ++ (offset1.bytes ++ (offset2.bytes ++ [ratio.bcd])))) =
        .ok ((base.cut.value registers + offset1.cut.value registers + offset2.cut.signedValue registers) *
          BitVec.ofNat 64 ratio.factor, width.bcd) [] := by
      rw [decodeMemory, bind_ok (popCode8_cons ..), bind_ok (decodeParameter_known ..), bind_ok (decodeParameter_known ..),
        bind_ok (decodeSignedParameter_known ..), bind_ok (popCode8_cons ..), Ratio.ofBcd_bcd]
      dsimp only
      rw [Width.ofBcd_bcd]
      rfl
    rw [bind_ok address]
    rfl

/-- A memory reference with a register that does not exist is refused. -/
theorem decodeMemory_missing {ratio : Ratio} {width : Width} {base offset1 offset2 : EncodedParameter}
    (unresolved : (EncodedTarget.memory ratio width base offset1 offset2).resolve = none) :
    Fails (decodeMemory registers (width.bcd :: (base.bytes ++ (offset1.bytes ++ (offset2.bytes ++ [ratio.bcd]))))) := by
  rw [decodeMemory, bind_ok (popCode8_cons ..)]
  cases base with
  | missing index unknown => exact Fails.bind (decodeParameter_missing unknown _) _
  | known base =>
    rw [EncodedParameter.bytes, bind_ok (decodeParameter_known ..)]
    cases offset1 with
    | missing index unknown => exact Fails.bind (decodeParameter_missing unknown _) _
    | known offset1 =>
      rw [EncodedParameter.bytes, bind_ok (decodeParameter_known ..)]
      cases offset2 with
      | missing index unknown => exact Fails.bind (decodeSignedParameter_missing unknown _) _
      | known offset2 => cases unresolved

/-- The debugger refuses every operand that names a register which does not exist. -/
theorem decodeOperand_missing {encoded : EncodedTarget} (unresolved : encoded.resolve = none) :
    Fails (decodeOperand registers encoded.bytes) := by
  cases encoded with
  | register name => cases unresolved
  | constant literal => cases unresolved
  | missing index unknown =>
    rw [decodeOperand, EncodedTarget.bytes, bind_ok (popCode8_cons ..), if_pos rfl]
    exact Fails.bind (decodeRegister_missing unknown []) _
  | memory ratio width base offset1 offset2 =>
    rw [decodeOperand, EncodedTarget.bytes, bind_ok (popCode8_cons ..), if_neg (show MEMORY_CODE ≠ REGISTER_CODE by decide),
      if_neg (show MEMORY_CODE ≠ CONSTANT_CODE by decide), if_pos rfl, List.append_assoc, List.append_assoc]
    exact Fails.bind (decodeMemory_missing unresolved) _

theorem resolve_memory {ratio : Ratio} {width : Width} {base offset1 offset2 : EncodedParameter} {target : Target}
    (resolved : (EncodedTarget.memory ratio width base offset1 offset2).resolve = some target) :
    ∃ base' offset1' offset2', base = .known base' ∧ offset1 = .known offset1' ∧ offset2 = .known offset2' ∧
      target = .memory ratio width base' offset1' offset2' := by
  cases base with
  | missing index unknown => cases resolved
  | known base =>
    cases offset1 with
    | missing index unknown => cases resolved
    | known offset1 =>
      cases offset2 with
      | missing index unknown => cases resolved
      | known offset2 =>
        cases resolved
        exact ⟨base, offset1, offset2, rfl, rfl, rfl, rfl⟩

theorem bytes_of_resolve {encoded : EncodedTarget} {target : Target} (resolved : encoded.resolve = some target) :
    encoded.bytes = target.bytes := by
  cases encoded with
  | register name =>
    cases resolved
    rfl
  | missing index unknown => cases resolved
  | constant literal =>
    cases resolved
    rfl
  | memory ratio width base offset1 offset2 =>
    obtain ⟨base, offset1, offset2, rfl, rfl, rfl, rfl⟩ := resolve_memory resolved
    rfl

/-! ## The CPU on the same bytes -/

variable {machine : Machine}

theorem accessRegister_missing {index : Byte} (unknown : Register.ofCodes Width.w64.bcd index = none) :
    Fails (accessRegister Width.w64.bcd index machine) := by
  apply Fails.bind
  rw [selectRegister, unknown]
  exact ⟨_, _, rfl⟩

theorem cpu_decodeParameter_missing {index : Byte} (unknown : Register.ofCodes Width.w64.bcd index = none)
    (code : machine.Code (REGISTER_CODE :: Width.w64.bcd :: index :: rest)) : Fails (Sysdarft.decodeParameter machine) := by
  rw [Sysdarft.decodeParameter, bind_ok (popCode8_ok code), if_pos rfl, bind_ok (decodeRegister_ok code.tail)]
  exact accessRegister_missing unknown

theorem cpu_decodeSignedParameter_missing {index : Byte} (unknown : Register.ofCodes Width.w64.bcd index = none)
    (code : machine.Code (REGISTER_CODE :: Width.w64.bcd :: index :: rest)) :
    Fails (Sysdarft.decodeSignedParameter machine) := by
  rw [Sysdarft.decodeSignedParameter, bind_ok (popCode8_ok code), if_pos rfl, bind_ok (decodeRegister_ok code.tail)]
  exact Fails.bind (accessRegister_missing unknown) _

theorem cpu_decodeMemory_missing {ratio : Ratio} {width : Width} {base offset1 offset2 : EncodedParameter}
    (unresolved : (EncodedTarget.memory ratio width base offset1 offset2).resolve = none)
    (code : machine.Code (width.bcd :: (base.bytes ++ (offset1.bytes ++ (offset2.bytes ++ [ratio.bcd]))))) :
    Fails (Sysdarft.decodeMemory machine) := by
  rw [Sysdarft.decodeMemory, bind_ok (popCode8_ok code)]
  have codeBase := code.tail
  cases base with
  | missing index unknown => exact Fails.bind (cpu_decodeParameter_missing unknown codeBase) _
  | known base =>
    rw [EncodedParameter.bytes] at codeBase
    have codeOffset1 := codeBase.rest
    rw [bind_ok (decodeParameter_ok codeBase)]
    cases offset1 with
    | missing index unknown => exact Fails.bind (cpu_decodeParameter_missing unknown codeOffset1) _
    | known offset1 =>
      rw [EncodedParameter.bytes] at codeOffset1
      have codeOffset2 := codeOffset1.rest
      rw [bind_ok (decodeParameter_ok codeOffset1)]
      cases offset2 with
      | missing index unknown => exact Fails.bind (cpu_decodeSignedParameter_missing unknown codeOffset2) _
      | known offset2 => cases unresolved

/-- The CPU decodes a register that does not exist, and fails when it is accessed. -/
theorem cpu_decodeOperand_missing {index : Byte} (code : machine.Code [REGISTER_CODE, Width.w64.bcd, index]) :
    Sysdarft.decodeOperand machine = .ok (.register Width.w64.bcd index) (machine.advance 3) := by
  rw [Sysdarft.decodeOperand, bind_ok (popCode8_ok code), if_pos rfl, bind_ok (decodeRegister_ok code.tail),
    Machine.advance_advance]
  rfl

theorem cpu_decodeOperand_unresolved {ratio : Ratio} {width : Width} {base offset1 offset2 : EncodedParameter}
    (unresolved : (EncodedTarget.memory ratio width base offset1 offset2).resolve = none)
    (code : machine.Code (EncodedTarget.memory ratio width base offset1 offset2).bytes) :
    Fails (Sysdarft.decodeOperand machine) := by
  rw [EncodedTarget.bytes] at code
  rw [Sysdarft.decodeOperand, bind_ok (popCode8_ok code), if_neg (show MEMORY_CODE ≠ REGISTER_CODE by decide),
    if_neg (show MEMORY_CODE ≠ CONSTANT_CODE by decide), if_pos rfl]
  have memory := code.tail
  rw [List.append_assoc, List.append_assoc] at memory
  exact Fails.bind (cpu_decodeMemory_missing unresolved memory) _

/-! ## Agreement -/

/-- Two accesses with the same effect: both return the same value, or both throw. -/
def SameEffect {α : Type} : EStateM.Result Fault Machine α → EStateM.Result Fault Machine α → Prop
  | .ok first after, .ok second after' => first = second ∧ after = after'
  | .error _ after, .error _ after' => after = after'
  | _, _ => False

/-- The debugger sees and changes through an operand what the CPU sees and changes when it decodes the
same bytes at `CB:IP`. -/
def Agrees (machine : Machine) (bytes : List Byte) : Prop :=
  (∃ operand after, Sysdarft.decodeOperand machine = .ok operand after ∧ operandType bytes machine = .ok operand machine ∧
    SameEffect (operand.getVal after) (getVal operand after) ∧
    ∀ value, SameEffect (operand.setVal value after) (setVal value operand after)) ∨
  Fails (Sysdarft.decodeOperand machine) ∧ Fails (operandType bytes machine)

theorem SameEffect.refl {α : Type} (result : EStateM.Result Fault Machine α) : SameEffect result result := by
  cases result with
  | ok a after => exact ⟨rfl, rfl⟩
  | error fault after => exact rfl

theorem operandType_ok {bytes rest : List Byte} {operand : Operand}
    (decoded : decodeOperand machine.registers bytes = .ok operand rest) :
    operandType bytes machine = .ok operand machine := by
  simp only [operandType, bind_apply, getRegisters, get_apply, pure_apply, decoded]

theorem operandType_fails {bytes : List Byte} (failed : Fails (decodeOperand machine.registers bytes)) :
    Fails (operandType bytes machine) := by
  obtain ⟨fault, rest, known⟩ := failed
  refine ⟨fault, machine, ?_⟩
  simp only [operandType, bind_apply, getRegisters, get_apply, pure_apply, known, throw_apply]

/-- The words at an address and `%DB` bytes further are the same, or both lie outside memory. -/
def ReadsAlike (machine : Machine) (address : Word) (width : Width) : Prop :=
  (machine.Holds address width ↔ machine.Holds (machine.registers.DataBase + address) width) ∧
    (machine.Holds address width →
      machine.wordAt address width = machine.wordAt (machine.registers.DataBase + address) width)

/-- The address of a memory reference. -/
def memoryAddress (registers : Registers) (ratio : Ratio) (base offset1 offset2 : Parameter) : Word :=
  (base.value registers + offset1.value registers + offset2.signedValue registers) * BitVec.ofNat 64 ratio.factor

/-- The operands on which the debugger can be relied upon: registers, constants that fit 16 bits, and memory
references whose address does not change when constants are cut and whose word is found at `%DB` too. -/
def Faithful (machine : Machine) : Target → Prop
  | .register _ => True
  | .constant literal => literal.value.toNat < 2 ^ 16
  | .memory ratio width base offset1 offset2 =>
    memoryAddress machine.registers ratio base.cut offset1.cut offset2.cut =
        memoryAddress machine.registers ratio base offset1 offset2 ∧
      ReadsAlike machine (memoryAddress machine.registers ratio base offset1 offset2) width

/-- The same for what the assembler emits. A memory reference with a register that does not exist is refused
by both decoders. -/
def FaithfulEncoding (machine : Machine) : EncodedTarget → Prop
  | .missing _ _ => False
  | encoded => ∀ target, encoded.resolve = some target → Faithful machine target

variable {address : Word} {width : Width}

theorem getVal_inside (inside : machine.Holds (machine.registers.DataBase + address) width) :
    getVal (.memory address width.bcd) machine =
      .ok (machine.wordAt (machine.registers.DataBase + address) width) machine := by
  have length := width.toNat_bytes
  have read : readMemory (machine.registers.DataBase + address) (BitVec.ofNat 64 width.bytes) machine =
      .ok (FlatMemory.read machine.memory.peek (machine.registers.DataBase + address).toNat width.bytes) machine := by
    rw [readMemory_inside (by rw [length]; exact inside) (by rw [length]; exact width.bytes_pos), length]
  simp only [getVal, Width.ofBcd_bcd, bind_apply, getRegisters, get_apply, pure_apply, read]
  rfl

theorem getVal_outside (outside : ¬ machine.Holds (machine.registers.DataBase + address) width) :
    getVal (.memory address width.bcd) machine = .error (.illegalMemoryAccess "Memory access out of bounds") machine := by
  have length := width.toNat_bytes
  have failed : readMemory (machine.registers.DataBase + address) (BitVec.ofNat 64 width.bytes) machine =
      .error (.illegalMemoryAccess "Memory access out of bounds") machine :=
    readMemory_outside (by rw [length]; exact width.bytes_lt) (by rw [length]; exact not_le.mp outside)
  simp only [getVal, Width.ofBcd_bcd, bind_apply, getRegisters, get_apply, pure_apply, failed]

/-- Reading a memory operand: the debugger sees what the CPU sees exactly when both places read alike. -/
theorem sameEffect_memory : SameEffect ((Operand.memory address width.bcd).getVal machine)
    (getVal (.memory address width.bcd) machine) ↔ ReadsAlike machine address width := by
  by_cases inside : machine.Holds address width <;>
    by_cases based : machine.Holds (machine.registers.DataBase + address) width
  · rw [getVal_memory inside, getVal_inside based]
    simp [SameEffect, ReadsAlike, inside, based]
  · rw [getVal_memory inside, getVal_outside based]
    simp [SameEffect, ReadsAlike, inside, based]
  · rw [getVal_memory_outside inside, getVal_inside based]
    simp [SameEffect, ReadsAlike, inside, based]
  · rw [getVal_memory_outside inside, getVal_outside based]
    simp [SameEffect, ReadsAlike, inside, based]

theorem toNat_zeroExtend (constant : Constant) : (constant.value.setWidth 64).toNat = constant.value.toNat := by
  rw [BitVec.toNat_setWidth]
  exact Nat.mod_eq_of_lt (lt_of_lt_of_le constant.value.isLt (Nat.pow_le_pow_right (by decide) constant.width.bits_le))

theorem operand_cut_constant (constant : Constant) :
    (Target.constant constant).cut.operand registers = (Target.constant constant).operand registers ↔
      constant.value.toNat < 2 ^ 16 := by
  have same : constant.cut.width.bcd = constant.width.bcd := rfl
  rw [← constant.toNat_cut_eq_iff, Target.cut, Target.operand, Target.operand, Operand.constant.injEq,
    and_iff_left same, ← BitVec.toNat_inj, toNat_zeroExtend, toNat_zeroExtend]

theorem operand_cut_memory (ratio : Ratio) (width : Width) (base offset1 offset2 : Parameter) :
    (Target.memory ratio width base offset1 offset2).cut.operand registers =
        (Target.memory ratio width base offset1 offset2).operand registers ↔
      memoryAddress registers ratio base.cut offset1.cut offset2.cut =
        memoryAddress registers ratio base offset1 offset2 := by
  rw [Target.cut, Target.operand, Target.operand, Operand.memory.injEq, and_iff_left rfl]
  rfl

/-- For an operand whose registers exist, both decoders succeed. -/
theorem agrees_target_iff {target : Target} (code : machine.Code target.bytes) :
    Agrees machine target.bytes ↔
      target.cut.operand machine.registers = target.operand machine.registers ∧
        SameEffect ((target.operand machine.registers).getVal (machine.advance target.bytes.length))
          (getVal (target.operand machine.registers) (machine.advance target.bytes.length)) := by
  have decoded := decodeOperand_ok code.whole
  have debugged : operandType target.bytes machine = .ok (target.cut.operand machine.registers) machine :=
    operandType_ok (decodeOperand_target target)
  constructor
  · rintro (⟨operand, after, known, built, value, -⟩ | ⟨⟨_, _, failed⟩, -⟩)
    · rw [decoded] at known
      rw [debugged] at built
      injection known with same place
      injection built with same'
      subst same place
      exact ⟨same', value⟩
    · rw [decoded] at failed
      cases failed
  · rintro ⟨same, value⟩
    rw [same] at debugged
    exact .inl ⟨_, _, decoded, debugged, value, fun _ => SameEffect.refl _⟩

theorem agrees_iff_faithful {target : Target} (code : machine.Code target.bytes) :
    Agrees machine target.bytes ↔ Faithful machine target := by
  rw [agrees_target_iff code]
  cases target with
  | register register => exact ⟨fun _ => trivial, fun _ => ⟨rfl, SameEffect.refl _⟩⟩
  | constant constant =>
    rw [operand_cut_constant]
    exact ⟨fun both => both.1, fun small => ⟨small, SameEffect.refl _⟩⟩
  | memory ratio width base offset1 offset2 =>
    rw [operand_cut_memory]
    exact and_congr_right fun _ => sameEffect_memory

/-- Whatever the assembler emits for an operand, the debugger agrees with the CPU on it exactly when the
operand is faithful in the state of the machine. -/
theorem agrees_encoding_iff {encoded : EncodedTarget} (code : machine.Code encoded.bytes) :
    Agrees machine encoded.bytes ↔ FaithfulEncoding machine encoded := by
  cases known : encoded.resolve with
  | some target =>
    have bytes := bytes_of_resolve known
    rw [bytes] at code ⊢
    rw [agrees_iff_faithful code]
    cases encoded with
    | missing index unknown => cases known
    | register name =>
      cases known
      exact ⟨fun faithful _ same => by cases same; exact faithful, fun faithful => faithful _ rfl⟩
    | constant literal =>
      cases known
      exact ⟨fun faithful _ same => by cases same; exact faithful, fun faithful => faithful _ rfl⟩
    | memory ratio width base offset1 offset2 =>
      constructor
      · intro faithful other same
        rw [known] at same
        cases same
        exact faithful
      · intro faithful
        exact faithful target known
  | none =>
    have refused : Fails (operandType encoded.bytes machine) := operandType_fails (decodeOperand_missing known)
    cases encoded with
    | register name => cases known
    | constant literal => cases known
    | missing index unknown =>
      constructor
      · rintro (⟨operand, after, -, built, -⟩ | ⟨⟨_, _, failed⟩, -⟩)
        · obtain ⟨fault, after', failed⟩ := refused
          rw [built] at failed
          cases failed
        · rw [cpu_decodeOperand_missing code] at failed
          cases failed
      · exact False.elim
    | memory ratio width base offset1 offset2 =>
      constructor
      · intro _ target same
        rw [known] at same
        cases same
      · intro _
        exact .inr ⟨cpu_decodeOperand_unresolved known code, refused⟩

/-! ## From the text of an operand -/

open Coding

variable {bc : Calculator} {bytes : List Byte}

theorem encodeRegister_encoded {name : List Char} (valid : ValidRegister name) (accepted : encodeRegister name = .ok bytes) :
    (∃ register, registerBytes register = bytes) ∨
      ∃ index, Register.ofCodes Width.w64.bcd index = none ∧ [REGISTER_CODE, Width.w64.bcd, index] = bytes := by
  rcases valid.cases_emitted with ⟨register, -, emitted⟩ | large | ⟨err, failed⟩
  · exact .inl ⟨register, Except.ok.inj (emitted.symm.trans accepted)⟩
  · obtain ⟨digits, value, ⟨nonempty, all, -⟩, -, rfl⟩ := large
    have emitted := Except.ok.inj ((encodeRegister_full nonempty all).symm.trans accepted)
    rw [fullRegisterBytes] at emitted
    -- the number is cut to a byte, which may be that of an existing register
    cases known : Register.ofCodes Width.w64.bcd
        (BitVec.ofNat 8 (if Numerals.digitsValue 10 digits < 2 ^ 32 then Numerals.digitsValue 10 digits else 0)) with
    | none => exact .inr ⟨_, known, emitted⟩
    | some register =>
      obtain ⟨width, code⟩ := Register.codes_of_ofCodes known
      refine .inl ⟨register, ?_⟩
      rw [registerBytes, width, code]
      exact emitted
  · rw [accepted] at failed
    cases failed

theorem encodeParameter_encoded {text : List Char} (accepted : encodeParameter bc text = .ok bytes) :
    ∃ encoded : EncodedParameter, encoded.bytes = bytes := by
  by_cases isRegister : isValidRegister text = true
  · have valid := (isValidRegister_iff text).mp isRegister
    rcases valid.cases_parameter bc with ⟨same, -⟩ | ⟨err, failed⟩
    · rcases encodeRegister_encoded valid (same ▸ accepted) with ⟨register, rfl⟩ | ⟨index, unknown, rfl⟩
      · exact ⟨.known (.register register), rfl⟩
      · exact ⟨.missing index unknown, rfl⟩
    · rw [accepted] at failed
      cases failed
  · simp only [encodeParameter, isRegister, Bool.false_eq_true, ↓reduceIte] at accepted
    split_ifs at accepted with isConstant
    obtain ⟨width, expression, rfl, single⟩ := (isValidConstant_iff text).mp isConstant
    obtain ⟨found, hit, group1, group2⟩ := search_constantText width single
    simp only [hit, group1, group2] at accepted
    obtain ⟨value, -, rfl⟩ := encodeConstant_ok_iff.mp accepted
    exact ⟨.known (.constant (ofValue width value)), rfl⟩

theorem encodeMemory_encoded {ratio : Ratio} {width : Width} {base offset1 offset2 : List Char}
    (accepted : encodeMemory bc ratio.digits width.digits base offset1 offset2 = .ok bytes) :
    ∃ encoded : EncodedTarget, encoded.bytes = bytes := by
  simp only [encodeMemory, encodeMemoryWidthPrefix, widthOfDigits_digits, encodeRatio, ratioOfDigits_digits,
    Effects.except_bind_eq_ok] at accepted
  obtain ⟨_, widthed, bytes1, first, bytes2, second, bytes3, third, finished⟩ := accepted
  cases widthed
  cases finished
  obtain ⟨parameter1, rfl⟩ := encodeParameter_encoded first
  obtain ⟨parameter2, rfl⟩ := encodeParameter_encoded second
  obtain ⟨parameter3, rfl⟩ := encodeParameter_encoded third
  exact ⟨.memory ratio width parameter1 parameter2 parameter3, by simp [EncodedTarget.bytes]⟩

theorem encodeTarget_encoded {text : List Char} {parsed : ParsedTarget}
    (accepted : encodeTarget bc text = .ok (parsed, bytes)) : ∃ encoded : EncodedTarget, encoded.bytes = bytes := by
  obtain ⟨parsed', parse, emit⟩ := Effects.except_bind_eq_ok.mp accepted
  have parses := (parse_ok_iff ..).mp parse
  generalize normalize text = name at parses
  cases parses with
  | register valid =>
    obtain ⟨emitted, encoded, same⟩ := Effects.except_bind_eq_ok.mp emit
    cases same
    rcases encodeRegister_encoded valid encoded with ⟨register, rfl⟩ | ⟨index, unknown, rfl⟩
    · exact ⟨.register register, rfl⟩
    · exact ⟨.missing index unknown, rfl⟩
  | constant single =>
    obtain ⟨emitted, encoded, same⟩ := Effects.except_bind_eq_ok.mp emit
    cases same
    obtain ⟨value, -, rfl⟩ := encodeConstant_ok_iff.mp encoded
    exact ⟨.constant (ofValue _ value), rfl⟩
  | memory first second third =>
    obtain ⟨emitted, encoded, same⟩ := Effects.except_bind_eq_ok.mp emit
    cases same
    exact encodeMemory_encoded encoded

/-- For every operand that the assembler encodes and every machine with its bytes at `CB:IP`: the debugger
sees and changes what the CPU sees and changes exactly when the operand is faithful. -/
theorem debugger_agrees_iff {text : List Char} {parsed : ParsedTarget}
    (accepted : encodeTarget bc text = .ok (parsed, bytes)) (code : machine.Code bytes) :
    ∃ encoded : EncodedTarget, encoded.bytes = bytes ∧ (Agrees machine bytes ↔ FaithfulEncoding machine encoded) := by
  obtain ⟨encoded, rfl⟩ := encodeTarget_encoded accepted
  exact ⟨encoded, rfl, agrees_encoding_iff code⟩

/-- A machine with the bytes of an operand where execution starts. -/
def withOperand (bytes : List Byte) : Machine := Machine.powerOn.overwrite BIOS_START bytes

/-- The debugger reads the constant 5 as the CPU does. -/
theorem debugger_agrees_iff_constant :
    Agrees (withOperand [0x02, 0x64, 5, 0, 0, 0, 0, 0, 0, 0]) [0x02, 0x64, 5, 0, 0, 0, 0, 0, 0, 0] := by
  have accepted : encodeTarget numeralCalculator "$64(5)".toList =
      .ok (.constant "64".toList "5".toList, [0x02, 0x64, 5, 0, 0, 0, 0, 0, 0, 0]) := by
    decide +kernel
  have code : (withOperand [0x02, 0x64, 5, 0, 0, 0, 0, 0, 0, 0]).Code [0x02, 0x64, 5, 0, 0, 0, 0, 0, 0, 0] := by
    rw [Machine.Code]
    decide +kernel
  obtain ⟨encoded, same, agrees⟩ := debugger_agrees_iff accepted code
  refine agrees.mpr ?_
  cases encoded with
  | register name => exact absurd (List.cons.inj same).1 (by decide)
  | missing index unknown => exact absurd (List.cons.inj same).1 (by decide)
  | memory ratio width base offset1 offset2 => exact absurd (List.cons.inj same).1 (by decide)
  | constant literal =>
    intro target resolved
    cases resolved
    obtain ⟨width, value⟩ := literal
    obtain ⟨head, payload⟩ := List.cons.inj (List.cons.inj same).2
    replace head : width.bcd = 0x64 := head
    cases width with
    | w8 | w16 | w32 => exact absurd head (by decide)
    | w64 =>
      have five : value.toNat % 256 ^ 8 = 5 % 256 ^ 8 := LittleEndian.bytes_inj.mp payload
      have bound := value.isLt
      change value.toNat < 2 ^ 16
      change value.toNat < 2 ^ 64 at bound
      omega

/-- The debugger reads the constant 65536 as zero. -/
theorem not_agrees_constant :
    ¬ ∀ (bc : Calculator) (text : List Char) (parsed : ParsedTarget) (bytes : List Byte) (machine : Machine),
      encodeTarget bc text = .ok (parsed, bytes) → machine.Code bytes → Agrees machine bytes := by
  intro agrees
  let literal : Constant := ⟨.w64, 65536⟩
  have accepted : encodeTarget numeralCalculator "$64(65536)".toList =
      .ok (.constant "64".toList "65536".toList, (EncodedTarget.constant literal).bytes) := by
    decide +kernel
  have code : (withOperand (EncodedTarget.constant literal).bytes).Code (EncodedTarget.constant literal).bytes := by
    rw [Machine.Code]
    decide +kernel
  have faithful : literal.value.toNat < 2 ^ 16 :=
    (agrees_encoding_iff code).mp (agrees _ _ _ _ _ accepted code) _ rfl
  exact absurd faithful (by decide)

end Sysdarft.Debugger
