import Sysdarft.Model.Operations
import Sysdarft.Model.OperandTable
import Sysdarft.Proofs.DecoderFormat
import Sysdarft.Proofs.OperandAccess

/-! # Effective addresses

The decoder of a memory operand fills one table three times before it stores the address in it. The
table decoder agrees with the one that passes the values on, so no parameter disturbs another. The
address is then computed in the integers: the base and the first offset as they are, the second
offset signed, scaled by the ratio and taken modulo `2^64`.
-/

namespace Sysdarft

open Effects Format

/-! ## The table passes the values on -/

namespace ReferenceTable

theorem agrees_decodeRegister (table : ReferenceTable) :
    Agrees (fun after codes => after.RegisterWidthBCD = codes.1 ∧ after.RegisterIndex = codes.2 ∧
        after.OperandType = .RegisterOperand ∧ after.MemoryAddress = table.MemoryAddress)
      table.decodeRegister Sysdarft.decodeRegister := by
  refine agrees_bind (agrees_refl _) ?_
  rintro width _ rfl
  refine agrees_bind (agrees_refl _) ?_
  rintro index _ rfl
  exact agrees_pure ⟨rfl, rfl, rfl, rfl⟩

theorem agrees_decodeConstant (table : ReferenceTable) :
    Agrees (fun after constant => after.ConstantValue = constant.1 ∧ after.ConstantWidth = constant.2.bcd ∧
        after.OperandType = .ConstantOperand ∧ after.MemoryAddress = table.MemoryAddress)
      table.decodeConstant Sysdarft.decodeConstant := by
  refine agrees_bind (agrees_refl _) ?_
  rintro code _ rfl
  cases known : Width.ofBcd code with
  | none => exact agrees_throw _
  | some width =>
    refine agrees_bind (agrees_refl _) ?_
    rintro value _ rfl
    exact agrees_pure ⟨rfl, (Width.bcd_of_ofBcd known).symm, rfl, rfl⟩

/-- Whatever the parameters before it left in the table, a parameter has its own value. -/
theorem agrees_decodeParameter (table : ReferenceTable) :
    Agrees (fun copied value => copied.1 = value) table.decodeParameter Sysdarft.decodeParameter := by
  refine agrees_bind (agrees_refl _) ?_
  rintro code _ rfl
  refine agrees_ite ?_ (agrees_ite ?_ (agrees_throw _))
  · refine agrees_bind table.agrees_decodeRegister ?_
    rintro after ⟨width, index⟩ ⟨rfl, rfl, -, -⟩
    dsimp only
    rw [← bind_pure (Sysdarft.accessRegister after.RegisterWidthBCD _)]
    refine agrees_bind (agrees_refl _) ?_
    rintro value _ rfl
    exact agrees_pure rfl
  · refine agrees_bind table.agrees_decodeConstant ?_
    rintro after constant ⟨same, -, -, -⟩
    exact agrees_pure same

theorem agrees_decodeSignedParameter (table : ReferenceTable) :
    Agrees (fun copied value => copied.1 = value) table.decodeSignedParameter Sysdarft.decodeSignedParameter := by
  refine agrees_bind (agrees_refl _) ?_
  rintro code _ rfl
  refine agrees_ite ?_ (agrees_ite ?_ (agrees_throw _))
  · refine agrees_bind table.agrees_decodeRegister ?_
    rintro after ⟨widthBCD, index⟩ ⟨rfl, rfl, -, -⟩
    refine agrees_bind (agrees_refl _) ?_
    rintro value _ rfl
    cases Width.ofBcd after.RegisterWidthBCD with
    | none => exact agrees_throw _
    | some width => exact agrees_pure rfl
  · refine agrees_bind table.agrees_decodeConstant ?_
    rintro after ⟨value, width⟩ ⟨rfl, same, -, -⟩
    dsimp only at same
    simp only [same, Width.ofBcd_bcd]
    exact agrees_pure rfl

/-- The table ends with the address and the width of the memory operand. -/
theorem agrees_decodeMemory (table : ReferenceTable) :
    Agrees (fun after reference => after.Represents (.memory reference.1 reference.2))
      table.decodeMemory Sysdarft.decodeMemory := by
  refine agrees_bind (agrees_refl _) ?_
  rintro widthBCD _ rfl
  refine agrees_bind table.agrees_decodeParameter ?_
  rintro ⟨base, first⟩ _ rfl
  refine agrees_bind first.agrees_decodeParameter ?_
  rintro ⟨off1, second⟩ _ rfl
  refine agrees_bind second.agrees_decodeSignedParameter ?_
  rintro ⟨off2, third⟩ _ rfl
  refine agrees_bind (agrees_refl _) ?_
  rintro ratioBCD _ rfl
  cases Ratio.ofBcd ratioBCD with
  | none => exact agrees_throw _
  | some ratio =>
    cases Width.ofBcd widthBCD with
    | none => exact agrees_throw _
    | some width => exact agrees_pure ⟨rfl, rfl, rfl⟩

/-- An operand is read from a table that starts out empty. -/
theorem agrees_decodeOperand : Agrees Represents empty.decodeOperand Sysdarft.decodeOperand := by
  refine agrees_bind (agrees_refl _) ?_
  rintro code _ rfl
  refine agrees_ite ?_ (agrees_ite ?_ (agrees_ite ?_ (agrees_throw _)))
  · refine agrees_bind_right empty.agrees_decodeRegister ?_
    rintro after codes ⟨width, index, kind, address⟩
    exact agrees_pure ⟨kind, width, index, address⟩
  · refine agrees_bind_right empty.agrees_decodeConstant ?_
    rintro after constant ⟨value, width, kind, address⟩
    exact agrees_pure ⟨kind, value, width, address⟩
  · refine agrees_bind_right empty.agrees_decodeMemory ?_
    rintro after reference represents
    exact agrees_pure represents

variable {table : ReferenceTable} {operand : Operand}

theorem Represents.getVal (represents : table.Represents operand) : table.getVal = operand.getVal := by
  cases operand with
  | register widthBCD index =>
    obtain ⟨kind, rfl, rfl, -⟩ := represents
    rw [ReferenceTable.getVal, kind]
    rfl
  | constant value width =>
    obtain ⟨kind, rfl, -, -⟩ := represents
    rw [ReferenceTable.getVal, kind]
    rfl
  | memory address widthBCD =>
    obtain ⟨kind, rfl, rfl⟩ := represents
    rw [ReferenceTable.getVal, kind]
    rfl

theorem Represents.setVal (represents : table.Represents operand) (value : Word) :
    table.setVal value = operand.setVal value := by
  cases operand with
  | register widthBCD index =>
    obtain ⟨kind, rfl, rfl, -⟩ := represents
    rw [ReferenceTable.setVal, kind]
    rfl
  | constant constant width =>
    obtain ⟨kind, rfl, -, -⟩ := represents
    rw [ReferenceTable.setVal, kind]
    rfl
  | memory address widthBCD =>
    obtain ⟨kind, rfl, rfl⟩ := represents
    rw [ReferenceTable.setVal, kind]
    rfl

theorem Represents.getEffectiveAddr (represents : table.Represents operand) :
    table.getEffectiveAddr = operand.getEffectiveAddr := by
  cases operand with
  | register widthBCD index => exact represents.2.2.2
  | constant value width => exact represents.2.2.2
  | memory address widthBCD => exact represents.2.1

end ReferenceTable

/-! ## The address in the integers -/

/-- The decimal value of a BCD byte. -/
def decimal (bcd : Byte) : ℕ := bcd.toNat / 16 * 10 + bcd.toNat % 16

theorem Ratio.decimal_bcd (ratio : Ratio) : decimal ratio.bcd = ratio.factor := by
  cases ratio <;> rfl

namespace Format

/-- A parameter of its own width as a natural number. -/
def Parameter.unsigned (registers : Registers) : Parameter → ℕ
  | .register name => (registers.load name).toNat
  | .constant literal => literal.value.toNat

/-- A parameter of its own width as a signed number. -/
def Parameter.signed (registers : Registers) : Parameter → ℤ
  | .register name => ((registers.load name).setWidth name.width.bits).toInt
  | .constant literal => literal.value.toInt

/-- `ratio * (base + offset1 + offset2)`, modulo `2^64`. -/
def effectiveAddress (registers : Registers) (ratio : Ratio) (base offset1 offset2 : Parameter) : Word :=
  BitVec.ofInt 64
    (decimal ratio.bcd * (base.unsigned registers + offset1.unsigned registers + offset2.signed registers))

theorem Parameter.value_eq (registers : Registers) (parameter : Parameter) :
    parameter.value registers = BitVec.ofInt 64 (parameter.unsigned registers) := by
  cases parameter with
  | register name =>
    rw [value, unsigned, BitVec.ofInt_natCast, BitVec.ofNat_toNat, BitVec.setWidth_eq]
  | constant literal =>
    rw [value, unsigned, BitVec.ofInt_natCast, BitVec.ofNat_toNat]

theorem Parameter.signedValue_eq (registers : Registers) (parameter : Parameter) :
    parameter.signedValue registers = BitVec.ofInt 64 (parameter.signed registers) := by
  cases parameter with
  | register name => rfl
  | constant literal =>
    have narrow : (literal.value.setWidth 64).setWidth literal.width.bits = literal.value := by
      have bounded : literal.width.bits ≤ 64 := by cases literal.width <;> decide
      rw [BitVec.setWidth_setWidth_of_le _ bounded, BitVec.setWidth_eq]
    rw [signedValue, signExtend, narrow]
    rfl

/-- The address the decoder computes. -/
theorem operand_memory (registers : Registers) (ratio : Ratio) (width : Width) (base offset1 offset2 : Parameter) :
    (Target.memory ratio width base offset1 offset2).operand registers =
      .memory (effectiveAddress registers ratio base offset1 offset2) width.bcd := by
  rw [Target.operand, effectiveAddress, Parameter.value_eq, Parameter.value_eq, Parameter.signedValue_eq,
    ratio.decimal_bcd, ← BitVec.ofInt_add, ← BitVec.ofInt_add, ← BitVec.ofInt_natCast, ← BitVec.ofInt_mul,
    mul_comm]

end Format

/-! ## Use of the address -/

/-- Loads, stores and `LEA` of the operand use the address. -/
structure Operand.Uses (operand : Operand) (address : Word) (width : Width) : Prop where
  loads : ∀ machine : Machine, operand.getVal machine =
    if machine.Holds address width then .ok (machine.wordAt address width) machine
    else .error .stackOverflow machine
  stores : ∀ (machine : Machine) (value : Word), operand.setVal value machine =
    if machine.Holds address width then
      .ok () (machine.overwrite address.toNat (LittleEndian.bytes width.bytes value.toNat))
    else .error (.illegalMemoryAccess "Memory access out of bounds") machine
  leads : ∀ (bcdWidth : Byte) (destination : Operand),
    lea ⟨bcdWidth, [destination, operand]⟩ = destination.setVal address

theorem Operand.memory_uses (address : Word) (width : Width) : (Operand.memory address width.bcd).Uses address width where
  loads machine := by
    split_ifs with inside
    · exact getVal_memory inside
    · exact getVal_memory_outside inside
  stores machine value := by
    split_ifs with inside
    · exact setVal_memory value inside
    · exact setVal_memory_outside value inside
  leads bcdWidth destination := by
    funext machine
    simp only [lea, Arguments.operand, Arguments.setVal, List.getElem?_cons_zero, List.getElem?_cons_succ, pure_bind]
    rfl

/-- A table that loads, stores and is led to as the operand is. -/
structure ReferenceTable.ActsAs (table : ReferenceTable) (operand : Operand) : Prop where
  loads : table.getVal = operand.getVal
  stores : ∀ value, table.setVal value = operand.setVal value
  leads : table.getEffectiveAddr = operand.getEffectiveAddr

theorem ReferenceTable.Represents.actsAs {table : ReferenceTable} {operand : Operand}
    (represents : table.Represents operand) : table.ActsAs operand where
  loads := represents.getVal
  stores := represents.setVal
  leads := represents.getEffectiveAddr

/-- The effective addresses of the memory operands at `CB:IP`. -/
structure EffectiveAddressing (machine : Machine) : Prop where
  /-- Every encoding of a memory operand is decoded into a table that uses its effective address. -/
  decoded : ∀ (ratio : Ratio) (width : Width) (base offset1 offset2 : Parameter) (rest : List Byte),
    machine.Code ((Target.memory ratio width base offset1 offset2).bytes ++ rest) →
    ∃ (table : ReferenceTable) (operand : Operand) (after : Machine),
      ReferenceTable.empty.decodeOperand machine = .ok table after ∧ table.ActsAs operand ∧
        operand.Uses (effectiveAddress machine.registers ratio base offset1 offset2) width
  /-- So are the memory operands of an instruction, each from the registers before the instruction. -/
  fetched : ∀ (instruction : Instruction) (rest : List Byte), machine.Code (instruction.bytes ++ rest) →
    ∃ (active : ActiveInstruction) (after : Machine), fetch machine = .ok active after ∧
      List.Forall₂ (fun target operand => ∀ (ratio : Ratio) (width : Width) (base offset1 offset2 : Parameter),
          target = Target.memory ratio width base offset1 offset2 →
          Operand.Uses operand (effectiveAddress machine.registers ratio base offset1 offset2) width)
        instruction.operands active.operands
  /-- Nothing else is decoded into a memory operand. -/
  only : ∀ (table : ReferenceTable) (after : Machine), ReferenceTable.empty.decodeOperand machine = .ok table after →
    table.OperandType = .MemoryOperand →
    ∃ (ratio : Ratio) (width : Width) (base offset1 offset2 : Parameter),
      machine.Code (Target.memory ratio width base offset1 offset2).bytes ∧
        table.getEffectiveAddr = effectiveAddress machine.registers ratio base offset1 offset2

theorem tableOperand_ok {machine : Machine} {target : Target} {rest : List Byte}
    (code : machine.Code (target.bytes ++ rest)) :
    ∃ table, ReferenceTable.empty.decodeOperand machine = .ok table (machine.advance target.bytes.length) ∧
      table.Represents (target.operand machine.registers) := by
  have same := ReferenceTable.agrees_decodeOperand machine
  rw [decodeOperand_ok code] at same
  generalize left : ReferenceTable.empty.decodeOperand machine = result at same ⊢
  cases same with
  | ok represents => exact ⟨_, rfl, represents⟩

theorem tableOperand_inv {machine after : Machine} {table : ReferenceTable}
    (decoded : ReferenceTable.empty.decodeOperand machine = .ok table after) :
    ∃ operand, decodeOperand machine = .ok operand after ∧ table.Represents operand := by
  have same := ReferenceTable.agrees_decodeOperand machine
  rw [decoded] at same
  generalize right : decodeOperand machine = result at same ⊢
  cases same with
  | ok represents => exact ⟨_, rfl, represents⟩

/-- A table of a memory operand represents one. -/
theorem ReferenceTable.Represents.memory {table : ReferenceTable} {operand : Operand}
    (represents : table.Represents operand) (kind : table.OperandType = .MemoryOperand) :
    ∃ address widthBCD, operand = .memory address widthBCD := by
  cases operand with
  | register widthBCD index => exact absurd (kind.symm.trans represents.1) (by decide)
  | constant value width => exact absurd (kind.symm.trans represents.1) (by decide)
  | memory address widthBCD => exact ⟨address, widthBCD, rfl⟩

theorem effective_address (machine : Machine) : EffectiveAddressing machine where
  decoded ratio width base offset1 offset2 rest code := by
    obtain ⟨table, decoded, represents⟩ := tableOperand_ok code
    rw [operand_memory] at represents
    exact ⟨table, _, _, decoded, represents.actsAs, Operand.memory_uses _ width⟩
  fetched instruction rest code := by
    obtain ⟨after, fetched, -, -⟩ := fetch_bytes instruction code
    refine ⟨_, after, fetched, ?_⟩
    rw [Instruction.active, List.forall₂_map_right_iff, List.forall₂_same]
    rintro target - ratio width base offset1 offset2 rfl
    rw [operand_memory]
    exact Operand.memory_uses _ width
  only table after decoded kind := by
    obtain ⟨operand, plain, represents⟩ := tableOperand_inv decoded
    obtain ⟨address, widthBCD, rfl⟩ := represents.memory kind
    obtain ⟨target, code, -⟩ := decodeOperand_inv plain trivial
    have again := decodeOperand_ok code.whole
    rw [plain] at again
    cases target with
    | register name => cases again
    | constant literal => cases again
    | memory ratio width base offset1 offset2 =>
      refine ⟨ratio, width, base, offset1, offset2, code, ?_⟩
      rw [operand_memory] at again
      injection again with same
      injection same with address_eq
      exact represents.getEffectiveAddr.trans address_eq

end Sysdarft
