import Sysdarft.Proofs.DecoderFrame

/-! # Operand access

What reading and storing an operand does. An operand is classified by what it refers to in a state:
a register that exists, a constant, or bytes that lie in memory. Reads of a memory operand go through
`pop_memory_from`, which turns an access outside memory into a stack overflow; stores do not.
-/

namespace Sysdarft

open Effects

/-! ## What an access leaves alone -/

/-- Reading an operand changes nothing. -/
theorem keeps_getVal {τ : Type} {view : Machine → τ} (operand : Operand) : Keeps view operand.getVal := by
  cases operand with
  | register widthBCD index => exact keeps_accessRegister widthBCD index
  | constant value width => exact keeps_pure value
  | memory address widthBCD =>
    rw [Operand.getVal]
    split
    · exact keeps_throw _
    · exact keeps_bind (keeps_popMemoryFrom 0 address _) fun _ => keeps_pure _

theorem keeps_operand {τ : Type} {view : Machine → τ} (arguments : Arguments) (index : ℕ) :
    Keeps view (arguments.operand index) := by
  rw [Arguments.operand]
  split
  · exact keeps_pure _
  · exact keeps_throw _

theorem keeps_argument {τ : Type} {view : Machine → τ} (arguments : Arguments) (index : ℕ) :
    Keeps view (arguments.getVal index) :=
  keeps_bind (keeps_operand arguments index) keeps_getVal

/-- The devices and the image files they work on. -/
def Machine.devices (machine : Machine) : List ExternalDevice × (String → ImageFile) :=
  (machine.device_list, machine.image_files)

theorem keeps_devices_writeMemory (address : Word) (source : List Byte) (size : Word) :
    Keeps Machine.devices (writeMemory address source size) := by
  intro machine
  simp only [writeMemory]
  split <;> rfl

theorem keeps_devices_setVal (value : Word) (operand : Operand) : Keeps Machine.devices (operand.setVal value) := by
  cases operand with
  | register widthBCD index => exact keeps_bind (keeps_selectRegister widthBCD index) fun _ _ => rfl
  | constant constant width => exact keeps_throw _
  | memory address widthBCD =>
    rw [Operand.setVal]
    split
    · exact keeps_throw _
    · exact keeps_devices_writeMemory address _ _

theorem keeps_devices_argument (arguments : Arguments) (index : ℕ) (value : Word) :
    Keeps Machine.devices (arguments.setVal index value) :=
  keeps_bind (keeps_operand arguments index) (keeps_devices_setVal value)

/-! ## Registers -/

theorem Registers.load_lt (registers : Registers) (register : Register) :
    (registers.load register).toNat < 2 ^ register.width.bits := by
  cases register with
  | general width index =>
    have small := ((registers.FullyExtendedRegister (Registers.home width index)).extractLsb'
      (Registers.position width index) width.bits).isLt
    simp only [Registers.load, Register.width, BitVec.toNat_setWidth]
    exact lt_of_le_of_lt (Nat.mod_le ..) small
  | special special => cases special <;> exact BitVec.isLt _

@[simp] theorem Registers.store_FlagRegister (registers : Registers) (value : Word) (register : Register) :
    (registers.store value register).FlagRegister = registers.FlagRegister := by
  cases register with
  | general width index => rfl
  | special special => cases special <;> rfl

/-- A register that the tables have, with its width. -/
def Operand.ofRegister (register : Register) : Operand := .register register.width.bcd register.code

theorem selectRegister_ok (register : Register) (machine : Machine) :
    selectRegister register.width.bcd register.code machine = .ok register machine := by
  rw [selectRegister, Register.ofCodes_codes]
  rfl

theorem getVal_register (register : Register) (machine : Machine) :
    (Operand.ofRegister register).getVal machine = .ok (machine.registers.load register) machine := by
  simp only [Operand.ofRegister, Operand.getVal, accessRegister, bind_apply, selectRegister_ok, getRegisters, get_apply,
    pure_apply]

theorem setVal_register (register : Register) (value : Word) (machine : Machine) :
    (Operand.ofRegister register).setVal value machine =
      .ok () { machine with registers := machine.registers.store value register } := by
  simp only [Operand.ofRegister, Operand.setVal, bind_apply, selectRegister_ok, modifyRegisters, modify_apply]

/-! ## Memory -/

/-- The bytes of a memory operand lie in memory. -/
def Machine.Holds (machine : Machine) (address : Word) (width : Width) : Prop :=
  address.toNat + width.bytes ≤ machine.memory.total

instance (machine : Machine) (address : Word) (width : Width) : Decidable (machine.Holds address width) :=
  inferInstanceAs (Decidable (_ ≤ _))

/-- The value of a memory operand. -/
def Machine.wordAt (machine : Machine) (address : Word) (width : Width) : Word :=
  BitVec.ofNat 64 (LittleEndian.value (FlatMemory.read machine.memory.peek address.toNat width.bytes))

theorem Width.toNat_bytes (width : Width) : (BitVec.ofNat 64 width.bytes).toNat = width.bytes := by
  cases width <;> rfl

theorem Width.bytes_lt (width : Width) : width.bytes < 2 ^ 63 := by
  cases width <;> decide

variable {machine : Machine} {address : Word} {width : Width}

theorem Machine.wordAt_lt (machine : Machine) (address : Word) (width : Width) :
    (machine.wordAt address width).toNat < 2 ^ width.bits := by
  have small := LittleEndian.value_lt (FlatMemory.read machine.memory.peek address.toNat width.bytes)
  rw [FlatMemory.length_read, ← width.two_pow_bits] at small
  rw [Machine.wordAt, BitVec.toNat_ofNat]
  exact lt_of_le_of_lt (Nat.mod_le ..) small

theorem getVal_memory (inside : machine.Holds address width) :
    (Operand.memory address width.bcd).getVal machine = .ok (machine.wordAt address width) machine := by
  have unbased : (0 : Word) + address = address := BitVec.zero_add address
  have popped := popMemoryFrom_inside machine 0 address (BitVec.ofNat 64 width.bytes)
    (by rw [width.toNat_bytes]; exact width.bytes_pos) (by rw [width.toNat_bytes, unbased]; exact inside)
  rw [width.toNat_bytes, unbased] at popped
  simp only [Operand.getVal, Width.ofBcd_bcd, bind_apply, popped, pure_apply, Machine.wordAt]

/-- A read outside memory is reported as a stack overflow. -/
theorem getVal_memory_outside (outside : ¬ machine.Holds address width) :
    (Operand.memory address width.bcd).getVal machine = .error .stackOverflow machine := by
  have unbased : (0 : Word) + address = address := BitVec.zero_add address
  have popped := popMemoryFrom_outside machine 0 address (BitVec.ofNat 64 width.bytes)
    (by rw [width.toNat_bytes]; exact width.bytes_lt)
    (by rw [width.toNat_bytes, unbased]; exact not_le.mp outside)
  simp only [Operand.getVal, Width.ofBcd_bcd, bind_apply, popped]

theorem setVal_memory (value : Word) (inside : machine.Holds address width) :
    (Operand.memory address width.bcd).setVal value machine =
      .ok () (machine.overwrite address.toNat (LittleEndian.bytes width.bytes value.toNat)) := by
  simp only [Operand.setVal, Width.ofBcd_bcd]
  apply writeMemory_inside
  · rw [width.toNat_bytes]
    exact inside
  · rw [width.toNat_bytes]
    exact width.bytes_pos
  · rw [width.toNat_bytes, LittleEndian.length_bytes]

/-- A store outside memory is reported as what it is. -/
theorem setVal_memory_outside (value : Word) (outside : ¬ machine.Holds address width) :
    (Operand.memory address width.bcd).setVal value machine =
      .error (.illegalMemoryAccess "Memory access out of bounds") machine := by
  simp only [Operand.setVal, Width.ofBcd_bcd]
  apply writeMemory_outside
  · rw [width.toNat_bytes]
    exact width.bytes_lt
  · rw [width.toNat_bytes]
    exact not_le.mp outside

/-- A stored value reads back, cut to the width. -/
theorem wordAt_overwrite (value : Word) (inside : machine.Holds address width) :
    (machine.overwrite address.toNat (LittleEndian.bytes width.bytes value.toNat)).wordAt address width =
      BitVec.ofNat 64 (value.toNat % 2 ^ width.bits) := by
  have length : (LittleEndian.bytes width.bytes value.toNat).length = width.bytes := LittleEndian.length_bytes ..
  have view : (machine.overwrite address.toNat (LittleEndian.bytes width.bytes value.toNat)).memory.peek =
      FlatMemory.write machine.memory.peek address.toNat (LittleEndian.bytes width.bytes value.toNat) := by
    apply GuestMemory.peek_overwrite
    rw [length]
    exact inside
  have back : FlatMemory.read (machine.overwrite address.toNat (LittleEndian.bytes width.bytes value.toNat)).memory.peek
      address.toNat width.bytes = LittleEndian.bytes width.bytes value.toNat := by
    rw [view]
    exact FlatMemory.read_write_whole length
  rw [Machine.wordAt, back, LittleEndian.value_bytes, width.two_pow_bits]

/-! ## Places -/

/-- An operand of a width that can be stored to: a register, or bytes in memory. -/
inductive Operand.Writable (machine : Machine) : Width → Operand → Prop where
  | register (register : Register) : Writable machine register.width (.ofRegister register)
  | memory {address : Word} {width : Width} (inside : machine.Holds address width) :
      Writable machine width (.memory address width.bcd)

/-- An operand of a width that can be read. -/
inductive Operand.Readable (machine : Machine) : Width → Operand → Prop where
  | place {width : Width} {operand : Operand} (writable : operand.Writable machine width) :
      Readable machine width operand
  | constant {width : Width} {value : Word} (small : value.toNat < 2 ^ width.bits) :
      Readable machine width (.constant value width.bcd)

theorem Operand.Readable.getVal {operand : Operand} (readable : operand.Readable machine width) :
    ∃ value : Word, operand.getVal machine = .ok value machine ∧ value.toNat < 2 ^ width.bits := by
  cases readable with
  | place writable =>
    cases writable with
    | register register => exact ⟨_, getVal_register register machine, machine.registers.load_lt register⟩
    | memory inside => exact ⟨_, getVal_memory inside, machine.wordAt_lt _ _⟩
  | @constant value small => exact ⟨value, rfl, small⟩

theorem Operand.Readable.value_lt {operand : Operand} {value : Word} (readable : operand.Readable machine width)
    (known : operand.getVal machine = .ok value machine) : value.toNat < 2 ^ width.bits := by
  obtain ⟨found, reads, small⟩ := readable.getVal
  rw [known] at reads
  injection reads with same
  rw [same]
  exact small

/-- Storing to a place changes neither the flags nor what else is readable there. -/
theorem Operand.Writable.setVal {operand : Operand} (writable : operand.Writable machine width) (value : Word) :
    ∃ after, operand.setVal value machine = .ok () after ∧
      after.registers.FlagRegister = machine.registers.FlagRegister ∧
      operand.getVal after = .ok (BitVec.ofNat 64 (value.toNat % 2 ^ width.bits)) after := by
  cases writable with
  | register register =>
    refine ⟨_, setVal_register register value machine, Registers.store_FlagRegister .., ?_⟩
    rw [getVal_register, Registers.load_store]
    congr 1
    apply BitVec.eq_of_toNat_eq
    rw [BitVec.toNat_setWidth, BitVec.toNat_setWidth, BitVec.toNat_ofNat]
  | @memory address _ inside =>
    have still : (machine.overwrite address.toNat (LittleEndian.bytes width.bytes value.toNat)).Holds address width := inside
    refine ⟨_, setVal_memory value inside, rfl, ?_⟩
    rw [getVal_memory still, wordAt_overwrite value inside]

end Sysdarft
