import Sysdarft.Library.FlatMemory
import Sysdarft.Proofs.OperandAccess
import Sysdarft.Proofs.RegisterOverlay

/-! # The general registers as one array

The register struct overlays the narrow registers on the first full ones. Here the first 128 bytes of
its image are an array of bytes, and every general register is an interval of it: register `i` of a
width of `w` bytes is the interval of `w` bytes at `w * i`, lowest byte first.
-/

namespace Sysdarft

open Effects

namespace Registers

/-- The first 128 bytes of the struct, and zeros after them. -/
def generalByte (registers : Registers) (place : ℕ) : Byte :=
  if place < 128 then registers.image.getD place 0 else 0

/-- A bit of the array is a bit of a full register. -/
theorem getLsbD_generalByte (registers : Registers) (place bit : ℕ) (inside : place < 128) (small : bit < 8) :
    (registers.generalByte place).getLsbD bit =
      (registers.FullyExtendedRegister ⟨place / 8, by omega⟩).getLsbD (8 * (place % 8) + bit) := by
  have word : registers.words[place / 8]? = some (registers.FullyExtendedRegister ⟨place / 8, by omega⟩) := by
    rw [words, List.getElem?_append_left (by rw [List.length_ofFn]; omega), List.getElem?_ofFn,
      dif_pos (show place / 8 < 16 by omega)]
  rw [generalByte, if_pos inside, image, List.getD_eq_getElem?_getD, LittleEndian.getElem?_wordBytes, word,
    Option.map_some, Option.getD_some, LittleEndian.getLsbD_byte _ _ _ small]
  rfl

variable {width : Width} {index : Fin width.registerCount}

theorem interval_le (width : Width) (index : Fin width.registerCount) :
    width.bytes * index + width.bytes ≤ 128 := by
  have small := index.isLt
  cases width <;> simp only [Width.registerCount, Width.bytes] at small ⊢ <;> omega

/-- The slice of a register and its interval of the array are the same bits. -/
theorem inSlice_iff (place bit : ℕ) (inside : place < 128) (small : bit < 8) :
    InSlice width index ⟨place / 8, by omega⟩ (8 * (place % 8) + bit) ↔
      width.bytes * index ≤ place ∧ place < width.bytes * index + width.bytes := by
  have bound := index.isLt
  rw [InSlice, home, Fin.mk.injEq]
  cases width <;> simp only [position, slices, Width.bits, Width.bytes, Width.registerCount] at bound ⊢ <;> omega

/-- Where a bit of the array lies in its register. -/
theorem sub_position (place bit : ℕ) (low : width.bytes * index ≤ place)
    (high : place < width.bytes * index + width.bytes) :
    8 * (place % 8) + bit - position width index = 8 * (place - width.bytes * index) + bit := by
  cases width <;> simp only [position, slices, Width.bits, Width.bytes] at low high ⊢ <;> omega

/-- A store replaces the interval of its register. -/
theorem generalByte_store (registers : Registers) (value : Word) :
    (registers.store value (.general width index)).generalByte =
      FlatMemory.write registers.generalByte (width.bytes * index) (LittleEndian.bytes width.bytes value.toNat) := by
  have within := interval_le width index
  have length : (LittleEndian.bytes width.bytes value.toNat).length = width.bytes := LittleEndian.length_bytes ..
  funext place
  by_cases inside : place < 128
  · apply BitVec.eq_of_getLsbD_eq
    intro bit small
    rw [getLsbD_generalByte _ _ _ inside small, getLsbD_store]
    by_cases own : width.bytes * index ≤ place ∧ place < width.bytes * index + width.bytes
    · obtain ⟨low, high⟩ := own
      have offset : width.bytes * index + (place - width.bytes * index) = place := by omega
      have held : place - width.bytes * index < (LittleEndian.bytes width.bytes value.toNat).length := by
        rw [length]
        omega
      have written : FlatMemory.write registers.generalByte (width.bytes * index)
          (LittleEndian.bytes width.bytes value.toNat) (width.bytes * index + (place - width.bytes * index)) = _ :=
        FlatMemory.write_inside held
      rw [offset] at written
      rw [if_pos ((inSlice_iff place bit inside small).mpr ⟨low, high⟩), sub_position place bit low high, written,
        LittleEndian.getElem_bytes, LittleEndian.getLsbD_byte _ _ _ small]
      rfl
    · rw [if_neg fun slice => own ((inSlice_iff place bit inside small).mp slice),
        FlatMemory.write_outside (by rw [length]; omega), getLsbD_generalByte _ _ _ inside small]
  · rw [FlatMemory.write_outside (by rw [length]; omega), generalByte, generalByte, if_neg inside, if_neg inside]

/-- A load returns the value of the interval. -/
theorem read_generalByte (registers : Registers) :
    FlatMemory.read registers.generalByte (width.bytes * index) width.bytes =
      LittleEndian.bytes width.bytes (registers.load (.general width index)).toNat := by
  have within := interval_le width index
  apply List.ext_getElem?
  intro offset
  rw [FlatMemory.getElem?_read, LittleEndian.getElem?_bytes]
  split_ifs with inside
  · congr 1
    apply BitVec.eq_of_getLsbD_eq
    intro bit small
    have low : width.bytes * index ≤ width.bytes * index + offset := Nat.le_add_right ..
    have high : width.bytes * index + offset < width.bytes * index + width.bytes := by omega
    obtain ⟨full, above, -⟩ :=
      (inSlice_iff _ bit (show width.bytes * index + offset < 128 by omega) small).mpr ⟨low, high⟩
    have placed := sub_position _ bit low high
    have wide : width.bits = 8 * width.bytes := by cases width <;> rfl
    have covered : 8 * offset + bit < width.bits := by omega
    have loaded := getLsbD_load registers width index (8 * offset + bit)
    rw [decide_eq_true covered, Bool.true_and] at loaded
    rw [getLsbD_generalByte _ _ _ (by omega) small, full, LittleEndian.getLsbD_byte _ _ _ small]
    refine Eq.trans ?_ loaded.symm
    congr 1
    omega
  · rfl

theorem load_eq_value (registers : Registers) :
    registers.load (.general width index) = BitVec.ofNat 64
      (LittleEndian.value (FlatMemory.read registers.generalByte (width.bytes * index) width.bytes)) := by
  have small := registers.load_lt (.general width index)
  rw [Register.width, width.two_pow_bits] at small
  rw [read_generalByte, LittleEndian.value_bytes, Nat.mod_eq_of_lt small, BitVec.ofNat_toNat, BitVec.setWidth_eq]

/-- What a store through an operand does: the interval of a general register is replaced, or the special
register, and no other. -/
structure Stored (before after : Registers) (value : Word) (register : Register) : Prop where
  array : after.generalByte = match register with
    | .general width index => FlatMemory.write before.generalByte (width.bytes * index)
        (LittleEndian.bytes width.bytes (value.toNat % 2 ^ width.bits))
    | .special _ => before.generalByte
  special : ∀ special : SpecialRegister, after.load (.special special) =
    if register = .special special then value else before.load (.special special)
  control : after.FlagRegister = before.FlagRegister ∧ after.InstructionPointer = before.InstructionPointer ∧
    after.CurrentProcedureStackPreservationSpace = before.CurrentProcedureStackPreservationSpace ∧
    after.ProtectedModeRegisters = before.ProtectedModeRegisters

theorem stored_store (registers : Registers) (value : Word) (register : Register) :
    Stored registers (registers.store value register) value register where
  array := by
    cases register with
    | general width index =>
      dsimp only
      rw [width.two_pow_bits, LittleEndian.bytes_mod]
      exact generalByte_store registers value
    | special special =>
      funext place
      by_cases inside : place < 128
      · apply BitVec.eq_of_getLsbD_eq
        intro bit small
        rw [getLsbD_generalByte _ _ _ inside small, getLsbD_generalByte _ _ _ inside small]
        cases special <;> rfl
      · simp only [generalByte, if_neg inside]
  special special := by
    cases register with
    | general width index => cases special <;> rfl
    | special named => cases named <;> cases special <;> rfl
  control := by
    cases register with
    | general width index => exact ⟨rfl, rfl, rfl, rfl⟩
    | special named => cases named <;> exact ⟨rfl, rfl, rfl, rfl⟩

end Registers

/-- A load through the operand of a general register returns the value of its interval. -/
def Machine.LoadsViews (machine : Machine) : Prop :=
  ∀ (widthBCD index : Byte) (width : Width) (number : Fin width.registerCount),
    Register.ofCodes widthBCD index = some (.general width number) →
      (Operand.register widthBCD index).getVal machine = .ok (BitVec.ofNat 64 (LittleEndian.value
        (FlatMemory.read machine.registers.generalByte (width.bytes * number) width.bytes))) machine

theorem Machine.loadsViews (machine : Machine) : machine.LoadsViews := by
  intro widthBCD index width number known
  obtain ⟨rfl, rfl⟩ := Register.codes_of_ofCodes known
  rw [← Registers.load_eq_value]
  exact getVal_register (.general width number) machine

/-- Stores through the register operands that the tables accept, and the loads before and after them. -/
structure RegisterAliasing (machine : Machine) : Prop where
  /-- The nested structs of the source have these loads and stores. -/
  overlay : ∃ general : GeneralStruct, general.registers machine.registers = machine.registers ∧
    ∀ (width : Width) (index : Fin width.registerCount),
      machine.registers.load (.general width index) = general.load width index ∧
        ∀ value : Word, machine.registers.store value (.general width index) =
          (general.store value width index).registers machine.registers
  before : machine.LoadsViews
  stores : ∀ (widthBCD index : Byte) (register : Register), Register.ofCodes widthBCD index = some register →
    ∀ value : Word, ∃ after : Registers,
      (Operand.register widthBCD index).setVal value machine = .ok () { machine with registers := after } ∧
        Registers.Stored machine.registers after value register ∧
        Machine.LoadsViews { machine with registers := after }

/-- The registers are views of one array. -/
theorem register_aliasing (machine : Machine) : RegisterAliasing machine where
  overlay := by
    obtain ⟨general, same⟩ := GeneralStruct.exists_registers machine.registers
    refine ⟨general, same, fun width index => ⟨?_, fun value => ?_⟩⟩
    · rw [← general.load_registers machine.registers width index, same]
    · rw [← general.store_registers machine.registers width index value, same]
  before := machine.loadsViews
  stores widthBCD index register known value := by
    obtain ⟨rfl, rfl⟩ := Register.codes_of_ofCodes known
    exact ⟨_, setVal_register register value machine, Registers.stored_store machine.registers value register,
      Machine.loadsViews _⟩

end Sysdarft
