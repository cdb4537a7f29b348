import Sysdarft.Proofs.ArithmeticFlags
import Sysdarft.Proofs.Iret
import Sysdarft.Proofs.RegisterFile

/-! # Unsigned division

`div` leaves the quotient and the remainder in the registers 0 and 1 of the operation width, clears the
arithmetic flags and changes nothing else. A division by zero is an interruption that finds the
registers as they were.
-/

namespace Sysdarft

open Effects

/-- Store both results of a division. -/
def Machine.withResults (machine : Machine) (width : Width) (quotient remainder : Word) : Machine :=
  { machine with
    registers :=
      (machine.registers.store quotient (registerOf width 0)).store remainder (registerOf width 1) }

/-- The bits of the full registers that a register of the procedures takes up. -/
def InRegister (width : Width) (index : Fin 8) (full : Fin 16) (bit : ℕ) : Prop :=
  Registers.InSlice width ⟨index, width.lt_registerCount index⟩ full bit

variable {width : Width} {machine : Machine}

theorem withResults_quotient (machine : Machine) (width : Width) (quotient remainder : Word) :
    (machine.withResults width quotient remainder).registers.load (registerOf width 0) = trimmed width quotient := by
  rw [Machine.withResults, registerOf, registerOf, Registers.load_store_of_ne]
  · exact Registers.load_store ..
  · simp

theorem withResults_remainder (machine : Machine) (width : Width) (quotient remainder : Word) :
    (machine.withResults width quotient remainder).registers.load (registerOf width 1) = trimmed width remainder := by
  rw [Machine.withResults, Registers.load_store]
  rfl

theorem toNat_load_lt (registers : Registers) (width : Width) (index : Fin 8) :
    (registers.load (registerOf width index)).toNat < 2 ^ width.bits :=
  registers.load_lt (registerOf width index)

theorem trimmed_of_lt {value : Word} (small : value.toNat < 2 ^ width.bits) : trimmed width value = value :=
  (trimmed_eq_iff width value).mpr small

/-- The results and the arithmetic flags are all that two states differ in. -/
structure OnlyResults (width : Width) (before after : Machine) : Prop where
  machine : after = { before with registers := after.registers }
  registers : after.registers =
    { before.registers with
      FullyExtendedRegister := after.registers.FullyExtendedRegister
      FlagRegister := after.registers.FlagRegister }
  full : ∀ full bit, ¬ InRegister width 0 full bit → ¬ InRegister width 1 full bit →
    (after.registers.FullyExtendedRegister full).getLsbD bit = (before.registers.FullyExtendedRegister full).getLsbD bit
  flags : ∀ bit, 5 ≤ bit → after.registers.FlagRegister.getLsbD bit = before.registers.FlagRegister.getLsbD bit

theorem onlyResults (machine : Machine) (width : Width) (carry overflow : Bool) (quotient remainder : Word) :
    OnlyResults width machine ((machine.flagged carry overflow).withResults width quotient remainder) := by
  constructor
  · rfl
  · rfl
  · intro full bit first second
    rw [InRegister] at first second
    rw [Machine.withResults, registerOf, registerOf, Registers.getLsbD_store, if_neg second, Registers.getLsbD_store,
      if_neg first]
    rfl
  · intro bit high
    rw [Machine.withResults, Registers.store_FlagRegister, Registers.store_FlagRegister, Machine.flagged,
      getLsbD_arithmeticFlags]
    simp [show bit ≠ 0 by omega, show bit ≠ 1 by omega, high]

/-! ## The procedure -/

variable {operand : Operand} {divisor : Word}

theorem dispatch_div (host : Host) (known : operand.getVal machine = .ok divisor machine) (nonzero : divisor ≠ 0) :
    dispatch host (Mnemonic.div.sized width [operand]) machine =
      .ok () ((machine.flagged false false).withResults width (machine.registers.load (registerOf width 0) / divisor)
        (machine.registers.load (registerOf width 0) % divisor)) := by
  generalize loaded : machine.registers.load (registerOf width 0) = dividend
  have small : dividend.toNat < 2 ^ width.bits := by
    rw [← loaded]
    exact toNat_load_lt ..
  have quotient : trimmed width (dividend / divisor) = dividend / divisor := by
    apply trimmed_of_lt
    rw [BitVec.toNat_udiv]
    exact lt_of_le_of_lt (Nat.div_le_self ..) small
  have remainder : trimmed width (dividend % divisor) = dividend % divisor := by
    apply trimmed_of_lt
    rw [BitVec.toNat_umod]
    exact lt_of_le_of_lt (Nat.mod_le ..) small
  rw [dispatch_sized rfl]
  simp only [div, operationWidth, Width.ofBcd_bcd, loadRegister, storeRegister, getRegisters, modifyRegisters,
    Arguments.getVal, Arguments.operand, List.getElem?_cons_zero, pure_bind, bind_apply, pure_apply, get_apply,
    modify_apply, known, loaded, if_neg nonzero, checkOverflow_flagged, quotient, remainder, bne_self_eq_false,
    Machine.flagged_flagged]
  rfl

/-- A division by zero is the interruption, from the state as it is. -/
theorem dispatch_div_zero (host : Host) (known : operand.getVal machine = .ok 0 machine) :
    dispatch host (Mnemonic.div.sized width [operand]) machine = doInterruption host 0x01 machine := by
  rw [dispatch_sized rfl]
  simp only [div, operationWidth, Width.ofBcd_bcd, loadRegister, getRegisters, Arguments.getVal, Arguments.operand,
    List.getElem?_cons_zero, pure_bind, bind_apply, pure_apply, get_apply, known, ↓reduceIte]

/-- The frame of a delivered interruption holds the register file as it was. -/
theorem frame_delivered (fits : machine.FrameFits) (code : ℕ) :
    (machine.delivered code).frame machine.frameAddress = machine.registers.image := by
  rw [Machine.frame, peek_delivered fits]
  exact FlatMemory.read_write_whole (Registers.length_image _)

/-- Unsigned division is exact. With a divisor other than zero the registers 0 and 1 receive the quotient
and the remainder, the arithmetic flags are cleared, and nothing else changes. With the divisor zero the
interruption finds the undivided registers: they are on its frame if that fits the stack, and else they
stay as they are and control goes to the stack overflow vector. -/
theorem div_exact (host : Host) (width : Width) (machine : Machine) (operand : Operand) (divisor : Word)
    (known : operand.getVal machine = .ok divisor machine) :
    (0 < divisor.toNat → ∃ quotient remainder after,
      dispatch host (Mnemonic.div.sized width [operand]) machine = .ok () after ∧
      (machine.registers.load (registerOf width 0)).toNat = quotient * divisor.toNat + remainder ∧
      remainder < divisor.toNat ∧
      (after.registers.load (registerOf width 0)).toNat = quotient ∧
      (after.registers.load (registerOf width 1)).toNat = remainder ∧
      (∀ flag, flag ≠ .interruptionMask → getFlag after.registers.FlagRegister flag = false) ∧
      OnlyResults width machine after) ∧
    (divisor.toNat = 0 →
      (machine.FrameFits →
        dispatch host (Mnemonic.div.sized width [operand]) machine = .ok () (machine.delivered 0x01) ∧
        (machine.delivered 0x01).frame machine.frameAddress = machine.registers.image) ∧
      (¬ machine.FrameFits →
        dispatch host (Mnemonic.div.sized width [operand]) machine = .error .abort machine.redirected)) := by
  constructor
  · intro positive
    have nonzero : divisor ≠ 0 := by
      rintro rfl
      exact absurd positive (by decide)
    have small := toNat_load_lt machine.registers width 0
    refine ⟨_, _, _, dispatch_div host known nonzero, (Nat.div_add_mod' _ divisor.toNat).symm, Nat.mod_lt _ positive,
      ?_, ?_, ?_, onlyResults ..⟩
    · rw [withResults_quotient, trimmed_of_lt]
      · exact BitVec.toNat_udiv ..
      · rw [BitVec.toNat_udiv]
        exact lt_of_le_of_lt (Nat.div_le_self ..) small
    · rw [withResults_remainder, trimmed_of_lt]
      · exact BitVec.toNat_umod ..
      · rw [BitVec.toNat_umod]
        exact lt_of_le_of_lt (Nat.mod_le ..) small
    · intro flag arithmetic
      rw [Machine.withResults, Registers.store_FlagRegister, Registers.store_FlagRegister, getFlag, Machine.flagged,
        getLsbD_arithmeticFlags]
      cases flag with
      | interruptionMask => exact absurd rfl arithmetic
      | carry | overflow | largerThan | lessThan | equal => simp [Flag.bit]
  · intro zero
    obtain rfl : divisor = 0 := BitVec.eq_of_toNat_eq zero
    have vectored : (0x01 : Word).toNat ≤ 0xFF := by decide
    rw [dispatch_div_zero host known]
    constructor
    · intro fits
      exact ⟨doInterruption_room host vectored rfl (fun held => absurd held.1 (by decide)) fits, frame_delivered fits 1⟩
    · intro full
      exact doInterruption_full vectored rfl (fun held => absurd held.1 (by decide)) full

/-- `DIV .8bit <$8(7)>` of 255, and a division by zero with and without room on the stack. -/
theorem div_exact_saturated :
    (∃ quotient remainder after,
      dispatch Host.ample (Mnemonic.div.sized .w8 [.constant 7 Width.w8.bcd]) Machine.saturated = .ok () after ∧
      255 = quotient * 7 + remainder ∧ remainder < 7) ∧
    dispatch Host.ample (Mnemonic.div.sized .w8 [.constant 0 Width.w8.bcd]) Machine.withStack =
      .ok () (Machine.withStack.delivered 0x01) := by
  obtain ⟨quotient, remainder, after, runs, value, small, -⟩ :=
    (div_exact Host.ample .w8 Machine.saturated (.constant 7 Width.w8.bcd) 7 rfl).1 (by decide)
  refine ⟨⟨quotient, remainder, after, runs, ?_, small⟩, ?_⟩
  · rw [show (Machine.saturated.registers.load (registerOf .w8 0)).toNat = 255 by decide +kernel] at value
    exact value
  · exact (((div_exact Host.ample .w8 Machine.withStack (.constant 0 Width.w8.bcd) 0 rfl).2 rfl).1 (by decide)).1

/-- A division by zero does not always push a frame: as powered on there is no stack. -/
theorem not_div_delivers_powerOn :
    ¬ ∀ (machine : Machine), ∃ after,
      dispatch Host.ample (Mnemonic.div.sized .w8 [.constant 0 Width.w8.bcd]) machine = .ok () after ∧
      after.frame machine.frameAddress = machine.registers.image := by
  intro every
  obtain ⟨after, runs, -⟩ := every Machine.powerOn
  have zero : (Operand.constant 0 Width.w8.bcd).getVal Machine.powerOn = .ok 0 Machine.powerOn := rfl
  rw [dispatch_div_zero Host.ample zero, doInterruption_full (by decide) rfl (by decide) (by decide)] at runs
  cases runs

end Sysdarft
