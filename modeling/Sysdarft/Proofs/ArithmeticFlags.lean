import Sysdarft.Proofs.Arithmetic

/-! # The arithmetic flags

The two overflow checks assign all five arithmetic flags and keep the rest of the flag register, so the
last check of a procedure decides what the flags are.
-/

namespace Sysdarft

open Effects

theorem getLsbD_setFlag (flags : Word) (flag : Flag) (value : Bool) (bit : ℕ) :
    (setFlag flags flag value).getLsbD bit = if bit = flag.bit then value else flags.getLsbD bit := by
  have small := flag.bit_lt
  by_cases same : bit = flag.bit
  · subst same
    cases value <;> simp [setFlag, small]
  · by_cases inside : bit < 64
    · cases value <;> simp [setFlag, same, inside]
    · rw [if_neg same, BitVec.getLsbD_of_ge _ _ (not_lt.mp inside), BitVec.getLsbD_of_ge _ _ (not_lt.mp inside)]

/-- The first five bits are the arithmetic flags. -/
theorem getLsbD_arithmeticFlags (flags : Word) (carry overflow : Bool) (bit : ℕ) :
    (arithmeticFlags flags carry overflow).getLsbD bit =
      if bit = 0 then carry else if bit = 1 then overflow else decide (5 ≤ bit) && flags.getLsbD bit := by
  simp only [arithmeticFlags, getLsbD_setFlag, Flag.bit]
  by_cases low : bit < 5
  · interval_cases bit <;> simp
  · simp [show bit ≠ 0 by omega, show bit ≠ 1 by omega, show bit ≠ 2 by omega, show bit ≠ 3 by omega,
      show bit ≠ 4 by omega, show 5 ≤ bit by omega]

/-- A second assignment leaves nothing of the first. -/
@[simp] theorem arithmeticFlags_twice (flags : Word) (carry overflow carry' overflow' : Bool) :
    arithmeticFlags (arithmeticFlags flags carry overflow) carry' overflow' = arithmeticFlags flags carry' overflow' := by
  apply BitVec.eq_of_getLsbD_eq
  intro bit _
  simp only [getLsbD_arithmeticFlags]
  by_cases low : bit < 5
  · interval_cases bit <;> rfl
  · simp [show bit ≠ 0 by omega, show bit ≠ 1 by omega, show 5 ≤ bit by omega]

/-- The state after an overflow check. -/
def Machine.flagged (machine : Machine) (carry overflow : Bool) : Machine :=
  { machine with
    registers :=
      { machine.registers with FlagRegister := arithmeticFlags machine.registers.FlagRegister carry overflow } }

@[simp] theorem Machine.flagged_flagged (machine : Machine) (carry overflow carry' overflow' : Bool) :
    (machine.flagged carry overflow).flagged carry' overflow' = machine.flagged carry' overflow' := by
  simp only [Machine.flagged, arithmeticFlags_twice]

/-- What `check_overflow` returns. -/
def trimmed (width : Width) (value : Word) : Word := (value.setWidth width.bits).setWidth 64

/-- What `check_overflow_signed` returns. -/
def resized (width : Width) (value : Word) : Word :=
  if width = .w8 then trimmed .w8 value else signExtend width value

/-- A value outside the range of signed numbers of a width. -/
def Overflows (width : Width) (value : ℤ) : Prop :=
  2 ^ (width.bits - 1) - 1 < value ∨ value < -2 ^ (width.bits - 1)

instance (width : Width) (value : ℤ) : Decidable (Overflows width value) :=
  inferInstanceAs (Decidable (_ ∨ _))

theorem checkOverflow_flagged (width : Width) (value : Word) (machine : Machine) :
    checkOverflow width.bcd value machine =
      .ok (trimmed width value) (machine.flagged (trimmed width value != value) false) :=
  checkOverflow_apply width value machine

theorem checkOverflowSigned_flagged (width : Width) (value : Word) (machine : Machine) :
    checkOverflowSigned width.bcd value machine =
      .ok (resized width value) (machine.flagged false (decide (Overflows width value.toInt))) := by
  simp only [checkOverflowSigned, operationWidth, Width.ofBcd_bcd, bind_apply, pure_apply, getRegisters, get_apply,
    storeFlags, modifyRegisters, modify_apply]
  rfl

/-- What the signed procedures return for a result. -/
def signedResult (width : Width) (value : Word) : Word :=
  if 0 < value.toInt then trimmed width value else resized width value

/-- The carry that the signed procedures leave: a positive result is checked as an unsigned one. -/
def signedCarry (width : Width) (value : Word) : Bool := decide (0 < value.toInt) && trimmed width value != value

/-- The overflow flag that the signed procedures leave. -/
def signedOverflow (width : Width) (value : Word) : Bool := decide (value.toInt ≤ 0 ∧ Overflows width value.toInt)

theorem checkSigned_flagged (width : Width) (value : Word) (machine : Machine) :
    checkSigned width.bcd value machine =
      .ok (signedResult width value) (machine.flagged (signedCarry width value) (signedOverflow width value)) := by
  rw [checkSigned]
  by_cases positive : 0 < value.toInt
  · rw [if_pos positive, checkOverflow_flagged]
    simp [signedResult, signedCarry, signedOverflow, positive, not_le.mpr positive]
  · rw [if_neg positive, checkOverflowSigned_flagged]
    simp [signedResult, signedCarry, signedOverflow, positive, not_lt.mp positive]

theorem signedOverflow_iff (width : Width) (value : Word) :
    signedOverflow width value = true ↔ value.toInt < -2 ^ (width.bits - 1) := by
  have positive : (0 : ℤ) < 2 ^ (width.bits - 1) := by positivity
  rw [signedOverflow, decide_eq_true_iff, Overflows]
  omega

/-- Only the low bits of what the checks return are stored in a register of the width. -/
theorem setWidth_resized (width : Width) (value : Word) :
    (resized width value).setWidth width.bits = value.setWidth width.bits := by
  apply BitVec.eq_of_getLsbD_eq
  intro bit small
  cases width <;> simp only [Width.bits] at small ⊢ <;>
    simp [resized, trimmed, signExtend, Width.bits, BitVec.getLsbD_signExtend, small] <;> omega

theorem setWidth_trimmed (width : Width) (value : Word) :
    (trimmed width value).setWidth width.bits = value.setWidth width.bits := by
  apply BitVec.eq_of_getLsbD_eq
  intro bit small
  cases width <;> simp only [Width.bits] at small ⊢ <;> simp [trimmed, Width.bits, small]

/-- A stored result is the result modulo the size of the register. -/
theorem trimmed_signedResult (width : Width) (value : Word) :
    trimmed width (signedResult width value) = trimmed width value := by
  have same : (signedResult width value).setWidth width.bits = value.setWidth width.bits := by
    rw [signedResult]
    split_ifs
    · exact setWidth_trimmed width value
    · exact setWidth_resized width value
  rw [trimmed, same, trimmed]

theorem toNat_trimmed_toInt (width : Width) (value : Word) :
    ((trimmed width value).toNat : ℤ) = value.toInt % 2 ^ width.bits := by
  rw [← toNat_trimmed_ofInt, BitVec.ofInt_toInt]
  rfl

end Sysdarft
