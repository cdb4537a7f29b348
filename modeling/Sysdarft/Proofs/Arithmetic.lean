import Sysdarft.Model.Executor
import Sysdarft.Proofs.OperandAccess

/-! # Unsigned arithmetic

`add`, `adc`, `sub`, `sbb`, `inc`, `dec` and `mul` are compared with the exact integer result. The
overflow check takes a 128-bit value, but the procedures compute it in 64 bits, so below 64 bits the
carry is exact and at 64 bits it is never set.
-/

namespace Sysdarft

open Effects

/-- The carry flag. -/
def Machine.carry (machine : Machine) : Bool := getFlag machine.registers.FlagRegister .carry

/-- The procedures for unsigned numbers. -/
inductive UnsignedOperation where
  | add | adc | sub | sbb | inc | dec | mul
deriving DecidableEq, Repr

namespace UnsignedOperation

def mnemonic : UnsignedOperation → Mnemonic
  | add => .add
  | adc => .adc
  | sub => .sub
  | sbb => .sbb
  | inc => .inc
  | dec => .dec
  | mul => .mul

/-- The integer that an operation is meant to compute. -/
def exact (operation : UnsignedOperation) (first second : ℕ) (carry : Bool) : ℤ :=
  match operation with
  | add => first + second
  | adc => first + second + carry.toNat
  | sub => (first : ℤ) - second
  | sbb => (first : ℤ) - second - carry.toNat
  | inc => first + 1
  | dec => (first : ℤ) - 1
  | mul => first * second

/-- The operands of the instruction, where the first operand also receives the result. A product has
one operand and its other factor in register 0; `inc` and `dec` have no second operand. -/
def operands (operation : UnsignedOperation) (first second : Operand) : List Operand :=
  match operation with
  | add | adc | sub | sbb => [first, second]
  | inc | dec => [first]
  | mul => [second]

/-- Where the result goes. -/
def Target (operation : UnsignedOperation) (width : Width) (first : Operand) : Prop :=
  operation = mul → first = .ofRegister (registerOf width 0)

instance (operation : UnsignedOperation) (width : Width) (first : Operand) :
    Decidable (operation.Target width first) :=
  inferInstanceAs (Decidable (_ → _))

/-- The 64-bit value that is given to the overflow check. -/
def computed (operation : UnsignedOperation) (first second : Word) (carry : Bool) : Word :=
  match operation with
  | add => first + second
  | adc => first + second + (if carry then 1 else 0)
  | sub => first - second
  | sbb => first - second - (if carry then 1 else 0)
  | inc => first + 1
  | dec => first - 1
  | mul => second * first

end UnsignedOperation

/-! ## The computed value against the exact one -/

variable {operation : UnsignedOperation} {width : Width} {first second : Word} {carry : Bool}

theorem ofInt_toNat (value : Word) : BitVec.ofInt 64 value.toNat = value := by
  rw [BitVec.ofInt_natCast, BitVec.ofNat_toNat, BitVec.setWidth_eq]

/-- The computed value is the exact one modulo `2 ^ 64`. -/
theorem computed_eq (operation : UnsignedOperation) (first second : Word) (carry : Bool) :
    operation.computed first second carry = BitVec.ofInt 64 (operation.exact first.toNat second.toNat carry) := by
  have carried : BitVec.ofInt 64 (carry.toNat : ℤ) = if carry then 1 else 0 := by
    cases carry <;> rfl
  have one : BitVec.ofInt 64 1 = 1 := rfl
  cases operation <;>
    simp only [UnsignedOperation.computed, UnsignedOperation.exact, Int.sub_eq_add_neg, BitVec.ofInt_add, BitVec.ofInt_mul,
      BitVec.ofInt_neg, ofInt_toNat, carried, one, BitVec.sub_eq_add_neg]
  exact BitVec.mul_comm second first

/-- Below 64 bits no result leaves the range in which 64 bits tell what was cut off. -/
theorem exact_bounds (operation : UnsignedOperation) (carry : Bool) (narrow : width ≠ .w64)
    (firstSmall : first.toNat < 2 ^ width.bits) (secondSmall : second.toNat < 2 ^ width.bits) :
    -2 ^ width.bits ≤ operation.exact first.toNat second.toNat carry ∧
      operation.exact first.toNat second.toNat carry < 2 ^ 64 := by
  have bit : carry.toNat ≤ 1 := Bool.toNat_le carry
  have room : 2 ^ width.bits * 2 ^ width.bits ≤ 2 ^ 64 := by
    cases width with
    | w64 => exact absurd rfl narrow
    | _ => decide
  have wide : 256 ≤ 2 ^ width.bits := by
    cases width <;> decide
  have product : first.toNat * second.toNat < 2 ^ 64 :=
    lt_of_lt_of_le (Nat.mul_lt_mul'' firstSmall secondSmall) room
  have sum : 2 ^ width.bits + 2 ^ width.bits ≤ 2 ^ 64 := by nlinarith
  have nonneg : 0 ≤ first.toNat * second.toNat := Nat.zero_le _
  zify at firstSmall secondSmall bit product sum wide nonneg
  cases operation <;> simp only [UnsignedOperation.exact] <;> omega

theorem toNat_trimmed (width : Width) (value : Word) :
    ((value.setWidth width.bits).setWidth 64).toNat = value.toNat % 2 ^ width.bits := by
  have fits : value.toNat % 2 ^ width.bits < 2 ^ 64 := lt_of_le_of_lt (Nat.mod_le ..) value.isLt
  rw [BitVec.toNat_setWidth, BitVec.toNat_setWidth, Nat.mod_eq_of_lt fits]

theorem trimmed_eq_iff (width : Width) (value : Word) :
    (value.setWidth width.bits).setWidth 64 = value ↔ value.toNat < 2 ^ width.bits := by
  rw [← BitVec.toNat_inj, toNat_trimmed]
  constructor
  · intro same
    rw [← same]
    exact Nat.mod_lt _ (by positivity)
  · exact Nat.mod_eq_of_lt

/-- The range check of a value that was computed in 64 bits. -/
theorem trimmed_ne_iff {result : ℤ} (narrow : width ≠ .w64) (low : -2 ^ width.bits ≤ result) (high : result < 2 ^ 64) :
    ((BitVec.ofInt 64 result).setWidth width.bits).setWidth 64 ≠ BitVec.ofInt 64 result ↔
      result < 0 ∨ 2 ^ width.bits ≤ result := by
  have half : (2 : ℤ) ^ width.bits ≤ 2 ^ 32 := by
    cases width with
    | w64 => exact absurd rfl narrow
    | _ => decide
  have value : ((BitVec.ofInt 64 result).toNat : ℤ) = result % 2 ^ 64 := by
    rw [BitVec.toNat_ofInt]
    exact Int.toNat_of_nonneg (Int.emod_nonneg _ (by decide))
  have cut : ((BitVec.ofInt 64 result).setWidth width.bits).setWidth 64 = BitVec.ofInt 64 result ↔
      (BitVec.ofInt 64 result).toNat < 2 ^ width.bits := trimmed_eq_iff ..
  rw [Ne, cut, not_lt]
  zify
  rw [value]
  rcases lt_or_ge result 0 with negative | positive
  · have wrapped : result % 2 ^ 64 = result + 2 ^ 64 := by omega
    rw [wrapped]
    omega
  · rw [Int.emod_eq_of_lt positive high]
    omega

/-- What is stored, read as a number, is the exact result modulo `2 ^ w`. -/
theorem toNat_trimmed_ofInt (width : Width) (result : ℤ) :
    ((((BitVec.ofInt 64 result).setWidth width.bits).setWidth 64).toNat : ℤ) = result % 2 ^ width.bits := by
  have divides : (2 : ℤ) ^ width.bits ∣ 2 ^ 64 := by
    cases width <;> decide
  rw [toNat_trimmed, BitVec.toNat_ofInt]
  push_cast
  rw [Int.toNat_of_nonneg (Int.emod_nonneg _ (by decide))]
  exact Int.emod_emod_of_dvd result divides

/-! ## Running an instruction -/

/-- The state after the overflow check of a value. -/
def Machine.checked (machine : Machine) (width : Width) (value : Word) : Machine :=
  { machine with
    registers :=
      { machine.registers with
        FlagRegister := arithmeticFlags machine.registers.FlagRegister
          ((value.setWidth width.bits).setWidth 64 != value) false } }

theorem checkOverflow_apply (width : Width) (value : Word) (machine : Machine) :
    checkOverflow width.bcd value machine =
      .ok ((value.setWidth width.bits).setWidth 64) (machine.checked width value) := by
  simp only [checkOverflow, operationWidth, Width.ofBcd_bcd, bind_apply, pure_apply, getRegisters, get_apply, storeFlags,
    modifyRegisters, modify_apply, Machine.checked]

theorem getFlag_carry_checked (machine : Machine) (width : Width) (value : Word) :
    getFlag (machine.checked width value).registers.FlagRegister .carry =
      ((value.setWidth width.bits).setWidth 64 != value) := by
  simp [Machine.checked, arithmeticFlags, getFlag_setFlag]

theorem Operand.Writable.checked {machine : Machine} {operand : Operand} (writable : operand.Writable machine width)
    (value : Word) : operand.Writable (machine.checked width value) width := by
  cases writable with
  | register register => exact .register register
  | memory inside => exact .memory inside

/-- An instruction of the family. -/
def UnsignedOperation.instruction (operation : UnsignedOperation) (width : Width) (first second : Operand) :
    ActiveInstruction where
  opcode := operation.mnemonic.opcode
  width := width.bcd
  operands := operation.operands first second

/-- `ExecutorMap` runs the procedure of the mnemonic. -/
theorem dispatch_registered {host : Host} {mnemonic : Mnemonic} {procedure : Arguments → CPU Unit}
    (registered : executorMap host mnemonic = some procedure) (width : Byte) (operands : List Operand) :
    dispatch host { opcode := mnemonic.opcode, width := width, operands := operands } =
      procedure { width := width, operands := operands } := by
  simp only [dispatch, lookupProcedure, findOpcode_opcode, Option.bind_some, registered, pure_bind]

/-- An instruction with an operation width. -/
def Mnemonic.sized (mnemonic : Mnemonic) (width : Width) (operands : List Operand) : ActiveInstruction :=
  ⟨mnemonic.opcode, width.bcd, operands⟩

theorem dispatch_sized {host : Host} {mnemonic : Mnemonic} {procedure : Arguments → CPU Unit}
    (registered : executorMap host mnemonic = some procedure) (width : Width) (operands : List Operand) :
    dispatch host (mnemonic.sized width operands) = procedure { width := width.bcd, operands := operands } :=
  dispatch_registered registered width.bcd operands

variable {machine : Machine} {operand1 operand2 : Operand}

theorem binaryArithmetic_apply (compute : Word → Word → Word → Word) (width : Width)
    (firstValue : operand1.getVal machine = .ok first machine)
    (secondValue : operand2.getVal machine = .ok second machine) :
    binaryArithmetic compute { width := width.bcd, operands := [operand1, operand2] } machine =
      let value := compute first second (if getFlag machine.registers.FlagRegister .carry then 1 else 0)
      operand1.setVal ((value.setWidth width.bits).setWidth 64) (machine.checked width value) := by
  simp only [binaryArithmetic, Arguments.getVal, Arguments.setVal, Arguments.operand, List.getElem?_cons_zero,
    List.getElem?_cons_succ, pure_bind, bind_apply, firstValue, secondValue, loadFlag, getRegisters, get_apply,
    pure_apply, checkOverflow_apply]

theorem unaryArithmetic_apply (compute : Word → Word) (width : Width)
    (firstValue : operand1.getVal machine = .ok first machine) :
    unaryArithmetic compute { width := width.bcd, operands := [operand1] } machine =
      operand1.setVal (((compute first).setWidth width.bits).setWidth 64) (machine.checked width (compute first)) := by
  simp only [unaryArithmetic, Arguments.getVal, Arguments.setVal, Arguments.operand, List.getElem?_cons_zero, pure_bind,
    bind_apply, firstValue, checkOverflow_apply]

theorem mul_apply (width : Width) (secondValue : operand2.getVal machine = .ok second machine) :
    mul { width := width.bcd, operands := [operand2] } machine =
      let value := second * machine.registers.load (registerOf width 0)
      (Operand.ofRegister (registerOf width 0)).setVal ((value.setWidth width.bits).setWidth 64)
        (machine.checked width value) := by
  simp only [mul, operationWidth, Width.ofBcd_bcd, loadRegister, storeRegister, getRegisters, modifyRegisters,
    Arguments.getVal, Arguments.operand, List.getElem?_cons_zero, pure_bind, bind_apply, pure_apply, get_apply,
    modify_apply, secondValue, checkOverflow_apply, setVal_register]

/-- Every procedure of the family checks the computed value and stores what is left of it. -/
theorem dispatch_unsigned (host : Host) (target : operation.Target width operand1)
    (firstValue : operand1.getVal machine = .ok first machine)
    (secondValue : operand2.getVal machine = .ok second machine) :
    dispatch host (operation.instruction width operand1 operand2) machine =
      let value := operation.computed first second (getFlag machine.registers.FlagRegister .carry)
      operand1.setVal ((value.setWidth width.bits).setWidth 64) (machine.checked width value) := by
  cases operation with
  | add =>
    rw [UnsignedOperation.instruction, UnsignedOperation.mnemonic, dispatch_registered rfl]
    exact binaryArithmetic_apply _ width firstValue secondValue
  | adc =>
    rw [UnsignedOperation.instruction, UnsignedOperation.mnemonic, dispatch_registered rfl]
    exact binaryArithmetic_apply _ width firstValue secondValue
  | sub =>
    rw [UnsignedOperation.instruction, UnsignedOperation.mnemonic, dispatch_registered rfl]
    exact binaryArithmetic_apply _ width firstValue secondValue
  | sbb =>
    rw [UnsignedOperation.instruction, UnsignedOperation.mnemonic, dispatch_registered rfl]
    exact binaryArithmetic_apply _ width firstValue secondValue
  | inc =>
    rw [UnsignedOperation.instruction, UnsignedOperation.mnemonic, dispatch_registered rfl]
    exact unaryArithmetic_apply _ width firstValue
  | dec =>
    rw [UnsignedOperation.instruction, UnsignedOperation.mnemonic, dispatch_registered rfl]
    exact unaryArithmetic_apply _ width firstValue
  | mul =>
    obtain rfl := target rfl
    rw [getVal_register] at firstValue
    obtain rfl : machine.registers.load (registerOf width 0) = first := by
      injection firstValue
    rw [UnsignedOperation.instruction, UnsignedOperation.mnemonic, dispatch_registered rfl]
    exact mul_apply width secondValue

/-! ## The result and the carry -/

/-- The instruction stores the exact result modulo `2 ^ w`, and the carry says whether the result was
outside `[0, 2 ^ w)`. -/
def ComputesExactly (host : Host) (instruction : ActiveInstruction) (width : Width) (target : Operand) (result : ℤ)
    (machine : Machine) : Prop :=
  ∃ after stored, dispatch host instruction machine = .ok () after ∧ target.getVal after = .ok stored after ∧
    (stored.toNat : ℤ) = result % 2 ^ width.bits ∧
    (getFlag after.registers.FlagRegister .carry = true ↔ ¬ (0 ≤ result ∧ result < 2 ^ width.bits))

/-- What an instruction of the family does: the stored value is always right, and the carry is the
range check of the 64-bit value. -/
theorem dispatch_unsigned_result (host : Host) (target : operation.Target width operand1)
    (writable : operand1.Writable machine width) (firstValue : operand1.getVal machine = .ok first machine)
    (secondValue : operand2.getVal machine = .ok second machine) :
    let result := operation.exact first.toNat second.toNat (getFlag machine.registers.FlagRegister .carry)
    ∃ after stored, dispatch host (operation.instruction width operand1 operand2) machine = .ok () after ∧
      operand1.getVal after = .ok stored after ∧ (stored.toNat : ℤ) = result % 2 ^ width.bits ∧
      (getFlag after.registers.FlagRegister .carry = true ↔
        ((BitVec.ofInt 64 result).setWidth width.bits).setWidth 64 ≠ BitVec.ofInt 64 result) := by
  intro result
  have value : operation.computed first second (getFlag machine.registers.FlagRegister .carry) = BitVec.ofInt 64 result :=
    computed_eq ..
  obtain ⟨after, stores, flags, reads⟩ := (writable.checked (BitVec.ofInt 64 result)).setVal
    (((BitVec.ofInt 64 result).setWidth width.bits).setWidth 64)
  refine ⟨after, _, ?_, reads, ?_, ?_⟩
  · rw [dispatch_unsigned host target firstValue secondValue, value]
    exact stores
  · have small : (((BitVec.ofInt 64 result).setWidth width.bits).setWidth 64).toNat < 2 ^ width.bits := by
      rw [toNat_trimmed]
      exact Nat.mod_lt _ (by positivity)
    rw [Nat.mod_eq_of_lt small, BitVec.ofNat_toNat, BitVec.setWidth_eq]
    exact toNat_trimmed_ofInt width result
  · rw [flags, getFlag_carry_checked, bne_iff_ne]

/-- At 64 bits nothing is cut off, so the carry is never set. -/
theorem trimmed_w64 (value : Word) : (value.setWidth Width.w64.bits).setWidth 64 = value := by
  rw [trimmed_eq_iff]
  exact value.isLt

/-- Unsigned arithmetic is exact with an exact carry, unless a 64-bit result leaves the 64-bit range. -/
theorem unsignedArithmetic_exact_iff (host : Host) (operation : UnsignedOperation) (width : Width) (machine : Machine)
    (operand1 operand2 : Operand) (first second : Word) (target : operation.Target width operand1)
    (writable : operand1.Writable machine width) (readable : operand2.Readable machine width)
    (firstValue : operand1.getVal machine = .ok first machine)
    (secondValue : operand2.getVal machine = .ok second machine) :
    let result := operation.exact first.toNat second.toNat (getFlag machine.registers.FlagRegister .carry)
    ComputesExactly host (operation.instruction width operand1 operand2) width operand1 result machine ↔
      width ≠ .w64 ∨ (0 ≤ result ∧ result < 2 ^ 64) := by
  intro result
  obtain ⟨after, stored, runs, reads, value, carry⟩ :=
    dispatch_unsigned_result host target writable firstValue secondValue
  -- The run is determined, so the property is about this end state only.
  have determined : ComputesExactly host (operation.instruction width operand1 operand2) width operand1 result machine ↔
      (getFlag after.registers.FlagRegister .carry = true ↔ ¬ (0 ≤ result ∧ result < 2 ^ width.bits)) := by
    constructor
    · rintro ⟨other, _, runsTo, _, _, exactCarry⟩
      rw [runs] at runsTo
      obtain rfl : after = other := by
        injection runsTo
      exact exactCarry
    · intro exactCarry
      exact ⟨after, stored, runs, reads, value, exactCarry⟩
  rw [determined, carry]
  by_cases wide : width = .w64
  · subst wide
    simp only [trimmed_w64, ne_eq, not_true_eq_false, false_iff, not_not, false_or]
    exact Iff.rfl
  · have firstSmall := (Operand.Readable.place writable).value_lt firstValue
    have secondSmall := readable.value_lt secondValue
    obtain ⟨low, high⟩ := exact_bounds operation (getFlag machine.registers.FlagRegister .carry) wide firstSmall secondSmall
    rw [trimmed_ne_iff wide low high]
    simp only [ne_eq, wide, not_false_eq_true, true_or, iff_true, not_and_or, not_le, not_lt]
    exact Iff.rfl

/-- A machine with one value in all full registers. -/
def Machine.holding (value : Word) : Machine :=
  { Machine.powerOn with registers := { Machine.powerOn.registers with FullyExtendedRegister := fun _ => value } }

/-- A machine with all bits of its general registers set. -/
def Machine.saturated : Machine :=
  { Machine.powerOn with
    registers := { Machine.powerOn.registers with FullyExtendedRegister := fun _ => BitVec.allOnes 64 } }

theorem getVal_saturated :
    (Operand.ofRegister (registerOf .w8 0)).getVal Machine.saturated = .ok 255 Machine.saturated := by
  rw [getVal_register]
  congr 1

/-- `ADD .8bit <%R0>, <$8(1)>` wraps around and sets the carry. -/
theorem unsignedArithmetic_exact_narrow :
    ComputesExactly Host.ample
      (UnsignedOperation.add.instruction .w8 (.ofRegister (registerOf .w8 0)) (.constant 1 Width.w8.bcd)) .w8
      (.ofRegister (registerOf .w8 0)) (255 + 1) Machine.saturated := by
  apply (unsignedArithmetic_exact_iff Host.ample .add .w8 Machine.saturated (.ofRegister (registerOf .w8 0))
    (.constant 1 Width.w8.bcd) 255 1 (by decide) (.register (registerOf .w8 0))
      (.constant (by decide)) getVal_saturated rfl).mpr
  left
  decide

/-- `ADD .64bit <%FER0>, <$64(1)>` on the largest value is cut to zero without a carry. -/
theorem not_computesExactly_wide :
    (Operand.ofRegister (registerOf .w64 0)).getVal Machine.saturated =
        .ok (BitVec.ofNat 64 (2 ^ 64 - 1)) Machine.saturated ∧
      ¬ ComputesExactly Host.ample
        (UnsignedOperation.add.instruction .w64 (.ofRegister (registerOf .w64 0)) (.constant 1 Width.w64.bcd)) .w64
        (.ofRegister (registerOf .w64 0)) (2 ^ 64 - 1 + 1) Machine.saturated := by
  have loaded : (Operand.ofRegister (registerOf .w64 0)).getVal Machine.saturated =
      .ok (BitVec.ofNat 64 (2 ^ 64 - 1)) Machine.saturated := by
    rw [getVal_register]
    congr 1
  refine ⟨loaded, ?_⟩
  have one : (Operand.constant 1 Width.w64.bcd).getVal Machine.saturated = .ok 1 Machine.saturated := rfl
  obtain ⟨after, stored, runs, reads, value, carry⟩ := dispatch_unsigned_result Host.ample
    (show UnsignedOperation.add.Target .w64 _ by decide) (.register (registerOf .w64 0)) loaded one
  rintro ⟨other, _, runsTo, _, _, exactCarry⟩
  rw [runs] at runsTo
  obtain rfl : after = other := by
    injection runsTo
  rw [carry, trimmed_w64] at exactCarry
  exact exactCarry.mpr (by decide) rfl

end Sysdarft
