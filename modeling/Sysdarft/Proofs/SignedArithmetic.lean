import Sysdarft.Proofs.Division
import Sysdarft.Proofs.ProcedureFaults

/-! # Signed arithmetic

The signed procedures take register 0 with all bits above the operation width set, so below 64 bits every
first operand is negative for them, and they take the other operand without its sign. What they store
and the overflow flag are compared with the exact product and the truncating division; which operands
come out right is settled by arithmetic on half the size of a register.
-/

namespace Sysdarft

open Effects

/-! ## Which operands come out right -/

/-- The operands below 64 bits whose product is flagged right, where `half` is the first number out of
range. -/
def ProductFlagRight (half a b : ℤ) : Prop :=
  b = 0 ∨ a < 0 ∧ 0 < b ∨ a < 0 ∧ b < 0 ∧ half ≤ a * b ∧ ¬ (a = -1 ∧ b = -half) ∨ 0 ≤ a ∧ 0 < b ∧ half ≤ a * b ∨
    0 ≤ a ∧ b < 0 ∧ if 2 ^ 63 < (2 * half - a) * (2 * half + b) then -half ≤ a * b else a * b < -half

/-- `base` and `factor` are what the procedure multiplies, in 64 bits. -/
theorem product_flag {half a b base factor product : ℤ} (positive : 0 < half) (room : half * half ≤ 2 ^ 62)
    (low : -half ≤ a) (high : a < half) (low' : -half ≤ b) (high' : b < half)
    (filled : base = if a < 0 then a else a - 2 * half) (extended : factor = if b < 0 then b + 2 * half else b)
    (wrapped : product = if factor * base < -2 ^ 63 then factor * base + 2 ^ 64 else factor * base) :
    (product < -half ↔ ¬ (-half ≤ a * b ∧ a * b < half)) ↔ ProductFlagRight half a b := by
  rw [ProductFlagRight]
  rcases lt_or_ge a 0 with negative | nonneg
  · rw [if_pos negative] at filled
    subst filled
    rcases lt_trichotomy b 0 with negative' | rfl | positive'
    · rw [if_pos negative'] at extended
      have above : 0 < base * b := by nlinarith
      have inside : ¬ factor * base < -2 ^ 63 := by nlinarith
      rw [if_neg inside] at wrapped
      -- The product is beyond the range unless it is the least number itself.
      have beyond : product < -half ↔ ¬ (base = -1 ∧ b = -half) := by
        rw [wrapped, extended]
        constructor
        · rintro far ⟨rfl, rfl⟩
          omega
        · intro other
          by_contra near
          apply other
          have minusOne : base = -1 := by nlinarith
          subst minusOne
          omega
      rw [beyond]
      by_cases least : base = -1 ∧ b = -half
      · obtain ⟨rfl, rfl⟩ := least
        simp
        omega
      · have impossible : ¬ 0 ≤ base := not_le.mpr negative
        simp only [least, impossible, negative, negative', not_false_eq_true, true_iff, true_and, and_true, false_and,
          or_false]
        omega
    · rw [if_neg (lt_irrefl 0)] at extended
      subst extended
      simp at wrapped
      subst wrapped
      simp
      omega
    · rw [if_neg (by omega)] at extended
      subst extended
      have inside : ¬ factor * base < -2 ^ 63 := by nlinarith
      rw [if_neg inside] at wrapped
      subst wrapped
      have below : base * factor < 0 := by nlinarith
      rw [mul_comm factor base]
      omega
  · rw [if_neg (by omega)] at filled
    rcases lt_trichotomy b 0 with negative' | rfl | positive'
    · rw [if_pos negative'] at extended
      have same : (2 * half - a) * (2 * half + b) = -(factor * base) := by
        rw [filled, extended]
        ring
      have above : a * b ≤ 0 := by nlinarith
      have least : -2 ^ 64 < factor * base := by nlinarith
      have far : factor * base < -half := by nlinarith
      rw [same]
      by_cases wraps : factor * base < -2 ^ 63
      · rw [if_pos wraps] at wrapped
        rw [if_pos (by omega)]
        omega
      · rw [if_neg wraps] at wrapped
        rw [if_neg (by omega)]
        omega
    · rw [if_neg (lt_irrefl 0)] at extended
      subst extended
      simp at wrapped
      subst wrapped
      simp
      omega
    · rw [if_neg (by omega)] at extended
      subst extended
      have above : 0 ≤ a * factor := by nlinarith
      have inside : ¬ factor * base < -2 ^ 63 := by nlinarith
      have far : factor * base < -half := by nlinarith
      rw [if_neg inside] at wrapped
      omega

/-- The operands below 64 bits whose quotient, remainder and overflow flag come out right. -/
def NarrowDivisionRight (a b : ℤ) : Prop :=
  a < 0 ∧ 0 < b ∨ b = 1 ∨ a < 0 ∧ b < 0 ∧ b < a ∨ b < 0 ∧ a = -b

theorem eq_of_emod_eq {modulus x y : ℤ} (same : x % modulus = y % modulus) (low : -modulus < x - y)
    (high : x - y < modulus) :
    x = y := by
  obtain ⟨k, multiple⟩ := Int.ModEq.dvd same
  have zero : k = 0 := by nlinarith
  subst zero
  omega

/-- A negative dividend and a positive divisor. -/
theorem tdiv_negative {base factor : ℤ} (negative : base < 0) (positive : 0 < factor) :
    base.tdiv factor * factor + base.tmod factor = base ∧ base.tmod factor ≤ 0 ∧ -factor < base.tmod factor ∧
      base.tdiv factor ≤ 0 := by
  have total := Int.tdiv_mul_add_tmod base factor
  have low := Int.lt_tmod_of_pos base positive
  have high : base.tmod factor ≤ 0 := by
    have mirrored := Int.tmod_nonneg factor (show 0 ≤ -base by omega)
    rw [Int.neg_tmod] at mirrored
    omega
  refine ⟨total, high, low, ?_⟩
  by_contra above
  have product : factor ≤ base.tdiv factor * factor := by nlinarith
  omega

theorem tdiv_both_negative {a b : ℤ} (negative : a < 0) (negative' : b < 0) :
    a.tdiv b * b + a.tmod b = a ∧ a.tmod b ≤ 0 ∧ b < a.tmod b ∧ 0 ≤ a.tdiv b := by
  obtain ⟨total, high, low, nonpos⟩ := tdiv_negative negative (show 0 < -b by omega)
  rw [Int.tdiv_neg] at total nonpos
  rw [Int.tmod_neg] at total high low
  rw [neg_mul_neg] at total
  exact ⟨total, high, by omega, by omega⟩

theorem narrowDivision {half a b base factor : ℤ} (wide : 2 ≤ half) (low : -half ≤ a) (high : a < half) (low' : -half ≤ b)
    (high' : b < half) (nonzero : b ≠ 0) (filled : base = if a < 0 then a else a - 2 * half)
    (extended : factor = if b < 0 then b + 2 * half else b) :
    base.tdiv factor % (2 * half) = a.tdiv b % (2 * half) ∧ base.tmod factor % (2 * half) = a.tmod b % (2 * half) ∧
      (base.tmod factor < -half ↔ ¬ (-half ≤ a.tdiv b ∧ a.tdiv b < half)) ↔ NarrowDivisionRight a b := by
  have below : base < 0 := by split_ifs at filled <;> omega
  have above : 0 < factor := by split_ifs at extended <;> omega
  obtain ⟨total, remainder_high, remainder_low, quotient_high⟩ := tdiv_negative below above
  rw [NarrowDivisionRight]
  rcases lt_or_ge a 0 with negative | nonneg
  · rw [if_pos negative] at filled
    subst filled
    rcases lt_or_gt_of_ne nonzero with negative' | positive
    · rw [if_pos negative'] at extended
      obtain ⟨total', high', low', nonneg'⟩ := tdiv_both_negative negative negative'
      have near : -1 ≤ base.tdiv factor := by nlinarith
      constructor
      · rintro ⟨same, -, -⟩
        have bound : base.tdiv b ≤ half := by nlinarith
        have equal := eq_of_emod_eq same (by omega) (by omega)
        have zero : base.tdiv b = 0 := by omega
        rw [zero] at total'
        omega
      · intro right
        have less : b < base := by omega
        have zero' : base.tdiv b = 0 := by nlinarith
        have zero : base.tdiv factor = 0 := by nlinarith
        rw [zero', zero_mul, zero_add] at total'
        rw [zero, zero_mul, zero_add] at total
        rw [zero, zero', total, total']
        omega
    · rw [if_neg (by omega)] at extended
      subst extended
      simp only [true_and, negative, positive, true_or, iff_true]
      have product : base ≤ base.tdiv factor * factor := by omega
      have least : base ≤ base.tdiv factor := by nlinarith
      omega
  · rw [if_neg (by omega)] at filled
    rcases lt_or_gt_of_ne nonzero with negative' | positive
    · rw [if_pos negative'] at extended
      have total' := Int.tdiv_mul_add_tmod a b
      have low' := Int.tmod_nonneg b nonneg
      have high' := Int.tmod_lt_of_pos a (show 0 < -b by omega)
      rw [Int.tmod_neg] at high'
      constructor
      · rintro ⟨quotients, remainders, -⟩
        have equal := eq_of_emod_eq remainders (by omega) (by omega)
        have zero : a.tmod b = 0 := by omega
        rw [equal, zero, add_zero] at total
        rw [zero, add_zero] at total'
        have bound : -2 ≤ base.tdiv factor := by nlinarith
        have nonpos : a.tdiv b ≤ 0 := by nlinarith
        have bound' : -half < a.tdiv b := by nlinarith
        have same := eq_of_emod_eq quotients (by omega) (by omega)
        rw [← same] at total'
        have product : (2 * half) * (base.tdiv factor + 1) = 0 := by
          linear_combination total - total' + filled - base.tdiv factor * extended
        rcases mul_eq_zero.mp product with none | minusOne
        · omega
        · rw [eq_neg_of_add_eq_zero_left minusOne] at total'
          omega
      · intro right
        obtain rfl : a = -b := by omega
        have mirrored : base = -factor := by omega
        rw [mirrored, Int.neg_tdiv, Int.neg_tmod, Int.neg_tdiv, Int.neg_tmod, Int.tdiv_self (by omega),
          Int.tdiv_self nonzero, Int.tmod_self, Int.tmod_self]
        omega
    · rw [if_neg (by omega)] at extended
      subst extended
      have total' := Int.tdiv_mul_add_tmod a factor
      have low' := Int.tmod_nonneg factor nonneg
      have high' := Int.tmod_lt_of_pos a positive
      constructor
      · rintro ⟨quotients, remainders, -⟩
        have equal := eq_of_emod_eq remainders (by omega) (by omega)
        have zero : a.tmod factor = 0 := by omega
        rw [equal, zero, add_zero] at total
        rw [zero, add_zero] at total'
        obtain ⟨k, multiple⟩ := Int.ModEq.dvd quotients
        have product : (2 * half) * (k * factor - 1) = 0 := by
          linear_combination -factor * multiple + total' - total - filled
        have one : factor * k = 1 := by
          rcases mul_eq_zero.mp product with none | unit
          · omega
          · linear_combination unit
        have unit := Int.eq_one_of_mul_eq_one_right positive.le one
        omega
      · intro right
        obtain rfl : factor = 1 := by omega
        rw [Int.tdiv_one, Int.tdiv_one, Int.tmod_one, Int.tmod_one, filled, Int.sub_emod_right]
        omega

/-! ## The operands as the procedures see them -/

/-- A value of an operation width as a signed number. -/
def signedValue (width : Width) (value : Word) : ℤ := (value.setWidth width.bits).toInt

/-- The range of signed numbers of a width. -/
def FitsSigned (width : Width) (value : ℤ) : Prop := -2 ^ (width.bits - 1) ≤ value ∧ value < 2 ^ (width.bits - 1)

instance (width : Width) (value : ℤ) : Decidable (FitsSigned width value) :=
  inferInstanceAs (Decidable (_ ∧ _))

variable {width : Width} {value : Word}

theorem Width.twice_half (width : Width) : (2 : ℤ) * 2 ^ (width.bits - 1) = 2 ^ width.bits := by
  cases width <;> decide

theorem signedValue_bounds (width : Width) (value : Word) :
    -2 ^ (width.bits - 1) ≤ signedValue width value ∧ signedValue width value < 2 ^ (width.bits - 1) :=
  ⟨BitVec.le_toInt _, BitVec.toInt_lt⟩

/-- A value of the width, read without its sign. -/
theorem toNat_of_signedValue (small : value.toNat < 2 ^ width.bits) :
    (value.toNat : ℤ) = if signedValue width value < 0 then signedValue width value + 2 ^ width.bits
      else signedValue width value := by
  have cut : (value.setWidth width.bits).toNat = value.toNat := by
    rw [BitVec.toNat_setWidth, Nat.mod_eq_of_lt small]
  have signed : signedValue width value =
      if 2 * value.toNat < 2 ^ width.bits then (value.toNat : ℤ) else value.toNat - (2 ^ width.bits : ℕ) := by
    rw [signedValue, BitVec.toInt_eq_toNat_cond, cut]
  rw [signed]
  push_cast
  zify at small
  split_ifs <;> omega

theorem signedValue_w64 (value : Word) : signedValue .w64 value = value.toInt := by
  rw [signedValue, show Width.w64.bits = 64 from rfl, BitVec.setWidth_eq]

/-- The bits above the width are set. -/
theorem toNat_filledBase (registers : Registers) (width : Width) :
    (filledBase registers width).toNat = (registers.load (registerOf width 0)).toNat + (2 ^ 64 - 2 ^ width.bits) := by
  have small := toNat_load_lt registers width 0
  have mask : (~~~ ((BitVec.allOnes width.bits).setWidth 64)).toNat = 2 ^ 64 - 2 ^ width.bits := by
    cases width <;> decide
  have apart : registers.load (registerOf width 0) &&& ~~~ ((BitVec.allOnes width.bits).setWidth 64) = 0#64 := by
    apply BitVec.eq_of_getLsbD_eq
    intro bit inside
    rw [registerOf, BitVec.getLsbD_and, Registers.getLsbD_load]
    simp only [inside, BitVec.getLsbD_not, BitVec.getLsbD_setWidth, BitVec.getLsbD_allOnes, BitVec.getLsbD_zero,
      decide_true, Bool.true_and]
    cases decide (bit < width.bits) <;> simp
  rw [filledBase, ← BitVec.add_eq_or_of_and_eq_zero _ _ apart, BitVec.toNat_add, mask, Nat.mod_eq_of_lt]
  have positive : 0 < 2 ^ width.bits := by positivity
  have wide : 2 ^ width.bits ≤ 2 ^ 64 := by cases width <;> decide
  omega

/-- Register 0 as the signed procedures see it. -/
theorem toInt_filledBase (registers : Registers) (width : Width) :
    (filledBase registers width).toInt =
      if width = .w64 ∨ signedValue width (registers.load (registerOf width 0)) < 0 then
        signedValue width (registers.load (registerOf width 0))
      else signedValue width (registers.load (registerOf width 0)) - 2 ^ width.bits := by
  have small := toNat_load_lt registers width 0
  have total := toNat_filledBase registers width
  have unsigned := toNat_of_signedValue small
  have bounds := signedValue_bounds width (registers.load (registerOf width 0))
  rw [BitVec.toInt_eq_toNat_cond, total]
  generalize signedValue width (registers.load (registerOf width 0)) = a at unsigned bounds ⊢
  generalize (registers.load (registerOf width 0)).toNat = number at small unsigned ⊢
  cases width <;> simp only [Width.bits, reduceCtorEq, false_or, true_or, if_true] at small unsigned bounds ⊢ <;>
    split_ifs at unsigned ⊢ <;> omega

/-- The other operand as the signed procedures see it. -/
theorem toInt_factor (small : value.toNat < 2 ^ width.bits) :
    value.toInt = if width = .w64 ∨ 0 ≤ signedValue width value then signedValue width value
      else signedValue width value + 2 ^ width.bits := by
  have unsigned := toNat_of_signedValue small
  have bounds := signedValue_bounds width value
  rw [BitVec.toInt_eq_toNat_cond]
  generalize signedValue width value = b at unsigned bounds ⊢
  cases width <;> simp only [Width.bits, reduceCtorEq, false_or, true_or, if_true] at small unsigned bounds ⊢ <;>
    split_ifs at unsigned ⊢ <;> omega

/-! ## The procedures -/

variable {machine : Machine} {operand : Operand} {factor : Word}

theorem loadFilled_apply (width : Width) (machine : Machine) :
    loadFilled width machine = .ok (filledBase machine.registers width) machine := rfl

theorem dispatch_imul (host : Host) (width : Width) (known : operand.getVal machine = .ok factor machine) :
    let product := factor * filledBase machine.registers width
    let checked := machine.flagged (signedCarry width product) (signedOverflow width product)
    dispatch host (Mnemonic.imul.sized width [operand]) machine =
      .ok () { checked with registers := checked.registers.store (signedResult width product) (registerOf width 0) } := by
  intro product checked
  rw [dispatch_sized rfl]
  simp only [imul, operationWidth, Width.ofBcd_bcd, storeRegister, modifyRegisters, Arguments.getVal, Arguments.operand,
    List.getElem?_cons_zero, pure_bind, bind_apply, pure_apply, modify_apply, loadFilled_apply, known, checkSigned_flagged]
  rfl

theorem dispatch_idiv (host : Host) (width : Width) (known : operand.getVal machine = .ok factor machine)
    (nonzero : factor ≠ 0)
    (defined : ¬ (filledBase machine.registers width = BitVec.intMin 64 ∧ factor = -1)) :
    let quotient := (filledBase machine.registers width).sdiv factor
    let remainder := (filledBase machine.registers width).srem factor
    dispatch host (Mnemonic.idiv.sized width [operand]) machine =
      .ok () ((machine.flagged (signedCarry width remainder) (signedOverflow width remainder)).withResults width
        (signedResult width quotient) (signedResult width remainder)) := by
  intro quotient remainder
  rw [dispatch_sized rfl]
  simp only [idiv, operationWidth, Width.ofBcd_bcd, storeRegister, modifyRegisters, Arguments.getVal, Arguments.operand,
    List.getElem?_cons_zero, pure_bind, bind_apply, pure_apply, modify_apply, loadFilled_apply, known, if_neg nonzero,
    if_neg defined, checkSigned_flagged, Machine.flagged_flagged]
  rfl

theorem dispatch_idiv_zero (host : Host) (known : operand.getVal machine = .ok 0 machine) :
    dispatch host (Mnemonic.idiv.sized width [operand]) machine = doInterruption host 0x01 machine := by
  rw [dispatch_sized rfl]
  simp only [idiv, operationWidth, Width.ofBcd_bcd, Arguments.getVal, Arguments.operand, List.getElem?_cons_zero,
    pure_bind, bind_apply, pure_apply, loadFilled_apply, known, ↓reduceIte]

/-- The host traps on the one quotient that 64 bits do not hold. -/
theorem dispatch_idiv_trap (host : Host) (known : operand.getVal machine = .ok (-1) machine)
    (least : filledBase machine.registers width = BitVec.intMin 64) :
    dispatch host (Mnemonic.idiv.sized width [operand]) machine = .error .arithmeticTrap machine := by
  have nonzero : ¬ (-1 : Word) = 0 := by decide
  rw [dispatch_sized rfl]
  simp only [idiv, operationWidth, Width.ofBcd_bcd, Arguments.getVal, Arguments.operand, List.getElem?_cons_zero,
    pure_bind, bind_apply, pure_apply, loadFilled_apply, known, if_neg nonzero, least, and_self, ↓reduceIte]
  rfl

/-! ## Multiplication -/

/-- The two operands are right modulo the size of the register. -/
theorem operands_modEq (registers : Registers) (small : value.toNat < 2 ^ width.bits) :
    (filledBase registers width).toInt ≡ signedValue width (registers.load (registerOf width 0)) [ZMOD 2 ^ width.bits] ∧
      value.toInt ≡ signedValue width value [ZMOD 2 ^ width.bits] := by
  rw [toInt_filledBase, toInt_factor small]
  constructor
  · split_ifs
    · exact Int.ModEq.rfl
    · exact Int.sub_emod_right ..
  · split_ifs
    · exact Int.ModEq.rfl
    · exact Int.add_emod_right ..

/-- The low bits of a result that wrapped around in 64 bits. -/
theorem emod_bmod (width : Width) (number : ℤ) : number.bmod (2 ^ 64) % 2 ^ width.bits = number % 2 ^ width.bits := by
  have divides : (2 : ℤ) ^ width.bits ∣ (2 ^ 64 : ℕ) := by
    cases width <;> decide
  rw [← Int.emod_emod_of_dvd _ divides, Int.bmod_emod, Int.emod_emod_of_dvd _ divides]

theorem toInt_product (first second : Word) (low : -2 ^ 64 < first.toInt * second.toInt)
    (high : first.toInt * second.toInt < 2 ^ 63) :
    (first * second).toInt =
      if first.toInt * second.toInt < -2 ^ 63 then first.toInt * second.toInt + 2 ^ 64 else first.toInt * second.toInt := by
  rw [BitVec.toInt_mul, Int.bmod]
  generalize first.toInt * second.toInt = product at low high ⊢
  split_ifs <;> omega

theorem getFlag_overflow_flagged (machine : Machine) (carry overflow : Bool) :
    getFlag (machine.flagged carry overflow).registers.FlagRegister .overflow = overflow := by
  rw [getFlag, Machine.flagged, getLsbD_arithmeticFlags]
  rfl

/-- The instruction stores the product of the signed operands modulo `2 ^ w`, and the overflow flag says
whether the product is out of range. -/
def MultipliesSigned (host : Host) (width : Width) (operand : Operand) (a b : ℤ) (machine : Machine) : Prop :=
  ∃ after, dispatch host (Mnemonic.imul.sized width [operand]) machine = .ok () after ∧
    ((after.registers.load (registerOf width 0)).toNat : ℤ) = a * b % 2 ^ width.bits ∧
    (getFlag after.registers.FlagRegister .overflow = true ↔ ¬ FitsSigned width (a * b))

/-- The operands whose product is flagged right: at 64 bits the overflow flag is never set. -/
def SignedProductRight (width : Width) (a b : ℤ) : Prop :=
  if width = .w64 then FitsSigned width (a * b) else ProductFlagRight (2 ^ (width.bits - 1)) a b

/-- Half the size of a register below 64 bits. -/
theorem half_bounds (narrow : width ≠ .w64) :
    (2 : ℤ) ≤ 2 ^ (width.bits - 1) ∧ (2 : ℤ) ^ (width.bits - 1) * 2 ^ (width.bits - 1) ≤ 2 ^ 62 := by
  cases width with
  | w64 => exact absurd rfl narrow
  | w8 | w16 | w32 => decide

/-- Below 64 bits the first operand is negative and the other one is not. -/
theorem operands_narrow (registers : Registers) (narrow : width ≠ .w64) (small : factor.toNat < 2 ^ width.bits) :
    let half : ℤ := 2 ^ (width.bits - 1)
    let a := signedValue width (registers.load (registerOf width 0))
    let b := signedValue width factor
    (filledBase registers width).toInt = (if a < 0 then a else a - 2 * half) ∧
      factor.toInt = if b < 0 then b + 2 * half else b := by
  intro half a b
  have size : 2 * half = 2 ^ width.bits := width.twice_half
  rw [toInt_filledBase, toInt_factor small, size]
  simp only [narrow, false_or]
  refine ⟨rfl, ?_⟩
  by_cases negative : signedValue width factor < 0
  · rw [if_neg (not_le.mpr negative), if_pos negative]
  · rw [if_pos (not_lt.mp negative), if_neg negative]

/-- The overflow flag of a product. -/
theorem signedOverflow_product (registers : Registers) (small : factor.toNat < 2 ^ width.bits) :
    let a := signedValue width (registers.load (registerOf width 0))
    let b := signedValue width factor
    (signedOverflow width (factor * filledBase registers width) = true ↔ ¬ FitsSigned width (a * b)) ↔
      SignedProductRight width a b := by
  intro a b
  rw [signedOverflow_iff, SignedProductRight]
  by_cases wide : width = .w64
  · have least := BitVec.le_toInt (factor * filledBase registers width)
    have never : ¬ (factor * filledBase registers width).toInt < -2 ^ (width.bits - 1) := by
      subst wide
      exact not_lt.mpr least
    rw [if_pos wide]
    simp only [never, false_iff, not_not]
  · rw [if_neg wide]
    obtain ⟨two, room⟩ := half_bounds wide
    obtain ⟨low, high⟩ : -2 ^ (width.bits - 1) ≤ a ∧ a < 2 ^ (width.bits - 1) := signedValue_bounds ..
    obtain ⟨low', high'⟩ : -2 ^ (width.bits - 1) ≤ b ∧ b < 2 ^ (width.bits - 1) := signedValue_bounds ..
    obtain ⟨filled, extended⟩ := operands_narrow registers wide small
    have below : (filledBase registers width).toInt < 0 ∧
        -(2 * 2 ^ (width.bits - 1)) ≤ (filledBase registers width).toInt := by
      rw [filled]
      split_ifs <;> omega
    have above : 0 ≤ factor.toInt ∧ factor.toInt < 2 * 2 ^ (width.bits - 1) := by
      rw [extended]
      split_ifs <;> omega
    exact product_flag (by omega) room low high low' high' filled extended
      (toInt_product factor (filledBase registers width) (by nlinarith) (by nlinarith))

/-- `imul` stores the product of the signed operands; its overflow flag is right for the operands of
`SignedProductRight` and for no others. -/
theorem imul_exact_iff (host : Host) (width : Width) (machine : Machine) (operand : Operand) (factor : Word)
    (readable : operand.Readable machine width) (known : operand.getVal machine = .ok factor machine) :
    let a := signedValue width (machine.registers.load (registerOf width 0))
    let b := signedValue width factor
    MultipliesSigned host width operand a b machine ↔ SignedProductRight width a b := by
  intro a b
  have small := readable.value_lt known
  have runs := dispatch_imul host width known
  have flagged : (_ ↔ ¬ FitsSigned width (a * b)) ↔ SignedProductRight width a b :=
    signedOverflow_product machine.registers small
  generalize product_eq : factor * filledBase machine.registers width = product at runs flagged
  rw [← flagged]
  obtain ⟨first, second⟩ := operands_modEq machine.registers small
  have stored : ((trimmed width (signedResult width product)).toNat : ℤ) = a * b % 2 ^ width.bits := by
    rw [trimmed_signedResult, toNat_trimmed_toInt, ← product_eq, BitVec.toInt_mul, emod_bmod, mul_comm]
    exact first.mul second
  constructor
  · rintro ⟨after, finished, -, flag⟩
    rw [runs] at finished
    obtain rfl := (EStateM.Result.ok.inj finished).2
    rwa [Registers.store_FlagRegister, getFlag_overflow_flagged] at flag
  · intro flag
    refine ⟨_, runs, ?_, ?_⟩
    · rw [← stored, Registers.load_store]
      rfl
    · rwa [Registers.store_FlagRegister, getFlag_overflow_flagged]

/-- `IMUL .8bit <$8(3)>` of minus two. -/
theorem imul_exact_negative :
    MultipliesSigned Host.ample .w8 (.constant 3 Width.w8.bcd) (-2) 3 (Machine.holding 0xFE) := by
  have dividend : signedValue .w8 ((Machine.holding 0xFE).registers.load (registerOf .w8 0)) = -2 := by decide +kernel
  have exact_ := (imul_exact_iff Host.ample .w8 (Machine.holding 0xFE) (.constant 3 Width.w8.bcd) 3
    (.constant (by decide)) rfl).mpr
  rw [dividend] at exact_
  exact exact_ (.inr (.inl ⟨by decide, by decide⟩))

/-- `IMUL .8bit <$8(3)>` of two sets the overflow flag. -/
theorem not_imul_exact :
    ¬ ∀ (machine : Machine) (factor : Word), factor.toNat < 2 ^ 8 →
      MultipliesSigned Host.ample .w8 (.constant factor Width.w8.bcd)
        (signedValue .w8 (machine.registers.load (registerOf .w8 0))) (signedValue .w8 factor) machine := by
  intro every
  obtain ⟨after, finished, -, flag⟩ := every (Machine.holding 2) 3 (by decide)
  have three : (Operand.constant 3 Width.w8.bcd).getVal (Machine.holding 2) = .ok 3 (Machine.holding 2) := rfl
  rw [dispatch_imul Host.ample .w8 three] at finished
  obtain rfl := (EStateM.Result.ok.inj finished).2
  rw [Registers.store_FlagRegister, getFlag_overflow_flagged] at flag
  exact flag.mp (by decide +kernel) (by decide +kernel)

/-! ## Division -/

/-- The instruction stores the quotient, rounded toward zero, and its remainder modulo `2 ^ w`, and the
overflow flag says whether the quotient is out of range. A division by zero is the interruption alone. -/
def DividesSigned (host : Host) (width : Width) (operand : Operand) (a b : ℤ) (machine : Machine) : Prop :=
  if b = 0 then dispatch host (Mnemonic.idiv.sized width [operand]) machine = doInterruption host 0x01 machine
  else ∃ after, dispatch host (Mnemonic.idiv.sized width [operand]) machine = .ok () after ∧
    ((after.registers.load (registerOf width 0)).toNat : ℤ) = a.tdiv b % 2 ^ width.bits ∧
    ((after.registers.load (registerOf width 1)).toNat : ℤ) = a.tmod b % 2 ^ width.bits ∧
    (getFlag after.registers.FlagRegister .overflow = true ↔ ¬ FitsSigned width (a.tdiv b))

/-- The operands that are divided right: at 64 bits all but those the host traps on. -/
def SignedDivisionRight (width : Width) (a b : ℤ) : Prop :=
  b = 0 ∨ if width = .w64 then ¬ (a = -2 ^ 63 ∧ b = -1) else NarrowDivisionRight a b

/-- What `idiv` leaves when the host does not trap. -/
theorem idiv_result (host : Host) (width : Width) (known : operand.getVal machine = .ok factor machine)
    (nonzero : factor ≠ 0) (defined : ¬ (filledBase machine.registers width = BitVec.intMin 64 ∧ factor = -1)) :
    let quotient := (filledBase machine.registers width).toInt.tdiv factor.toInt
    let remainder := (filledBase machine.registers width).toInt.tmod factor.toInt
    ∃ after, dispatch host (Mnemonic.idiv.sized width [operand]) machine = .ok () after ∧
      ((after.registers.load (registerOf width 0)).toNat : ℤ) = quotient % 2 ^ width.bits ∧
      ((after.registers.load (registerOf width 1)).toNat : ℤ) = remainder % 2 ^ width.bits ∧
      (getFlag after.registers.FlagRegister .overflow = true ↔ remainder < -2 ^ (width.bits - 1)) := by
  intro quotient remainder
  have divided : ((filledBase machine.registers width).sdiv factor).toInt = quotient :=
    BitVec.toInt_sdiv_of_ne_or_ne _ _ (not_and_or.mp defined)
  have left : ((filledBase machine.registers width).srem factor).toInt = remainder := BitVec.toInt_srem ..
  refine ⟨_, dispatch_idiv host width known nonzero defined, ?_, ?_, ?_⟩
  · rw [withResults_quotient, trimmed_signedResult, toNat_trimmed_toInt, divided]
  · rw [withResults_remainder, trimmed_signedResult, toNat_trimmed_toInt, left]
  · rw [Machine.withResults, Registers.store_FlagRegister, Registers.store_FlagRegister, getFlag_overflow_flagged,
      signedOverflow_iff, left]

/-- An instruction that stores these results divides right exactly when they are the right ones. -/
theorem dividesSigned_iff {host : Host} {a b quotient remainder : ℤ} {overflow : Prop} (nonzero : b ≠ 0)
    (runs : ∃ after, dispatch host (Mnemonic.idiv.sized width [operand]) machine = .ok () after ∧
      ((after.registers.load (registerOf width 0)).toNat : ℤ) = quotient % 2 ^ width.bits ∧
      ((after.registers.load (registerOf width 1)).toNat : ℤ) = remainder % 2 ^ width.bits ∧
      (getFlag after.registers.FlagRegister .overflow = true ↔ overflow)) :
    DividesSigned host width operand a b machine ↔
      quotient % 2 ^ width.bits = a.tdiv b % 2 ^ width.bits ∧ remainder % 2 ^ width.bits = a.tmod b % 2 ^ width.bits ∧
        (overflow ↔ ¬ FitsSigned width (a.tdiv b)) := by
  obtain ⟨after, finished, first, second, flag⟩ := runs
  rw [DividesSigned, if_neg nonzero]
  constructor
  · rintro ⟨other, finished', first', second', flag'⟩
    rw [finished] at finished'
    obtain rfl := (EStateM.Result.ok.inj finished').2
    exact ⟨first.symm.trans first', second.symm.trans second', flag.symm.trans flag'⟩
  · rintro ⟨first', second', flag'⟩
    exact ⟨after, finished, first.trans first', second.trans second', flag.trans flag'⟩

/-- At 64 bits the procedure divides the signed numbers themselves. -/
theorem idiv_wide (host : Host) (known : operand.getVal machine = .ok factor machine) (nonzero : factor ≠ 0)
    (nonzero' : signedValue .w64 factor ≠ 0) :
    DividesSigned host .w64 operand (signedValue .w64 (machine.registers.load (registerOf .w64 0)))
        (signedValue .w64 factor) machine ↔
      ¬ (signedValue .w64 (machine.registers.load (registerOf .w64 0)) = -2 ^ 63 ∧ signedValue .w64 factor = -1) := by
  have base := toInt_filledBase machine.registers .w64
  simp only [true_or, if_true] at base
  rw [← base, signedValue_w64]
  rw [signedValue_w64] at nonzero'
  generalize dividend_eq : filledBase machine.registers .w64 = dividend
  have least : dividend = BitVec.intMin 64 ↔ dividend.toInt = -2 ^ 63 := by
    rw [← BitVec.toInt_inj]
    exact Iff.rfl
  have minusOne : factor = -1 ↔ factor.toInt = -1 := by
    rw [← BitVec.toInt_inj]
    exact Iff.rfl
  rw [← least, ← minusOne]
  by_cases trap : dividend = BitVec.intMin 64 ∧ factor = -1
  · obtain ⟨smallest, rfl⟩ := trap
    simp only [smallest, and_self, not_true_eq_false, iff_false]
    rw [DividesSigned, if_neg nonzero', dispatch_idiv_trap host known (dividend_eq.trans smallest)]
    rintro ⟨after, finished, -⟩
    cases finished
  · have runs := idiv_result host .w64 known nonzero (dividend_eq ▸ trap)
    rw [dividend_eq] at runs
    have divided := BitVec.toInt_sdiv_of_ne_or_ne dividend factor (not_and_or.mp trap)
    have left := BitVec.toInt_srem dividend factor
    have fits : FitsSigned .w64 (dividend.toInt.tdiv factor.toInt) := by
      rw [← divided]
      exact ⟨BitVec.le_toInt _, BitVec.toInt_lt⟩
    have inside : ¬ dividend.toInt.tmod factor.toInt < -2 ^ (Width.w64.bits - 1) := by
      rw [← left]
      exact not_lt.mpr (BitVec.le_toInt _)
    rw [dividesSigned_iff nonzero' runs]
    simp only [trap, inside, fits, not_true_eq_false, not_false_eq_true, and_self]

/-- `idiv` divides right for the operands of `SignedDivisionRight` and for no others. -/
theorem idiv_exact_iff (host : Host) (width : Width) (machine : Machine) (operand : Operand) (factor : Word)
    (readable : operand.Readable machine width) (known : operand.getVal machine = .ok factor machine) :
    let a := signedValue width (machine.registers.load (registerOf width 0))
    let b := signedValue width factor
    DividesSigned host width operand a b machine ↔ SignedDivisionRight width a b := by
  intro a b
  have small := readable.value_lt known
  have unsigned := toNat_of_signedValue small
  rw [SignedDivisionRight]
  by_cases zero : b = 0
  · have none : factor = 0 := by
      apply BitVec.eq_of_toNat_eq
      have digits : (factor.toNat : ℤ) = if b < 0 then b + 2 ^ width.bits else b := unsigned
      rw [zero, if_neg (lt_irrefl 0)] at digits
      exact_mod_cast digits
    subst none
    rw [DividesSigned, if_pos zero]
    simp only [zero, true_or, iff_true]
    exact dispatch_idiv_zero host known
  · have nonzero : factor ≠ 0 := by
      rintro rfl
      apply zero
      simp [b, signedValue]
    simp only [zero, false_or]
    by_cases wide : width = .w64
    · subst wide
      exact idiv_wide host known nonzero zero
    · rw [if_neg wide]
      obtain ⟨two, room⟩ := half_bounds wide
      obtain ⟨low, high⟩ : -2 ^ (width.bits - 1) ≤ a ∧ a < 2 ^ (width.bits - 1) := signedValue_bounds ..
      obtain ⟨low', high'⟩ : -2 ^ (width.bits - 1) ≤ b ∧ b < 2 ^ (width.bits - 1) := signedValue_bounds ..
      obtain ⟨filled, extended⟩ := operands_narrow machine.registers wide small
      have defined : ¬ (filledBase machine.registers width = BitVec.intMin 64 ∧ factor = -1) := by
        rintro ⟨least, -⟩
        have value : (filledBase machine.registers width).toInt = -2 ^ 63 := by
          rw [least]
          decide
        rw [value] at filled
        split_ifs at filled <;> nlinarith
      rw [dividesSigned_iff zero (idiv_result host width known nonzero defined), ← width.twice_half]
      exact narrowDivision two low high low' high' zero filled extended

/-- `IDIV .8bit <$8(2)>` of minus seven. -/
theorem idiv_exact_negative :
    DividesSigned Host.ample .w8 (.constant 2 Width.w8.bcd) (-7) 2 (Machine.holding 0xF9) := by
  have dividend : signedValue .w8 ((Machine.holding 0xF9).registers.load (registerOf .w8 0)) = -7 := by decide +kernel
  have exact_ := (idiv_exact_iff Host.ample .w8 (Machine.holding 0xF9) (.constant 2 Width.w8.bcd) 2
    (.constant (by decide)) rfl).mpr
  rw [dividend] at exact_
  exact exact_ (.inr (.inl ⟨by decide, by decide⟩))

/-- `IDIV .8bit <$8(2)>` of seven stores 132. -/
theorem not_idiv_exact :
    ¬ ∀ (machine : Machine) (divisor : Word), divisor.toNat < 2 ^ 8 →
      DividesSigned Host.ample .w8 (.constant divisor Width.w8.bcd)
        (signedValue .w8 (machine.registers.load (registerOf .w8 0))) (signedValue .w8 divisor) machine := by
  intro every
  have divides := every (Machine.holding 7) 2 (by decide)
  have two : (Operand.constant 2 Width.w8.bcd).getVal (Machine.holding 7) = .ok 2 (Machine.holding 7) := rfl
  have nonzero : signedValue .w8 2 ≠ 0 := by decide
  rw [DividesSigned, if_neg nonzero] at divides
  obtain ⟨after, finished, quotient, -⟩ := divides
  rw [dispatch_idiv Host.ample .w8 two (by decide) (by decide +kernel)] at finished
  obtain rfl := (EStateM.Result.ok.inj finished).2
  rw [withResults_quotient] at quotient
  revert quotient
  decide +kernel

end Sysdarft
