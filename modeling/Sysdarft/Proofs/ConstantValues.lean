import Sysdarft.Proofs.HexadecimalNumerals

/-! # The values of constants

An expression with hexadecimal numerals is worth what the calculator makes of it when each of them is written in decimal.
An accepted constant has this value, where values beyond 64 bits saturate, unless `process_base16` takes a numeral for
the beginning of another one.
-/

namespace Sysdarft.Coding

open Words Format

/-! ## The value of an expression -/

/-- The calculator's answer begins with an integer. -/
def Answers (output : List Char) (value : ℤ) : Prop :=
  ∃ tail, output = Numerals.integer value ++ tail ∧ ∀ c ∈ tail.head?, Numerals.isDecimal c = false

/-- The expression with its hexadecimal numerals in decimal, word by word. -/
def decimalText (expression : List Char) : List Char := mapRuns isAlphanumeric decimalRun (lowerPrefix expression)

/-- The hexadecimal numerals are words that fit 64 bits, and none comes in front of another one that begins with it. -/
structure PlainNumerals (expression : List Char) : Prop extends Separated (lowerPrefix expression) where
  apart : Apart ((runs isAlphanumeric (lowerPrefix expression)).filter fun run => IsHexNumeral run)

/-- What a value becomes that does not fit 64 bits. -/
def saturated (value : ℤ) : ℤ := if value.natAbs ≤ Numerals.maxU64 then value else Numerals.maxU64

/-- A constant is the value of its expression, where values beyond 64 bits saturate, cut to the width. A numeral is its own
value; of other expressions the calculator is asked with their numerals in decimal. -/
def DenotesConstant (bc : Calculator) (text : List Char) (constant : Constant) : Prop :=
  ∃ expression, text = constantText constant.width expression ∧
    (∀ value, Numeral expression value → constant.value = BitVec.ofNat _ (min value Numerals.maxU64)) ∧
    (PlainNumerals expression → (bc (decimalText expression)).exit_status = 0 ∧
      ∀ value, Answers (bc (decimalText expression)).fd_stdout value → constant.value = BitVec.ofInt _ (saturated value))

/-- An operand as its text says it, without a word on how the assembler evaluates expressions. -/
def DenotesTarget (bc : Calculator) : List Char → Target → Prop := DescribesTargetBy (DenotesConstant bc)

section Values

variable {bc : Calculator} {text expression output : List Char} {value : ℤ} {number : ℕ}

/-- The answer is read as the integer, saturated. -/
theorem Answers.reads (answers : Answers output value) (read : Numerals.strtoull 10 output = some number) (width : Width) :
    BitVec.ofNat width.bits number = BitVec.ofInt width.bits (saturated value) := by
  obtain ⟨tail, rfl, stop⟩ := answers
  rw [saturated]
  split_ifs with small
  · rw [Numerals.strtoull_integer small stop] at read
    cases read
    have fits : ((2 ^ width.bits : ℕ) : ℤ) ∣ 2 ^ 64 := by cases width <;> decide
    rw [← BitVec.ofInt_natCast, Int.toNat_of_nonneg (Int.emod_nonneg value (by decide))]
    apply BitVec.eq_of_toInt_eq
    rw [BitVec.toInt_ofInt, BitVec.toInt_ofInt]
    rw [← Int.emod_bmod, Int.emod_emod_of_dvd value fits, Int.emod_bmod]
  · rw [Numerals.strtoull_integer_large (not_le.mp small) stop] at read
    cases read
    exact (BitVec.ofInt_natCast ..).symm

theorem executeBc_ok (done : executeBc bc text = .ok output) : (bc text).exit_status = 0 ∧ output = (bc text).fd_stdout := by
  simp only [executeBc] at done
  split_ifs at done with failed
  exact ⟨not_not.mp failed, (Except.ok.inj done).symm⟩

/-- Plain numerals are all written in decimal. -/
theorem PlainNumerals.processBase16 (plain : PlainNumerals expression) :
    processBase16 expression = decimalText expression := by
  have apart := plain.apart
  rw [← hexTokens_eq plain.words] at apart
  exact (processBase16_exact plain.toSeparated).mpr apart

/-- An accepted constant has the value of its expression. -/
theorem DescribesConstant.denotes {constant : Constant} (describes : DescribesConstant bc text constant) :
    DenotesConstant bc text constant := by
  obtain ⟨expression, rfl, ⟨number, ⟨-, output, calculated, read⟩, same⟩, numerals⟩ := describes
  refine ⟨expression, rfl, numerals, fun plain => ?_⟩
  rw [plain.processBase16] at calculated
  obtain ⟨exits, rfl⟩ := executeBc_ok calculated
  exact ⟨exits, fun value answers => same.trans (answers.reads read constant.width)⟩

end Values

theorem DescribesParameterBy.imp {first second : List Char → Constant → Prop}
    (weaker : ∀ text constant, first text constant → second text constant) {text : List Char} {parameter : Parameter}
    (describes : DescribesParameterBy first text parameter) : DescribesParameterBy second text parameter := by
  cases parameter with
  | register register => exact describes
  | constant constant => exact weaker text constant describes

theorem DescribesTargetBy.imp {first second : List Char → Constant → Prop}
    (weaker : ∀ text constant, first text constant → second text constant) {text : List Char} {target : Target}
    (describes : DescribesTargetBy first text target) : DescribesTargetBy second text target := by
  cases target with
  | register register => exact describes
  | constant constant => exact weaker text constant describes
  | memory ratio width base offset1 offset2 =>
    obtain ⟨text1, text2, text3, same, describes1, describes2, describes3⟩ := describes
    exact ⟨text1, text2, text3, same, describes1.imp weaker, describes2.imp weaker, describes3.imp weaker⟩

theorem DescribesTarget.denotes {bc : Calculator} {text : List Char} {target : Target}
    (describes : DescribesTarget bc text target) :
    DenotesTarget bc text target :=
  DescribesTargetBy.imp (fun _ _ => DescribesConstant.denotes) describes

end Sysdarft.Coding
