import Sysdarft.Proofs.ConstantValues
import Sysdarft.Proofs.LinkedLayout

/-! # Data directives

The chunk of a `.Nbit_data` line is filled in when the file is linked. The calculator's answer is read as a signed
number that saturates, and then cut to the width: so a negative number is its two's complement, and a number with the
top bit of 64 set comes out as the largest signed one. Constants in instructions are read as unsigned numbers.
-/

namespace Sysdarft.Coding

/-- The bytes of an integer in two's complement. -/
def integerBytes (width : Width) (value : ℤ) : List Byte := LittleEndian.bytes width.bytes (value % 2 ^ 64).toNat

section Bytes

variable {width : Width} {value : ℤ} {output : List Char}

theorem Width.pow_bytes (width : Width) : 256 ^ width.bytes = 2 ^ width.bits := by
  cases width <;> rfl

theorem dataBytes_eq (width : Width) (output : List Char) :
    dataBytes width.bytes output = LittleEndian.bytes width.bytes (Numerals.strtoll output) := by
  have mask : Numerals.maxU64 >>> (64 - width.bytes * 8) = 2 ^ width.bits - 1 := by
    cases width <;> decide
  rw [dataBytes, mask, Nat.and_two_pow_sub_one_eq_mod, ← Width.pow_bytes, LittleEndian.bytes_mod]

theorem integerBytes_eq_iff (width : Width) (first second : ℤ) :
    integerBytes width first = integerBytes width second ↔ first % 2 ^ width.bits = second % 2 ^ width.bits := by
  have cut (value : ℤ) : (((value % 2 ^ 64).toNat % 256 ^ width.bytes : ℕ) : ℤ) = value % 2 ^ width.bits := by
    rw [Width.pow_bytes]
    push_cast
    rw [Int.toNat_of_nonneg (Int.emod_nonneg value (by decide)), Int.emod_emod_of_dvd]
    cases width <;> decide
  rw [integerBytes, integerBytes, LittleEndian.bytes_inj, ← Int.natCast_inj, cut, cut]

/-- Data is the integer in two's complement exactly when its top bit is clear, or saturating changes no bit of the width. -/
theorem dataBytes_exact (answers : Answers output value) (low : -2 ^ 63 ≤ value) (high : value < 2 ^ 64) :
    dataBytes width.bytes output = integerBytes width value ↔
      value < 2 ^ 63 ∨ width ≠ .w64 ∧ (value + 1) % 2 ^ width.bits = 0 := by
  obtain ⟨tail, rfl, stop⟩ := answers
  have read : dataBytes width.bytes (Numerals.integer value ++ tail) = integerBytes width (min value (2 ^ 63 - 1)) := by
    have same := Numerals.strtoll_integer value stop
    rw [max_eq_right (le_min low (by decide))] at same
    rw [dataBytes_eq, integerBytes, ← same, Int.toNat_natCast]
  rw [read, integerBytes_eq_iff]
  by_cases small : value < 2 ^ 63
  · rw [min_eq_left (by omega)]
    exact iff_of_true rfl (.inl small)
  · rw [min_eq_right (by omega), or_iff_right small]
    cases width with
    | w8 => simp only [Width.bits, ne_eq, reduceCtorEq, not_false_eq_true, true_and]; omega
    | w16 => simp only [Width.bits, ne_eq, reduceCtorEq, not_false_eq_true, true_and]; omega
    | w32 => simp only [Width.bits, ne_eq, reduceCtorEq, not_false_eq_true, true_and]; omega
    | w64 => simp only [Width.bits, ne_eq, not_true_eq_false, false_and, iff_false]; omega

end Bytes

section Linking

variable {bc : Calculator} {width : Width} {expression output : List Char} {value : ℤ}

/-- A constant in an instruction is the integer in two's complement. -/
theorem encodeConstant_integer (nonempty : expression ≠ [])
    (calculated : executeBc bc (processBase16 expression) = .ok output)
    (answers : Answers output value) (low : -2 ^ 63 ≤ value) (high : value < 2 ^ 64) :
    encodeConstant bc width.digits expression = .ok (CONSTANT_CODE :: width.bcd :: integerBytes width value) := by
  obtain ⟨tail, rfl, stop⟩ := answers
  have small : value.natAbs ≤ Numerals.maxU64 := by
    rw [Numerals.maxU64]
    omega
  rw [encodeConstant_ok_iff]
  exact ⟨_, ⟨nonempty, _, calculated, Numerals.strtoull_integer small stop⟩, (bytes_ofValue width _).symm⟩

/-- The linker fills the chunk of a data directive, whatever file it is in, with the value of its expression. -/
theorem sysdarftLink_dataBytes {verbose : Bool} {before after : List ObjectFile} {object linked : ObjectFile}
    {data : DataExpression}
    (compiled : ∀ other ∈ before ++ object :: after, ∃ env, Compiled env bc other)
    (done : sysdarftLink bc verbose (before ++ object :: after) = .ok linked)
    (member : data ∈ object.data_expression_identifiers) :
    ∃ (width : Width) (table : SymbolTable) (expression output : List Char), data.data_byte_count = width.bytes ∧
      registerSymbols (before ++ object :: after) = .ok table ∧
      resolveSymbols table object.symbol_table data.data_string = .ok expression ∧
      executeBc bc (processBase16 expression) = .ok output ∧
      linked.code[(before.flatMap ObjectFile.code).length + data.data_appearance]? =
        some (dataBytes width.bytes output) := by
  obtain ⟨table, entered, -⟩ := Effects.except_bind_eq_ok.mp done
  rw [sysdarftLink_eq entered] at done
  obtain ⟨codes, each, rfl⟩ := Effects.except_map_eq_ok.mp done
  have linkable (other : ObjectFile) (known : other ∈ before ++ object :: after) :
      Linkable other.symbol_table other.data_expression_identifiers other.code.length := by
    obtain ⟨env, made⟩ := compiled other known
    exact made.linkable
  have blank (other : ObjectFile) (known : other ∈ before ++ object :: after) :
      Reserved other.code other.data_expression_identifiers := by
    obtain ⟨env, made⟩ := compiled other known
    exact made.blank
  have inside : object ∈ before ++ object :: after := List.mem_append_right _ List.mem_cons_self
  obtain ⟨place, here⟩ := List.getElem?_eq_some_iff.mp (blank object inside data member)
  have split := (List.take_append_drop data.data_appearance object.code).symm
  rw [List.drop_eq_getElem_cons place] at split
  have length : (object.code.take data.data_appearance).length = data.data_appearance := by
    rw [List.length_take, min_eq_left place.le]
  obtain ⟨bytes, found, relation⟩ := sysdarftLink_chunk linkable blank each split
  obtain ⟨width, wide⟩ := (linkable object inside).widths data member
  rw [length] at found relation
  obtain ⟨expression, output, resolved, calculated, rfl⟩ := relation.of_data (linkable object inside).once member
  exact ⟨width, table, expression, output, wide, entered, resolved, calculated, wide ▸ found⟩

/-- What the linker fills in for a data directive, whatever file it is in: as many bytes as the width has. They are those of
the integer that the calculator answers, and of the same constant in an instruction, exactly when saturating changes none. -/
theorem sysdarftLink_data {verbose : Bool} {before after : List ObjectFile} {object linked : ObjectFile}
    {data : DataExpression}
    (compiled : ∀ other ∈ before ++ object :: after, ∃ env, Compiled env bc other)
    (done : sysdarftLink bc verbose (before ++ object :: after) = .ok linked)
    (member : data ∈ object.data_expression_identifiers) :
    ∃ width table expression output bytes, data.data_byte_count = width.bytes ∧
      registerSymbols (before ++ object :: after) = .ok table ∧
      resolveSymbols table object.symbol_table data.data_string = .ok expression ∧
      executeBc bc (processBase16 expression) = .ok output ∧
      linked.code[(before.flatMap ObjectFile.code).length + data.data_appearance]? = some bytes ∧
        bytes.length = width.bytes ∧
      ∀ value, Answers output value → -2 ^ 63 ≤ value → value < 2 ^ 64 →
        (bytes = integerBytes width value ↔ value < 2 ^ 63 ∨ width ≠ .w64 ∧ (value + 1) % 2 ^ width.bits = 0) ∧
        (expression ≠ [] → encodeConstant bc width.digits expression =
          .ok (CONSTANT_CODE :: width.bcd :: integerBytes width value)) := by
  obtain ⟨width, table, expression, output, wide, entered, resolved, calculated, found⟩ :=
    sysdarftLink_dataBytes compiled done member
  refine ⟨width, table, expression, output, _, wide, entered, resolved, calculated, found, ?_,
    fun value answers low high => ?_⟩
  · rw [dataBytes]
    exact LittleEndian.length_bytes _ _
  · exact ⟨dataBytes_exact answers low high, fun nonempty => encodeConstant_integer nonempty calculated answers low high⟩

end Linking

/-- `.16bit_data <7>`. -/
def sevenObject : ObjectFile where
  code := [[0, 0]]
  symbol_table := []
  data_expression_identifiers := [⟨0, 2, "7".toList⟩]

theorem compiled_sevenObject : Compiled bareEnvironment numeralCalculator sevenObject :=
  ⟨1, [".16bit_data <7>".toList], [], ⟨[], 0, .empty, .empty⟩, _, _, 0, 2, rfl, rfl, rfl⟩

/-- It is linked to the two bytes of 7, as the constant 7 of an instruction is. -/
theorem sysdarftLink_data_seven :
    [7, 0] = integerBytes .w16 7 ∧
      encodeConstant numeralCalculator Width.w16.digits "7".toList = .ok (CONSTANT_CODE :: Width.w16.bcd :: [7, 0]) := by
  obtain ⟨width, table, expression, output, bytes, wide, entered, resolved, calculated, found, -, exactly⟩ :=
    @sysdarftLink_data numeralCalculator false [] [] sevenObject ⟨[[7, 0]], [], []⟩ ⟨0, 2, "7".toList⟩
      (List.forall_mem_singleton.mpr ⟨bareEnvironment, compiled_sevenObject⟩) rfl List.mem_cons_self
  obtain rfl : Width.w16 = width := by
    cases width <;> first | rfl | exact absurd wide (by decide)
  obtain rfl : "7".toList = expression := Except.ok.inj resolved
  obtain rfl : "7\n".toList = output := Except.ok.inj calculated
  obtain rfl : [7, 0] = bytes := Option.some.inj found
  obtain ⟨data, constant⟩ := exactly 7 ⟨['\n'], by decide, by decide⟩ (by decide) (by decide)
  have same := data.mpr (.inl (by decide))
  refine ⟨same, ?_⟩
  rw [same]
  exact constant (by decide)

end Sysdarft.Coding
