import Mathlib.Tactic

/-! # Numerals in text

The decimal and hexadecimal numerals printed by C++ streams and read by `strtoull` and `strtoll`:
white space and a sign are accepted, the longest digit string is read, and values outside the
result type saturate. `strtoull_decimal` and `strtoull_hexDigits` read printed numerals back.
-/

namespace Numerals

/-- White space of the C locale. -/
def isSpace (c : Char) : Bool :=
  c == ' ' || c == '\t' || c == '\n' || c == '\x0b' || c == '\x0c' || c == '\r'

def isDecimal (c : Char) : Bool := decide ('0' ≤ c ∧ c ≤ '9')

def isHexadecimal (c : Char) : Bool :=
  isDecimal c || decide ('a' ≤ c ∧ c ≤ 'f') || decide ('A' ≤ c ∧ c ≤ 'F')

/-- The value of a digit, meaningful on hexadecimal digits. -/
def digitValue (c : Char) : ℕ :=
  if isDecimal c then c.toNat - 48 else if 'a' ≤ c then c.toNat - 87 else c.toNat - 55

/-- Positional value of a digit string, most significant digit first. -/
def digitsValue (base : ℕ) (digits : List Char) : ℕ :=
  digits.foldl (fun total c => total * base + digitValue c) 0

/-- `std::to_string` on an unsigned value. -/
def decimal (n : ℕ) : List Char := Nat.toDigits 10 n

/-- `std::to_string` on a signed value. -/
def integer (value : ℤ) : List Char := if value < 0 then '-' :: decimal value.natAbs else decimal value.natAbs

/-- An unsigned value through `std::hex << std::uppercase`. -/
def hexadecimal (n : ℕ) : List Char := (Nat.toDigits 16 n).map Char.toUpper

def maxU64 : ℕ := 2 ^ 64 - 1

/-- Split an optional sign off a numeral. -/
def takeSign : List Char → Bool × List Char
  | '-' :: rest => (true, rest)
  | '+' :: rest => (false, rest)
  | text => (false, text)

/-- An optional `0x` is skipped when a hexadecimal digit follows it. -/
def dropHexPrefix : List Char → List Char
  | '0' :: x :: c :: rest =>
    if (x == 'x' || x == 'X') && isHexadecimal c then c :: rest else '0' :: x :: c :: rest
  | text => text

/-- The digit string `strtoull` and `strtoll` read, with its sign. -/
def readDigits (base : ℕ) (text : List Char) : Bool × List Char :=
  let (negative, rest) := takeSign (text.dropWhile isSpace)
  (negative, if base = 16 then (dropHexPrefix rest).takeWhile isHexadecimal
    else rest.takeWhile isDecimal)

/-- `strtoull`: `none` when no digit was read, otherwise the value, saturated and negated in
64 bits. -/
def strtoull (base : ℕ) (text : List Char) : Option ℕ :=
  let (negative, digits) := readDigits base text
  if digits = [] then none
  else if maxU64 < digitsValue base digits then some maxU64
  else if negative then some ((2 ^ 64 - digitsValue base digits) % 2 ^ 64)
  else some (digitsValue base digits)

/-- `strtoll` with a base of ten, as the two's complement word it returns; `0` when no digit was
read. -/
def strtoll (text : List Char) : ℕ :=
  let (negative, digits) := readDigits 10 text
  let magnitude := digitsValue 10 digits
  if negative then (2 ^ 64 - min magnitude (2 ^ 63)) % 2 ^ 64
  else min magnitude (2 ^ 63 - 1)

theorem digitsValue_append (base : ℕ) (first second : List Char) :
    digitsValue base (first ++ second) =
      digitsValue base first * base ^ second.length + digitsValue base second := by
  have shift (digits : List Char) (start : ℕ) :
      digits.foldl (fun total c => total * base + digitValue c) start =
        start * base ^ digits.length + digitsValue base digits := by
    induction digits generalizing start with
    | nil => simp [digitsValue]
    | cons c digits ih =>
      simp only [digitsValue, List.foldl_cons, List.length_cons, zero_mul, zero_add]
      rw [ih, ih (digitValue c), pow_succ]
      ring
  rw [digitsValue, List.foldl_append, shift]
  rfl

@[simp] theorem digitsValue_singleton (base : ℕ) (c : Char) :
    digitsValue base [c] = digitValue c := by
  simp [digitsValue]

/-! ## Printed numerals -/

private theorem digitChar_facts (d : ℕ) (small : d < 16) :
    digitValue d.digitChar = d ∧ digitValue d.digitChar.toUpper = d ∧
      isHexadecimal d.digitChar.toUpper = true ∧ (d < 10 → isDecimal d.digitChar = true) := by
  interval_cases d <;> decide

private theorem toDigits_facts (base n : ℕ) (two : 1 < base) (sixteen : base ≤ 16) :
    digitsValue base (Nat.toDigits base n) = n ∧
      digitsValue base ((Nat.toDigits base n).map Char.toUpper) = n ∧
      (∀ c ∈ (Nat.toDigits base n).map Char.toUpper, isHexadecimal c = true) ∧
      (base ≤ 10 → ∀ c ∈ Nat.toDigits base n, isDecimal c = true) := by
  induction n using Nat.strongRecOn with
  | ind n ih =>
    rcases Nat.lt_or_ge n base with small | large
    · obtain ⟨plain, upper, hex, dec⟩ := digitChar_facts n (by omega)
      rw [Nat.toDigits_of_lt_base small]
      simp only [List.map_cons, List.map_nil, digitsValue_singleton, List.mem_singleton, forall_eq]
      exact ⟨plain, upper, hex, fun ten => dec (by omega)⟩
    · obtain ⟨plain, upper, hex, dec⟩ := digitChar_facts (n % base)
        (by have := Nat.mod_lt n (show 0 < base by omega); omega)
      obtain ⟨plain', upper', hex', dec'⟩ := ih (n / base) (Nat.div_lt_self (by omega) two)
      rw [Nat.toDigits_of_base_le two large]
      simp only [List.map_append, List.map_cons, List.map_nil, digitsValue_append, plain', upper',
        digitsValue_singleton, plain, upper, List.length_cons, List.length_nil, zero_add, pow_one,
        Nat.div_add_mod', true_and]
      refine ⟨?_, ?_⟩
      · intro c member
        rcases List.mem_append.mp member with early | last
        · exact hex' c early
        · exact List.mem_singleton.mp last ▸ hex
      · intro ten c member
        have digit : n % base < 10 := lt_of_lt_of_le (Nat.mod_lt n (by omega)) ten
        rcases List.mem_append.mp member with early | last
        · exact dec' ten c early
        · exact List.mem_singleton.mp last ▸ dec digit

@[simp] theorem digitsValue_decimal (n : ℕ) : digitsValue 10 (decimal n) = n :=
  (toDigits_facts 10 n (by decide) (by decide)).1

@[simp] theorem digitsValue_hexadecimal (n : ℕ) : digitsValue 16 (hexadecimal n) = n :=
  (toDigits_facts 16 n (by decide) (by decide)).2.1

theorem isDecimal_of_mem_decimal {n : ℕ} {c : Char} (member : c ∈ decimal n) : isDecimal c = true :=
  (toDigits_facts 10 n (by decide) (by decide)).2.2.2 le_rfl c member

theorem isHexadecimal_of_mem_hexadecimal {n : ℕ} {c : Char} (member : c ∈ hexadecimal n) :
    isHexadecimal c = true :=
  (toDigits_facts 16 n (by decide) (by decide)).2.2.1 c member

/-- The digits of a numeral are those of its base. -/
theorem exists_of_mem_toDigits {base n : ℕ} (two : 1 < base) {c : Char} (member : c ∈ Nat.toDigits base n) :
    ∃ d < base, c = d.digitChar := by
  induction n using Nat.strongRecOn with
  | ind n ih =>
    rcases Nat.lt_or_ge n base with small | large
    · rw [Nat.toDigits_of_lt_base small, List.mem_singleton] at member
      exact ⟨n, small, member⟩
    · rw [Nat.toDigits_of_base_le two large] at member
      rcases List.mem_append.mp member with early | last
      · exact ih (n / base) (Nat.div_lt_self (by omega) two) early
      · exact ⟨n % base, Nat.mod_lt n (by omega), List.mem_singleton.mp last⟩

private theorem toDigits_ne_nil (base n : ℕ) (two : 1 < base) : Nat.toDigits base n ≠ [] := by
  rw [Nat.toDigits_eq_if two]
  split_ifs <;> simp

theorem decimal_ne_nil (n : ℕ) : decimal n ≠ [] := toDigits_ne_nil 10 n (by decide)

theorem hexadecimal_ne_nil (n : ℕ) : hexadecimal n ≠ [] := by
  simpa only [hexadecimal, ne_eq, List.map_eq_nil_iff] using toDigits_ne_nil 16 n (by decide)

/-! ## Reading numerals -/

private theorem isSpace_of_isHexadecimal {c : Char} (digit : isHexadecimal c = true) :
    isSpace c = false ∧ c ≠ '-' ∧ c ≠ '+' := by
  have bounds : 48 ≤ c.toNat := by
    simp only [isHexadecimal, isDecimal, Bool.or_eq_true, decide_eq_true_eq, Char.le_def] at digit
    rcases digit with (⟨low, -⟩ | ⟨low, -⟩) | ⟨low, -⟩ <;>
      exact le_trans (by decide) (UInt32.le_iff_toNat_le.mp low)
  have differs (d : Char) (small : d.toNat < 48) : c ≠ d := by rintro rfl; omega
  simp only [isSpace, Bool.or_eq_false_iff, beq_eq_false_iff_ne, ne_eq]
  exact ⟨⟨⟨⟨⟨⟨differs _ (by decide), differs _ (by decide)⟩, differs _ (by decide)⟩,
    differs _ (by decide)⟩, differs _ (by decide)⟩, differs _ (by decide)⟩,
    differs _ (by decide), differs _ (by decide)⟩

theorem isHexadecimal_of_isDecimal {c : Char} (digit : isDecimal c = true) : isHexadecimal c = true := by
  simp [isHexadecimal, digit]

private theorem takeSign_digits {c : Char} {rest : List Char} (digit : isHexadecimal c = true) :
    takeSign ((c :: rest).dropWhile isSpace) = (false, c :: rest) := by
  obtain ⟨notSpace, notMinus, notPlus⟩ := isSpace_of_isHexadecimal digit
  rw [List.dropWhile_cons, notSpace, if_neg Bool.false_ne_true]
  unfold takeSign
  split
  · exact absurd (List.cons.inj ‹_›).1 notMinus
  · exact absurd (List.cons.inj ‹_›).1 notPlus
  · rfl

private theorem takeWhile_digits {p : Char → Bool} {digits tail : List Char}
    (all : ∀ c ∈ digits, p c = true) (stop : ∀ c ∈ tail.head?, p c = false) :
    (digits ++ tail).takeWhile p = digits := by
  rw [List.takeWhile_append_of_pos all]
  cases tail with
  | nil => simp
  | cons c tail => simp [stop c rfl]

/-- A decimal numeral is read up to the first other character, and saturates. -/
theorem strtoull_digits {digits tail : List Char} (nonempty : digits ≠ [])
    (all : ∀ c ∈ digits, isDecimal c = true) (stop : ∀ c ∈ tail.head?, isDecimal c = false) :
    strtoull 10 (digits ++ tail) = some (min (digitsValue 10 digits) maxU64) := by
  obtain ⟨c, rest, rfl⟩ := List.exists_cons_of_ne_nil nonempty
  have sign : takeSign ((c :: rest ++ tail).dropWhile isSpace) = (false, c :: rest ++ tail) :=
    takeSign_digits (isHexadecimal_of_isDecimal (all c List.mem_cons_self))
  have read : readDigits 10 (c :: rest ++ tail) = (false, c :: rest) := by
    rw [readDigits, sign]
    simp only [Nat.reduceEqDiff, ↓reduceIte, takeWhile_digits all stop]
  rw [strtoull, read]
  simp only [reduceCtorEq, ↓reduceIte, Bool.false_eq_true]
  split_ifs with large
  · rw [min_eq_right large.le]
  · rw [min_eq_left (not_lt.mp large)]

/-- A hexadecimal numeral with its prefix is read whole, and saturates. -/
theorem strtoull_hexDigits {digits : List Char} (nonempty : digits ≠ [])
    (all : ∀ c ∈ digits, isHexadecimal c = true) :
    strtoull 16 ('0' :: 'x' :: digits) = some (min (digitsValue 16 digits) maxU64) := by
  obtain ⟨c, rest, rfl⟩ := List.exists_cons_of_ne_nil nonempty
  have sign : takeSign (('0' :: 'x' :: c :: rest).dropWhile isSpace) = (false, '0' :: 'x' :: c :: rest) :=
    takeSign_digits (by decide)
  have drop : dropHexPrefix ('0' :: 'x' :: c :: rest) = c :: rest := by
    simp [dropHexPrefix, all c List.mem_cons_self]
  have whole : (c :: rest).takeWhile isHexadecimal = c :: rest := by
    have stopped : ∀ d ∈ ([] : List Char).head?, isHexadecimal d = false := by simp
    simpa using takeWhile_digits all stopped
  have read : readDigits 16 ('0' :: 'x' :: c :: rest) = (false, c :: rest) := by
    rw [readDigits, sign]
    simp only [↓reduceIte, drop, whole]
  rw [strtoull, read]
  simp only [reduceCtorEq, ↓reduceIte, Bool.false_eq_true]
  split_ifs with large
  · rw [min_eq_right large.le]
  · rw [min_eq_left (not_lt.mp large)]

theorem strtoull_decimal (n : ℕ) (tail : List Char) (stop : ∀ c ∈ tail.head?, isDecimal c = false) :
    strtoull 10 (decimal n ++ tail) = some (min n maxU64) := by
  rw [strtoull_digits (decimal_ne_nil n) (fun _ => isDecimal_of_mem_decimal) stop,
    digitsValue_decimal]

/-! ## Reading signed numerals -/

private theorem readDigits_integer (value : ℤ) {tail : List Char} (stop : ∀ c ∈ tail.head?, isDecimal c = false) :
    readDigits 10 (integer value ++ tail) = (decide (value < 0), decimal value.natAbs) := by
  have digits : (decimal value.natAbs ++ tail).takeWhile isDecimal = decimal value.natAbs :=
    takeWhile_digits (fun _ => isDecimal_of_mem_decimal) stop
  by_cases negative : value < 0
  · rw [integer, if_pos negative, decide_eq_true negative]
    change (true, (decimal value.natAbs ++ tail).takeWhile isDecimal) = _
    rw [digits]
  · obtain ⟨c, rest, shown⟩ := List.exists_cons_of_ne_nil (decimal_ne_nil value.natAbs)
    have first : isDecimal c = true := isDecimal_of_mem_decimal (n := value.natAbs) (shown ▸ List.mem_cons_self)
    have sign : takeSign ((decimal value.natAbs ++ tail).dropWhile isSpace) = (false, decimal value.natAbs ++ tail) := by
      rw [shown]
      exact takeSign_digits (isHexadecimal_of_isDecimal first)
    rw [integer, if_neg negative, decide_eq_false negative, readDigits, sign]
    change (false, (decimal value.natAbs ++ tail).takeWhile isDecimal) = _
    rw [digits]

/-- A signed numeral is read up to the first other character, and saturates. -/
theorem strtoll_integer (value : ℤ) {tail : List Char} (stop : ∀ c ∈ tail.head?, isDecimal c = false) :
    (strtoll (integer value ++ tail) : ℤ) = max (-2 ^ 63) (min value (2 ^ 63 - 1)) % 2 ^ 64 := by
  rw [strtoll, readDigits_integer value stop]
  dsimp only
  rw [digitsValue_decimal]
  by_cases negative : value < 0
  · rw [if_pos (decide_eq_true negative)]
    omega
  · rw [if_neg (by rw [decide_eq_true_eq]; exact negative)]
    omega

theorem strtoull_integer {value : ℤ} (small : value.natAbs ≤ maxU64) {tail : List Char}
    (stop : ∀ c ∈ tail.head?, isDecimal c = false) :
    strtoull 10 (integer value ++ tail) = some (value % 2 ^ 64).toNat := by
  rw [strtoull, readDigits_integer value stop]
  dsimp only
  rw [digitsValue_decimal, if_neg (decimal_ne_nil _), if_neg (not_lt.mpr small)]
  rw [maxU64] at small
  by_cases negative : value < 0
  · rw [if_pos (decide_eq_true negative)]
    exact congrArg some (by omega)
  · rw [if_neg (by rw [decide_eq_true_eq]; exact negative)]
    exact congrArg some (by omega)

/-- A signed numeral that does not fit 64 bits is read as the largest number. -/
theorem strtoull_integer_large {value : ℤ} (large : maxU64 < value.natAbs) {tail : List Char}
    (stop : ∀ c ∈ tail.head?, isDecimal c = false) : strtoull 10 (integer value ++ tail) = some maxU64 := by
  rw [strtoull, readDigits_integer value stop]
  dsimp only
  rw [digitsValue_decimal, if_neg (decimal_ne_nil _), if_pos large]

end Numerals
