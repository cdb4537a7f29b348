import Sysdarft.Coding.SourceText

/-! # Register names

`isValidRegister_iff` says which names the register pattern accepts. `encodeRegister` emits the codes
of the named register, except that a number after `%FER` is not checked: it is cut to eight bits, and
counts as zero from `2 ^ 32` on.
-/

namespace Sysdarft.Coding

open Regex

/-- The names `register_pattern` accepts. -/
inductive ValidRegister : List Char → Prop where
  | narrow (width : Width) (digit : Char) (narrow : width ≠ .w64) (low : '0' ≤ digit) (high : digit ≤ '7') :
      ValidRegister ('%' :: (width.registerLetters ++ [digit]))
  | full (digits : List Char) (nonempty : digits ≠ []) (decimal : ∀ c ∈ digits, Numerals.isDecimal c = true) :
      ValidRegister ("%FER".toList ++ digits)
  | special (special : SpecialRegister) : ValidRegister ('%' :: special.name)
  | vector (digit : Char) (low : '0' ≤ digit) (high : digit ≤ '5') : ValidRegister ("%XMM".toList ++ [digit])

theorem isValidRegister_iff (name : List Char) : isValidRegister name = true ↔ ValidRegister name := by
  rw [isValidRegister, fullMatch_isSome_iff]
  simp only [registerPattern, specialPattern, lowDigit, derives_alt, derives_seq, derives_bol, derives_chr,
    derives_oneOf, derives_sat, derives_lit, derives_plus_sat, derives_eol]
  constructor
  · rintro ⟨captures, ⟨_, _, _, _, rfl, rfl, ⟨-, rfl, rfl⟩, _, _, _, _, rfl, rfl, ⟨rfl, rfl⟩, letters, _, _, _, rfl, rfl,
      ⟨known, rfl⟩, digit, range, rfl, rfl⟩ |
      ⟨_, digits, _, _, rfl, rfl, ⟨rfl, rfl⟩, nonempty, all, rfl⟩ |
      ⟨_, _, _, _, rfl, rfl, ⟨-, rfl, rfl⟩, _, _, _, _, rfl, rfl, ⟨rfl, rfl⟩, known, rfl⟩ |
      ⟨_, _, _, _, rfl, rfl, ⟨-, rfl, rfl⟩, _, _, _, _, rfl, rfl, ⟨rfl, rfl⟩, _, _, _, _, rfl, rfl,
        ⟨digit, range, rfl, rfl⟩, -, rfl, rfl⟩⟩
    · obtain ⟨low, high⟩ := of_decide_eq_true range
      simp only [List.mem_cons, List.not_mem_nil, or_false] at known
      rcases known with rfl | rfl | rfl
      · exact .narrow .w8 digit (by decide) low high
      · exact .narrow .w16 digit (by decide) low high
      · exact .narrow .w32 digit (by decide) low high
    · exact .full digits nonempty all
    · obtain ⟨special, -, rfl⟩ := List.mem_map.mp known
      exact .special special
    · obtain ⟨low, high⟩ := of_decide_eq_true range
      exact .vector digit low high
  · rintro (⟨width, digit, narrow, low, high⟩ | ⟨digits, nonempty, all⟩ | ⟨special⟩ | ⟨digit, low, high⟩)
    · refine ⟨[], .inl ⟨[], _, [], [], rfl, rfl, ⟨trivial, rfl, rfl⟩, ['%'], _, [], [], rfl, rfl, ⟨rfl, rfl⟩,
        width.registerLetters, [digit], [], [], rfl, rfl, ⟨?_, rfl⟩, digit, decide_eq_true ⟨low, high⟩, rfl, rfl⟩⟩
      cases width <;> simp_all [Width.registerLetters]
    · exact ⟨[], .inr (.inl ⟨_, digits, [], [], rfl, rfl, ⟨rfl, rfl⟩, nonempty, all, rfl⟩)⟩
    · refine ⟨[], .inr (.inr (.inl ⟨[], _, [], [], rfl, rfl, ⟨trivial, rfl, rfl⟩, ['%'], _, [], [], rfl, rfl, ⟨rfl, rfl⟩,
        List.mem_map.mpr ⟨special, ?_, rfl⟩, rfl⟩))⟩
      cases special <;> decide
    · exact ⟨[], .inr (.inr (.inr ⟨[], _, [], [], rfl, rfl, ⟨trivial, rfl, rfl⟩, _, [digit], [], [], rfl, rfl, ⟨rfl, rfl⟩,
        [digit], [], [], [], rfl, rfl, ⟨digit, decide_eq_true ⟨low, high⟩, rfl, rfl⟩, trivial, rfl, rfl⟩))⟩

/-! ## Numbers at the end of a name -/

theorem trailingDigits_append {letters digits : List Char} (stop : ∀ c ∈ letters.getLast?, Numerals.isDecimal c = false)
    (all : ∀ c ∈ digits, Numerals.isDecimal c = true) : trailingDigits (letters ++ digits) = digits := by
  rw [trailingDigits, List.reverse_append, List.takeWhile_append_of_pos (by simpa using all)]
  have none : letters.reverse.takeWhile Numerals.isDecimal = [] := by
    rw [← List.head?_reverse] at stop
    cases reversed : letters.reverse with
    | nil => rfl
    | cons c rest =>
      rw [reversed] at stop
      simp [stop c rfl]
  rw [none, List.append_nil, List.reverse_reverse]

theorem dropTrailingDigits_append (letters digits : List Char)
    (stop : ∀ c ∈ letters.getLast?, Numerals.isDecimal c = false) (all : ∀ c ∈ digits, Numerals.isDecimal c = true) :
    ((letters ++ digits).reverse.dropWhile Numerals.isDecimal).reverse = letters := by
  have parts := List.takeWhile_append_dropWhile (p := Numerals.isDecimal) (l := (letters ++ digits).reverse)
  have taken : (letters ++ digits).reverse.takeWhile Numerals.isDecimal = digits.reverse := by
    rw [← List.reverse_eq_iff]
    exact trailingDigits_append stop all
  rw [taken, List.reverse_append] at parts
  rw [List.reverse_append, List.append_cancel_left parts, List.reverse_reverse]

theorem extractTrailingNumber_append (letters digits : List Char)
    (stop : ∀ c ∈ letters.getLast?, Numerals.isDecimal c = false) (nonempty : digits ≠ [])
    (all : ∀ c ∈ digits, Numerals.isDecimal c = true) :
    (extractTrailingNumber (letters ++ digits)).getD 0 =
      if Numerals.digitsValue 10 digits < 2 ^ 32 then Numerals.digitsValue 10 digits else 0 := by
  rw [extractTrailingNumber, trailingDigits_append stop all, if_neg nonempty]
  split_ifs <;> rfl

theorem isDecimal_of_low {digit : Char} (low : '0' ≤ digit) (high : digit ≤ '7') :
    Numerals.isDecimal digit = true ∧ Numerals.digitValue digit < 8 := by
  have decimal : Numerals.isDecimal digit = true := decide_eq_true ⟨low, Char.le_trans high (by decide)⟩
  refine ⟨decimal, ?_⟩
  rw [Numerals.digitValue, if_pos decimal]
  have : digit.toNat ≤ 55 := high
  omega

/-! ## Encoding -/

/-- The bytes emitted for `%FER` and a number: the number is cut to one byte. -/
def fullRegisterBytes (value : ℕ) : List Byte :=
  [REGISTER_CODE, Width.w64.bcd, BitVec.ofNat 8 (if value < 2 ^ 32 then value else 0)]

theorem encodeRegister_special (special : SpecialRegister) :
    encodeRegister ('%' :: special.name) = .ok (Format.registerBytes (.special special)) := by
  cases special <;> rfl

theorem encodeRegister_full {digits : List Char} (nonempty : digits ≠ [])
    (all : ∀ c ∈ digits, Numerals.isDecimal c = true) :
    encodeRegister ("%FER".toList ++ digits) = .ok (fullRegisterBytes (Numerals.digitsValue 10 digits)) := by
  have index := extractTrailingNumber_append "%FER".toList _ (by decide) nonempty all
  have notSpecial : specialOfName ("%FER".toList ++ digits) = none := by
    simp [specialOfName, SpecialRegister.all, SpecialRegister.name]
  rw [encodeRegister, notSpecial, index]
  rfl

theorem encodeRegister_narrow {width : Width} {digit : Char} (narrow : width ≠ .w64) (low : '0' ≤ digit)
    (high : digit ≤ '7') :
    encodeRegister ('%' :: (width.registerLetters ++ [digit])) =
      .ok [REGISTER_CODE, width.bcd, BitVec.ofNat 8 (Numerals.digitValue digit)] := by
  obtain ⟨decimal, small⟩ := isDecimal_of_low low high
  have index := extractTrailingNumber_append ('%' :: width.registerLetters) [digit]
    (by cases width <;> decide) (by simp) (by simpa using decimal)
  rw [Numerals.digitsValue_singleton, if_pos (by omega), List.cons_append] at index
  have notSpecial : specialOfName ('%' :: (width.registerLetters ++ [digit])) = none := by
    cases width <;> simp [specialOfName, SpecialRegister.all, SpecialRegister.name, Width.registerLetters]
  rw [encodeRegister, notSpecial, index]
  cases width with
  | w64 => exact absurd rfl narrow
  | _ => rfl

theorem encodeRegister_vector (digit : Char) :
    encodeRegister ("%XMM".toList ++ [digit]) =
      .error (.codeExpression ("Unknown register ".toList ++ ("%XMM".toList ++ [digit]))) := by
  have notSpecial : specialOfName ("%XMM".toList ++ [digit]) = none := by
    simp [specialOfName, SpecialRegister.all, SpecialRegister.name]
  rw [encodeRegister, notSpecial]
  rfl

/-- A number after `%FER` that no register has. -/
def Overnumbered (name : List Char) : Prop :=
  ∃ digits value, DecimalNumeral digits value ∧ 15 < value ∧ name = "%FER".toList ++ digits

theorem Overnumbered.valid {name : List Char} (large : Overnumbered name) : ValidRegister name := by
  obtain ⟨digits, value, ⟨nonempty, all, -⟩, -, rfl⟩ := large
  exact .full digits nonempty all

/-- An overnumbered name names no register. -/
theorem Overnumbered.unnamed {name : List Char} (large : Overnumbered name) (register : Register) :
    ¬ NamesRegister name register := by
  obtain ⟨digits, value, ⟨nonempty, all, rfl⟩, beyond, rfl⟩ := large
  intro named
  cases register with
  | general width index =>
    obtain ⟨digits', ⟨-, -, number⟩, same⟩ := named
    cases width with
    | w64 =>
      obtain rfl : digits = digits' := (List.append_right_inj "%FER".toList).mp same
      have := index.isLt
      simp only [Width.registerCount] at this
      omega
    | _ => simp [Width.registerLetters] at same
  | special special => cases special <;> simp [NamesRegister, SpecialRegister.name] at named

/-- What a valid register name is, by what is emitted for it. -/
theorem ValidRegister.cases_emitted {name : List Char} (valid : ValidRegister name) :
    (∃ register, NamesRegister name register ∧ encodeRegister name = .ok (Format.registerBytes register)) ∨
      Overnumbered name ∨ ∃ error, encodeRegister name = .error error := by
  cases valid with
  | narrow width digit narrow low high =>
    obtain ⟨decimal, small⟩ := isDecimal_of_low low high
    have count : width.registerCount = 8 := by cases width <;> simp_all [Width.registerCount]
    refine .inl ⟨.general width ⟨Numerals.digitValue digit, by omega⟩, ?_, encodeRegister_narrow narrow low high⟩
    exact ⟨[digit], ⟨by simp, by simpa using decimal, Numerals.digitsValue_singleton ..⟩, rfl⟩
  | full digits nonempty all =>
    by_cases known : Numerals.digitsValue 10 digits < 16
    · refine .inl ⟨.general .w64 ⟨_, known⟩, ⟨digits, ⟨nonempty, all, rfl⟩, rfl⟩, ?_⟩
      rw [encodeRegister_full nonempty all, fullRegisterBytes, if_pos (by omega)]
      rfl
    · exact .inr (.inl ⟨digits, _, ⟨nonempty, all, rfl⟩, by omega, rfl⟩)
  | special special => exact .inl ⟨.special special, rfl, encodeRegister_special special⟩
  | vector digit low high => exact .inr (.inr ⟨_, encodeRegister_vector digit⟩)

/-- A valid register name as a memory parameter: only 64-bit registers are let through. -/
theorem ValidRegister.cases_parameter {name : List Char} (bc : Calculator) (valid : ValidRegister name) :
    (encodeParameter bc name = encodeRegister name ∧
        ∀ register, NamesRegister name register → register.width = .w64) ∨
      ∃ error, encodeParameter bc name = .error error := by
  have accepted := (isValidRegister_iff name).mpr valid
  simp only [encodeParameter, accepted, ↓reduceIte]
  cases valid with
  | narrow width digit narrow low high =>
    obtain ⟨decimal, -⟩ := isDecimal_of_low low high
    have letters := dropTrailingDigits_append ('%' :: width.registerLetters) [digit]
      (by cases width <;> decide) (by simpa using decimal)
    have notSpecial : specialOfName ('%' :: (width.registerLetters ++ [digit])) = none := by
      cases width <;> simp [specialOfName, SpecialRegister.all, SpecialRegister.name, Width.registerLetters]
    rw [List.cons_append] at letters
    rw [letters, notSpecial, if_pos ⟨by cases width <;> simp_all [Width.registerLetters], rfl⟩]
    exact .inr ⟨_, rfl⟩
  | full digits nonempty all =>
    rw [dropTrailingDigits_append "%FER".toList _ (by decide) all, if_neg (fun both => both.1 rfl)]
    refine .inl ⟨rfl, fun register named => ?_⟩
    cases register with
    | general width index =>
      obtain ⟨_, -, same⟩ := named
      cases width <;> simp_all [Width.registerLetters, Register.width]
    | special => rfl
  | special special =>
    have found : specialOfName ('%' :: special.name) = some special := by cases special <;> rfl
    rw [found, if_neg (fun both => by cases both.2)]
    refine .inl ⟨rfl, fun register named => ?_⟩
    cases register with
    | general width index =>
      obtain ⟨_, -, same⟩ := named
      cases width <;> cases special <;> simp [Width.registerLetters, SpecialRegister.name] at same
    | special => rfl
  | vector digit low high =>
    have decimal : Numerals.isDecimal digit = true := decide_eq_true ⟨low, Char.le_trans high (by decide)⟩
    have notSpecial : specialOfName ("%XMM".toList ++ [digit]) = none := by
      simp [specialOfName, SpecialRegister.all, SpecialRegister.name]
    rw [dropTrailingDigits_append "%XMM".toList _ (by decide) (by simpa using decimal), notSpecial,
      if_pos ⟨by decide, rfl⟩]
    exact .inr ⟨_, rfl⟩

end Sysdarft.Coding
