import Sysdarft.Library.Words
import Sysdarft.Proofs.EncodeOperand

/-! # Hexadecimal numerals in an expression

`process_base16` collects the numerals and then replaces them one after the other, wherever their text occurs. In an
expression whose numerals are words of their own the words are rewritten by themselves. A numeral becomes its value
unless an earlier one is the beginning of it.
-/

namespace Sysdarft.Coding

open Words Regex

/-! ## Words -/

/-- Letters and digits. -/
def isAlphanumeric (c : Char) : Bool := Numerals.isDecimal c || decide ('A' ≤ c ∧ c ≤ 'Z') || decide ('a' ≤ c ∧ c ≤ 'z')

/-- `0x` and digits. -/
def IsHexNumeral (run : List Char) : Prop :=
  run.take 2 = "0x".toList ∧ run.drop 2 ≠ [] ∧ ∀ c ∈ run.drop 2, Numerals.isHexadecimal c = true

instance isHexNumeralDecidable (run : List Char) : Decidable (IsHexNumeral run) :=
  inferInstanceAs (Decidable
    (run.take 2 = "0x".toList ∧ run.drop 2 ≠ [] ∧ ∀ c ∈ run.drop 2, Numerals.isHexadecimal c = true))

/-- `0x` and a digit occur in the word. -/
def HasHexNumeral (run : List Char) : Prop :=
    ∃ front digit back, Numerals.isHexadecimal digit = true ∧ run = front ++ '0' :: 'x' :: digit :: back

/-- What a numeral is worth. -/
def hexValue (run : List Char) : ℕ := Numerals.digitsValue 16 (run.drop 2)

/-- The first pass: the prefix is written in lower case. -/
def lowerPrefix (input : List Char) : List Char := Text.replaceAll "0X".toList "0x".toList input

/-- The numerals of an expression. -/
def hexTokens (text : List Char) : List (List Char) := (iterate base16Pattern text).map Found.text

/-- Every numeral is a word, and fits 64 bits. -/
structure Separated (text : List Char) : Prop where
  words : ∀ run ∈ runs isAlphanumeric text, HasHexNumeral run → IsHexNumeral run
  small : ∀ run ∈ runs isAlphanumeric text, IsHexNumeral run → hexValue run ≤ Numerals.maxU64

section Words

variable {run rest : List Char} {separator : Char}

theorem isAlphanumeric_of_isHexadecimal {c : Char} (digit : Numerals.isHexadecimal c = true) : isAlphanumeric c = true := by
  simp only [Numerals.isHexadecimal, Bool.or_eq_true, decide_eq_true_eq] at digit
  simp only [isAlphanumeric, Bool.or_eq_true, decide_eq_true_eq]
  rcases digit with (digit | ⟨low, high⟩) | ⟨low, high⟩
  · exact .inl (.inl digit)
  · exact .inr ⟨low, Char.le_trans high (by decide)⟩
  · exact .inl (.inr ⟨low, Char.le_trans high (by decide)⟩)

theorem not_isHexadecimal_of_separates (separates : isAlphanumeric separator = false) :
    Numerals.isHexadecimal separator = false := by
  rw [← Bool.not_eq_true] at separates ⊢
  exact fun digit => separates (isAlphanumeric_of_isHexadecimal digit)

theorem isHexNumeral_iff : IsHexNumeral run ↔
    ∃ digits, digits ≠ [] ∧ (∀ c ∈ digits, Numerals.isHexadecimal c = true) ∧ run = '0' :: 'x' :: digits := by
  constructor
  · rintro ⟨front, nonempty, all⟩
    refine ⟨run.drop 2, nonempty, all, ?_⟩
    conv_lhs => rw [← List.take_append_drop 2 run, front]
    rfl
  · rintro ⟨digits, nonempty, all, rfl⟩
    exact ⟨rfl, nonempty, all⟩

theorem IsHexNumeral.isRun (numeral : IsHexNumeral run) : IsRun isAlphanumeric run := by
  obtain ⟨digits, -, all, rfl⟩ := isHexNumeral_iff.mp numeral
  intro c member
  rcases List.mem_cons.mp member with rfl | member
  · decide
  · rcases List.mem_cons.mp member with rfl | member
    · decide
    · exact isAlphanumeric_of_isHexadecimal (all c member)

theorem IsHexNumeral.has (numeral : IsHexNumeral run) : HasHexNumeral run := by
  obtain ⟨digits, nonempty, all, rfl⟩ := isHexNumeral_iff.mp numeral
  obtain ⟨digit, back, rfl⟩ := List.exists_cons_of_ne_nil nonempty
  exact ⟨[], digit, back, all digit List.mem_cons_self, rfl⟩

theorem not_hasHexNumeral_tail {c : Char} (none : ¬ HasHexNumeral (c :: run)) : ¬ HasHexNumeral run := by
  rintro ⟨front, digit, back, hexadecimal, rfl⟩
  exact none ⟨c :: front, digit, back, hexadecimal, rfl⟩

/-- What the pattern matches begins with the prefix and a digit. -/
theorem derives_base16_front {start : Bool} {word rest : List Char} {captures : Captures}
    (derivation : Derives base16Pattern start word rest captures) :
    ∃ digit back, Numerals.isHexadecimal digit = true ∧ word = '0' :: 'x' :: digit :: back := by
  rw [base16Pattern, derives_seq] at derivation
  obtain ⟨left, right, _, _, rfl, -, head, tail⟩ := derivation
  obtain ⟨rfl, -⟩ := derives_lit.mp head
  obtain ⟨nonempty, all, -⟩ := derives_plus_sat.mp tail
  obtain ⟨digit, back, rfl⟩ := List.exists_cons_of_ne_nil nonempty
  exact ⟨digit, back, all digit List.mem_cons_self, rfl⟩

/-- At a numeral the scan goes on behind it. -/
theorem iterateFrom_token {start : Bool} {token rest : List Char} (numeral : IsHexNumeral token)
    (stop : ∀ c ∈ rest.head?, Numerals.isHexadecimal c = false) :
    (iterateFrom base16Pattern 0 start (token ++ rest)).map Found.text =
      token :: (iterateFrom base16Pattern 0 false rest).map Found.text := by
  obtain ⟨digits, nonempty, all, rfl⟩ := isHexNumeral_iff.mp numeral
  have hit := matchAt_lit_plus start "0x".toList rest nonempty all stop
  have behind := iterateFrom_drop base16Pattern rest (digits.length + 1) ('x' :: digits) rfl
  change matchAt base16Pattern start ('0' :: ('x' :: digits ++ rest)) = _ at hit
  rw [List.cons_append, iterateFrom, hit]
  exact congrArg (fun found : List Found => _ :: found.map Found.text) behind

/-- In any other word nothing is found. -/
theorem iterateFrom_other {start : Bool} (none : ¬ HasHexNumeral run) (all : IsRun isAlphanumeric run)
    (stop : ∀ c ∈ rest.head?, isAlphanumeric c = false) :
    ∃ start', iterateFrom base16Pattern 0 start (run ++ rest) = iterateFrom base16Pattern 0 start' rest := by
  induction run generalizing start with
  | nil => exact ⟨start, rfl⟩
  | cons c run ih =>
    obtain ⟨start', later⟩ := @ih false (not_hasHexNumeral_tail none) fun d member => all d (List.mem_cons_of_mem _ member)
    refine ⟨start', ?_⟩
    rw [List.cons_append, iterateFrom_skip, later]
    intro word tail captures split derivation
    obtain ⟨digit, back, hexadecimal, rfl⟩ := derives_base16_front derivation
    refine none ⟨[], digit, (Words.split isAlphanumeric (back ++ tail)).1, hexadecimal, ?_⟩
    have front : IsRun isAlphanumeric ['0', 'x', digit] := by
      simp [IsRun, isAlphanumeric_of_isHexadecimal hexadecimal, show isAlphanumeric '0' = true from by decide,
        show isAlphanumeric 'x' = true from by decide]
    have whole := congrArg (fun text => (Words.split isAlphanumeric text).1) split
    have first := congrArg Prod.fst (split_append all stop)
    exact first.symm.trans (whole.trans (congrArg Prod.fst (split_run_append front (back ++ tail))))

/-- Between words nothing is found. -/
theorem iterateFrom_separator {start : Bool} (separates : isAlphanumeric separator = false) (rest : List Char) :
    iterateFrom base16Pattern 0 start (separator :: rest) = iterateFrom base16Pattern 0 false rest := by
  refine iterateFrom_skip fun word tail captures split derivation => ?_
  obtain ⟨digit, back, -, rfl⟩ := derives_base16_front derivation
  obtain rfl := (List.cons.inj split).1
  exact absurd separates (by decide)

/-- The numerals are the words that are numerals. -/
theorem hexTokens_eq {text : List Char}
    (separated : ∀ run ∈ runs isAlphanumeric text, HasHexNumeral run → IsHexNumeral run) :
    hexTokens text = (runs isAlphanumeric text).filter fun run => IsHexNumeral run := by
  have all (start : Bool) : (iterateFrom base16Pattern 0 start text).map Found.text =
      (runs isAlphanumeric text).filter fun run => IsHexNumeral run := by
    induction text using Words.induct isAlphanumeric generalizing start with
    | last run inside =>
      rw [runs_run inside] at separated ⊢
      have stop : ∀ c ∈ ([] : List Char).head?, isAlphanumeric c = false := fun c head => by cases head
      by_cases numeral : IsHexNumeral run
      · have found := @iterateFrom_token start run [] numeral fun c head => by cases head
        rw [List.append_nil] at found
        rw [found, List.filter_cons_of_pos (by simpa using numeral)]
        rfl
      · obtain ⟨start', none⟩ :=
          @iterateFrom_other run [] start (fun has => numeral (separated run List.mem_cons_self has)) inside stop
        rw [List.append_nil] at none
        rw [none, List.filter_cons_of_neg (by simpa using numeral)]
        rfl
    | next run separator rest inside separates ih =>
      rw [runs_cons inside separates] at separated ⊢
      obtain ⟨here, later⟩ := List.forall_mem_cons.mp separated
      have stop : ∀ c ∈ (separator :: rest).head?, isAlphanumeric c = false := fun c head => Option.some.inj head ▸ separates
      by_cases numeral : IsHexNumeral run
      · rw [iterateFrom_token numeral fun c head => not_isHexadecimal_of_separates (stop c head),
          iterateFrom_separator separates, ih later, List.filter_cons_of_pos (by simpa using numeral)]
      · obtain ⟨start', none⟩ := @iterateFrom_other run _ start (fun has => numeral (here has)) inside stop
        rw [none, iterateFrom_separator separates, ih later, List.filter_cons_of_neg (by simpa using numeral)]
  exact all true

/-! ## Values -/

theorem digitsValue_concat (base : ℕ) (digits : List Char) (c : Char) :
    Numerals.digitsValue base (digits ++ [c]) = Numerals.digitsValue base digits * base + Numerals.digitValue c := by
  rw [Numerals.digitsValue_append, Numerals.digitsValue_singleton, List.length_singleton, pow_one]

/-- A larger base makes a larger value. -/
theorem digitsValue_mono {base base' : ℕ} (larger : base ≤ base') (digits : List Char) :
    Numerals.digitsValue base digits ≤ Numerals.digitsValue base' digits := by
  induction digits using List.reverseRecOn with
  | nil => exact le_rfl
  | append_singleton digits c ih =>
    rw [digitsValue_concat, digitsValue_concat]
    exact Nat.add_le_add_right (Nat.mul_le_mul ih larger) _

theorem digitsValue_lt {digits : List Char} (all : ∀ c ∈ digits, Numerals.isDecimal c = true) :
    Numerals.digitsValue 10 digits < 10 ^ digits.length := by
  induction digits using List.reverseRecOn with
  | nil => exact Nat.one_pos
  | append_singleton digits c ih =>
    obtain ⟨early, last⟩ := List.forall_mem_append.mp all
    have decimal := last c List.mem_cons_self
    have small : Numerals.digitValue c ≤ 9 := by
      have bounds := of_decide_eq_true decimal
      have high : c.toNat ≤ 57 := bounds.2
      rw [Numerals.digitValue, if_pos decimal]
      omega
    rw [digitsValue_concat, List.length_append, List.length_singleton, pow_succ]
    have less := ih early
    omega

/-- The value of the beginning of a numeral and its other digits are no numeral of the same value. -/
theorem decimal_append_ne {first last : List Char} (nonempty : last ≠ []) :
    Numerals.decimal (Numerals.digitsValue 16 first) ++ last ≠
      Numerals.decimal (Numerals.digitsValue 16 (first ++ last)) := by
  intro same
  have all : ∀ c ∈ last, Numerals.isDecimal c = true := fun c member =>
    Numerals.isDecimal_of_mem_decimal (same ▸ List.mem_append_right _ member)
  have values := congrArg (Numerals.digitsValue 10) same
  rw [Numerals.digitsValue_append, Numerals.digitsValue_decimal, Numerals.digitsValue_decimal,
    Numerals.digitsValue_append] at values
  have tail := digitsValue_mono (show 10 ≤ 16 by decide) last
  have power : 10 ^ last.length < 16 ^ last.length := Nat.pow_lt_pow_left (by decide) (List.length_pos_iff.mpr nonempty).ne'
  have zero : Numerals.digitsValue 16 first = 0 := by
    by_contra positive
    have more := Nat.mul_lt_mul_of_pos_left power (Nat.pos_of_ne_zero positive)
    omega
  rw [Numerals.digitsValue_append, zero, Nat.zero_mul, Nat.zero_add] at same
  rw [zero, Nat.zero_mul, Nat.zero_add, Nat.zero_mul, Nat.zero_add] at values
  have short : (Numerals.decimal (Numerals.digitsValue 16 last)).length ≤ last.length := by
    rw [Numerals.decimal, Nat.length_toDigits_le_iff (by decide) (List.length_pos_iff.mpr nonempty), ← values]
    exact digitsValue_lt all
  have length := congrArg List.length same
  rw [List.length_append] at length
  have one := List.length_pos_iff.mpr (Numerals.decimal_ne_nil 0)
  omega

end Words

/-! ## The replacement -/

/-- What is made of a word. -/
def hexRun (tokens : List (List Char)) (run : List Char) : List Char :=
  tokens.foldl (fun text token => Text.replaceAll token (Numerals.decimal (hexValue token)) text) run

/-- The decimal numeral for a hexadecimal one; any other word is kept. -/
def decimalRun (run : List Char) : List Char := if IsHexNumeral run then Numerals.decimal (hexValue run) else run

/-- A numeral that another one begins with comes behind it. -/
def Apart (tokens : List (List Char)) : Prop :=
  ∀ before token after, tokens = before ++ token :: after → ∀ run ∈ tokens, token <+: run → token = run ∨ run ∈ before

section Replacement

variable {tokens : List (List Char)} {run token tail other text : List Char}

theorem isRun_decimal_alphanumeric (n : ℕ) : IsRun isAlphanumeric (Numerals.decimal n) := by
  intro c member
  rw [isAlphanumeric, Numerals.isDecimal_of_mem_decimal member, Bool.true_or, Bool.true_or]

theorem isRun_replaceToken {token text : List Char} {n : ℕ} (all : IsRun isAlphanumeric text) :
    IsRun isAlphanumeric (Text.replaceAll token (Numerals.decimal n) text) := by
  intro c member
  rcases Text.mem_replaceAll member with kept | put
  · exact all c kept
  · exact isRun_decimal_alphanumeric n c put

theorem isRun_hexRun (all : IsRun isAlphanumeric run) : IsRun isAlphanumeric (hexRun tokens run) := by
  induction tokens generalizing run with
  | nil => exact all
  | cons token tokens ih => exact ih (isRun_replaceToken all)

/-- Every word is rewritten by itself. -/
theorem hexRun_eq_mapRuns (numerals : ∀ token ∈ tokens, IsHexNumeral token) (text : List Char) :
    hexRun tokens text = mapRuns isAlphanumeric (hexRun tokens) text := by
  induction tokens generalizing text with
  | nil => exact (mapRuns_id text).symm
  | cons token tokens ih =>
    obtain ⟨first, later⟩ := List.forall_mem_cons.mp numerals
    rw [hexRun, List.foldl_cons]
    refine (ih later _).trans ?_
    rw [replaceAll_eq_mapRuns first.isRun, mapRuns_mapRuns _ fun run all => isRun_replaceToken all]
    rfl

theorem mem_hexTokens {text : List Char} (separated : Separated text) :
    run ∈ hexTokens text ↔ run ∈ runs isAlphanumeric text ∧ IsHexNumeral run := by
  rw [hexTokens_eq separated.words, List.mem_filter, decide_eq_true_eq]

/-- The numerals are collected and replaced one after the other. -/
theorem processBase16_hexRun {input : List Char}
    (small : ∀ token ∈ hexTokens (lowerPrefix input), IsHexNumeral token ∧ hexValue token ≤ Numerals.maxU64) :
    processBase16 input = hexRun (hexTokens (lowerPrefix input)) (lowerPrefix input) := by
  rw [processBase16, hexRun, List.foldl_map, hexTokens, List.foldl_map]
  refine List.foldl_ext _ _ _ fun text found member => ?_
  obtain ⟨numeral, small⟩ := small _ (List.mem_map_of_mem member)
  obtain ⟨digits, nonempty, all, same⟩ := isHexNumeral_iff.mp numeral
  rw [hexValue, same, List.drop_succ_cons, List.drop_succ_cons, List.drop_zero] at small
  rw [hexValue, same, Numerals.strtoull_hexDigits nonempty all, List.drop_succ_cons, List.drop_succ_cons, List.drop_zero,
    min_eq_left small]
  rfl

theorem processBase16_eq {input : List Char} (separated : Separated (lowerPrefix input)) :
    processBase16 input = mapRuns isAlphanumeric (hexRun (hexTokens (lowerPrefix input))) (lowerPrefix input) := by
  rw [← hexRun_eq_mapRuns fun token member => ((mem_hexTokens separated).mp member).2]
  refine processBase16_hexRun fun token member => ?_
  obtain ⟨inside, numeral⟩ := (mem_hexTokens separated).mp member
  exact ⟨numeral, separated.small _ inside numeral⟩

/-- A text without a prefix is kept. -/
theorem hexRun_kept (numerals : ∀ token ∈ tokens, IsHexNumeral token) (none : ∀ token ∈ tokens, ¬ token <:+: run) :
    hexRun tokens run = run := by
  induction tokens with
  | nil => rfl
  | cons token tokens ih =>
    obtain ⟨first, later⟩ := List.forall_mem_cons.mp numerals
    obtain ⟨absent, others⟩ := List.forall_mem_cons.mp none
    rw [hexRun, List.foldl_cons, Text.replaceAll_of_not_infix absent]
    exact ih later others

/-- A numeral in a text is the prefix and a digit in it. -/
theorem IsHexNumeral.occurs {token : List Char} (numeral : IsHexNumeral token) (occurs : token <:+: run) :
    HasHexNumeral run := by
  obtain ⟨front, digit, back, hexadecimal, rfl⟩ := numeral.has
  obtain ⟨before, after, rfl⟩ := occurs
  exact ⟨before ++ front, digit, back ++ after, hexadecimal, by simp⟩

theorem x_not_mem_digits {digits : List Char} (all : ∀ c ∈ digits, Numerals.isHexadecimal c = true) : 'x' ∉ digits :=
  not_isDecimal_of_mem all (by decide)

theorem IsHexNumeral.x_mem {token : List Char} (numeral : IsHexNumeral token) : 'x' ∈ token := by
  obtain ⟨digits, -, -, rfl⟩ := isHexNumeral_iff.mp numeral
  exact List.mem_cons_of_mem _ List.mem_cons_self

/-- A numeral in front, what is behind it, and no other numeral. -/
structure Fronted (run token tail : List Char) : Prop where
  whole : run = token ++ tail
  numeral : IsHexNumeral token
  stop : ∀ c ∈ tail.head?, Numerals.isHexadecimal c = false
  single : ¬ HasHexNumeral run.tail

/-- What a numeral in the word begins. -/
theorem Fronted.infix_iff (fronted : Fronted run token tail) (numeral : IsHexNumeral other) :
    other <:+: run ↔ other <+: token := by
  obtain ⟨digits, -, all, rfl⟩ := isHexNumeral_iff.mp numeral
  constructor
  · intro occurs
    have front : '0' :: 'x' :: digits <+: run := by
      cases run with
      | nil => exact absurd (List.infix_nil.mp occurs) (List.cons_ne_nil _ _)
      | cons c run =>
        refine (List.infix_cons_iff.mp occurs).resolve_right fun behind => fronted.single ?_
        exact numeral.occurs behind
    rw [fronted.whole] at front
    rcases List.prefix_or_prefix_of_prefix front (List.prefix_append token tail) with inside | ⟨more, whole⟩
    · exact inside
    · rw [← whole, List.prefix_append_right_inj] at front
      cases more with
      | nil => rw [← whole, List.append_nil]
      | cons c more =>
        obtain ⟨first, -, -, rfl⟩ := isHexNumeral_iff.mp fronted.numeral
        have digit : c ∈ digits := by
          have same : first ++ c :: more = digits := (List.cons.inj (List.cons.inj whole).2).2
          exact same ▸ List.mem_append_right _ List.mem_cons_self
        obtain ⟨rest, rfl⟩ := front
        have stops := fronted.stop c rfl
        rw [all c digit] at stops
        cases stops
  · intro front
    rw [fronted.whole]
    exact (front.trans (List.prefix_append token tail)).isInfix

/-- Replacing numerals leaves a text without them, and takes an `x` away otherwise. -/
theorem hexRun_cases (numerals : ∀ token ∈ tokens, IsHexNumeral token) (text : List Char) :
    hexRun tokens text = text ∧ (∀ token ∈ tokens, ¬ token <:+: text) ∨
      (hexRun tokens text).count 'x' < text.count 'x' := by
  induction tokens generalizing text with
  | nil => exact .inl ⟨rfl, fun token member => absurd member List.not_mem_nil⟩
  | cons token tokens ih =>
    obtain ⟨first, later⟩ := List.forall_mem_cons.mp numerals
    have step : hexRun (token :: tokens) text =
      hexRun tokens (Text.replaceAll token (Numerals.decimal (hexValue token)) text) := rfl
    have away : 'x' ∉ Numerals.decimal (hexValue token) := fun member =>
      absurd (Numerals.isDecimal_of_mem_decimal member) (by decide)
    rw [step]
    by_cases occurs : token <:+: text
    · have fewer := Text.count_replaceAll_lt away first.x_mem occurs
      rcases ih later (Text.replaceAll token (Numerals.decimal (hexValue token)) text) with ⟨same, -⟩ | fewer'
      · exact .inr (by rwa [same])
      · exact .inr (fewer'.trans fewer)
    · rw [Text.replaceAll_of_not_infix occurs]
      exact (ih later text).imp_left fun ⟨same, absent⟩ => ⟨same, List.forall_mem_cons.mpr ⟨occurs, absent⟩⟩

theorem hexRun_eq_self_iff (numerals : ∀ token ∈ tokens, IsHexNumeral token) :
    hexRun tokens text = text ↔ ∀ token ∈ tokens, ¬ token <:+: text := by
  rcases hexRun_cases numerals text with ⟨same, absent⟩ | fewer
  · exact iff_of_true same absent
  · refine iff_of_false (fun same => ?_) fun absent => ?_
    · rw [same] at fewer
      exact Nat.lt_irrefl _ fewer
    · rw [hexRun_kept numerals absent] at fewer
      exact Nat.lt_irrefl _ fewer

/-- The first numeral that begins another one is this one exactly when none comes in front of it. -/
theorem firstPrefix_iff {before after : List (List Char)} (absent : ∀ other ∈ before, ¬ other <+: run)
    (front : token <+: run) (member : run ∈ before ++ token :: after) :
    token = run ↔ ∀ before' other after', before ++ token :: after = before' ++ other :: after' → other <+: run →
      other = run ∨ run ∈ before' := by
  constructor
  · rintro rfl before' other after' same occurs
    rcases List.append_eq_append_iff.mp same with ⟨middle, rfl, tail⟩ | ⟨middle, rfl, tail⟩
    · cases middle with
      | nil => exact .inl (List.cons.inj tail).1.symm
      | cons head middle =>
        obtain ⟨rfl, -⟩ := List.cons.inj tail
        exact .inr (List.mem_append_right _ List.mem_cons_self)
    · cases middle with
      | nil => exact .inl (List.cons.inj tail).1
      | cons head middle =>
        obtain ⟨rfl, -⟩ := List.cons.inj tail
        exact absurd occurs (absent other (List.mem_append_right _ List.mem_cons_self))
  · intro apart
    rcases apart before token after rfl front with same | early
    · exact same
    · exact absurd List.prefix_rfl (absent run early)

/-- The numeral in front becomes its value, and what is behind it stays, exactly when no numeral that begins it comes in
front of it, and no later one is found in what is put. -/
theorem Fronted.hexRun_iff (fronted : Fronted run token tail) (numerals : ∀ other ∈ tokens, IsHexNumeral other)
    (member : token ∈ tokens) :
    hexRun tokens run = Numerals.decimal (hexValue token) ++ tail ↔
      (∀ before other after, tokens = before ++ other :: after → other <+: token → other = token ∨ token ∈ before) ∧
      ∀ before after, tokens = before ++ token :: after → token ∉ before →
        ∀ other ∈ after, ¬ other <:+: Numerals.decimal (hexValue token) ++ tail := by
  have some : (tokens.find? fun other => other.isPrefixOf token).isSome :=
    List.find?_isSome.mpr ⟨token, member, List.isPrefixOf_iff_prefix.mpr List.prefix_rfl⟩
  obtain ⟨first, found⟩ := Option.isSome_iff_exists.mp some
  obtain ⟨front, before, after, rfl, none⟩ := List.find?_eq_some_iff_append.mp found
  rw [List.isPrefixOf_iff_prefix] at front
  have absent : ∀ other ∈ before, ¬ other <+: token := by
    intro other early occurs
    have differs := none other early
    rw [Bool.not_eq_true', ← Bool.not_eq_true] at differs
    exact differs (List.isPrefixOf_iff_prefix.mpr occurs)
  obtain ⟨early, late⟩ := List.forall_mem_append.mp numerals
  obtain ⟨first_numeral, late⟩ := List.forall_mem_cons.mp late
  rw [← firstPrefix_iff absent front member]
  obtain ⟨last, rfl⟩ := front
  have behind : ¬ first <:+: last ++ tail := by
    intro occurs
    obtain ⟨digits, -, -, rfl⟩ := isHexNumeral_iff.mp first_numeral
    refine fronted.single (first_numeral.occurs ?_)
    rw [fronted.whole, List.append_assoc]
    exact occurs.trans (List.suffix_append _ _).isInfix
  have put : hexRun (before ++ first :: after) run =
      hexRun after (Numerals.decimal (hexValue first) ++ (last ++ tail)) := by
    have kept := hexRun_kept early fun other member occurs =>
      absent other member ((fronted.infix_iff (early other member)).mp occurs)
    rw [hexRun, List.foldl_append, List.foldl_cons]
    change hexRun after (Text.replaceAll _ _ (hexRun before run)) = _
    rw [kept, fronted.whole, List.append_assoc, Text.replaceAll_occurrence _ _ (List.ne_nil_of_mem first_numeral.x_mem),
      Text.replaceAll_of_not_infix behind]
  rw [put]
  by_cases whole : last = []
  · subst whole
    have place (before' after' : List (List Char)) (same : before ++ first :: after = before' ++ first :: after')
        (new : first ∉ before') : after = after' :=
      (Text.append_cons_inj (fun early => absent first early (by simp)) new same).2
    rw [List.append_nil, List.nil_append, hexRun_eq_self_iff late]
    constructor
    · exact fun kept =>
        ⟨rfl, fun before' after' same new other inside => kept other (place before' after' same new ▸ inside)⟩
    · exact fun kept other inside => kept.2 before after rfl (fun early => absent first early (by simp)) other inside
  · refine iff_of_false (fun same => ?_) fun right => whole (List.append_right_eq_self.mp right.1.symm)
    rcases hexRun_cases late (Numerals.decimal (hexValue first) ++ (last ++ tail)) with ⟨kept, -⟩ | fewer
    · rw [kept, ← List.append_assoc, List.append_cancel_right_eq] at same
      obtain ⟨inner, -, -, rfl⟩ := isHexNumeral_iff.mp first_numeral
      exact decimal_append_ne whole same
    · have plain (n : ℕ) : (Numerals.decimal n).count 'x' = 0 :=
        List.count_eq_zero.mpr fun member => absurd (Numerals.isDecimal_of_mem_decimal member) (by decide)
      obtain ⟨inner, -, -, rfl⟩ := isHexNumeral_iff.mp first_numeral
      obtain ⟨digits, -, all, digits_eq⟩ := isHexNumeral_iff.mp fronted.numeral
      have rest : inner ++ last = digits := (List.cons.inj (List.cons.inj digits_eq).2).2
      have none_last : last.count 'x' = 0 :=
        List.count_eq_zero.mpr fun member => x_not_mem_digits all (rest ▸ List.mem_append_right _ member)
      rw [same, List.count_append, List.count_append, plain, plain, List.count_append, none_last] at fewer
      omega

/-- A numeral that is a word becomes its value exactly when none that begins it comes in front of it. -/
theorem hexRun_iff (numerals : ∀ token ∈ tokens, IsHexNumeral token) (member : run ∈ tokens) :
    hexRun tokens run = Numerals.decimal (hexValue run) ↔
      ∀ before token after, tokens = before ++ token :: after → token <+: run → token = run ∨ run ∈ before := by
  have numeral := numerals run member
  have fronted : Fronted run run [] := by
    refine ⟨(List.append_nil run).symm, numeral, fun c head => absurd head (Option.not_mem_none c), ?_⟩
    obtain ⟨digits, -, all, rfl⟩ := isHexNumeral_iff.mp numeral
    rintro ⟨front, digit, back, -, whole⟩
    cases front with
    | nil => exact absurd (List.cons.inj whole).1 (by decide)
    | cons c front =>
      refine x_not_mem_digits all ?_
      rw [(List.cons.inj whole).2]
      exact List.mem_append_right _ (List.mem_cons_of_mem _ List.mem_cons_self)
  have exactly := fronted.hexRun_iff numerals member
  rw [List.append_nil] at exactly
  rw [exactly]
  refine and_iff_left fun before after whole _ other inside occurs => ?_
  have later : other ∈ tokens := whole ▸ List.mem_append_right _ (List.mem_cons_of_mem _ inside)
  exact absurd (Numerals.isDecimal_of_mem_decimal (occurs.subset (numerals other later).x_mem)) (by decide)

/-- In an expression whose numerals are words that fit 64 bits, every numeral becomes its value and nothing else changes,
exactly when no numeral comes in front of another one that begins with it. -/
theorem processBase16_exact {input : List Char} (separated : Separated (lowerPrefix input)) :
    processBase16 input = mapRuns isAlphanumeric decimalRun (lowerPrefix input) ↔ Apart (hexTokens (lowerPrefix input)) := by
  have numerals : ∀ token ∈ hexTokens (lowerPrefix input), IsHexNumeral token :=
    fun token member => ((mem_hexTokens separated).mp member).2
  have stays (run : List Char) (all : IsRun isAlphanumeric run) : IsRun isAlphanumeric (decimalRun run) := by
    rw [decimalRun]
    split_ifs
    · exact isRun_decimal_alphanumeric _
    · exact all
  rw [processBase16_eq separated, mapRuns_inj (fun run all => isRun_hexRun all) stays]
  constructor
  · intro right before token after same run member occurs
    obtain ⟨inside, numeral⟩ := (mem_hexTokens separated).mp member
    have value := right run inside
    rw [decimalRun, if_pos numeral] at value
    exact (hexRun_iff numerals member).mp value before token after same occurs
  · intro apart run inside
    rw [decimalRun]
    split_ifs with numeral
    · have member := (mem_hexTokens separated).mpr ⟨inside, numeral⟩
      exact (hexRun_iff numerals member).mpr fun before token after same => apart before token after same run member
    · exact hexRun_kept numerals fun token member occurs =>
        numeral (separated.words run inside ((numerals token member).occurs occurs))

end Replacement

/-- Of two numerals only the first one must not begin the other. -/
theorem apart_pair {first second : List Char} (other : first <+: second → first = second) : Apart [first, second] := by
  intro before token after whole run member begins
  rcases before with _ | ⟨one, _ | ⟨two, before⟩⟩
  · obtain rfl := (List.cons.inj whole).1
    rcases List.mem_pair.mp member with rfl | rfl
    · exact .inl rfl
    · exact .inl (other begins)
  · obtain ⟨rfl, rest⟩ := List.cons.inj whole
    obtain rfl := (List.cons.inj rest).1
    rcases List.mem_pair.mp member with rfl | rfl
    · exact .inr List.mem_cons_self
    · exact .inl rfl
  · exact absurd (List.cons.inj (List.cons.inj whole).2).2.symm
      (List.append_ne_nil_of_right_ne_nil _ (List.cons_ne_nil _ _))

/-- A numeral that another one begins with, behind it. -/
theorem processBase16_exact_sum : processBase16 "0X12 + 0x1".toList = "18 + 1".toList := by
  have text : lowerPrefix "0X12 + 0x1".toList = "0x12 + 0x1".toList := by decide
  have words : runs isAlphanumeric "0x12 + 0x1".toList = ["0x12".toList, [], [], "0x1".toList] := by decide
  have every : ∀ run ∈ runs isAlphanumeric "0x12 + 0x1".toList,
      run = [] ∨ IsHexNumeral run ∧ hexValue run ≤ Numerals.maxU64 := by
    rw [words]
    decide
  have separated : Separated (lowerPrefix "0X12 + 0x1".toList) := by
    rw [text]
    refine ⟨fun run member has => ?_, fun run member numeral => ?_⟩
    · rcases every run member with rfl | ⟨numeral, -⟩
      · obtain ⟨front, digit, back, -, same⟩ := has
        simp at same
      · exact numeral
    · rcases every run member with rfl | ⟨-, small⟩
      · exact absurd rfl numeral.2.1
      · exact small
  have apart : Apart (hexTokens (lowerPrefix "0X12 + 0x1".toList)) := by
    have tokens : hexTokens (lowerPrefix "0X12 + 0x1".toList) = ["0x12".toList, "0x1".toList] := by decide
    rw [tokens]
    exact apart_pair (by decide)
  rw [(processBase16_exact separated).mpr apart]
  decide

end Sysdarft.Coding
