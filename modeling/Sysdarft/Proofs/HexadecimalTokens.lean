import Mathlib.Data.List.Infix
import Mathlib.Data.List.TakeWhile
import Sysdarft.Proofs.HexadecimalNumerals

/-! # Hexadecimal numerals with letters behind them

A numeral may be followed by letters that are no digits, as long as it begins its word. The numerals are still replaced one
after the other wherever they occur, also in what an earlier one has become. An `X` behind a zero is written in lower case
whether it belongs to a numeral or not.
-/

namespace Sysdarft.Coding

open Words Regex

/-! ## Tokens -/

/-- The digits behind a prefix in front. -/
def frontDigits (run : List Char) : List Char := (run.drop 2).takeWhile Numerals.isHexadecimal

/-- A numeral stands in front: `0x` or `0X`, and a digit. -/
def StartsNumeral (run : List Char) : Prop := (run.take 2 = "0x".toList ∨ run.take 2 = "0X".toList) ∧ frontDigits run ≠ []

instance startsNumeralDecidable (run : List Char) : Decidable (StartsNumeral run) :=
  inferInstanceAs (Decidable ((run.take 2 = "0x".toList ∨ run.take 2 = "0X".toList) ∧ frontDigits run ≠ []))

/-- The numeral in front of a word, with its prefix in lower case. -/
def frontNumeral (run : List Char) : Option (List Char) :=
  if StartsNumeral run then some ('0' :: 'x' :: frontDigits run) else none

/-- What the word is with the numeral in front in decimal. -/
def decimalFront (run : List Char) : List Char :=
  if StartsNumeral run then
    Numerals.decimal (Numerals.digitsValue 16 (frontDigits run)) ++ (run.drop 2).dropWhile Numerals.isHexadecimal
  else run

/-- The numerals of an expression, in order. -/
def numerals (input : List Char) : List (List Char) := (runs isAlphanumeric input).filterMap frontNumeral

/-! ## Upper case -/

/-- An `X` behind a zero belongs to a numeral. -/
def PrefixesUsed (run : List Char) : Prop := ∀ tail ∈ run.tails, tail.take 2 = "0X".toList → StartsNumeral tail

/-- Numerals stand in front of the word only. -/
def FrontsOnly (run : List Char) : Prop := ∀ tail ∈ run.tails, StartsNumeral tail → tail = run

instance prefixesUsedDecidable (run : List Char) : Decidable (PrefixesUsed run) :=
  inferInstanceAs (Decidable (∀ tail ∈ run.tails, tail.take 2 = "0X".toList → StartsNumeral tail))

instance frontsOnlyDecidable (run : List Char) : Decidable (FrontsOnly run) :=
  inferInstanceAs (Decidable (∀ tail ∈ run.tails, StartsNumeral tail → tail = run))

section Prefixes

variable {run rest text : List Char} {sign : Char}

theorem startsNumeral_iff : StartsNumeral run ↔ ∃ sign rest, run = '0' :: sign :: rest ∧ (sign = 'x' ∨ sign = 'X') ∧
    ∃ digit ∈ rest.head?, Numerals.isHexadecimal digit = true := by
  have digits (rest : List Char) : rest.takeWhile Numerals.isHexadecimal ≠ [] ↔
      ∃ digit ∈ rest.head?, Numerals.isHexadecimal digit = true := by
    cases rest with
    | nil => simp
    | cons c rest => simp [List.takeWhile_cons]
  constructor
  · rintro ⟨signs, nonempty⟩
    match run, signs, nonempty with
    | [], signs, _ => exact absurd signs (by decide)
    | [c], signs, _ => simp at signs
    | c :: d :: rest, signs, nonempty =>
      rcases signs with same | same
      · obtain ⟨rfl, rfl⟩ : c = '0' ∧ d = 'x' := by simpa using same
        exact ⟨_, _, rfl, .inl rfl, (digits rest).mp nonempty⟩
      · obtain ⟨rfl, rfl⟩ : c = '0' ∧ d = 'X' := by simpa using same
        exact ⟨_, _, rfl, .inr rfl, (digits rest).mp nonempty⟩
  · rintro ⟨sign, rest, rfl, rfl | rfl, digit⟩
    · exact ⟨.inl rfl, (digits rest).mpr digit⟩
    · exact ⟨.inr rfl, (digits rest).mpr digit⟩

theorem FrontsOnly.front_eq_nil {front back : List Char} {digit : Char} (fronts : FrontsOnly run)
    (whole : run = front ++ '0' :: sign :: digit :: back) (either : sign = 'x' ∨ sign = 'X')
    (hexadecimal : Numerals.isHexadecimal digit = true) : front = [] := by
  have same := fronts _ ((List.mem_tails _ _).mpr ⟨front, whole.symm⟩)
    (startsNumeral_iff.mpr ⟨sign, _, rfl, either, digit, rfl, hexadecimal⟩)
  exact List.append_left_eq_self.mp (whole.symm.trans same.symm)

theorem PrefixesUsed.digit {front back : List Char} (used : PrefixesUsed run) (whole : run = front ++ '0' :: 'X' :: back) :
    ∃ digit ∈ back.head?, Numerals.isHexadecimal digit = true := by
  obtain ⟨sign, rest, same, -, digit⟩ :=
    startsNumeral_iff.mp (used _ ((List.mem_tails _ _).mpr ⟨front, whole.symm⟩) rfl)
  exact (List.cons.inj (List.cons.inj same).2).2 ▸ digit

theorem lowerPrefix_front (either : sign = 'x' ∨ sign = 'X') (rest : List Char) :
    lowerPrefix ('0' :: sign :: rest) = '0' :: 'x' :: lowerPrefix rest := by
  rcases either with rfl | rfl
  · have differs : ¬ "0X".toList <+: '0' :: 'x' :: rest := fun occurs =>
      absurd (List.cons_prefix_cons.mp (List.cons_prefix_cons.mp occurs).2).1 (by decide)
    have differs' : ¬ "0X".toList <+: 'x' :: rest := fun occurs =>
      absurd (List.cons_prefix_cons.mp occurs).1 (by decide)
    rw [lowerPrefix, lowerPrefix, Text.replaceAll, Text.replaceAll, if_neg (by decide), if_neg (by decide),
      Text.replaceFrom_keep differs, Text.replaceFrom_keep differs']
  · exact Text.replaceAll_occurrence "0X".toList "0x".toList (by decide) rest

theorem lowerPrefix_kept (absent : ¬ "0X".toList <:+: text) : lowerPrefix text = text :=
  Text.replaceAll_of_not_infix absent

theorem count_lowerPrefix_le (text : List Char) : (lowerPrefix text).count 'X' ≤ text.count 'X' :=
  Text.count_replaceAll_le (by decide) text

theorem count_lowerPrefix_lt (occurs : "0X".toList <:+: text) : (lowerPrefix text).count 'X' < text.count 'X' :=
  Text.count_replaceAll_lt (by decide) (by decide) occurs

theorem isRun_lowerPrefix (all : IsRun isAlphanumeric run) : IsRun isAlphanumeric (lowerPrefix run) := by
  intro c member
  rcases Text.mem_replaceAll member with kept | put
  · exact all c kept
  · exact (by decide : ∀ c ∈ "0x".toList, isAlphanumeric c = true) c put

/-- The number in front has no `X`. -/
theorem count_decimalFront (starts : StartsNumeral run) : (decimalFront run).count 'X' = (run.drop 2).count 'X' := by
  have digits : (frontDigits run).count 'X' = 0 := by
    refine List.count_eq_zero.mpr fun member => ?_
    have digit := List.mem_takeWhile_imp member
    exact absurd digit (by decide)
  have number (n : ℕ) : (Numerals.decimal n).count 'X' = 0 :=
    List.count_eq_zero.mpr fun member => absurd (Numerals.isDecimal_of_mem_decimal member) (by decide)
  have whole := congrArg (List.count 'X') (List.takeWhile_append_dropWhile (p := Numerals.isHexadecimal) (l := run.drop 2))
  rw [List.count_append] at whole
  rw [frontDigits] at digits
  rw [decimalFront, if_pos starts, List.count_append, number, ← whole, digits]

theorem count_lowerPrefix_front (run : List Char) : (lowerPrefix run).count 'X' ≤ (decimalFront run).count 'X' := by
  by_cases starts : StartsNumeral run
  · rw [count_decimalFront starts]
    obtain ⟨sign, rest, rfl, either, -⟩ := startsNumeral_iff.mp starts
    rw [lowerPrefix_front either, List.count_cons_of_ne (by decide), List.count_cons_of_ne (by decide)]
    exact count_lowerPrefix_le rest
  · rw [decimalFront, if_neg starts]
    exact count_lowerPrefix_le run

/-- An `X` that is put in lower case without need is missing. -/
theorem count_lowerPrefix_unused (unused : ¬ PrefixesUsed run) :
    (lowerPrefix run).count 'X' < (decimalFront run).count 'X' := by
  simp only [PrefixesUsed, not_forall] at unused
  obtain ⟨tail, member, sign, other⟩ := unused
  obtain ⟨front, whole⟩ := (List.mem_tails _ _).mp member
  obtain ⟨back, rfl⟩ : ∃ back, tail = '0' :: 'X' :: back :=
    ⟨tail.drop 2, (List.take_append_drop 2 tail).symm.trans (congrArg (· ++ tail.drop 2) sign)⟩
  have none : ¬ ∃ digit ∈ back.head?, Numerals.isHexadecimal digit = true := fun digit =>
    other (startsNumeral_iff.mpr ⟨_, _, rfl, .inr rfl, digit⟩)
  rw [eq_comm] at whole
  by_cases starts : StartsNumeral run
  · rw [count_decimalFront starts]
    obtain ⟨sign, rest, rfl, either, digit⟩ := startsNumeral_iff.mp starts
    rw [lowerPrefix_front either, List.count_cons_of_ne (by decide), List.count_cons_of_ne (by decide)]
    refine count_lowerPrefix_lt ?_
    match front, whole with
    | [], whole =>
      obtain ⟨-, rfl⟩ := List.cons.inj (List.cons.inj whole).2
      exact absurd digit none
    | [c], whole =>
      obtain ⟨rfl, -⟩ := List.cons.inj (List.cons.inj whole).2
      exact absurd either (by decide)
    | c :: d :: front, whole =>
      exact ⟨front, back, (List.cons.inj (List.cons.inj whole).2).2 ▸ by simp⟩
  · rw [decimalFront, if_neg starts]
    exact count_lowerPrefix_lt ⟨front, back, by simp [whole]⟩

/-- A word with a numeral in front, in lower case. -/
theorem fronted_lowerPrefix (fronts : FrontsOnly run) (used : PrefixesUsed run) (starts : StartsNumeral run) :
    Fronted (lowerPrefix run) ('0' :: 'x' :: frontDigits run) ((run.drop 2).dropWhile Numerals.isHexadecimal) := by
  have digits := starts.2
  obtain ⟨sign, rest, rfl, either, -⟩ := startsNumeral_iff.mp starts
  have away : ¬ "0X".toList <:+: rest := by
    rintro ⟨front, back, rfl⟩
    have whole : '0' :: sign :: (front ++ "0X".toList ++ back) = ('0' :: sign :: front) ++ '0' :: 'X' :: back := by simp
    obtain ⟨digit, head, hexadecimal⟩ := used.digit whole
    obtain ⟨more, rfl⟩ := List.head?_eq_some_iff.mp head
    exact absurd (fronts.front_eq_nil whole (.inr rfl) hexadecimal) (List.cons_ne_nil _ _)
  rw [lowerPrefix_front either, lowerPrefix_kept away]
  refine ⟨?_, isHexNumeral_iff.mpr ⟨_, digits, fun c member => List.mem_takeWhile_imp member, rfl⟩, fun c head => ?_, ?_⟩
  · rw [List.cons_append, List.cons_append, frontDigits]
    exact congrArg (fun rest => '0' :: 'x' :: rest) List.takeWhile_append_dropWhile.symm
  · have stops := List.head?_dropWhile_not Numerals.isHexadecimal (List.drop 2 ('0' :: sign :: rest))
    rw [Option.mem_def.mp head] at stops
    exact stops
  · rintro ⟨front, digit, back, hexadecimal, whole⟩
    cases front with
    | nil => exact absurd (List.cons.inj whole).1 (by decide)
    | cons c front =>
      have rest_eq : rest = front ++ '0' :: 'x' :: digit :: back := (List.cons.inj whole).2
      have all : '0' :: sign :: rest = ('0' :: sign :: front) ++ '0' :: 'x' :: digit :: back := by rw [rest_eq]; rfl
      exact absurd (fronts.front_eq_nil all (.inl rfl) hexadecimal) (List.cons_ne_nil _ _)

/-- Any other word. -/
theorem other_lowerPrefix (fronts : FrontsOnly run) (used : PrefixesUsed run) (other : ¬ StartsNumeral run) :
    lowerPrefix run = run ∧ ¬ HasHexNumeral run := by
  refine ⟨lowerPrefix_kept ?_, ?_⟩
  · rintro ⟨front, back, rfl⟩
    have whole : front ++ "0X".toList ++ back = front ++ '0' :: 'X' :: back := by simp
    obtain ⟨digit, head, hexadecimal⟩ := used.digit whole
    obtain ⟨more, rfl⟩ := List.head?_eq_some_iff.mp head
    obtain rfl := fronts.front_eq_nil whole (.inr rfl) hexadecimal
    exact other (startsNumeral_iff.mpr ⟨_, _, rfl, .inr rfl, digit, rfl, hexadecimal⟩)
  · rintro ⟨front, digit, back, hexadecimal, rfl⟩
    obtain rfl := fronts.front_eq_nil rfl (.inl rfl) hexadecimal
    exact other (startsNumeral_iff.mpr ⟨_, _, rfl, .inl rfl, digit, rfl, hexadecimal⟩)

end Prefixes

/-! ## The expression -/

/-- Numerals stand in front of words, and fit 64 bits. -/
structure Tokenwise (input : List Char) : Prop where
  fronts : ∀ run ∈ runs isAlphanumeric input, FrontsOnly run
  small : ∀ run ∈ runs isAlphanumeric input, StartsNumeral run →
    Numerals.digitsValue 16 (frontDigits run) ≤ Numerals.maxU64

/-- What `process_base16` takes for a numeral and puts for it disturbs no other word. -/
structure Untangled (input : List Char) : Prop where
  prefixes : ∀ run ∈ runs isAlphanumeric input, PrefixesUsed run
  apart : Apart (numerals input)
  tails : ∀ run ∈ runs isAlphanumeric input, StartsNumeral run → ∀ before after,
    numerals input = before ++ ('0' :: 'x' :: frontDigits run) :: after → '0' :: 'x' :: frontDigits run ∉ before →
      ∀ other ∈ after, ¬ other <:+: decimalFront run

section Expressions

variable {input text : List Char}

/-- In every word the numeral in front is found, and no other. -/
theorem hexTokens_fronts (each : ∀ run ∈ runs isAlphanumeric text,
      (∃ token tail, Fronted run token tail ∧ frontNumeral run = some token) ∨
        ¬ HasHexNumeral run ∧ frontNumeral run = none) : hexTokens text = numerals text := by
  have word {run rest : List Char} (inside : IsRun isAlphanumeric run) (stop : ∀ c ∈ rest.head?, isAlphanumeric c = false)
      (kind : (∃ token tail, Fronted run token tail ∧ frontNumeral run = some token) ∨
        ¬ HasHexNumeral run ∧ frontNumeral run = none) (start : Bool) :
      ∃ start', (iterateFrom base16Pattern 0 start (run ++ rest)).map Found.text =
        (frontNumeral run).toList ++ (iterateFrom base16Pattern 0 start' rest).map Found.text := by
    rcases kind with ⟨token, tail, fronted, front⟩ | ⟨none, front⟩
    · have suffix : tail <:+ run.tail := by
        obtain ⟨digits, -, -, rfl⟩ := isHexNumeral_iff.mp fronted.numeral
        rw [fronted.whole]
        exact List.suffix_append ('x' :: digits) tail
      have none : ¬ HasHexNumeral tail := by
        rintro ⟨before, digit, back, hexadecimal, rfl⟩
        obtain ⟨more, whole⟩ := suffix
        exact fronted.single ⟨more ++ before, digit, back, hexadecimal, by rw [← whole, List.append_assoc]⟩
      have rest_stop : ∀ c ∈ (tail ++ rest).head?, Numerals.isHexadecimal c = false := by
        intro c head
        cases tail with
        | nil => exact not_isHexadecimal_of_separates (stop c head)
        | cons d tail => exact fronted.stop c head
      obtain ⟨start', later⟩ :=
        @iterateFrom_other tail rest false none (inside.suffix (suffix.trans (List.tail_suffix run))) stop
      refine ⟨start', ?_⟩
      rw [front, fronted.whole, List.append_assoc, iterateFrom_token fronted.numeral rest_stop, later]
      rfl
    · obtain ⟨start', later⟩ := @iterateFrom_other run rest start none inside stop
      exact ⟨start', by rw [front, later]; rfl⟩
  have all (start : Bool) : (iterateFrom base16Pattern 0 start text).map Found.text = numerals text := by
    induction text using Words.induct isAlphanumeric generalizing start with
    | last run inside =>
      rw [runs_run inside] at each
      obtain ⟨start', found⟩ := @word run [] inside (fun c head => by cases head) (each run List.mem_cons_self) start
      rw [List.append_nil] at found
      rw [found, numerals, runs_run inside]
      cases front : frontNumeral run with
      | none => rw [List.filterMap_cons_none front]; rfl
      | some token => rw [List.filterMap_cons_some front]; rfl
    | next run separator rest inside separates ih =>
      rw [runs_cons inside separates] at each
      obtain ⟨here, later⟩ := List.forall_mem_cons.mp each
      obtain ⟨start', found⟩ :=
        @word run (separator :: rest) inside (fun c head => Option.some.inj head ▸ separates) here start
      rw [found, iterateFrom_separator separates, ih later, numerals, numerals, runs_cons inside separates]
      cases front : frontNumeral run with
      | none => rw [List.filterMap_cons_none front]; rfl
      | some token => rw [List.filterMap_cons_some front]; rfl
  exact all true

/-- The words in lower case. -/
theorem lowerPrefix_eq_mapRuns (input : List Char) : lowerPrefix input = mapRuns isAlphanumeric lowerPrefix input :=
  replaceAll_eq_mapRuns (by decide) input

theorem runs_lowerPrefix (input : List Char) :
    runs isAlphanumeric (lowerPrefix input) = (runs isAlphanumeric input).map lowerPrefix := by
  conv_lhs => rw [lowerPrefix_eq_mapRuns]
  exact runs_mapRuns fun run all => isRun_lowerPrefix all

theorem count_processBase16_le (input : List Char) : (processBase16 input).count 'X' ≤ (lowerPrefix input).count 'X' := by
  have replaced (entries : List (List Char × ℕ)) (text : List Char) :
      (entries.foldl (fun text entry => Text.replaceAll entry.1 (Numerals.decimal entry.2) text) text).count 'X' ≤
        text.count 'X' := by
    induction entries generalizing text with
    | nil => exact le_rfl
    | cons entry entries ih =>
      refine (ih _).trans (Text.count_replaceAll_le (fun inside => ?_) text)
      exact absurd (Numerals.isDecimal_of_mem_decimal inside) (by decide)
  exact replaced _ (lowerPrefix input)

/-- An `X` that is no part of a numeral is lost. -/
theorem processBase16_unused {run : List Char} (member : run ∈ runs isAlphanumeric input) (unused : ¬ PrefixesUsed run) :
    processBase16 input ≠ mapRuns isAlphanumeric decimalFront input := by
  have fewer : (lowerPrefix input).count 'X' < (mapRuns isAlphanumeric decimalFront input).count 'X' := by
    conv_lhs => rw [lowerPrefix_eq_mapRuns]
    exact count_mapRuns_lt count_lowerPrefix_front ⟨run, member, count_lowerPrefix_unused unused⟩
  intro same
  have most := (count_processBase16_le input).trans_lt fewer
  rw [same] at most
  exact Nat.lt_irrefl _ most

theorem frontNumeral_eq_some {run token : List Char} :
    frontNumeral run = some token ↔ StartsNumeral run ∧ token = '0' :: 'x' :: frontDigits run := by
  rw [frontNumeral]
  split_ifs with starts
  · rw [Option.some.injEq, and_iff_right starts, eq_comm]
  · exact iff_of_false nofun fun both => starts both.1

/-- A numeral of the expression is in front of one of its words. -/
theorem mem_numerals {token : List Char} : token ∈ numerals input ↔
    ∃ run ∈ runs isAlphanumeric input, StartsNumeral run ∧ token = '0' :: 'x' :: frontDigits run := by
  rw [numerals, List.mem_filterMap]
  exact exists_congr fun run => and_congr_right fun _ => frontNumeral_eq_some

theorem isHexNumeral_frontDigits {run : List Char} (starts : StartsNumeral run) :
    IsHexNumeral ('0' :: 'x' :: frontDigits run) :=
  isHexNumeral_iff.mpr ⟨_, starts.2, fun _ member => List.mem_takeWhile_imp member, rfl⟩

/-- The numerals that are found are those in front of the words. -/
theorem hexTokens_lowerPrefix (fronts : ∀ run ∈ runs isAlphanumeric input, FrontsOnly run)
    (used : ∀ run ∈ runs isAlphanumeric input, PrefixesUsed run) : hexTokens (lowerPrefix input) = numerals input := by
  have kinds (run : List Char) (member : run ∈ runs isAlphanumeric input) :
      frontNumeral (lowerPrefix run) = frontNumeral run := by
    by_cases starts : StartsNumeral run
    · have fronted := fronted_lowerPrefix (fronts run member) (used run member) starts
      have digits : frontDigits (lowerPrefix run) = frontDigits run := by
        rw [frontDigits, fronted.whole, List.cons_append, List.cons_append, List.drop_succ_cons, List.drop_succ_cons,
          List.drop_zero, frontDigits, List.takeWhile_append_dropWhile]
      have starts' : StartsNumeral (lowerPrefix run) := by
        refine ⟨.inl ?_, digits ▸ starts.2⟩
        rw [fronted.whole]
        rfl
      rw [frontNumeral, frontNumeral, if_pos starts, if_pos starts', digits]
    · rw [(other_lowerPrefix (fronts run member) (used run member) starts).1]
  rw [hexTokens_fronts, numerals, numerals, runs_lowerPrefix, List.filterMap_map]
  · exact List.filterMap_congr kinds
  · rw [runs_lowerPrefix]
    intro lower member
    obtain ⟨run, inside, rfl⟩ := List.mem_map.mp member
    rw [kinds run inside]
    by_cases starts : StartsNumeral run
    · exact .inl ⟨_, _, fronted_lowerPrefix (fronts run inside) (used run inside) starts,
        frontNumeral_eq_some.mpr ⟨starts, rfl⟩⟩
    · obtain ⟨same, none⟩ := other_lowerPrefix (fronts run inside) (used run inside) starts
      exact .inr ⟨by rwa [same], if_neg starts⟩

/-- Every numeral of the expression becomes its value and nothing else changes exactly when every `0X` is one of a numeral,
no numeral comes in front of another one that begins with it, and none is found in what an earlier one has become. -/
theorem processBase16_tokenwise_iff (tokenwise : Tokenwise input) :
    processBase16 input = mapRuns isAlphanumeric decimalFront input ↔ Untangled input := by
  by_cases used : ∀ run ∈ runs isAlphanumeric input, PrefixesUsed run
  · have tokens := hexTokens_lowerPrefix tokenwise.fronts used
    have each : ∀ token ∈ numerals input, IsHexNumeral token := by
      intro token member
      obtain ⟨run, -, starts, rfl⟩ := mem_numerals.mp member
      exact isHexNumeral_frontDigits starts
    have collected : processBase16 input = hexRun (numerals input) (lowerPrefix input) := by
      rw [processBase16_hexRun, tokens]
      rw [tokens]
      intro token member
      obtain ⟨run, inside, starts, rfl⟩ := mem_numerals.mp member
      exact ⟨isHexNumeral_frontDigits starts, tokenwise.small run inside starts⟩
    rw [collected, hexRun_eq_mapRuns each, lowerPrefix_eq_mapRuns, mapRuns_mapRuns _ fun run all => isRun_lowerPrefix all,
      mapRuns_inj (fun run all => isRun_hexRun (isRun_lowerPrefix all)) ?_]
    · have word (run : List Char) (inside : run ∈ runs isAlphanumeric input) (starts : StartsNumeral run) :=
        (fronted_lowerPrefix (tokenwise.fronts run inside) (used run inside) starts).hexRun_iff each
          (mem_numerals.mpr ⟨run, inside, starts, rfl⟩)
      have put {run : List Char} (starts : StartsNumeral run) : decimalFront run =
          Numerals.decimal (hexValue ('0' :: 'x' :: frontDigits run)) ++ (run.drop 2).dropWhile Numerals.isHexadecimal := by
        rw [decimalFront, if_pos starts]
        rfl
      constructor
      · intro right
        refine ⟨used, fun before other after same token member occurs => ?_,
          fun run inside starts before after same new => ?_⟩
        · obtain ⟨run, inside, starts, rfl⟩ := mem_numerals.mp member
          exact ((word run inside starts).mp ((right run inside).trans (put starts))).1 before other after same occurs
        · rw [put starts]
          exact ((word run inside starts).mp ((right run inside).trans (put starts))).2 before after same new
      · intro untangled run inside
        by_cases starts : StartsNumeral run
        · rw [put starts, word run inside starts]
          refine ⟨fun before other after same => ?_, fun before after same new => ?_⟩
          · exact untangled.apart before other after same _ (mem_numerals.mpr ⟨run, inside, starts, rfl⟩)
          · rw [← put starts]
            exact untangled.tails run inside starts before after same new
        · obtain ⟨same, none⟩ := other_lowerPrefix (tokenwise.fronts run inside) (used run inside) starts
          rw [decimalFront, if_neg starts, same]
          exact hexRun_kept each fun token member occurs => none ((each token member).occurs occurs)
    · intro run all
      rw [decimalFront]
      split_ifs
      · refine (isRun_decimal_alphanumeric _).append fun c member => all c ?_
        exact (List.drop_subset 2 run) ((List.dropWhile_suffix _).subset member)
      · exact all
  · refine iff_of_false (fun same => ?_) fun untangled => used untangled.prefixes
    simp only [not_forall] at used
    obtain ⟨run, member, unused⟩ := used
    exact processBase16_unused member unused same

end Expressions

/-- A numeral with a letter behind it, and one that it begins with. -/
theorem processBase16_tokenwise_letter : processBase16 "0X12g*(0x1)".toList = "18g*(1)".toList := by
  have words : runs isAlphanumeric "0X12g*(0x1)".toList = ["0X12g".toList, [], "0x1".toList, []] := by decide
  have tokens : numerals "0X12g*(0x1)".toList = ["0x12".toList, "0x1".toList] := by decide
  have tokenwise : Tokenwise "0X12g*(0x1)".toList := by
    constructor
    · rw [words]
      decide
    · rw [words]
      decide
  have untangled : Untangled "0X12g*(0x1)".toList := by
    refine ⟨?_, ?_, ?_⟩
    · rw [words]
      decide
    · rw [tokens]
      exact apart_pair (by decide)
    · rw [words, tokens]
      intro run inside starts before after whole _ other member
      have known : other ∈ ["0x12".toList, "0x1".toList] :=
        whole ▸ List.mem_append_right _ (List.mem_cons_of_mem _ member)
      exact (by decide : ∀ run ∈ ["0X12g".toList, [], "0x1".toList, []], StartsNumeral run →
        ∀ other ∈ ["0x12".toList, "0x1".toList], ¬ other <:+: decimalFront run) run inside starts other known
  rw [(processBase16_tokenwise_iff tokenwise).mpr untangled]
  decide

/-- A numeral that begins the next one is replaced in it. -/
theorem not_processBase16_tokenwise :
    Tokenwise "0x1+0x10".toList ∧ processBase16 "0x1+0x10".toList = "1+10".toList ∧
      mapRuns isAlphanumeric decimalFront "0x1+0x10".toList = "1+16".toList := by
  have words : runs isAlphanumeric "0x1+0x10".toList = ["0x1".toList, "0x10".toList] := by decide
  refine ⟨⟨?_, ?_⟩, by decide, by decide⟩
  · rw [words]
    decide
  · rw [words]
    decide

end Sysdarft.Coding
